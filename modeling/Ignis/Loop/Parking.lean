import Ignis.Reactor.Waiting

/-!
# Waits that are called off

A fiber waits for reactor ops in one of four ways: `Loop::parkOn()` waits for an op somebody has
submitted, and the C hooks `park_on`, `park_sleep` and `park_pollfds` submit the ops they wait for
and park inside `await_any` or `await_op`.  Each has two ways out.  A completion resumes the fiber;
`park_pollfds` then calls off the ops that did not win.  Or a cancellation or a deadline unwinds it,
and then nobody calls off anything: the op stays in flight until its timer fires or its descriptor
becomes ready, and the loop, which waits for `ignis_inflight()` to be zero, stays with it.

`submit` is one step here, and so is a poll; who calls them is the PHP thread alone.
-/

namespace Ignis

namespace Parking

open Dispatcher (Waits sentCount)

/-! ## Definitions -/

/-- How a fiber is parked. -/
inductive Path where
  /-- `Loop::parkOn()`. -/
  | awaitOp
  | parkOn
  | parkSleep
  | parkPollfds
  deriving DecidableEq, Repr

/-- The ops a path submits on its way out, resumed by the completion of `woke` or, with `none`,
unwound. -/
def Path.exit (ids : List ℕ) : Path → Option ℕ → List Op
  | .parkPollfds, some woke => (ids.filter fun id => id ≠ woke).map .cancelWatch
  -- `await_any(&ids)?` returns before the loop that cancels
  | .parkPollfds, none => []
  -- the `finally` of `Loop::parkOn()` only forgets the fiber
  | .awaitOp, _ => []
  | .parkOn, _ => []
  | .parkSleep, _ => []

/-- A parked fiber: the path, and the ops it waits for. -/
structure Park where
  path : Path
  ids : List ℕ
  deriving DecidableEq, Repr

/-- `libc::pollfd`, with the two events that are looked at. -/
structure PollFd where
  fd : ℤ
  pollIn : Bool
  pollOut : Bool
  deriving DecidableEq, Repr

/-- The ops of `park_pollfds`. -/
def pollfdOps (fds : List PollFd) (timeoutMs : ℤ) : List Op :=
  (fds.flatMap fun p =>
    if p.fd < 0 then []
    else
      (if p.pollIn then [.watch p.fd false] else []) ++
        (if p.pollOut then [.watch p.fd true] else [])) ++
    if 0 < timeoutMs then [.sleep (timeoutMs.toNat * 1000)] else []

structure State where
  disp : Dispatcher.State
  /-- Watches that were ready when `ignis_watch` looked; it completes them itself. -/
  instant : List ℕ
  inflight : ℕ
  /-- The completions that `poll` has taken. -/
  polled : ℕ
  /-- The parked fibers. -/
  parks : ℕ → Option Park

def init : State where
  disp := Dispatcher.init
  instant := []
  inflight := 0
  polled := 0
  parks := fun _ => none

/-- `Reactor::submit`. -/
def State.submit (s : State) (op : Op) : State :=
  { s with
    disp := { s.disp with
      nextId := s.disp.nextId + 1
      inbox := s.disp.inbox ++ [(s.disp.nextId, op)]
      submitted := s.disp.submitted ++ [s.disp.nextId] }
    inflight := s.inflight + 1 }

def State.submitAll (s : State) (ops : List Op) : State := ops.foldl State.submit s

/-- A hook submits its ops and parks the fiber on them. -/
def State.parkWith (s : State) (f : ℕ) (path : Path) (ops : List Op) : State :=
  let ids := List.range' s.disp.nextId ops.length
  let s := s.submitAll ops
  { s with parks := Function.update s.parks f (some ⟨path, ids⟩) }

/-- The fiber leaves its park. -/
def State.leave (s : State) (f : ℕ) (p : Park) (woke : Option ℕ) : State :=
  { s with parks := Function.update s.parks f none }.submitAll (p.path.exit p.ids woke)

/-- The completion of `id` has been sent. -/
def Announced (s : State) (id : ℕ) : Prop := sentCount s.disp id = 1 ∨ id ∈ s.instant

instance (s : State) (id : ℕ) : Decidable (Announced s id) :=
  inferInstanceAs (Decidable (_ ∨ _))

inductive Action where
  /-- User code submits an op, or calls one off. -/
  | submit (op : Op)
  /-- `ignis_watch` on a descriptor that is ready. -/
  | watchReady
  | awaitOp (f id : ℕ)
  | parkOn (f : ℕ) (fd : ℤ) (write : Bool)
  | parkSleep (f us : ℕ)
  | parkPollfds (f : ℕ) (fds : List PollFd) (timeoutMs : ℤ)
  /-- The completion of `id` resumes the fiber. -/
  | resume (f id : ℕ)
  /-- A cancellation or a deadline is thrown into the fiber. -/
  | unwind (f : ℕ)
  | poll
  | tokio (a : Dispatcher.Action)
  deriving DecidableEq, Repr

def step (s : State) : Action → Option State
  | .submit op => some (s.submit op)
  | .watchReady => some { s with
      disp := { s.disp with nextId := s.disp.nextId + 1 }
      instant := s.instant ++ [s.disp.nextId]
      inflight := s.inflight + 1 }
  | .awaitOp f id =>
      if s.parks f = none ∧ (id ∈ s.disp.submitted ∨ id ∈ s.instant) then
        some { s with parks := Function.update s.parks f (some ⟨.awaitOp, [id]⟩) }
      else none
  | .parkOn f fd write =>
      if s.parks f = none then some (s.parkWith f .parkOn [.watch fd write]) else none
  | .parkSleep f us =>
      if s.parks f = none then some (s.parkWith f .parkSleep [.sleep us]) else none
  | .parkPollfds f fds timeoutMs =>
      if s.parks f = none then
        if pollfdOps fds timeoutMs = [] then some s
        else some (s.parkWith f .parkPollfds (pollfdOps fds timeoutMs))
      else none
  | .resume f id =>
      match s.parks f with
      | some p => if id ∈ p.ids ∧ Announced s id then some (s.leave f p (some id)) else none
      | none => none
  | .unwind f =>
      match s.parks f with
      | some p => some (s.leave f p none)
      | none => none
  | .poll =>
      let n := s.disp.sent.length + s.instant.length - s.polled
      some { s with inflight := s.inflight - n, polled := s.polled + n }
  | .tokio a =>
      if a.isTokio then do
        let d ← Dispatcher.step s.disp a
        some { s with disp := d }
      else none

/-- The steps that need neither user code nor anything from outside. -/
def Action.internal : Action → Bool
  | .poll => true
  | .tokio a => a.internal
  | _ => false

/-! ## What every run keeps -/

structure Good (s : State) : Prop where
  inv : Dispatcher.Inv s.disp
  listed : Dispatcher.Listed s.disp
  nodup : s.disp.submitted.Nodup
  instant : ∀ id ∈ s.instant, id < s.disp.nextId ∧ id ∉ s.disp.submitted
  known : ∀ f p, s.parks f = some p → ∀ id ∈ p.ids, id ∈ s.disp.submitted ∨ id ∈ s.instant
  accounted : s.inflight + s.polled = s.disp.submitted.length + s.instant.length
  polled : s.polled ≤ s.disp.sent.length + s.instant.length

lemma good_init : Good init where
  inv := Dispatcher.inv_init
  listed := Dispatcher.listed_init
  nodup := List.nodup_nil
  instant := fun id h => by cases h
  known := fun f p h => by cases h
  accounted := rfl
  polled := Nat.zero_le _

lemma Good.submit {s : State} (h : Good s) (op : Op) : Good (s.submit op) where
  inv := Dispatcher.inv_submit h.inv op
  listed := h.listed
  nodup := by
    refine List.Nodup.append h.nodup (List.nodup_singleton _) ?_
    refine List.disjoint_singleton.mpr fun hmem => ?_
    exact absurd (h.inv.submitted_lt _ hmem) (lt_irrefl _)
  instant := by
    intro id hid
    obtain ⟨hlt, hnot⟩ := h.instant id hid
    refine ⟨Nat.lt_succ_of_lt hlt, fun hmem => ?_⟩
    rcases List.mem_append.mp hmem with hmem | hmem
    · exact hnot hmem
    · exact absurd (List.mem_singleton.mp hmem) (Nat.ne_of_lt hlt)
  known := fun f p hp id hid => (h.known f p hp id hid).imp_left fun hmem =>
    List.mem_append_left _ hmem
  accounted := by
    have := h.accounted
    simp only [State.submit, List.length_append, List.length_singleton]
    omega
  polled := h.polled

lemma Good.submitAll {s : State} (h : Good s) (ops : List Op) : Good (s.submitAll ops) := by
  induction ops generalizing s with
  | nil => exact h
  | cons op ops ih => exact ih (h.submit op)

/-- Only the parks change. -/
lemma Good.park {s : State} (h : Good s) {parks : ℕ → Option Park}
    (hknown : ∀ f p, parks f = some p → ∀ id ∈ p.ids, id ∈ s.disp.submitted ∨ id ∈ s.instant) :
    Good { s with parks := parks } :=
  { h with known := hknown }

lemma submitted_submitAll (s : State) (ops : List Op) :
    (s.submitAll ops).disp.submitted =
      s.disp.submitted ++ List.range' s.disp.nextId ops.length := by
  induction ops generalizing s with
  | nil => simp [State.submitAll]
  | cons op ops ih =>
      have hrest := ih (s.submit op)
      simp only [State.submitAll, List.foldl_cons] at hrest ⊢
      rw [hrest]
      simp [State.submit, List.range'_succ]

lemma Good.parkWith {s : State} (h : Good s) (f : ℕ) (path : Path) (ops : List Op) :
    Good (s.parkWith f path ops) := by
  refine (h.submitAll ops).park fun g p hp id hid => ?_
  by_cases hg : g = f
  · subst hg
    rw [Function.update_self] at hp
    obtain rfl := Option.some.inj hp
    rw [submitted_submitAll]
    exact Or.inl (List.mem_append_right _ hid)
  · rw [Function.update_of_ne hg] at hp
    exact (h.submitAll ops).known g p hp id hid

lemma Good.leave {s : State} (h : Good s) (f : ℕ) (p : Park) (woke : Option ℕ) :
    Good (s.leave f p woke) := by
  refine Good.submitAll (h.park fun g q hq id hid => ?_) _
  by_cases hg : g = f
  · rw [hg, Function.update_self] at hq
    cases hq
  · rw [Function.update_of_ne hg] at hq
    exact h.known g q hq id hid

lemma sent_nodup {s : State} (h : Good s) : (s.disp.sent.map Completion.id).Nodup := by
  refine List.nodup_iff_count_le_one.mpr fun id => ?_
  have hconserved := h.inv.conserved id
  unfold sentCount at hconserved
  split_ifs at hconserved <;> omega

/-- No more has been sent than was submitted. -/
lemma sent_length_le {s : State} (h : Good s) :
    s.disp.sent.length ≤ s.disp.submitted.length := by
  have hsub : s.disp.sent.map Completion.id ⊆ s.disp.submitted := by
    intro id hid
    obtain ⟨c, hc, rfl⟩ := List.mem_map.mp hid
    exact Reactor.mem_submitted_of_sent h.inv hc
  simpa using ((sent_nodup h).subperm hsub).length_le

theorem good_step {s s' : State} {a : Action} (h : Good s) (hs : step s a = some s') : Good s' := by
  cases a with
  | submit op =>
      cases hs
      exact h.submit op
  | watchReady =>
      cases hs
      have hfresh : s.disp.nextId ∉ s.disp.submitted := fun hmem =>
        absurd (h.inv.submitted_lt _ hmem) (lt_irrefl _)
      refine ⟨Dispatcher.inv_reserve h.inv, h.listed, h.nodup, fun id hid => ?_,
        fun f p hp id hid => (h.known f p hp id hid).imp_right (List.mem_append_left _), ?_, ?_⟩
      · rcases List.mem_append.mp hid with hid | hid
        · exact ⟨Nat.lt_succ_of_lt (h.instant id hid).1, (h.instant id hid).2⟩
        · rw [List.mem_singleton.mp hid]
          exact ⟨Nat.lt_succ_self _, hfresh⟩
      · have := h.accounted
        simp only [List.length_append, List.length_singleton]
        omega
      · have := h.polled
        simp only [List.length_append, List.length_singleton]
        omega
  | awaitOp f id =>
      simp only [step] at hs
      split_ifs at hs with hpark
      cases hs
      refine h.park fun g p hp i hi => ?_
      by_cases hg : g = f
      · subst hg
        rw [Function.update_self] at hp
        obtain rfl := Option.some.inj hp
        exact List.mem_singleton.mp hi ▸ hpark.2
      · rw [Function.update_of_ne hg] at hp
        exact h.known g p hp i hi
  | parkOn f fd write | parkSleep f us =>
      simp only [step] at hs
      split_ifs at hs
      cases hs
      exact h.parkWith f _ _
  | parkPollfds f fds timeoutMs =>
      simp only [step] at hs
      split_ifs at hs <;> cases hs
      · exact h
      · exact h.parkWith f _ _
  | resume f id =>
      simp only [step] at hs
      split at hs
      · split_ifs at hs
        cases hs
        exact h.leave f _ _
      · cases hs
  | unwind f =>
      simp only [step] at hs
      split at hs
      · cases hs
        exact h.leave f _ _
      · cases hs
  | poll =>
      cases hs
      have hlen := sent_length_le h
      have hacc := h.accounted
      have hpolled := h.polled
      refine { h with accounted := ?_, polled := ?_ }
      · simp only
        omega
      · simp only
        omega
  | tokio a =>
      simp only [step] at hs
      split_ifs at hs with ha
      simp only [Option.bind_eq_bind, Option.bind_eq_some_iff, Option.some.injEq] at hs
      obtain ⟨d, hd, rfl⟩ := hs
      obtain ⟨hnext, hsub, hsent⟩ := Dispatcher.tokio_frame ha hd
      refine ⟨Dispatcher.inv_step h.inv hd, Dispatcher.listed_step h.listed hd, hsub ▸ h.nodup,
        fun id hid => ?_, fun f p hp id hid => ?_, ?_, ?_⟩
      · rw [hnext, hsub]
        exact h.instant id hid
      · rw [hsub]
        exact h.known f p hp id hid
      · rw [hsub]
        exact h.accounted
      · have := h.polled
        rcases hsent with hsent | ⟨c, hsent⟩ <;> simp only [hsent, List.length_append] <;> omega

/-! ## Unwinding -/

/-- None of the four paths submits anything when it is unwound. -/
lemma Path.exit_none (ids : List ℕ) (path : Path) : path.exit ids none = [] := by
  cases path <;> rfl

/-- A run of the dispatcher and its tasks. -/
lemma runFrom_tokio {s : State} {as : List Dispatcher.Action} {d : Dispatcher.State}
    (has : ∀ a ∈ as, a.internal = true)
    (h : StepSystem.runFrom Dispatcher.step s.disp as = some d) :
    StepSystem.runFrom step s (as.map .tokio) = some { s with disp := d } := by
  have hlift : ∀ (t : State) (e : Dispatcher.State) (a : Dispatcher.Action) (e' : Dispatcher.State),
      t = { s with disp := e } → a.internal = true → Dispatcher.step e a = some e' →
      ∃ t', step t (.tokio a) = some t' ∧ t' = { s with disp := e' } := by
    rintro _ e a e' rfl ha he
    have htokio : a.isTokio = true := by cases a <;> first | rfl | cases ha
    exact ⟨_, by simp [step, htokio, he], rfl⟩
  obtain ⟨t, ht, rfl⟩ := StepSystem.runFrom_lift Dispatcher.step Action.tokio hlift rfl has h
  exact ht

/-- An op that waits keeps waiting as long as only internal steps are taken. -/
lemma waits_internal {s s' : State} {a : Action} {id : ℕ} (h : Good s) (ha : a.internal = true)
    (hw : Waits s.disp id = true) (hs : step s a = some s') : Waits s'.disp id = true := by
  cases a with
  | poll =>
      cases hs
      exact hw
  | tokio b =>
      simp only [step] at hs
      split_ifs at hs
      simp only [Option.bind_eq_bind, Option.bind_eq_some_iff, Option.some.injEq] at hs
      obtain ⟨d, hd, rfl⟩ := hs
      have hlt := h.inv.submitted_lt id (Dispatcher.unsent_of_waits h.inv hw).1
      have hends : b.ends id = false := by cases b <;> first | rfl | cases ha
      rw [Dispatcher.waits_step h.inv h.listed hlt hends hd]
      exact hw
  | _ => cases ha

lemma waits_internal_run {s t : State} {bs : List Action} {id : ℕ} (h : Good s)
    (hw : Waits s.disp id = true) (hbs : ∀ b ∈ bs, b.internal = true)
    (ht : StepSystem.runFrom step s bs = some t) : Good t ∧ Waits t.disp id = true := by
  refine StepSystem.invariant_of_step step (I := fun u => Good u ∧ Waits u.disp id = true) ?_
    ⟨h, hw⟩ (StepSystem.along_of_forall step hbs s) ht
  exact fun u a u' hu ha hstep => ⟨good_step hu.1 hstep, waits_internal hu.1 ha hu.2 hstep⟩

/-- An op that waits has not been announced. -/
lemma not_announced_of_waits {s : State} {id : ℕ} (h : Good s) (hw : Waits s.disp id = true) :
    ¬ Announced s id := by
  obtain ⟨hsub, hsent⟩ := Dispatcher.unsent_of_waits h.inv hw
  rintro (hone | hinstant)
  · omega
  · exact (h.instant id hinstant).2 hsub

/-- An op that waits keeps the counter above zero, whatever has been polled. -/
lemma inflight_pos_of_waits {s : State} {id : ℕ} (h : Good s) (hw : Waits s.disp id = true) :
    0 < s.inflight := by
  obtain ⟨hmem, hunsent⟩ := Dispatcher.unsent_of_waits h.inv hw
  have hsub : id :: s.disp.sent.map Completion.id ⊆ s.disp.submitted := by
    intro i hi
    rcases List.mem_cons.mp hi with rfl | hi
    · exact hmem
    · obtain ⟨c, hc, rfl⟩ := List.mem_map.mp hi
      exact Reactor.mem_submitted_of_sent h.inv hc
  have hnodup : (id :: s.disp.sent.map Completion.id).Nodup :=
    List.nodup_cons.mpr ⟨List.count_eq_zero.mp hunsent, sent_nodup h⟩
  have hlen := (hnodup.subperm hsub).length_le
  have hacc := h.accounted
  have hpolled := h.polled
  simp only [List.length_cons, List.length_map] at hlen
  omega

/-- Once every op has been announced, one poll brings the counter to zero. -/
lemma inflight_poll {s : State} (h : Good s)
    (hall : ∀ id ∈ s.disp.submitted, sentCount s.disp id = 1) :
    ∃ t, step s .poll = some t ∧ t.inflight = 0 := by
  have hsub : s.disp.submitted ⊆ s.disp.sent.map Completion.id := by
    intro id hid
    refine List.count_pos_iff.mp ?_
    have := hall id hid
    unfold sentCount at this
    omega
  have hlen : s.disp.submitted.length ≤ s.disp.sent.length := by
    simpa using (h.nodup.subperm hsub).length_le
  refine ⟨_, rfl, ?_⟩
  have hacc := h.accounted
  simp only
  omega

/-- **When an unwound wait leaves nothing in flight.**  After any run, let a cancellation or a
deadline unwind a parked fiber, on whichever path it is parked and for however many ops.  The
reactor completes them all without a timer firing, a descriptor becoming ready or further user code,
and if no other op waits the counter of ops in flight comes down to zero, exactly when none of the
fiber's ops waits: each has had its event, or has been called off, before the fiber is unwound. -/
theorem unwound_wait_settles_iff (as : List Action) (s s' : State) (f : ℕ) (p : Park)
    (hrun : StepSystem.runFrom step init as = some s) (hpark : s.parks f = some p)
    (h : step s (.unwind f) = some s') :
    ((∃ bs t, (∀ b ∈ bs, b.internal = true) ∧ StepSystem.runFrom step s' bs = some t ∧
        ∀ id ∈ p.ids, Announced t id) ∧
      ((∀ id ∈ s'.disp.submitted, id ∉ p.ids → Waits s'.disp id = false) →
        ∃ bs t, (∀ b ∈ bs, b.internal = true) ∧ StepSystem.runFrom step s' bs = some t ∧
          t.inflight = 0)) ↔
      ∀ id ∈ p.ids, Waits s.disp id = false := by
  have hgood : Good s := StepSystem.invariant_of_run step (fun _ _ _ => good_step) good_init hrun
  have hgood' : Good s' := good_step hgood h
  have hleave : s' = { s with parks := Function.update s.parks f none } := by
    simp only [step, hpark, Option.some.injEq] at h
    rw [← h, State.leave, Path.exit_none]
    rfl
  have hdisp : s'.disp = s.disp := by rw [hleave]
  have hmap : ∀ {cs : List Dispatcher.Action}, (∀ a ∈ cs, a.internal = true) →
      ∀ b ∈ cs.map Action.tokio, b.internal = true := by
    intro cs hcs b hb
    obtain ⟨a, ha, rfl⟩ := List.mem_map.mp hb
    exact hcs a ha
  constructor
  · rintro ⟨⟨bs, t, hbs, ht, hall⟩, -⟩ id hid
    by_contra hw
    have hwaits : Waits s'.disp id = true := by simpa [hdisp] using hw
    obtain ⟨hgoodt, hwaitst⟩ := waits_internal_run hgood' hwaits hbs ht
    exact not_announced_of_waits hgoodt hwaitst (hall id hid)
  · intro hw
    have hsettle : ∀ ids : List ℕ, (∀ id ∈ ids, id ∈ s'.disp.submitted) →
        (∀ id ∈ ids, Waits s'.disp id = false) →
        ∃ (cs : List Dispatcher.Action) (d : Dispatcher.State), (∀ a ∈ cs, a.internal = true) ∧
          StepSystem.runFrom step s' (cs.map .tokio) = some { s' with disp := d } ∧
          d.submitted = s'.disp.submitted ∧ ∀ id ∈ ids, sentCount d id = 1 := by
      intro ids hsub hids
      obtain ⟨cs, d, hcs, hd, hsubmitted, hsent⟩ :=
        Dispatcher.settles_of_not_waits ⟨hgood'.inv, hgood'.listed, hsub, hids⟩
      exact ⟨cs, d, hcs, runFrom_tokio hcs hd, hsubmitted, hsent⟩
    refine ⟨?_, fun hother => ?_⟩
    · obtain ⟨cs, d, hcs, hrun', -, hsent⟩ := hsettle
        (p.ids.filter fun id => id ∈ s'.disp.submitted)
        (fun id hid => by simpa using (List.mem_filter.mp hid).2)
        fun id hid => hdisp ▸ hw id (List.mem_filter.mp hid).1
      refine ⟨cs.map .tokio, _, hmap hcs, hrun', fun id hid => ?_⟩
      rcases hgood.known f p hpark id hid with hsub | hinstant
      · exact Or.inl (hsent id (List.mem_filter.mpr ⟨hid, by simpa [hdisp] using hsub⟩))
      · exact Or.inr (by rw [hleave]; exact hinstant)
    · obtain ⟨cs, d, hcs, hrun', hsubmitted, hsent⟩ := hsettle s'.disp.submitted (fun _ hid => hid)
        fun id hid => by
          by_cases hmem : id ∈ p.ids
          · exact hdisp ▸ hw id hmem
          · exact hother id hid hmem
      have hgoodt : Good { s' with disp := d } :=
        StepSystem.invariant_of_run step (fun _ _ _ => good_step) hgood' hrun'
      obtain ⟨t, ht, hzero⟩ := inflight_poll hgoodt fun id hid => hsent id (hsubmitted ▸ hid)
      refine ⟨cs.map .tokio ++ [.poll], t, fun b hb => ?_, ?_, hzero⟩
      · rcases List.mem_append.mp hb with hb | hb
        · exact hmap hcs b hb
        · rw [List.mem_singleton.mp hb]
          rfl
      · exact StepSystem.runFrom_append step hrun' ((StepSystem.runFrom_cons step).mpr ⟨t, ht, rfl⟩)

/-- A fiber polls descriptor 5 with a timeout, and both the descriptor and the timer have had their
events when it is unwound. -/
theorem unwound_wait_settles_late :
    ∃ s s', StepSystem.runFrom step init
        [.parkPollfds 1 [⟨5, true, false⟩] 100, .tokio .dispatch, .tokio .dispatch,
          .tokio .dispatch, .tokio .dispatch, .tokio (.wake 1 .ready),
          .tokio (.wake 2 (.slept 0))] = some s ∧
      s.parks 1 = some ⟨.parkPollfds, [1, 2]⟩ ∧ step s (.unwind 1) = some s' ∧
      (∃ bs t, (∀ b ∈ bs, b.internal = true) ∧ StepSystem.runFrom step s' bs = some t ∧
        ∀ id ∈ [1, 2], Announced t id) ∧
      ((∀ id ∈ s'.disp.submitted, id ∉ [1, 2] → Waits s'.disp id = false) →
        ∃ bs t, (∀ b ∈ bs, b.internal = true) ∧ StepSystem.runFrom step s' bs = some t ∧
          t.inflight = 0) := by
  refine ⟨_, _, rfl, rfl, rfl, ?_⟩
  exact (unwound_wait_settles_iff
    [.parkPollfds 1 [⟨5, true, false⟩] 100, .tokio .dispatch, .tokio .dispatch, .tokio .dispatch,
      .tokio .dispatch, .tokio (.wake 1 .ready), .tokio (.wake 2 (.slept 0))]
    _ _ 1 ⟨.parkPollfds, [1, 2]⟩ rfl rfl rfl).mpr (by decide)

/-- A fiber waits for a socket on which nothing arrives, and is cancelled.  The watch stays where it
is: until the socket becomes ready after all, or somebody else calls the watch off, it is not
announced and the counter does not come down to zero. -/
theorem unwound_watch_stays_in_flight :
    ∃ s s', StepSystem.runFrom step init
        [.parkOn 1 5 false, .tokio .dispatch, .tokio .dispatch] = some s ∧
      s.parks 1 = some ⟨.parkOn, [1]⟩ ∧ step s (.unwind 1) = some s' ∧
      ∀ bs t, (∀ b ∈ bs, b.internal = true) → StepSystem.runFrom step s' bs = some t →
        ¬ Announced t 1 ∧ t.inflight ≠ 0 := by
  refine ⟨_, _, rfl, rfl, rfl, fun bs t hbs ht => ?_⟩
  have hrun : StepSystem.runFrom step init
      [.parkOn 1 5 false, .tokio .dispatch, .tokio .dispatch, .unwind 1] = some _ := rfl
  have hgood := StepSystem.invariant_of_run step (fun _ _ _ => good_step) good_init hrun
  obtain ⟨hgoodt, hwaits⟩ := waits_internal_run hgood (show Waits _ 1 = true by decide) hbs ht
  exact ⟨not_announced_of_waits hgoodt hwaits, Nat.ne_of_gt (inflight_pos_of_waits hgoodt hwaits)⟩

end Parking

end Ignis
