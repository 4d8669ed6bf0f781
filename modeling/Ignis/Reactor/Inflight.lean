import Mathlib.Data.List.Count
import Ignis.Lib.Places
import Ignis.Reactor.CallIds

/-!
# What the counter counts

Two waiters of the loop treat `inflight == 0` as proof that no work is left, and `poll` returns at
once when it reads it.  The counter is touched apart from the channel, by every producer and by
`poll`, so what it counts has to be said for the states in between: an op or an event counts from
its increment on, which comes before its send, and a completion counts until the `poll` that took
it has subtracted its batch.

`Accounted` is that equation, and it is an invariant (`accounted_step`): each access moves a unit
from one place to another, or adds one to both sides.  From it follows that neither subtraction
takes more than there is, and that a completion in the channel keeps the counter above zero.
-/

namespace Ignis

/-- Submitted ops whose completion has not been sent. -/
def Dispatcher.unsent (d : Dispatcher.State) : ℕ :=
  d.submitted.countP fun id => Dispatcher.sentCount d id = 0

namespace Reactor

open StepSystem

/-- Ops and events that are counted and whose completion has not been sent: those the dispatcher
has, the reservations, and those in the hands of a call. -/
def State.unsent (s : State) : ℕ :=
  Dispatcher.unsent s.disp + s.reserved.length + (s.calls.map Call.unsent).sum

/-- Completions that have been sent and not yet subtracted by a `poll`. -/
def State.unaccounted (s : State) : ℕ := s.channel.length + (s.calls.map Call.drained).sum

def Accounted (s : State) : Prop := s.inflight = s.unsent + s.unaccounted

/-! ## Sums over the calls -/

lemma le_sum_map {α : Type} (f : α → ℕ) {l : List α} {k : ℕ} {c : α} (hk : l[k]? = some c) :
    f c ≤ (l.map f).sum :=
  List.single_le_sum (fun _ _ => Nat.zero_le _) _ (List.mem_map_of_mem (List.mem_of_getElem? hk))

/-! ## The dispatcher's share -/

lemma unsent_enqueue {d : Dispatcher.State} (h : Dispatcher.Inv d) {id : ℕ}
    (hid : id ∉ d.submitted) (op : Op) :
    Dispatcher.unsent (d.enqueue id op) = Dispatcher.unsent d + 1 := by
  have hzero : Dispatcher.sentCount d id = 0 := by
    have := h.conserved id
    rw [if_neg hid] at this
    omega
  have hsame : ∀ i, Dispatcher.sentCount (d.enqueue id op) i = Dispatcher.sentCount d i :=
    fun _ => rfl
  simp only [Dispatcher.unsent, hsame]
  simp [Dispatcher.State.enqueue, hzero]

/-- A completion the dispatcher or a task sends is the first for its op, so it takes one op out of
the unsent ones. -/
lemma unsent_tokio {d d' : Dispatcher.State} (h : Dispatcher.Inv d')
    (hsub : d'.submitted = d.submitted)
    (hnodup : d.submitted.Nodup)
    (hsent : d'.sent = d.sent ∨ ∃ c, d'.sent = d.sent ++ [c]) :
    Dispatcher.unsent d' + (d'.sent.drop d.sent.length).length = Dispatcher.unsent d := by
  rcases hsent with hsent | ⟨c, hsent⟩
  · have hsame : ∀ i, Dispatcher.sentCount d' i = Dispatcher.sentCount d i := by
      intro i
      simp only [Dispatcher.sentCount, hsent]
    simp [Dispatcher.unsent, hsub, hsame, hsent]
  · have hcount : ∀ i, Dispatcher.sentCount d' i
        = Dispatcher.sentCount d i + if c.id = i then 1 else 0 := by
      intro i
      simp [Dispatcher.sentCount, hsent, List.count_cons]
    have hmem : c.id ∈ d.submitted :=
      hsub ▸ mem_submitted_of_sent h (by simp [hsent])
    have hfirst : Dispatcher.sentCount d c.id = 0 := by
      have hc := h.conserved c.id
      rw [hcount, if_pos rfl] at hc
      split_ifs at hc <;> omega
    have hsplit : Dispatcher.unsent d' + d.submitted.count c.id = Dispatcher.unsent d := by
      simp only [Dispatcher.unsent, hsub]
      clear hmem hnodup hsub
      induction d.submitted with
      | nil => rfl
      | cons i rest ih =>
          simp only [List.countP_cons, List.count_cons, hcount, beq_iff_eq] at ih ⊢
          by_cases e : c.id = i
          · subst e
            simp only [hfirst, if_true]
            simp at ih ⊢
            omega
          · simp only [e, Ne.symm e, if_false, Nat.add_zero] at ih ⊢
            omega
    rw [List.count_eq_one_of_mem hnodup hmem] at hsplit
    simpa [hsent] using hsplit

/-! ## Steps -/

/-- The units an access takes out of the hands of its call, and those it puts into them. -/
def Access.spent : Access → ℕ
  | .send _ | .enqueue _ _ | .uncount => 1
  | .account n => n
  | _ => 0

def Access.gained : Access → ℕ
  | .count | .recv => 1
  | _ => 0

/-- What a call holds changes by what its access takes and gives. -/
lemma held_of_fits {s : State} {c c' : Call} {e : Access} (h : Fits s c c' e) :
    c'.unsent + c'.drained + e.spent = c.unsent + c.drained + e.gained := by
  cases e with
  | takeId use =>
      rcases h with ⟨op, -, rfl, rfl⟩ | ⟨-, rfl, rfl⟩ | ⟨o, -, rfl, rfl⟩ | ⟨a, req, -, rfl, rfl⟩
      all_goals rfl
  | count =>
      rcases h with ⟨i, op, rfl, rfl⟩ | ⟨i, o, rfl, rfl⟩ | ⟨i, req, rfl, rfl⟩ | ⟨i, rfl, rfl⟩
      all_goals rfl
  | load =>
      obtain ⟨-, -, hu, hd, -⟩ := h
      rw [hu, hd]
      rfl
  | send x =>
      rcases h with ⟨rfl, rfl⟩ | ⟨rfl, rfl⟩ | ⟨req, -, rfl, rfl⟩ | ⟨-, rfl, rfl⟩
      all_goals rfl
  | recv =>
      obtain ⟨x, rest, out, -, rfl, rfl | ⟨rfl, t, rfl | rfl⟩⟩ := h
      · simp [Call.unsent, Call.drained, Access.spent, Access.gained]
      all_goals rfl
  | remove i =>
      obtain ⟨-, -, hu, hd, -, ⟨code, msg, rfl⟩ | ⟨resp, rfl⟩ | rfl | rfl | rfl⟩ := h
      all_goals
        rw [hu, hd]
        rfl
  | insert i a =>
      obtain ⟨req, rfl, rfl⟩ := h
      rfl
  | uncount =>
      obtain ⟨i, rfl, rfl⟩ := h
      rfl
  | account n =>
      obtain ⟨out, rfl, rfl, rfl⟩ := h
      simp [Call.unsent, Call.drained, Access.spent, Access.gained]
  | reinsert i a =>
      obtain ⟨-, ⟨st, hd, rfl⟩, rfl⟩ := h
      rfl
  | startStream i st hd =>
      obtain ⟨-, rfl, rfl⟩ := h
      rfl
  | put i w =>
      obtain ⟨rfl, ⟨msg, -, rfl, -⟩ | ⟨code, msg, -, rfl⟩ | ⟨resp, -, rfl⟩ | ⟨-, rfl⟩⟩ := h
      all_goals rfl
  | enqueue i op | countReserved i | clear | addServer =>
      obtain ⟨rfl, rfl⟩ := h
      rfl

/-- The same change on the shared side: what the call gives up appears elsewhere, and the counter
follows.  A subtraction needs no truncation because the counter covers what the call holds. -/
lemma apply_accounted {s : State} {c c' : Call} {e : Access} (h : Ids s) (hf : Fits s c c' e)
    (hc : c.Knows s) (hcover : c.unsent + c.drained ≤ s.inflight) :
    (e.apply s).inflight + e.spent + Dispatcher.unsent s.disp + s.reserved.length
        + s.channel.length
      = s.inflight + e.gained + Dispatcher.unsent (e.apply s).disp + (e.apply s).reserved.length
        + (e.apply s).channel.length := by
  cases e with
  | enqueue i op =>
      obtain ⟨rfl, -⟩ := hf
      have := unsent_enqueue h.disp hc.2 op
      simp only [Access.apply, Access.spent, Access.gained, this]
      omega
  | uncount =>
      obtain ⟨i, rfl, -⟩ := hf
      have hpos : s.inflight ≠ 0 := by
        simp only [Call.unsent, Call.drained] at hcover
        omega
      simp only [Access.apply, fetchSubOne, hpos, if_false, Access.spent, Access.gained]
      omega
  | account n =>
      obtain ⟨out, rfl, rfl, -⟩ := hf
      simp only [Call.unsent, Call.drained] at hcover
      simp only [Access.apply, Access.spent, Access.gained]
      omega
  | recv =>
      obtain ⟨x, rest, out, hch, -⟩ := hf
      simp only [Access.apply, Access.spent, Access.gained, hch, List.tail_cons, List.length_cons]
      omega
  | send x =>
      simp only [Access.apply, Access.spent, Access.gained, List.length_append, List.length_cons,
        List.length_nil]
      omega
  | countReserved i =>
      simp only [Access.apply, Access.spent, Access.gained, List.length_cons]
      omega
  | _ => rfl

lemma unsent_add_unaccounted (s : State) :
    s.unsent + s.unaccounted = Dispatcher.unsent s.disp + s.reserved.length + s.channel.length
      + (s.calls.map fun c => c.unsent + c.drained).sum := by
  rw [State.unsent, State.unaccounted, List.sum_map_add]
  omega

/-- The counter covers what any single call holds. -/
lemma Accounted.covers {s : State} (h : Accounted s) {k : ℕ} {c : Call}
    (hk : s.calls[k]? = some c) : c.unsent + c.drained ≤ s.inflight := by
  have := le_sum_map (fun c : Call => c.unsent + c.drained) hk
  rw [Accounted, unsent_add_unaccounted] at h
  omega

lemma accounted_advance {s : State} {k : ℕ} {c c' : Call} {e : Access} (hids : Ids s)
    (h : Accounted s) (hk : s.calls[k]? = some c) (hn : c.next s = some (e, c')) :
    Accounted ((e.apply s).setCall k c') := by
  have hf := next_fits hn
  have hsum := Places.sum_map_set (fun c : Call => c.unsent + c.drained) c' hk
  have hheld := held_of_fits hf
  have hshared := apply_accounted hids hf (hids.calls c (List.mem_of_getElem? hk)) (h.covers hk)
  have hcalls : (e.apply s).calls = s.calls := by cases e <;> rfl
  rw [Accounted, unsent_add_unaccounted] at h ⊢
  simp only [State.setCall, hcalls] at hsum ⊢
  omega

theorem accounted_step {s s' : State} {a : Action} (hids : Ids s) (h : Accounted s)
    (ha : CompletesReserved s a) (hs : step s a = some s') : Accounted s' := by
  rcases step_cases hs with ⟨m, rfl, rfl⟩ | ⟨k, c, e, c', rfl, hk, hn, rfl⟩
    | ⟨k, c, c', rfl, hk, ht, rfl⟩ | ⟨b, d, rfl, hb, hd, rfl⟩ | ⟨id, rfl, rfl⟩ | ⟨rfl, rfl⟩
  · -- a reservation changes hands when `complete` is called; any other call begins with nothing
    rw [Accounted, unsent_add_unaccounted] at h ⊢
    cases m with
    | complete id o =>
        have hmem : id ∈ s.reserved := ha
        have := List.length_erase_of_mem hmem
        have := List.length_pos_of_mem hmem
        simp only [Method.start, Method.gives, List.map_append, List.map_cons, List.map_nil,
          List.sum_append, List.sum_cons, List.sum_nil, Call.unsent, Call.drained] at h ⊢
        omega
    | _ =>
        simp only [Method.start, Method.gives, List.map_append, List.map_cons, List.map_nil,
          List.sum_append, List.sum_cons, List.sum_nil, Call.unsent, Call.drained] at h ⊢
        omega
  · exact accounted_advance hids h hk hn
  · have hheld : c'.unsent + c'.drained = c.unsent + c.drained := by
      revert ht
      fun_cases Call.timedOut c
      all_goals
        intro ht
        cases ht
      all_goals rfl
    have hsum := Places.sum_map_set (fun c : Call => c.unsent + c.drained) c' hk
    rw [Accounted, unsent_add_unaccounted] at h ⊢
    simp only [State.setCall] at hsum ⊢
    omega
  · obtain ⟨-, hsub, hsent⟩ := Dispatcher.tokio_frame hb hd
    have := unsent_tokio (Dispatcher.inv_step hids.disp hd) hsub hids.submitted_nodup hsent
    rw [Accounted, unsent_add_unaccounted] at h ⊢
    simp only [List.length_append]
    omega
  · exact h
  · exact h

/-! ## Early returns -/

/-- The channel is the end of what has been sent, and for a `poll` that read zero the end of what
has been sent since. -/
structure Queued (s : State) : Prop where
  suffix : s.channel <:+ s.announced
  since : ∀ timeout seen, Call.pollServers timeout seen ∈ s.calls →
    s.channel.length + seen ≤ s.announced.length

/-- The channel grows only by what is sent. -/
lemma apply_suffix (s : State) (e : Access) (h : s.channel <:+ s.announced) :
    (e.apply s).channel <:+ (e.apply s).announced
      ∧ (e.apply s).channel.length + s.announced.length
        ≤ s.channel.length + (e.apply s).announced.length := by
  cases e with
  | send c => exact ⟨List.suffix_append_self_iff.mpr h, by simp [Access.apply]; omega⟩
  | recv => exact ⟨(List.tail_suffix _).trans h, by simp [Access.apply]⟩
  | _ => exact ⟨h, le_rfl⟩

/-- Only the load that reads zero begins an early return. -/
lemma pollServers_of_next {s : State} {c : Call} {e : Access} {timeout : Option ℕ} {seen : ℕ}
    (h : c.next s = some (e, .pollServers timeout seen)) :
    s.inflight = 0 ∧ seen = s.announced.length ∧ e = .load := by
  cases c with
  | poll t =>
      simp only [Call.next] at h
      split_ifs at h with hzero
      all_goals simp_all
  | streamEnd id code message | respondTake id resp | respondEnd id =>
      simp only [Call.next, takeAnswer] at h
      split_ifs at h <;> simp at h
  | respondStart id status headers =>
      simp only [Call.next, startOrRefuse] at h
      split at h
      · split_ifs at h <;> simp at h
      all_goals simp at h
  | pollSpin t | pollRecv t | pollDrain out =>
      simp only [Call.next, receive] at h
      split at h <;> simp at h
  | _ =>
      simp only [Call.next] at h
      try split at h
      all_goals simp at h

lemma queued_advance {s : State} {k : ℕ} {c c' : Call} {e : Access} (hacc : Accounted s)
    (h : Queued s) (hn : c.next s = some (e, c')) : Queued ((e.apply s).setCall k c') := by
  obtain ⟨hsuffix, hgrow⟩ := apply_suffix s e h.suffix
  refine ⟨hsuffix, fun timeout seen hm => ?_⟩
  have hcalls : (e.apply s).calls = s.calls := by cases e <;> rfl
  rcases List.mem_or_eq_of_mem_set hm with hm | rfl
  · have := h.since timeout seen (hcalls ▸ hm)
    simp only [State.setCall]
    omega
  · -- the counter has just read zero, so the channel is empty
    obtain ⟨hzero, rfl, rfl⟩ := pollServers_of_next hn
    rw [Accounted, State.unaccounted] at hacc
    simp only [State.setCall, Access.apply]
    omega

theorem queued_step {s s' : State} {a : Action} (hacc : Accounted s) (h : Queued s)
    (hs : step s a = some s') : Queued s' := by
  rcases step_cases hs with ⟨m, rfl, rfl⟩ | ⟨k, c, e, c', rfl, hk, hn, rfl⟩
    | ⟨k, c, c', rfl, hk, ht, rfl⟩ | ⟨b, d, rfl, hb, hd, rfl⟩ | ⟨id, rfl, rfl⟩ | ⟨rfl, rfl⟩
  · refine ⟨h.suffix, fun timeout seen hm => h.since timeout seen ?_⟩
    rcases List.mem_append.mp hm with hm | hm
    · exact hm
    · cases m <;> simp [Method.start] at hm
  · exact queued_advance hacc h hn
  · refine ⟨h.suffix, fun timeout seen hm => h.since timeout seen ?_⟩
    rcases List.mem_or_eq_of_mem_set hm with hm | rfl
    · exact hm
    · revert ht
      fun_cases Call.timedOut c
      all_goals
        intro ht
        cases ht
  · refine ⟨List.suffix_append_self_iff.mpr h.suffix, fun timeout seen hm => ?_⟩
    have := h.since timeout seen hm
    simp only [List.length_append]
    omega
  · exact ⟨h.suffix, h.since⟩
  · exact ⟨h.suffix, h.since⟩

/-! ## Runs -/

/-- The books, the counter and the channel together. -/
structure Inv (s : State) : Prop where
  ids : Ids s
  accounted : Accounted s
  queued : Queued s

theorem inv_init (spinUs : ℕ) : Inv (init spinUs) where
  ids := ids_init spinUs
  accounted := rfl
  queued := ⟨List.suffix_rfl, by simp [init]⟩

theorem inv_run {spinUs : ℕ} {as : List Action} {s : State}
    (hok : Along step CompletesReserved (init spinUs) as)
    (h : runFrom step (init spinUs) as = some s) : Inv s :=
  invariant_of_step step
    (fun _ _ _ hI ha hs => ⟨ids_step hI.ids ha hs, accounted_step hI.ids hI.accounted ha hs,
      queued_step hI.accounted hI.queued hs⟩)
    (inv_init spinUs) hok h

/-- **In-flight accounting.**  Under every interleaving of the accesses of any number of callers,
the dispatcher and its tasks, in which a reserved op is completed once, the counter is the number of
ops and events whose completion has not been sent plus the number of completions not yet accounted
for.  So `poll` never subtracts more than there is and the counter never wraps; a completion in the
channel keeps it above zero; and a `poll` that returns early looked while the channel was empty, so
that what it leaves there was sent after it had looked. -/
theorem inflight_accounted {spinUs : ℕ} {as : List Action} {s : State}
    (hok : Along step CompletesReserved (init spinUs) as)
    (h : runFrom step (init spinUs) as = some s) :
    s.inflight = s.unsent + s.unaccounted
      ∧ (∀ (k : ℕ) out, s.calls[k]? = some (.pollAccount out) → out.length ≤ s.inflight)
      ∧ (∀ (k : ℕ) id, s.calls[k]? = some (.submitDrop id) → 0 < s.inflight)
      ∧ (s.channel ≠ [] → 0 < s.inflight)
      ∧ (∀ (k : ℕ) timeout seen s', s.calls[k]? = some (.poll timeout) →
        step s (.advance k) = some s' → s'.calls[k]? = some (.pollServers timeout seen) →
        s.channel = [])
      ∧ ∀ (k : ℕ) timeout seen, s.calls[k]? = some (.pollServers timeout seen) →
        s.channel <:+ s.announced.drop seen := by
  obtain ⟨hids, hacc, hq⟩ := inv_run hok h
  have hpos : s.channel ≠ [] → 0 < s.inflight := by
    intro hne
    have := List.length_pos_iff.mpr hne
    rw [Accounted, State.unaccounted] at hacc
    omega
  refine ⟨hacc, fun k out hk => ?_, fun k id hk => ?_, hpos, fun k timeout seen s' hk hs hk' => ?_,
    fun k timeout seen hk => ?_⟩
  · have := hacc.covers hk
    simp only [Call.unsent, Call.drained] at this
    omega
  · have := hacc.covers hk
    simp only [Call.unsent, Call.drained] at this
    omega
  · by_contra hne
    have hnz := (hpos hne).ne'
    simp only [step, hk, Option.bind_eq_bind, Option.bind_some, Call.next, hnz, if_false,
      Option.some.injEq] at hs
    subst hs
    simp [State.setCall, Access.apply, List.getElem?_set_self (List.getElem?_eq_some_iff.mp hk).1]
      at hk'
  · have hle := hq.since timeout seen (List.mem_of_getElem? hk)
    refine List.suffix_of_suffix_length_le hq.suffix (List.drop_suffix _ _) ?_
    rw [List.length_drop]
    omega

/-- An op is reserved and completed, and a `poll` has taken its completion but not yet subtracted
it. -/
def reservedOpPolled : List Action :=
  [.call .reserveOp, .advance 0, .advance 0, .call (.complete 1 .ready), .advance 1,
    .call (.poll none), .advance 2, .advance 2, .advance 2, .advance 2]

/-- The drained batch still counts. -/
theorem inflight_accounted_drained :
    ∃ s, runFrom step (init 0) reservedOpPolled = some s ∧ s.channel = []
      ∧ s.calls[2]? = some (.pollAccount [⟨1, .ready⟩]) ∧ s.inflight = s.unsent + s.unaccounted
      ∧ [(⟨1, .ready⟩ : Completion)].length ≤ s.inflight := by
  have hok : Along step CompletesReserved (init 0) reservedOpPolled := by decide
  have hrun : runFrom step (init 0) reservedOpPolled = some _ := rfl
  have hfacts := inflight_accounted hok hrun
  exact ⟨_, hrun, rfl, rfl, hfacts.1, hfacts.2.1 2 _ rfl⟩

end Reactor

end Ignis
