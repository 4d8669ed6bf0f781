import Ignis.Lib.OrdMap
import Ignis.Lib.StepSystem
import Ignis.Reactor.Dispatcher

/-!
# The registry of parked fibers

A fiber that waits inside an internal call is keyed by the ids of the ops it waits for: `PARKED`
maps each id to the fiber, and `RESULTS` carries an outcome from `ignis_poll` to the fiber it
resumes.  Several ids may lead to one fiber (`await_any`), a resumed fiber runs on at once, inside
`resume_parked`, and may park again before `resume_parked` returns, and `ignis_cancel_parked_any`
takes only one of the fiber's ids out before it throws.

A run is a list of actions of the thread: fibers are started, suspended and resumed on a stack of
resumers, call `await_op` and `await_any`, and completions and cancellations arrive in any order.
The parks are numbered: `State.parks` says what a parked fiber runs when it is resumed, and
`State.resumes` and `State.returned`, which no step reads, count how often that happened and what it
returned.

The invariant (`Registry.Inv`) says that an id is in `PARKED` exactly while the park that owns it is
waiting, and that `RESULTS` is empty between two actions.
-/

namespace Ignis

namespace Registry

/-! ## Definitions -/

/-- The call a fiber is parked in. -/
inductive Await where
  | awaitOp (id : ℕ)
  | awaitAny (ids : List ℕ)
  deriving DecidableEq, Repr

def Await.ids : Await → List ℕ
  | .awaitOp id => [id]
  | .awaitAny ids => ids

/-- What a call returned.  `await_op` returns the outcome alone; the id is its argument. -/
structure Return where
  /-- The fiber woke with `EG(exception)` set. -/
  unwound : Bool
  value : Option (ℕ × Outcome)
  deriving DecidableEq, Repr

/-- A call that suspended its fiber. -/
structure Park where
  fiber : ℕ
  call : Await
  deriving DecidableEq, Repr

/-- `PARKED` and `RESULTS`. -/
structure Tables where
  parked : OrdMap ℕ ℕ
  results : OrdMap ℕ Outcome

/-- `await_op` after `zend_fiber_suspend`. -/
def awaitOpResumed (t : Tables) (id : ℕ) (exception : Bool) : Tables × Option (ℕ × Outcome) :=
  if exception then
    ({ parked := t.parked.unset id, results := t.results.unset id }, none)
  else
    ({ t with results := t.results.unset id }, (t.results.get? id).map fun o => (id, o))

/-- The loop at the end of `await_any`: the first of the ids that has an outcome. -/
def takeFirst (results : OrdMap ℕ Outcome) : List ℕ → OrdMap ℕ Outcome × Option (ℕ × Outcome)
  | [] => (results, none)
  | id :: ids =>
      match results.get? id with
      | some o => (results.unset id, some (id, o))
      | none => takeFirst results ids

/-- `await_any` after `zend_fiber_suspend`. -/
def awaitAnyResumed (t : Tables) (ids : List ℕ) (exception : Bool) :
    Tables × Option (ℕ × Outcome) :=
  let parked := ids.foldl OrdMap.unset t.parked
  if exception then
    ({ parked := parked, results := ids.foldl OrdMap.unset t.results }, none)
  else
    ({ parked := parked, results := (takeFirst t.results ids).1 }, (takeFirst t.results ids).2)

def Await.resumed (t : Tables) (exception : Bool) : Await → Tables × Option (ℕ × Outcome)
  | .awaitOp id => awaitOpResumed t id exception
  | .awaitAny ids => awaitAnyResumed t ids exception

/-- A fiber object, by its address. -/
inductive Status where
  /-- Not started, or finished; the address may be given to a new fiber. -/
  | gone
  /-- On the stack of resumers. -/
  | running
  /-- Suspended by `Fiber::suspend()`. -/
  | suspended
  /-- Suspended in the call of the park with this number. -/
  | parked (n : ℕ)
  deriving DecidableEq, Repr

structure State where
  tables : Tables
  status : ℕ → Status
  /-- The fibers that run or wait for one they resumed, innermost first; its head is
  `EG(active_fiber)`, and `[]` is `{main}`. -/
  stack : List ℕ
  parks : ℕ → Option Park
  nextPark : ℕ
  /-- How often the fiber of a park was resumed there, and what the call returned. -/
  resumes : ℕ → ℕ
  returned : ℕ → List Return
  /-- The ids of all parks so far. -/
  used : List ℕ
  /-- The completions that `resume_parked` was called with. -/
  delivered : List (ℕ × Outcome)
  /-- The completions that `ignis_poll` put into the array it returns. -/
  handed : List (ℕ × Outcome)
  /-- Resumes of a fiber that was not suspended in a park. -/
  strays : ℕ

def init : State where
  tables := { parked := ∅, results := ∅ }
  status := fun _ => .gone
  stack := []
  parks := fun _ => none
  nextPark := 0
  resumes := fun _ => 0
  returned := fun _ => []
  used := []
  delivered := []
  handed := []
  strays := 0

/-- `zend_fiber_resume` and `zend_fiber_resume_exception` on a parked fiber, which runs on to the
end of its call.  `exception` is whether `EG(exception)` is set when it wakes: `resume_parked`
passes none of its own, but one may be pending from the fiber `ignis_poll` resumed before. -/
def resumeFiber (s : State) (fiber : ℕ) (exception : Bool) : State :=
  match s.status fiber with
  | .parked n =>
      match s.parks n with
      | some p =>
          let woken := p.call.resumed s.tables exception
          { s with
            tables := woken.1
            status := Function.update s.status fiber .running
            stack := fiber :: s.stack
            resumes := Function.update s.resumes n (s.resumes n + 1)
            returned :=
              Function.update s.returned n (s.returned n ++ [⟨exception, woken.2⟩]) }
      | none => { s with strays := s.strays + 1 }
  | _ => { s with strays := s.strays + 1 }

/-- `resume_parked`. -/
def resumeParked (s : State) (id : ℕ) (outcome : Outcome) (exception : Bool) : State × Bool :=
  let s := { s with delivered := s.delivered ++ [(id, outcome)] }
  match s.tables.parked.get? id with
  | none => (s, false)
  | some fiber =>
      let tables : Tables :=
        { parked := s.tables.parked.unset id, results := s.tables.results.set id outcome }
      (resumeFiber { s with tables := tables } fiber exception, true)

/-- `is_parked`. -/
def isParked (s : State) (id : ℕ) : Bool := s.tables.parked.has id

/-- One completion in the loop of `zif_ignis_poll`. -/
def pollOne (s : State) (c : Completion) (exception : Bool) : State :=
  match c.outcome with
  | .error _ => (resumeParked s c.id c.outcome exception).1
  | .slept _ | .ready =>
      if isParked s c.id then (resumeParked s c.id c.outcome exception).1
      else { s with handed := s.handed ++ [(c.id, c.outcome)] }
  | _ => { s with handed := s.handed ++ [(c.id, c.outcome)] }

/-- `ignis_cancel_parked_any`.  `key` is the entry of the fiber that the iteration of the hash map
meets first. -/
def cancelParkedAny (s : State) (fiber key : ℕ) : State × Bool :=
  if s.tables.parked.get? key = some fiber then
    let tables := { s.tables with parked := s.tables.parked.unset key }
    (resumeFiber { s with tables := tables } fiber true, true)
  else (s, false)

/-- `await_op` and `await_any` up to `zend_fiber_suspend`; `blocked` is
`zend_fiber_switch_blocked()`.  A call that cannot park returns `None` and changes nothing. -/
def await (s : State) (call : Await) (blocked : Bool) : State :=
  match s.stack with
  | [] => s
  | fiber :: resumers =>
      if blocked || call.ids.isEmpty then s
      else
        { s with
          tables :=
            { s.tables with
              parked := call.ids.foldl (fun parked id => parked.set id fiber) s.tables.parked }
          status := Function.update s.status fiber (.parked s.nextPark)
          stack := resumers
          parks := Function.update s.parks s.nextPark (some ⟨fiber, call⟩)
          nextPark := s.nextPark + 1
          used := s.used ++ call.ids }

inductive Action where
  | start (fiber : ℕ)
  /-- `Fiber::suspend()` in the running fiber. -/
  | suspend
  /-- `Fiber::resume()` of a fiber that is suspended by `Fiber::suspend()`. -/
  | resume (fiber : ℕ)
  | finish
  | await (call : Await) (blocked : Bool)
  /-- `resume_parked`, whoever calls it. -/
  | deliver (id : ℕ) (outcome : Outcome) (exception : Bool)
  /-- `ignis_poll` at one of its completions. -/
  | poll (c : Completion) (exception : Bool)
  | cancel (fiber key : ℕ)
  /-- A parked fiber is destroyed, or `Fiber::throw()` reaches it: it wakes into the unwind. -/
  | unwind (fiber : ℕ)
  deriving Repr

/-- The ids of a call are pairwise distinct and fresh: `submit` hands each out once. -/
def Fresh (s : State) (call : Await) : Prop :=
  call.ids.Nodup ∧ ∀ id ∈ call.ids, id ∉ s.used

instance (s : State) (call : Await) : Decidable (Fresh s call) := by
  unfold Fresh
  infer_instance

/-- No entry of `PARKED` leads to the fiber, or the key is one that does. -/
def Chooses (s : State) (fiber key : ℕ) : Prop :=
  s.tables.parked.get? key = some fiber ∨
    ∀ k ∈ s.tables.parked.keys, s.tables.parked.get? k ≠ some fiber

instance (s : State) (fiber key : ℕ) : Decidable (Chooses s fiber key) := by
  unfold Chooses
  infer_instance

def step (s : State) : Action → Option State
  | .start fiber =>
      if s.status fiber = .gone then
        some { s with
          status := Function.update s.status fiber .running, stack := fiber :: s.stack }
      else none
  | .suspend =>
      match s.stack with
      | [] => none
      | fiber :: resumers =>
          some { s with
            status := Function.update s.status fiber .suspended, stack := resumers }
  | .resume fiber =>
      if s.status fiber = .suspended then
        some { s with
          status := Function.update s.status fiber .running, stack := fiber :: s.stack }
      else none
  | .finish =>
      match s.stack with
      | [] => none
      | fiber :: resumers =>
          some { s with status := Function.update s.status fiber .gone, stack := resumers }
  | .await call blocked => if Fresh s call then some (await s call blocked) else none
  | .deliver id outcome exception => some (resumeParked s id outcome exception).1
  | .poll c exception => some (pollOne s c exception)
  | .cancel fiber key => if Chooses s fiber key then some (cancelParkedAny s fiber key).1 else none
  | .unwind fiber =>
      match s.status fiber with
      | .parked _ => some (resumeFiber s fiber true)
      | _ => none

/-- What the call may have returned: a completion of one of its ids that was delivered, or `None`
because the fiber was unwound. -/
def Justified (delivered : List (ℕ × Outcome)) (call : Await) (r : Return) : Prop :=
  match r.value with
  | none => r.unwound = true
  | some (id, o) => r.unwound = false ∧ id ∈ call.ids ∧ (id, o) ∈ delivered

/-- The park waits: nothing has resumed it, and its ids lead to its fiber. -/
def Waiting (s : State) (n : ℕ) (p : Park) : Prop :=
  s.status p.fiber = .parked n ∧ s.resumes n = 0 ∧ s.returned n = [] ∧
    ∀ id ∈ p.call.ids, s.tables.parked.get? id = some p.fiber

/-- The call has returned: it was resumed once, and neither table has any of its ids. -/
def Over (s : State) (n : ℕ) (p : Park) : Prop :=
  s.status p.fiber ≠ .parked n ∧ s.resumes n = 1 ∧
    (∃ r, s.returned n = [r] ∧ Justified s.delivered p.call r) ∧
    ∀ id ∈ p.call.ids, s.tables.parked.get? id = none ∧ s.tables.results.get? id = none

/-- The parks are numbered in a row and their ids are not shared. -/
structure Numbered (s : State) : Prop where
  disjoint : ∀ n m p q id, s.parks n = some p → s.parks m = some q →
    id ∈ p.call.ids → id ∈ q.call.ids → n = m
  used : ∀ n p, s.parks n = some p → n < s.nextPark ∧ ∀ id ∈ p.call.ids, id ∈ s.used
  ahead : ∀ n, s.nextPark ≤ n → s.resumes n = 0 ∧ s.returned n = []

/-- What holds between two actions of the thread. -/
structure Inv (s : State) : Prop where
  numbered : Numbered s
  results : ∀ id, s.tables.results.get? id = none
  strays : s.strays = 0
  owner : ∀ id f, s.tables.parked.get? id = some f →
    ∃ n p, s.parks n = some p ∧ p.fiber = f ∧ s.status f = .parked n ∧ id ∈ p.call.ids
  park : ∀ n p, s.parks n = some p → Waiting s n p ∨ Over s n p
  parked : ∀ f n, s.status f = .parked n → ∃ p, s.parks n = some p ∧ p.fiber = f
  running : ∀ f ∈ s.stack, s.status f = .running
  nodup : s.stack.Nodup

/-! ## What a woken call does to the tables -/

/-- With one outcome in the table, that is the one that is found. -/
lemma takeFirst_set {results : OrdMap ℕ Outcome} {ids : List ℕ} {id : ℕ} {o : Outcome}
    (hempty : ∀ k, results.get? k = none) (hid : id ∈ ids) :
    takeFirst (results.set id o) ids = ((results.set id o).unset id, some (id, o)) := by
  induction ids with
  | nil => cases hid
  | cons k ids ih =>
      by_cases hk : k = id
      · subst hk
        simp [takeFirst]
      · have hmem : id ∈ ids := (List.mem_cons.mp hid).resolve_left (Ne.symm hk)
        simp only [takeFirst, OrdMap.get?_set, if_neg hk, hempty]
        exact ih hmem

/-- A woken call leaves none of its ids in `PARKED`.  `await_op` takes its own out only when it is
unwound; else `resume_parked` has done it. -/
lemma resumed_parked {t : Tables} {call : Await} {exception : Bool}
    (hop : ∀ id, call = .awaitOp id → exception = false → t.parked.get? id = none) (k : ℕ) :
    (call.resumed t exception).1.parked.get? k
      = if k ∈ call.ids then none else t.parked.get? k := by
  cases call with
  | awaitOp id =>
      cases exception with
      | true => simp [Await.resumed, awaitOpResumed, Await.ids, OrdMap.get?_unset]
      | false =>
          have hid := hop id rfl rfl
          by_cases hk : k = id
          · subst hk
            simpa [Await.resumed, awaitOpResumed, Await.ids] using hid
          · simp [Await.resumed, awaitOpResumed, Await.ids, hk]
  | awaitAny ids => cases exception <;> exact OrdMap.get?_foldl_unset t.parked ids k

/-- An unwound call drops the outcomes of its ids, too. -/
lemma resumed_results_of_exception (t : Tables) (call : Await) (k : ℕ) :
    (call.resumed t true).1.results.get? k
      = if k ∈ call.ids then none else t.results.get? k := by
  cases call with
  | awaitOp id => simp [Await.resumed, awaitOpResumed, Await.ids, OrdMap.get?_unset]
  | awaitAny ids => exact OrdMap.get?_foldl_unset t.results ids k

lemma resumed_value_of_exception (t : Tables) (call : Await) : (call.resumed t true).2 = none := by
  cases call <;> rfl

/-- A call woken by an outcome for one of its ids takes it out of `RESULTS` and returns it. -/
lemma resumed_of_outcome {t : Tables} {results : OrdMap ℕ Outcome} {call : Await} {id : ℕ}
    {o : Outcome} (hempty : ∀ k, results.get? k = none) (hid : id ∈ call.ids)
    (ht : t.results = results.set id o) :
    (call.resumed t false).2 = some (id, o) ∧
      ∀ k, (call.resumed t false).1.results.get? k = none := by
  cases call with
  | awaitOp i =>
      obtain rfl := List.mem_singleton.mp hid
      refine ⟨by simp [Await.resumed, awaitOpResumed, ht], fun k => ?_⟩
      simp [Await.resumed, awaitOpResumed, ht, OrdMap.get?_unset, OrdMap.get?_set, hempty]
  | awaitAny ids =>
      have htake : takeFirst (results.set id o) ids = _ := takeFirst_set hempty hid
      refine ⟨by simp [Await.resumed, awaitAnyResumed, ht, htake], fun k => ?_⟩
      simp [Await.resumed, awaitAnyResumed, ht, htake, OrdMap.get?_unset, OrdMap.get?_set, hempty]

/-! ## One lemma per action -/

lemma Justified.mono {delivered delivered' : List (ℕ × Outcome)} {call : Await} {r : Return}
    (h : Justified delivered call r) (hsub : ∀ c ∈ delivered, c ∈ delivered') :
    Justified delivered' call r := by
  unfold Justified at h ⊢
  cases hv : r.value with
  | none => simpa [hv] using h
  | some c =>
      simp only [hv] at h ⊢
      exact ⟨h.1, h.2.1, hsub _ h.2.2⟩

/-- The park of a parked fiber waits. -/
lemma Inv.waiting {s : State} (h : Inv s) {f n : ℕ} (hf : s.status f = .parked n) :
    ∃ p, s.parks n = some p ∧ p.fiber = f ∧ Waiting s n p := by
  obtain ⟨p, hp, rfl⟩ := h.parked f n hf
  exact ⟨p, hp, rfl, (h.park n p hp).resolve_right fun ho => ho.1 hf⟩

/-- A switch between fibers none of which is parked. -/
lemma Inv.switch {s : State} (h : Inv s) {f : ℕ} {st : Status} {stack : List ℕ}
    (hf : ∀ n, s.status f ≠ .parked n) (hst : ∀ n, st ≠ .parked n)
    (hrunning : ∀ g ∈ stack, Function.update s.status f st g = .running) (hnodup : stack.Nodup) :
    Inv { s with status := Function.update s.status f st, stack := stack } := by
  have hstatus : ∀ g n, Function.update s.status f st g = .parked n ↔ s.status g = .parked n := by
    intro g n
    by_cases hg : g = f
    · subst hg
      simp [hf n, hst n]
    · rw [Function.update_of_ne hg]
  refine
    { numbered := ⟨h.numbered.disjoint, h.numbered.used, h.numbered.ahead⟩
      results := h.results
      strays := h.strays
      owner := ?_
      park := ?_
      parked := fun g n hg => h.parked g n ((hstatus g n).mp hg)
      running := hrunning
      nodup := hnodup }
  · intro id g hid
    obtain ⟨n, p, hp, hpf, hn, hmem⟩ := h.owner id g hid
    exact ⟨n, p, hp, hpf, (hstatus g n).mpr hn, hmem⟩
  · intro n p hp
    rcases h.park n p hp with hw | ho
    · exact Or.inl ⟨(hstatus p.fiber n).mpr hw.1, hw.2⟩
    · exact Or.inr ⟨fun e => ho.1 ((hstatus p.fiber n).mp e), ho.2⟩

/-- A parked fiber is woken.  `resume_parked` and `cancel_parked_any` have changed the tables (`t`)
before; what counts is what the woken call makes of them. -/
lemma Inv.wake {s : State} (h : Inv s) {t : Tables} {delivered : List (ℕ × Outcome)}
    {f n : ℕ} {p : Park} {exception : Bool} (hf : s.status f = .parked n)
    (hp : s.parks n = some p)
    (hparked : ∀ k, (p.call.resumed t exception).1.parked.get? k
      = if k ∈ p.call.ids then none else s.tables.parked.get? k)
    (hresults : ∀ k, (p.call.resumed t exception).1.results.get? k = none)
    (hdelivered : ∀ c ∈ s.delivered, c ∈ delivered)
    (hj : Justified delivered p.call ⟨exception, (p.call.resumed t exception).2⟩) :
    Inv (resumeFiber { s with tables := t, delivered := delivered } f exception) := by
  obtain ⟨p', hp', rfl, hw⟩ := h.waiting hf
  obtain rfl := Option.some.inj (hp.symm.trans hp')
  have hstatus : ∀ g m, Function.update s.status p.fiber .running g = .parked m ↔
      m ≠ n ∧ s.status g = .parked m := by
    intro g m
    by_cases hg : g = p.fiber
    · subst hg
      simp [hf, eq_comm]
    · rw [Function.update_of_ne hg]
      refine ⟨fun e => ⟨?_, e⟩, fun e => e.2⟩
      rintro rfl
      obtain ⟨q, hq, hqg⟩ := h.parked g m e
      obtain rfl := Option.some.inj (hp.symm.trans hq)
      exact hg hqg.symm
  have hkeep : ∀ m q, m ≠ n → s.parks m = some q → ∀ id ∈ q.call.ids,
      (p.call.resumed t exception).1.parked.get? id = s.tables.parked.get? id := by
    intro m q hm hq id hid
    rw [hparked, if_neg]
    exact fun hid' => hm (h.numbered.disjoint m n q p id hq hp hid hid')
  simp only [resumeFiber, hf, hp]
  refine
    { numbered := ⟨h.numbered.disjoint, h.numbered.used, fun m hm => ?_⟩
      results := hresults
      strays := h.strays
      owner := ?_
      park := ?_
      parked := fun g m hg => h.parked g m ((hstatus g m).mp hg).2
      running := ?_
      nodup := ?_ }
  · have hmn : m ≠ n := by
      rintro rfl
      exact absurd (h.numbered.used m p hp).1 (Nat.not_lt.mpr hm)
    simpa [hmn] using h.numbered.ahead m hm
  · intro id g hid
    rw [hparked] at hid
    by_cases hmem : id ∈ p.call.ids
    · simp [hmem] at hid
    · rw [if_neg hmem] at hid
      obtain ⟨m, q, hq, hqg, hg, hidq⟩ := h.owner id g hid
      have hm : m ≠ n := by
        rintro rfl
        obtain rfl := Option.some.inj (hp.symm.trans hq)
        exact hmem hidq
      exact ⟨m, q, hq, hqg, (hstatus g m).mpr ⟨hm, hg⟩, hidq⟩
  · intro m q hq
    by_cases hm : m = n
    · subst hm
      obtain rfl := Option.some.inj (hp.symm.trans hq)
      refine Or.inr ⟨by simp, by simp [hw.2.1], ⟨_, by simp [hw.2.2.1], hj⟩, fun id hid => ?_⟩
      exact ⟨by rw [hparked, if_pos hid], hresults id⟩
    · rcases h.park m q hq with hwq | hoq
      · refine Or.inl ⟨(hstatus q.fiber m).mpr ⟨hm, hwq.1⟩, ?_, ?_, fun id hid => ?_⟩
        · simpa [hm] using hwq.2.1
        · simpa [hm] using hwq.2.2.1
        · rw [hkeep m q hm hq id hid]
          exact hwq.2.2.2 id hid
      · obtain ⟨r, hr, hjr⟩ := hoq.2.2.1
        refine Or.inr ⟨fun e => hoq.1 ((hstatus q.fiber m).mp e).2, ?_, ⟨r, ?_, ?_⟩,
          fun id hid => ?_⟩
        · simpa [hm] using hoq.2.1
        · simpa [hm] using hr
        · exact hjr.mono hdelivered
        · rw [hkeep m q hm hq id hid]
          exact ⟨(hoq.2.2.2 id hid).1, hresults id⟩
  · intro g hg
    rcases List.mem_cons.mp hg with rfl | hg
    · simp
    · have hgf : g ≠ p.fiber := by
        rintro rfl
        rw [h.running _ hg] at hf
        cases hf
      exact (Function.update_of_ne hgf _ _).trans (h.running g hg)
  · refine List.nodup_cons.mpr ⟨fun hmem => ?_, h.nodup⟩
    rw [h.running _ hmem] at hf
    cases hf

/-- A delivery that nobody waits for. -/
lemma Inv.deliver {s : State} (h : Inv s) (c : ℕ × Outcome) :
    Inv { s with delivered := s.delivered ++ [c] } := by
  refine
    { numbered := ⟨h.numbered.disjoint, h.numbered.used, h.numbered.ahead⟩
      results := h.results
      strays := h.strays
      owner := h.owner
      park := fun n p hp => ?_
      parked := h.parked
      running := h.running
      nodup := h.nodup }
  rcases h.park n p hp with hw | ⟨hst, hres, ⟨r, hr, hj⟩, hids⟩
  · exact Or.inl hw
  · exact Or.inr ⟨hst, hres, ⟨r, hr, hj.mono fun c hc => List.mem_append_left _ hc⟩, hids⟩

/-- `resume_parked` keeps the invariant. -/
lemma Inv.resumeParked {s : State} (h : Inv s) (id : ℕ) (o : Outcome) (exception : Bool) :
    Inv (resumeParked s id o exception).1 := by
  cases hid : s.tables.parked.get? id with
  | none =>
      simp only [Registry.resumeParked, hid]
      exact h.deliver (id, o)
  | some f =>
      simp only [Registry.resumeParked, hid]
      obtain ⟨n, p, hp, -, hf, hmem⟩ := h.owner id f hid
      have hwoken := resumed_of_outcome
        (t := ⟨s.tables.parked.unset id, s.tables.results.set id o⟩) h.results hmem rfl
      refine h.wake hf hp (fun k => ?_) (fun k => ?_) (fun c hc => List.mem_append_left _ hc) ?_
      · rw [resumed_parked]
        · by_cases hk : k ∈ p.call.ids
          · simp [hk]
          · have hne : k ≠ id := fun e => hk (e ▸ hmem)
            simp [hk, OrdMap.get?_unset, hne]
        · intro i hi _
          rw [hi] at hmem
          obtain rfl := List.mem_singleton.mp hmem
          simp
      · cases exception with
        | true =>
            rw [resumed_results_of_exception]
            by_cases hk : k ∈ p.call.ids
            · simp [hk]
            · have hne : k ≠ id := fun e => hk (e ▸ hmem)
              simp [hk, OrdMap.get?_set, hne, h.results]
        | false => exact hwoken.2 k
      · cases exception with
        | true => simp [Justified, resumed_value_of_exception]
        | false =>
            rw [hwoken.1]
            exact ⟨rfl, hmem, List.mem_append_right _ (List.mem_singleton.mpr rfl)⟩

/-- A fiber that is thrown into, with one of its ids taken out of `PARKED` before or none. -/
lemma Inv.throw {s : State} (h : Inv s) {f n : ℕ} {p : Park} {parked : OrdMap ℕ ℕ}
    (hf : s.status f = .parked n) (hp : s.parks n = some p)
    (hparked : ∀ k, k ∉ p.call.ids → parked.get? k = s.tables.parked.get? k) :
    Inv (resumeFiber { s with tables := { s.tables with parked := parked } } f true) := by
  refine h.wake hf hp (fun k => ?_) (fun k => ?_) (fun c hc => hc) ?_
  · rw [resumed_parked (by simp)]
    by_cases hk : k ∈ p.call.ids
    · simp [hk]
    · simp [hk, hparked k hk]
  · rw [resumed_results_of_exception]
    simp [h.results]
  · simp [Justified, resumed_value_of_exception]

lemma Inv.cancelParkedAny {s : State} (h : Inv s) (f key : ℕ) :
    Inv (cancelParkedAny s f key).1 := by
  unfold Registry.cancelParkedAny
  split
  case isFalse => exact h
  case isTrue hkey =>
    obtain ⟨n, p, hp, -, hf, hmem⟩ := h.owner key f hkey
    refine h.throw hf hp fun k hk => ?_
    have hne : k ≠ key := fun e => hk (e ▸ hmem)
    simp [OrdMap.get?_unset, hne]

/-- The running fiber suspends itself in a call with fresh ids. -/
lemma Inv.suspend {s : State} (h : Inv s) {call : Await} {f : ℕ} {resumers : List ℕ}
    (hfresh : Fresh s call) (hf : s.status f = .running)
    (hrunning : ∀ g ∈ resumers, s.status g = .running) (hnodup : f ∉ resumers ∧ resumers.Nodup) :
    Inv { s with
      tables :=
        { s.tables with
          parked := call.ids.foldl (fun parked id => parked.set id f) s.tables.parked }
      status := Function.update s.status f (.parked s.nextPark)
      stack := resumers
      parks := Function.update s.parks s.nextPark (some ⟨f, call⟩)
      nextPark := s.nextPark + 1
      used := s.used ++ call.ids } := by
  have hold : ∀ m q, s.parks m = some q → m ≠ s.nextPark := by
    intro m q hq
    have := (h.numbered.used m q hq).1
    omega
  have hids : ∀ m q, s.parks m = some q → ∀ id ∈ q.call.ids, id ∉ call.ids :=
    fun m q hq id hid hid' => hfresh.2 id hid' ((h.numbered.used m q hq).2 id hid)
  have hstatus : ∀ g m, m ≠ s.nextPark →
      (Function.update s.status f (.parked s.nextPark) g = .parked m ↔ s.status g = .parked m) := by
    intro g m hm
    by_cases hg : g = f
    · subst hg
      simp [hf, Ne.symm hm]
    · rw [Function.update_of_ne hg]
  have hparks : ∀ m q, Function.update s.parks s.nextPark (some ⟨f, call⟩) m = some q →
      (m = s.nextPark ∧ q = ⟨f, call⟩) ∨ s.parks m = some q := by
    intro m q hq
    by_cases hm : m = s.nextPark
    · subst hm
      rw [Function.update_self] at hq
      exact Or.inl ⟨rfl, (Option.some.inj hq).symm⟩
    · rw [Function.update_of_ne hm] at hq
      exact Or.inr hq
  have hnew := h.numbered.ahead s.nextPark (Nat.le_refl _)
  refine
    { numbered := ⟨?_, ?_, fun m hm => h.numbered.ahead m (Nat.le_of_succ_le hm)⟩
      results := h.results
      strays := h.strays
      owner := ?_
      park := ?_
      parked := ?_
      running := ?_
      nodup := hnodup.2 }
  · intro n m p q id hp hq hidp hidq
    rcases hparks n p hp with ⟨rfl, rfl⟩ | hp <;> rcases hparks m q hq with ⟨rfl, rfl⟩ | hq
    · rfl
    · exact absurd hidp (hids m q hq id hidq)
    · exact absurd hidq (hids n p hp id hidp)
    · exact h.numbered.disjoint n m p q id hp hq hidp hidq
  · intro n p hp
    rcases hparks n p hp with ⟨rfl, rfl⟩ | hp
    · exact ⟨Nat.lt_succ_self _, fun id hid => List.mem_append_right _ hid⟩
    · obtain ⟨hn, hused⟩ := h.numbered.used n p hp
      exact ⟨Nat.lt_succ_of_lt hn, fun id hid => List.mem_append_left _ (hused id hid)⟩
  · intro id g hid
    rw [OrdMap.get?_foldl_set] at hid
    split at hid
    case isTrue hmem =>
      obtain rfl := Option.some.inj hid
      exact ⟨s.nextPark, ⟨f, call⟩, by simp, rfl, by simp, hmem⟩
    case isFalse =>
      obtain ⟨n, p, hp, hpg, hg, hmem⟩ := h.owner id g hid
      have hn := hold n p hp
      exact ⟨n, p, by simpa [hn] using hp, hpg, (hstatus g n hn).mpr hg, hmem⟩
  · intro n p hp
    rcases hparks n p hp with ⟨rfl, rfl⟩ | hp
    · refine Or.inl ⟨by simp, hnew.1, hnew.2, fun id hid => ?_⟩
      rw [OrdMap.get?_foldl_set, if_pos hid]
    · have hn := hold n p hp
      have hkeep : ∀ id ∈ p.call.ids,
          (call.ids.foldl (fun parked id => parked.set id f) s.tables.parked).get? id
            = s.tables.parked.get? id := by
        intro id hid
        rw [OrdMap.get?_foldl_set, if_neg (hids n p hp id hid)]
      rcases h.park n p hp with ⟨hst, hres, hret, hpk⟩ | ⟨hst, hres, hret, hpk⟩
      · refine Or.inl ⟨(hstatus p.fiber n hn).mpr hst, hres, hret, fun id hid => ?_⟩
        exact (hkeep id hid).trans (hpk id hid)
      · refine Or.inr ⟨fun e => hst ((hstatus p.fiber n hn).mp e), hres, hret, fun id hid => ?_⟩
        exact ⟨(hkeep id hid).trans (hpk id hid).1, h.results id⟩
  · intro g n hg
    by_cases hn : n = s.nextPark
    · subst hn
      by_cases hgf : g = f
      · exact ⟨⟨f, call⟩, by simp, hgf.symm⟩
      · have hg' : s.status g = .parked s.nextPark := by
          simpa [Function.update_of_ne hgf] using hg
        obtain ⟨p, hp, -⟩ := h.parked g _ hg'
        exact absurd rfl (hold _ p hp)
    · obtain ⟨p, hp, hpg⟩ := h.parked g n ((hstatus g n hn).mp hg)
      exact ⟨p, by simpa [hn] using hp, hpg⟩
  · intro g hg
    have hgf : g ≠ f := by
      rintro rfl
      exact hnodup.1 hg
    exact (Function.update_of_ne hgf _ _).trans (hrunning g hg)

/-- A fiber parks under fresh ids. -/
lemma Inv.await {s : State} (h : Inv s) {call : Await} {blocked : Bool} (hfresh : Fresh s call) :
    Inv (await s call blocked) := by
  unfold Registry.await
  cases hstack : s.stack with
  | nil => exact h
  | cons f resumers =>
      simp only
      split
      case isTrue => exact h
      case isFalse =>
        have hf : s.status f = .running := h.running f (by simp [hstack])
        have hnodup : f ∉ resumers ∧ resumers.Nodup := by
          have := h.nodup
          rwa [hstack, List.nodup_cons] at this
        exact h.suspend hfresh hf (fun g hg => h.running g (by simp [hstack, hg])) hnodup

/-- A fiber that is not parked is put on the stack. -/
lemma Inv.push {s : State} (h : Inv s) (f : ℕ) (hparked : ∀ n, s.status f ≠ .parked n)
    (hrunning : s.status f ≠ .running) :
    Inv { s with status := Function.update s.status f .running, stack := f :: s.stack } := by
  have hnotin : f ∉ s.stack := fun hmem => hrunning (h.running f hmem)
  refine h.switch hparked (by simp) (fun g hg => ?_) (List.nodup_cons.mpr ⟨hnotin, h.nodup⟩)
  rcases List.mem_cons.mp hg with rfl | hg
  · simp
  · have hgf : g ≠ f := fun e => hnotin (e ▸ hg)
    rw [Function.update_of_ne hgf]
    exact h.running g hg

/-- The running fiber leaves the stack without parking. -/
lemma Inv.pop {s : State} (h : Inv s) {f : ℕ} {resumers : List ℕ} {st : Status}
    (hstack : s.stack = f :: resumers) (hst : ∀ n, st ≠ .parked n) :
    Inv { s with status := Function.update s.status f st, stack := resumers } := by
  have hf : s.status f = .running := h.running f (by simp [hstack])
  have hnodup := h.nodup
  rw [hstack, List.nodup_cons] at hnodup
  refine h.switch (by simp [hf]) hst (fun g hg => ?_) hnodup.2
  have hgf : g ≠ f := fun e => hnodup.1 (e ▸ hg)
  rw [Function.update_of_ne hgf]
  exact h.running g (by simp [hstack, hg])

lemma Inv.handOver {s : State} (h : Inv s) (c : ℕ × Outcome) :
    Inv { s with handed := s.handed ++ [c] } :=
  ⟨⟨h.numbered.disjoint, h.numbered.used, h.numbered.ahead⟩, h.results, h.strays, h.owner, h.park,
    h.parked, h.running, h.nodup⟩

/-- A completion in `ignis_poll` is delivered or handed to PHP. -/
lemma Inv.pollOne {s : State} (h : Inv s) (c : Completion) (exception : Bool) :
    Inv (pollOne s c exception) := by
  have hboth := h.resumeParked c.id c.outcome exception
  unfold Registry.pollOne
  split
  · exact hboth
  · split_ifs
    · exact hboth
    · exact h.handOver _
  · split_ifs
    · exact hboth
    · exact h.handOver _
  · exact h.handOver _

/-- Every action of the thread keeps the invariant. -/
lemma Inv.step {s s' : State} {a : Action} (h : Inv s) (hs : step s a = some s') : Inv s' := by
  cases a with
  | start f =>
      simp only [Registry.step] at hs
      split at hs
      case isFalse => cases hs
      case isTrue hf =>
        obtain rfl := Option.some.inj hs
        exact h.push f (by simp [hf]) (by simp [hf])
  | resume f =>
      simp only [Registry.step] at hs
      split at hs
      case isFalse => cases hs
      case isTrue hf =>
        obtain rfl := Option.some.inj hs
        exact h.push f (by simp [hf]) (by simp [hf])
  | suspend =>
      simp only [Registry.step] at hs
      split at hs
      case h_1 => cases hs
      case h_2 f resumers hstack =>
        obtain rfl := Option.some.inj hs
        exact h.pop hstack (by simp)
  | finish =>
      simp only [Registry.step] at hs
      split at hs
      case h_1 => cases hs
      case h_2 f resumers hstack =>
        obtain rfl := Option.some.inj hs
        exact h.pop hstack (by simp)
  | await call blocked =>
      simp only [Registry.step] at hs
      split at hs
      case isFalse => cases hs
      case isTrue hfresh =>
        obtain rfl := Option.some.inj hs
        exact h.await hfresh
  | deliver id o exception =>
      obtain rfl := Option.some.inj hs
      exact h.resumeParked id o exception
  | poll c exception =>
      obtain rfl := Option.some.inj hs
      exact h.pollOne c exception
  | cancel f key =>
      simp only [Registry.step] at hs
      split at hs
      case isFalse => cases hs
      case isTrue =>
        obtain rfl := Option.some.inj hs
        exact h.cancelParkedAny f key
  | unwind f =>
      simp only [Registry.step] at hs
      split at hs
      case h_1 n hf =>
        obtain rfl := Option.some.inj hs
        obtain ⟨p, hp, -⟩ := h.parked f n hf
        exact h.throw hf hp fun _ _ => rfl
      case h_2 => cases hs

lemma inv_init : Inv init where
  numbered := ⟨by simp [init], by simp [init], by simp [init]⟩
  results := by simp [init]
  strays := rfl
  owner := by simp [init]
  park := by simp [init]
  parked := by simp [init]
  running := by simp [init]
  nodup := by simp [init]

/-! ## Runs -/

/-- The id belongs to a call that has not returned. -/
def WaitedOn (s : State) (id : ℕ) : Prop :=
  ∃ n p, s.parks n = some p ∧ s.status p.fiber = .parked n ∧ id ∈ p.call.ids

/-- `resume_parked` for an id nobody waits on resumes nobody. -/
lemma Inv.resumeParked_of_not_waitedOn {s : State} (h : Inv s) {id : ℕ} (o : Outcome)
    (exception : Bool) (hid : ¬ WaitedOn s id) :
    Registry.resumeParked s id o exception
      = ({ s with delivered := s.delivered ++ [(id, o)] }, false) := by
  cases hp : s.tables.parked.get? id with
  | none => simp [Registry.resumeParked, hp]
  | some f =>
      obtain ⟨n, p, hn, rfl, hst, hmem⟩ := h.owner id f hp
      exact absurd ⟨n, p, hn, hst, hmem⟩ hid

/-- `resume_parked` for an id of a waiting park resumes its fiber and no other, and the call
returns. -/
lemma Inv.resumeParked_of_waiting {s : State} (h : Inv s) {n id : ℕ} {p : Park} (o : Outcome)
    (exception : Bool) (hp : s.parks n = some p) (hw : Waiting s n p) (hid : id ∈ p.call.ids) :
    (Registry.resumeParked s id o exception).2 = true ∧
      Over (Registry.resumeParked s id o exception).1 n p ∧
      (Registry.resumeParked s id o exception).1.stack = p.fiber :: s.stack ∧
      ∀ m ≠ n, (Registry.resumeParked s id o exception).1.resumes m = s.resumes m := by
  have hinv := h.resumeParked id o exception
  have hget := hw.2.2.2 id hid
  have hst := hw.1
  have hpark := hinv.park n p (by simp [Registry.resumeParked, hget, resumeFiber, hst, hp])
  refine ⟨by simp [Registry.resumeParked, hget], ?_, ?_, fun m hm => ?_⟩
  · refine hpark.resolve_left fun hw' => ?_
    have := hw'.1
    simp [Registry.resumeParked, hget, resumeFiber, hst, hp] at this
  · simp [Registry.resumeParked, hget, resumeFiber, hst, hp]
  · simp [Registry.resumeParked, hget, resumeFiber, hst, hp, hm]

/-- **The registry is exact.**  In every state of every run a park either waits, resumed by nobody,
with all its ids leading to its fiber, or its call has returned: then it was resumed once, it
returned a completion that was delivered for one of its ids or was unwound, and its ids are in
neither table.  A completion for an id that is not waited on resumes nobody, one for an id of a
waiting park resumes that park's fiber alone, and no resume ever met a fiber that was not parked. -/
theorem parks_resumed_once {acts : List Action} {s : State}
    (h : StepSystem.runFrom step init acts = some s) :
    (∀ n p, s.parks n = some p → Waiting s n p ∨ Over s n p) ∧
      (∀ id o exception, ¬ WaitedOn s id →
        resumeParked s id o exception
          = ({ s with delivered := s.delivered ++ [(id, o)] }, false)) ∧
      (∀ n p id o exception, s.parks n = some p → Waiting s n p → id ∈ p.call.ids →
        (resumeParked s id o exception).2 = true ∧
          Over (resumeParked s id o exception).1 n p ∧
          (resumeParked s id o exception).1.stack = p.fiber :: s.stack ∧
          ∀ m ≠ n, (resumeParked s id o exception).1.resumes m = s.resumes m) ∧
      s.strays = 0 := by
  have hinv : Inv s := StepSystem.invariant_of_run step (fun _ _ _ => Inv.step) inv_init h
  exact ⟨hinv.park, fun id o e => hinv.resumeParked_of_not_waitedOn o e,
    fun n p id o e => hinv.resumeParked_of_waiting o e, hinv.strays⟩

/-- Two fibers race: the first waits for two ids and parks again inside the delivery of one of them,
the second is cancelled, and the late completions find nobody. -/
def raceActs : List Action :=
  [.start 7, .await (.awaitAny [1, 2]) false, .start 8, .await (.awaitAny [3, 4]) false,
    .poll ⟨2, .ready⟩ false, .await (.awaitOp 5) false, .cancel 8 4, .suspend,
    .poll ⟨1, .error []⟩ false, .deliver 3 .ready false, .deliver 5 (.slept 0) false]

theorem parks_resumed_once_race : ∃ s, StepSystem.runFrom step init raceActs = some s ∧
    s.returned 0 = [⟨false, some (2, .ready)⟩] ∧ s.returned 1 = [⟨true, none⟩] ∧
    s.returned 2 = [⟨false, some (5, .slept 0)⟩] ∧ s.stack = [7] ∧
    ∀ n p, s.parks n = some p → Waiting s n p ∨ Over s n p :=
  ⟨_, rfl, rfl, rfl, rfl, rfl, (@parks_resumed_once raceActs _ rfl).1⟩

end Registry

end Ignis
