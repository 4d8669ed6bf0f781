import Ignis.Loop.AdmissionRuns

/-!
# The memory of the wait queue

`$requestQueue` is read by index and emptied at once when the last live request has been read, so a
slot that has been read stays in the array for as long as another request waits.  Here admission
control is a system of its own, with the three things that happen to it as events; every run of a
worker is one of its runs (`admission_run`).

Between two moments at which the queue is empty its array never shrinks: its length is the number of
requests queued since the last of them.  The depth bounds how many wait at a time, not how many are
queued in such a spell, and a worker that is kept busy with a queue of two makes a spell as long as
one likes.
-/

namespace Ignis

namespace Admission

/-! ## The system -/

inductive Event where
  | arrives (id : ℕ) (raw : IgnisRequest)
  | cancels (id : ℕ)
  | releases (id : ℕ)

/-- No id comes twice, and a slot is given back once, by a request that holds one. -/
def step (a : Admission) : Event → Option Admission
  | .arrives id raw =>
      if id ∈ a.arrivals.map Arrival.id then none else some (a.dispatchRequest id raw)
  | .cancels id => some (a.dispatchCancel id)
  | .releases id =>
      if id ∈ a.admissions.map Admitted.id ∧ id ∉ a.released then
        some (a.releaseSlot id).drainQueue.1
      else none

/-- The event puts a request in the queue. -/
def queues (a : Admission) : Event → Bool
  | .arrives _ raw => a.mustWait raw.uri && !decide (0 < a.queueDepth ∧ a.queueDepth ≤ a.liveLength)
  | .cancels _ => false
  | .releases _ => false

/-- How many of the events of a run put a request in the queue. -/
def queuedIn : Admission → List Event → ℕ
  | _, [] => 0
  | a, e :: es => (if a.queues e then 1 else 0) + ((a.step e).map fun b => queuedIn b es).getD 0

/-- Somebody waits after the event. -/
def LeavesWaiting (a : Admission) (e : Event) : Prop := ∀ b, a.step e = some b → ¬ b.live = []

/-! ## Workers -/

/-- Every step of a worker leaves the statics alone or is one of the events. -/
lemma event_of_effect {s s' : Loop.State} {x : Loop.Action} (heff : Loop.Effect s x s')
    (hi : Loop.Inv s) (hslot : Loop.SlotInv s) :
    s'.admission = s.admission ∨ ∃ e, s.admission.step e = some s'.admission := by
  cases heff with
  | @queue id raw rest hmain htodo hnew hpc hwait =>
      exact Or.inr ⟨.arrives id raw, if_neg hnew⟩
  | @letIn id raw rest hmain htodo hnew hpc hwait =>
      exact Or.inr ⟨.arrives id raw, if_neg hnew⟩
  | @cancel id rest deadlines deadlineOf hmain htodo hnext => exact Or.inr ⟨.cancels id, rfl⟩
  | @slot f j id hcur hb =>
      obtain ⟨-, hf⟩ := Loop.current_eq_some_iff.mp hcur
      have hjob : (s.pool.status f).job? = some j := by rw [hf]; rfl
      have hadmitted := hi.handler_admitted f j id hjob hb
      have hkept : id ∉ s.admission.released := by
        have hends := hslot.ends id
        rw [hslot.live f j id hjob hb] at hends
        exact List.count_eq_zero.mp (by omega)
      exact Or.inr ⟨.releases id, if_pos ⟨hadmitted, hkept⟩⟩
  | start => exact Or.inl (Loop.startJob_admission _ _ _)
  | quiet | assign | readSuperglobal | readScope | writeScope | clearScope | suspend | resume
  | deliver | miss | callEnds | spawn | answer | release | settle | cleanupThrew => exact Or.inl rfl

/-- What a worker does to admission control is a run of the system. -/
theorem admission_run {budget depth : ℤ} {exempt : List PhpString} {chaos : Bool}
    {symbols : Superglobal → Bool} {xs : List Loop.Action} {s : Loop.State}
    (hrun : StepSystem.runFrom Loop.step (Loop.boot budget depth exempt chaos symbols) xs
      = some s) :
    ∃ es, StepSystem.runFrom step (boot budget depth exempt) es = some s.admission := by
  suffices H : Loop.Inv s ∧ Loop.SlotInv s
      ∧ ∃ es, StepSystem.runFrom step (boot budget depth exempt) es = some s.admission from H.2.2
  refine StepSystem.invariant_of_run Loop.step
    (I := fun s => Loop.Inv s ∧ Loop.SlotInv s
      ∧ ∃ es, StepSystem.runFrom step (boot budget depth exempt) es = some s.admission) ?_
    ⟨Loop.inv_boot _ _ _ _ _, Loop.slotInv_boot _ _ _ _ _, [], rfl⟩ hrun
  rintro s x s' ⟨hi, hslot, es, hes⟩ hstep
  refine ⟨Loop.inv_step hi hstep, Loop.slotInv_step hslot hi hstep, ?_⟩
  rcases event_of_effect (Loop.step_effect hi hstep).1 hi hslot with he | ⟨e, he⟩
  · exact ⟨es, he ▸ hes⟩
  · have hlast : StepSystem.runFrom step s.admission [e] = some s'.admission :=
      (StepSystem.runFrom_cons step).mpr ⟨_, he, rfl⟩
    exact ⟨es ++ [e], StepSystem.runFrom_append step hes hlast⟩

/-! ## The length of the array -/

/-- The invariant, and that an empty queue has no array to keep. -/
structure Compacted (a : Admission) : Prop extends Inv a where
  no_array : a.live = [] → a.requestQueue = []

theorem compacted_boot (budget depth : ℤ) (exempt : List PhpString) :
    Compacted (boot budget depth exempt) where
  toInv := inv_boot budget depth exempt
  no_array := fun _ => rfl

lemma drainLoop_length (turns : ℕ) (a : Admission) :
    (drainLoop turns a).1.requestQueue.length = a.requestQueue.length :=
  drainLoop_induction (P := fun b => b.requestQueue.length = a.requestQueue.length)
    (fun _ _ _ _ _ h => (List.length_set ..).trans h)
    (fun _ _ _ _ _ _ h => (List.length_set ..).trans h) turns rfl

/-- `drainQueue` empties the array when nobody waits any more, and leaves its length alone
otherwise. -/
lemma drainQueue_array {a : Admission} (h : Core a) :
    (a.drainQueue.1.live = [] → a.drainQueue.1.requestQueue = [])
      ∧ (a.drainQueue.1.live ≠ [] →
        a.drainQueue.1.requestQueue.length = a.requestQueue.length) := by
  have hcore : Core (drainLoop (a.requestQueue.length - a.queueHead) a).1 := core_drainLoop h
  have hlength := drainLoop_length (a.requestQueue.length - a.queueHead) a
  simp only [drainQueue, live_compact, ne_eq, live_eq_nil_iff hcore.head_le]
  generalize (drainLoop (a.requestQueue.length - a.queueHead) a).1 = b at hcore hlength ⊢
  rw [compact]
  split_ifs with hdone
  · exact ⟨fun _ => rfl, fun hne => absurd hdone.2 hne⟩
  · refine ⟨fun heq => List.length_eq_zero_iff.mp ?_, fun _ => hlength⟩
    omega

/-- An arrival is appended to the array, or leaves it alone. -/
lemma dispatchRequest_array (a : Admission) (id : ℕ) (raw : IgnisRequest) :
    (a.dispatchRequest id raw).queueHead = a.queueHead
      ∧ (a.dispatchRequest id raw).requestQueue
        = a.requestQueue ++ if a.queues (.arrives id raw) then [(id, raw)] else [] := by
  have hdepth : ∀ arrivals, ({ a with arrivals := arrivals } : Admission).liveLength
      = a.liveLength := fun _ => rfl
  simp only [dispatchRequest, queueRequest, admitRequest, queues, hdepth]
  by_cases hwait : a.mustWait raw.uri = true
  · by_cases hfull : 0 < a.queueDepth ∧ a.queueDepth ≤ a.liveLength
    · simp [hwait, hfull]
    · rw [if_pos hwait, if_neg hfull]
      simp only [hwait, decide_eq_false hfull, Bool.not_false, Bool.and_self, if_true, and_self]
  · simp [hwait]

lemma Compacted.step {a b : Admission} {e : Event} (h : Compacted a) (hstep : a.step e = some b) :
    Compacted b := by
  cases e with
  | arrives id raw =>
      obtain ⟨hnew, hb⟩ := Option.ite_none_left_eq_some.mp hstep
      obtain rfl := Option.some.inj hb
      refine ⟨inv_dispatchRequest h.toInv hnew, fun hnil => ?_⟩
      obtain ⟨hhead, harray⟩ := dispatchRequest_array a id raw
      have hlive : (a.dispatchRequest id raw).live
          = ((a.requestQueue ++ if a.queues (.arrives id raw) then [(id, raw)] else []).drop
            a.queueHead).map Prod.fst := by rw [live, hhead, harray]
      rw [hlive] at hnil
      rw [harray]
      split_ifs at hnil ⊢ with hq
      · rw [live_enqueue h.head_le] at hnil
        exact absurd hnil (by simp)
      · rw [List.append_nil] at hnil ⊢
        exact h.no_array hnil
  | cancels id =>
      obtain rfl := Option.some.inj hstep
      refine ⟨inv_dispatchCancel h.toInv id, ?_⟩
      rw [dispatchCancel_eq]
      split_ifs <;> exact h.no_array
  | releases id =>
      obtain ⟨-, hb⟩ := Option.ite_none_right_eq_some.mp hstep
      obtain rfl := Option.some.inj hb
      exact ⟨inv_releaseSlot h.toInv id, (drainQueue_array (core_releaseSlot h.toCore id)).1⟩

/-- While somebody waits the array grows by the requests that are queued, and never shrinks. -/
lemma length_step {a b : Admission} {e : Event} (h : Compacted a) (hstep : a.step e = some b)
    (hwaits : b.live ≠ []) :
    b.requestQueue.length = a.requestQueue.length + if a.queues e then 1 else 0 := by
  cases e with
  | arrives id raw =>
      obtain ⟨-, hb⟩ := Option.ite_none_left_eq_some.mp hstep
      obtain rfl := Option.some.inj hb
      rw [(dispatchRequest_array a id raw).2, List.length_append]
      split_ifs <;> rfl
  | cancels id =>
      obtain rfl := Option.some.inj hstep
      simp only [queues, Bool.false_eq_true, if_false, Nat.add_zero]
      rw [dispatchCancel_eq]
      split_ifs <;> rfl
  | releases id =>
      obtain ⟨-, hb⟩ := Option.ite_none_right_eq_some.mp hstep
      obtain rfl := Option.some.inj hb
      exact (drainQueue_array (core_releaseSlot h.toCore id)).2 hwaits

/-! ## Spells -/

/-- The length at the end of a run during which somebody always waits. -/
lemma length_run {a b : Admission} {es : List Event} (h : Compacted a)
    (hwaits : StepSystem.Along step LeavesWaiting a es)
    (hrun : StepSystem.runFrom step a es = some b) :
    b.requestQueue.length = a.requestQueue.length + a.queuedIn es := by
  induction es generalizing a with
  | nil =>
      obtain rfl := Option.some.inj hrun
      rfl
  | cons e es ih =>
      obtain ⟨c, hc, hrest⟩ := (StepSystem.runFrom_cons step).mp hrun
      obtain ⟨hfirst, hwaits⟩ := (StepSystem.along_cons_of_step step hc).mp hwaits
      have hlength := length_step h hc (hfirst c hc)
      rw [ih (h.step hc) hwaits hrest, hlength, queuedIn, hc, Option.map_some, Option.getD_some,
        Nat.add_assoc]

/-- At most `N` requests are queued between two moments at which the queue is empty. -/
def SpellsWithin (N : ℕ) (a : Admission) (es : List Event) : Prop :=
  ∀ bs cs b c, bs ++ cs <+: es → StepSystem.runFrom step a bs = some b → b.live = [] →
    StepSystem.Along step LeavesWaiting b cs → StepSystem.runFrom step b cs = some c →
      b.queuedIn cs ≤ N

/-- **The memory of the queue.**  In every run the array, with the slots that have been read, has at
most `N` entries exactly when at most `N` requests are queued between two moments at which the queue
is empty, whatever the depth. -/
theorem queue_memory_iff (budget depth : ℤ) (exempt : List PhpString) (es : List Event) (N : ℕ) :
    StepSystem.Always step (fun a => a.requestQueue.length ≤ N) (boot budget depth exempt) es
      ↔ SpellsWithin N (boot budget depth exempt) es := by
  have hcompacted : ∀ bs b, StepSystem.runFrom step (boot budget depth exempt) bs = some b →
      Compacted b := fun bs b hb =>
    StepSystem.invariant_of_run step (fun a e b h hstep => h.step hstep)
      (compacted_boot budget depth exempt) hb
  constructor
  · intro halways bs cs b c hes hbs hnil hwaits hcs
    have hb := hcompacted bs b hbs
    have hlength := length_run hb hwaits hcs
    rw [hb.no_array hnil, List.length_nil, Nat.zero_add] at hlength
    exact hlength ▸ halways (bs ++ cs) c hes (StepSystem.runFrom_append step hbs hcs)
  · intro hspells ds d hds hrun
    obtain ⟨bs, cs, b, rfl, hbs, hnil, hcs, hwaits⟩ :=
      StepSystem.since_last step (Q := fun a => a.live = []) rfl hrun
    have hb := hcompacted bs b hbs
    rw [length_run hb hwaits hcs, hb.no_array hnil, List.length_nil, Nat.zero_add]
    exact hspells bs cs b d hds hbs hnil hwaits hcs

/-! ## A worker that is kept busy -/

def page : IgnisRequest := ⟨bytes "GET", bytes "/", ∅, []⟩

/-- A worker with a budget of one and a queue of two that is full, after `n` of its requests. -/
structure Overloaded (n : ℕ) (a : Admission) : Prop where
  budget : a.fiberBudget = 1
  depth : a.queueDepth = 2
  exempt : a.budgetExempt = []
  inflight : a.inflightRequests = 1
  head : a.queueHead = n
  queue : a.requestQueue.drop n = [(n + 1, page), (n + 2, page)]
  cancelled : a.queueCancelled = ∅
  arrivals : a.arrivals.map Arrival.id = List.range (n + 3)
  admissions : a.admissions.map Admitted.id = List.range (n + 1)
  released : a.released = List.range n

lemma drainLoop_no_room {turns : ℕ} {a : Admission} (h : a.hasRoom = false) :
    (drainLoop turns a).1 = a := by
  cases turns with
  | zero => rfl
  | succ turns =>
      rw [drainLoop]
      split
      · rfl
      · rw [if_neg (by simp [h])]

lemma drainLoop_take {turns : ℕ} {a : Admission} {id : ℕ} {raw : IgnisRequest}
    (hget : a.requestQueue[a.queueHead]? = some (id, raw)) (hroom : a.hasRoom = true)
    (hcancelled : a.queueCancelled.has id = false) :
    (drainLoop (turns + 1) a).1 = (drainLoop turns (admitRequest
      { a.takeHead id with admittedAfterQueue := a.admittedAfterQueue + 1 } id false)).1 := by
  rw [drainLoop, hget]
  dsimp only
  rw [if_pos hroom, if_neg (by simp [hcancelled])]

/-- A request ends and the next comes out of the queue. -/
lemma Overloaded.release {n : ℕ} {a : Admission} (h : Overloaded n a) :
    ∃ b, a.step (.releases n) = some b ∧ b.fiberBudget = 1 ∧ b.queueDepth = 2
      ∧ b.budgetExempt = [] ∧ b.inflightRequests = 1 ∧ b.queueHead = n + 1
      ∧ b.requestQueue.drop (n + 1) = [(n + 2, page)] ∧ b.queueCancelled = ∅
      ∧ b.arrivals.map Arrival.id = List.range (n + 3)
      ∧ b.admissions.map Admitted.id = List.range (n + 2)
      ∧ b.released = List.range (n + 1) := by
  have hguard : n ∈ a.admissions.map Admitted.id ∧ n ∉ a.released := by
    rw [h.admissions, h.released]
    simp
  have hlength : a.requestQueue.length = n + 2 := by
    have hdrop := congrArg List.length h.queue
    simp only [List.length_drop, List.length_cons, List.length_nil] at hdrop
    omega
  have hget :
      (a.releaseSlot n).requestQueue[(a.releaseSlot n).queueHead]? = some (n + 1, page) := by
    simp only [releaseSlot, h.head]
    rw [← List.head?_drop, h.queue, List.head?_cons]
  have hroom : (a.releaseSlot n).hasRoom = true := by
    simp [hasRoom, releaseSlot, h.budget, h.inflight]
  have hcancelled : (a.releaseSlot n).queueCancelled.has (n + 1) = false := by
    simp [releaseSlot, h.cancelled]
  have hturns : (a.releaseSlot n).requestQueue.length - (a.releaseSlot n).queueHead = 1 + 1 := by
    simp only [releaseSlot, hlength, h.head]
    omega
  refine ⟨_, if_pos hguard, ?_⟩
  rw [drainQueue, hturns]
  dsimp only
  rw [drainLoop_take hget hroom hcancelled, drainLoop_no_room, compact, if_neg]
  · simp only [admitRequest, takeHead, releaseSlot, h.budget, h.depth, h.exempt, h.inflight, h.head,
      h.cancelled, h.arrivals, List.map_append, h.admissions, h.released]
    refine ⟨trivial, trivial, trivial, by omega, trivial, ?_, trivial, trivial, ?_, ?_⟩
    · rw [List.drop_set, if_pos (Nat.lt_succ_self n), ← List.drop_drop, h.queue]
      rfl
    · exact List.range_succ.symm
    · exact List.range_succ.symm
  · simp only [admitRequest, takeHead, releaseSlot, List.length_set, hlength, h.head]
    omega
  · simp [hasRoom, admitRequest, takeHead, releaseSlot, h.budget, h.inflight]

/-- And another arrives before the queue is empty. -/
lemma Overloaded.round {n : ℕ} {a : Admission} (h : Overloaded n a) :
    ∃ b, StepSystem.runFrom step a [.releases n, .arrives (n + 3) page] = some b
      ∧ Overloaded (n + 1) b := by
  obtain ⟨b, hb, hbudget, hdepth, hexempt, hinflight, hhead, hqueue, hcancelled, harrivals,
    hadmissions, hreleased⟩ := h.release
  have hnew : n + 3 ∉ b.arrivals.map Arrival.id := by simp [harrivals]
  have hlength : b.requestQueue.length = n + 2 := by
    have hdrop := congrArg List.length hqueue
    simp only [List.length_drop, List.length_cons, List.length_nil] at hdrop
    omega
  have hwait : b.mustWait page.uri = true := by
    simp [mustWait, isExempt, hbudget, hinflight, hexempt]
  have hroom : ¬ (0 < b.queueDepth ∧ b.queueDepth ≤ b.liveLength) := by
    rw [hdepth, liveLength, hlength, hhead]
    omega
  have hroom' : ∀ arrivals, ¬ (0 < b.queueDepth
      ∧ b.queueDepth ≤ ({ b with arrivals := arrivals } : Admission).liveLength) := fun _ => hroom
  refine ⟨b.dispatchRequest (n + 3) page, ?_, ?_⟩
  · exact (StepSystem.runFrom_cons step).mpr ⟨b, hb, (StepSystem.runFrom_cons step).mpr
      ⟨_, if_neg hnew, rfl⟩⟩
  · simp only [dispatchRequest, hwait, if_true, queueRequest, if_neg (hroom' _)]
    exact
      { budget := hbudget
        depth := hdepth
        exempt := hexempt
        inflight := hinflight
        head := hhead
        queue := by
          rw [List.drop_append_of_le_length (by omega), hqueue]
          rfl
        cancelled := hcancelled
        arrivals := by
          rw [List.map_append, harrivals]
          exact List.range_succ.symm
        admissions := hadmissions
        released := hreleased }

def firstThree : List Event := [.arrives 0 page, .arrives 1 page, .arrives 2 page]

lemma overloaded_run (n : ℕ) :
    ∃ es a, StepSystem.runFrom step (boot 1 2 []) es = some a ∧ Overloaded n a := by
  induction n with
  | zero =>
      exact ⟨firstThree, _, rfl, by constructor <;> rfl⟩
  | succ n ih =>
      obtain ⟨es, a, hrun, h⟩ := ih
      obtain ⟨b, hb, h'⟩ := h.round
      exact ⟨_, b, StepSystem.runFrom_append step hrun hb, h'⟩

/-- No bound that depends on the depth alone is kept. -/
theorem queue_memory_unbounded : ¬ ∃ bound : ℤ → ℕ, ∀ budget depth : ℤ, 0 < budget → 0 < depth →
    ∀ es a, StepSystem.runFrom step (boot budget depth []) es = some a →
      a.requestQueue.length < bound depth := by
  rintro ⟨bound, hbound⟩
  obtain ⟨es, a, hrun, h⟩ := overloaded_run (bound 2)
  have hlt := hbound 1 2 (by decide) (by decide) es a hrun
  have hdrop := congrArg List.length h.queue
  rw [List.length_drop] at hdrop
  simp only [List.length_cons, List.length_nil] at hdrop
  omega

end Admission

end Ignis
