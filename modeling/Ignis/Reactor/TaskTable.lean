import Ignis.Reactor.ExactlyOnce

/-!
# Entries that stay behind

The dispatcher spawns a task and then inserts its entry; the task removes the entry before it
announces the op.  On a second thread of the runtime the task can come to the removal first, finds
nothing, and the entry that is inserted afterwards is nobody's to remove: `entry_left_behind`.

In every run in which no task overtakes the insertion of its own entry, an op that has been
announced has no entry (`no_entry_left`).  What carries it is that an entry, and the insertion that
the dispatcher has in hand, belong to a task that has still to remove it.
-/

namespace Ignis.Dispatcher

open StepSystem

/-- The task has not come to the removal of its entry, and nobody has called it off. -/
def Pending (s : State) (id : ℕ) : Prop :=
  ((∃ on, s.tasks id = .waiting on) ∨ ∃ o, s.tasks id = .woken o) ∧ s.completed id = false

/-- No task removes its entry between the spawn and the insertion. -/
def InsertedFirst (s : State) : Action → Prop
  | .proceed id => s.pc ≠ .insert id
  | _ => True

instance (s : State) (a : Action) : Decidable (InsertedFirst s a) := by
  unfold InsertedFirst
  split <;> infer_instance

/-- The target of the cancel the dispatcher is at work on. -/
def Pc.target : Pc → Option ℕ
  | .abort _ target | .claim _ target | .announce _ target => some target
  | _ => none

structure Tabled (s : State) : Prop where
  listed : ∀ id, s.cancellableTasksByOp.has id = true → Pending s id
  inserting : ∀ id, s.pc = .insert id → Pending s id
  /-- A cancel has taken the entry of its target. -/
  taken : ∀ id ∈ s.pc.target, s.cancellableTasksByOp.has id = false

lemma tabled_init : Tabled init where
  listed := by simp [init]
  inserting := by simp [init]
  taken := by simp [init, Pc.target]

/-- A step of the task of `id`, which may remove its entry. -/
lemma Tabled.task {s s' : State} {id : ℕ} (h : Tabled s)
    (htasks : ∀ i, i ≠ id → s'.tasks i = s.tasks i)
    (hcompleted : ∀ i, i ≠ id → s'.completed i = s.completed i)
    (htable : ∀ i, s'.cancellableTasksByOp.has i = true → s.cancellableTasksByOp.has i = true)
    (hpc : s'.pc = s.pc)
    (hid : s'.cancellableTasksByOp.has id = true ∨ s.pc = .insert id → Pending s' id) :
    Tabled s' := by
  have hkeep : ∀ i, i ≠ id → Pending s i → Pending s' i := by
    intro i hne hi
    unfold Pending
    rw [htasks i hne, hcompleted i hne]
    exact hi
  refine ⟨fun i hi => ?_, fun i hi => ?_, fun i hi => ?_⟩
  · by_cases hne : i = id
    · exact hne ▸ hid (.inl (hne ▸ hi))
    · exact hkeep i hne (h.listed i (htable i hi))
  · rw [hpc] at hi
    by_cases hne : i = id
    · exact hne ▸ hid (.inr (hne ▸ hi))
    · exact hkeep i hne (h.inserting i hi)
  · rw [hpc] at hi
    have hnot := h.taken i hi
    by_contra hhas
    exact absurd (htable i (by simpa using hhas)) (by simp [hnot])

/-- A task that is not pending has no entry and is not about to get one. -/
lemma Tabled.of_not_pending {s : State} (h : Tabled s) {id : ℕ} (hno : ¬ Pending s id) :
    ¬ (s.cancellableTasksByOp.has id = true ∨ s.pc = .insert id) := by
  rintro (hhas | hpc)
  · exact hno (h.listed id hhas)
  · exact hno (h.inserting id hpc)

lemma tabled_wake {s s' : State} (h : Tabled s) {id : ℕ} {o : Outcome}
    (hs : step s (.wake id o) = some s') : Tabled s' := by
  rcases wake_cases hs with ⟨on, ht, rfl⟩ | ⟨ht, rfl⟩
  · refine h.task (fun i hne => Function.update_of_ne hne _ _) (fun _ _ => rfl) (fun _ hi => hi)
      rfl fun hid => ?_
    have hpending : Pending s id := hid.elim (h.listed id) (h.inserting id)
    exact ⟨.inr ⟨o, Function.update_self _ _ _⟩, hpending.2⟩
  · refine h.task (fun i hne => Function.update_of_ne hne _ _) (fun _ _ => rfl) (fun _ hi => hi)
      rfl fun hid => ?_
    exact absurd hid (h.of_not_pending (by simp [Pending, ht]))

lemma tabled_proceed {s s' : State} (h : Tabled s) {id : ℕ} (hfirst : s.pc ≠ .insert id)
    (hs : proceed s id = some s') : Tabled s' := by
  have hproceeds := proceeds_of_proceed hs
  cases hproceeds with
  | unlist ht hlock =>
      refine h.task (fun i hne => Function.update_of_ne hne _ _) (fun _ _ => rfl) (fun i hi => ?_)
        rfl fun hid => ?_
      · exact (OrdMap.has_unset.mp hi).2
      · rcases hid with hhas | hpc
        · exact absurd rfl (OrdMap.has_unset.mp hhas).1
        · exact absurd hpc hfirst
  | claimLost ht hcomp =>
      refine h.task (fun i hne => Function.update_of_ne hne _ _) (fun _ _ => rfl) (fun _ hi => hi)
        rfl fun hid => ?_
      exact absurd hid (h.of_not_pending (by simp [Pending, ht]))
  | claimWon ht hcomp =>
      refine h.task (fun i hne => Function.update_of_ne hne _ _)
        (fun i hne => Function.update_of_ne hne _ _) (fun _ hi => hi) rfl fun hid => ?_
      exact absurd hid (h.of_not_pending (by simp [Pending, ht]))
  | announce ht =>
      refine h.task (fun i hne => Function.update_of_ne hne _ _) (fun _ _ => rfl) (fun _ hi => hi)
        rfl fun hid => ?_
      refine absurd hid (h.of_not_pending ?_)
      rcases ht with ht | ht <;> simp [Pending, ht]

lemma tabled_stop {s s' : State} (hinv : Inv s) (h : Tabled s) {id : ℕ}
    (hs : step s (.stop id) = some s') : Tabled s' := by
  obtain ⟨-, habort, rfl⟩ := stop_cases hs
  refine h.task (fun i hne => Function.update_of_ne hne _ _) (fun _ _ => rfl) (fun _ hi => hi)
    rfl fun hid => ?_
  -- whoever asked for the abort has taken the entry, and either holds the claim or is at it
  rcases hinv.aborting id habort with hcomp | ⟨i, hpc⟩
  · exact absurd hid (h.of_not_pending (by simp [Pending, hcomp]))
  · rcases hid with hhas | hinsert
    · have hnot := h.taken id (by rw [hpc]; rfl)
      exact absurd hhas (by simp [hnot])
    · cases hpc.symm.trans hinsert

/-- The dispatcher has received an op and has spawned its task. -/
lemma tabled_spawn {s : State} (h : Tabled s) (id : ℕ) (on : Wait) :
    Tabled (spawnCancellable s id on) := by
  have hid : Pending (spawnCancellable s id on) id :=
    ⟨.inl ⟨on, Function.update_self _ _ _⟩, Function.update_self _ _ _⟩
  refine ⟨fun i hi => ?_, fun i hi => ?_, nofun⟩
  · by_cases hne : i = id
    · exact hne ▸ hid
    · have hpending : Pending s i := h.listed i hi
      unfold Pending at hpending ⊢
      simpa [spawnCancellable, Function.update_of_ne hne] using hpending
  · obtain rfl := Pc.insert.inj hi
    exact hid

lemma tabled_receive {s : State} {id : ℕ} {op : Op} {rest : List (ℕ × Op)} (hinv : Inv s)
    (h : Tabled s) (hin : s.inbox = (id, op) :: rest) :
    Tabled (receive { s with inbox := rest } id op) := by
  have hrest : Tabled { s with inbox := rest } := ⟨h.listed, h.inserting, h.taken⟩
  cases op with
  | sleep us =>
      cases us with
      | zero => exact ⟨h.listed, h.inserting, h.taken⟩
      | succ us => exact tabled_spawn hrest id .timer
  | watch fd write => exact tabled_spawn hrest id .fd
  | custom =>
      have hun : s.tasks id = .unspawned := (hinv.inbox_unspawned (id, .custom) (by simp [hin])).1
      refine h.task (fun i hne => Function.update_of_ne hne _ _) (fun _ _ => rfl) (fun _ hi => hi)
        rfl fun hid => ?_
      exact absurd hid (h.of_not_pending (by simp [Pending, hun]))
  | cancelWatch target =>
      simp only [receive]
      split
      · refine ⟨fun i hi => h.listed i (OrdMap.has_unset.mp hi).2, by simp, ?_⟩
        rintro i ⟨⟩
        by_contra hhas
        exact absurd rfl (OrdMap.has_unset.mp (by simpa using hhas)).1
      · exact ⟨h.listed, by simp, by simp [Pc.target]⟩

lemma tabled_dispatch {s s' : State} (hinv : Inv s) (h : Tabled s) (hs : dispatch s = some s') :
    Tabled s' := by
  have hdispatches := dispatches_of_dispatch hs
  cases hdispatches with
  | receive _ hin => exact tabled_receive hinv h hin
  | @insert id hpc =>
      refine ⟨fun i hi => ?_, by simp, by simp [Pc.target]⟩
      rcases OrdMap.has_set.mp hi with rfl | hold
      · exact h.inserting i hpc
      · exact h.listed i hold
  | abort hpc =>
      refine ⟨h.listed, by simp, fun i hi => h.taken i ?_⟩
      rwa [hpc]
  | claimLost hpc hcomp => exact ⟨h.listed, by simp, by simp [Pc.target]⟩
  | @claimWon id target hpc hcomp =>
      have hnot := h.taken target (by rw [hpc]; rfl)
      refine ⟨fun i hi => ?_, by simp, fun i hi => h.taken i (by rwa [hpc])⟩
      have hne : i ≠ target := by
        rintro rfl
        exact absurd hi (by simp [hnot])
      have hpending : Pending s i := h.listed i hi
      unfold Pending at hpending ⊢
      simpa [Function.update_of_ne hne] using hpending
  | announce hpc | ack hpc => exact ⟨h.listed, by simp, by simp [Pc.target]⟩

/-- **The step lemma.** -/
theorem Tabled.step {s s' : State} {a : Action} (hinv : Inv s) (h : Tabled s)
    (hfirst : InsertedFirst s a) (hs : step s a = some s') : Tabled s' := by
  cases a with
  | submit | reserve =>
      obtain rfl := Option.some.inj hs
      exact ⟨h.listed, h.inserting, h.taken⟩
  | dispatch => exact tabled_dispatch hinv h hs
  | wake => exact tabled_wake h hs
  | proceed => exact tabled_proceed h hfirst hs
  | stop => exact tabled_stop hinv h hs

/-- An op that has been announced is owed nothing more. -/
lemma Tabled.not_listed {s : State} (hinv : Inv s) (h : Tabled s) {id : ℕ}
    (hsent : id ∈ s.sent.map Completion.id) : s.cancellableTasksByOp.has id = false := by
  by_contra hhas
  obtain ⟨htask, hcomp⟩ := h.listed id (by simpa using hhas)
  have howes : (s.tasks id).owes (s.completed id) = 1 := by
    rcases htask with ⟨on, ht⟩ | ⟨o, ht⟩ <;> simp [ht, hcomp, Task.owes]
  have hcount : 0 < sentCount s id := List.count_pos_iff.mpr hsent
  have hconserved := hinv.conserved id
  rw [owed, howes] at hconserved
  split_ifs at hconserved
  omega

/-- **No entry stays behind.** -/
theorem no_entry_left {s : State} {as : List Action} (h : runFrom step init as = some s)
    (hfirst : Along step InsertedFirst init as) {id : ℕ}
    (hsent : id ∈ s.sent.map Completion.id) : s.cancellableTasksByOp.has id = false := by
  have hboth : Inv s ∧ Tabled s :=
    invariant_of_step step (I := fun s => Inv s ∧ Tabled s)
      (fun s a s' hI hok hs => ⟨inv_step hI.1 hs, hI.2.step hI.1 hok hs⟩)
      ⟨inv_init, tabled_init⟩ hfirst h
  exact hboth.2.not_listed hboth.1 hsent

/-- A timer that is inserted, fires and is announced. -/
theorem no_entry_left_timer : ∃ s,
    runFrom step init [.submit (.sleep 5), .dispatch, .dispatch, .wake 1 (.slept 3), .proceed 1,
      .proceed 1, .proceed 1] = some s ∧ s.cancellableTasksByOp.has 1 = false :=
  ⟨_, rfl, @no_entry_left _ [.submit (.sleep 5), .dispatch, .dispatch, .wake 1 (.slept 3),
    .proceed 1, .proceed 1, .proceed 1] rfl (by decide) 1 (by decide)⟩

/-- The task of op 1 runs to its end before the dispatcher inserts the entry.  The op is announced,
nobody holds it any more, and the entry is there. -/
theorem entry_left_behind : ∃ s,
    runFrom step init [.submit (.sleep 1), .dispatch, .wake 1 (.slept 0), .proceed 1, .proceed 1,
      .proceed 1, .dispatch] = some s ∧
    Processed s 1 ∧ (s.tasks 1).dead ∧ 1 ∈ s.sent.map Completion.id ∧
    s.cancellableTasksByOp.has 1 = true :=
  ⟨_, rfl, ⟨by decide, by decide, by decide, fun h => h⟩, trivial, by decide, rfl⟩

end Ignis.Dispatcher
