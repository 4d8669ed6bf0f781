import Ignis.Reactor.Dispatcher

/-!
# Exactly one completion per submitted op

Each step of the dispatcher or of a task moves an obligation from one party to another, or turns
it into a completion.  The step lemmas below check this party by party; `inv_step` collects them,
and the invariant rule carries the law to every interleaving.
-/

namespace Ignis.Dispatcher

open StepSystem

/-! ## Small facts about the pieces -/

@[simp] lemma sentCount_send (s : State) (i id : ℕ) (o : Outcome) :
    sentCount (send s i o) id = sentCount s id + if i = id then 1 else 0 := by
  simp [sentCount, send, List.count_cons]

@[simp] lemma owed_send (s : State) (i id : ℕ) (o : Outcome) :
    owed (send s i o) id = owed s id := rfl

lemma Task.owes_of_cancellable {t : Task} (h : t.cancellable false) : t.owes false = 1 := by
  cases t <;> simp_all [Task.cancellable, Task.owes]

lemma Task.owes_of_completed {t : Task} (h : t.cancellable false) : t.owes true = 0 := by
  cases t <;> simp_all [Task.cancellable, Task.owes]

/-- A taken claim stays a reason not to announce. -/
lemma Task.cancellable_true {t : Task} {c : Bool} (h : t.cancellable c) : t.cancellable true := by
  cases t <;> simp_all [Task.cancellable]

/-- A step that moves obligations around and creates none keeps the law. -/
lemma Conserved.of_eq {s s' : State} (h : Conserved s) (hsub : s'.submitted = s.submitted)
    (heq : ∀ id, sentCount s' id + owed s' id = sentCount s id + owed s id) : Conserved s' := by
  intro id
  rw [heq id, hsub]
  exact h id

theorem inv_init : Inv init where
  conserved := fun id => by simp [sentCount, owed, init, Pc.owes, Task.owes]
  submitted_lt := by simp [init]
  inbox_unspawned := by simp [init]
  spawned_submitted := by simp [init]
  inbox_nodup := by simp [init]
  listed := by simp [init]
  handled := by simp [init, Pc.handles]
  aborting := by simp [init]
  stopped := by simp [init]

/-! ## Steps outside the dispatcher -/

lemma inv_submit {s : State} (h : Inv s) (op : Op) :
    Inv { s with
      nextId := s.nextId + 1
      inbox := s.inbox ++ [(s.nextId, op)]
      submitted := s.submitted ++ [s.nextId] } := by
  have fresh : s.nextId ∉ s.submitted := fun hm => absurd (h.submitted_lt _ hm) (Nat.lt_irrefl _)
  have unspawned : s.tasks s.nextId = .unspawned := by
    by_contra hne
    exact fresh (h.spawned_submitted _ hne)
  refine { h with
    conserved := ?_, submitted_lt := ?_, inbox_unspawned := ?_, spawned_submitted := ?_,
    inbox_nodup := ?_ }
  · intro id
    have hc := h.conserved id
    by_cases hid : s.nextId = id
    · subst hid
      simp only [fresh, if_false] at hc
      simp only [sentCount, owed, List.map_append, List.map_cons, List.map_nil, List.count_append,
        List.count_singleton_self, List.mem_append, List.mem_singleton, or_true, if_true] at hc ⊢
      omega
    · have hid' : ¬ id = s.nextId := fun e => hid e.symm
      simp only [sentCount, owed, List.map_append, List.map_cons, List.map_nil, List.count_append,
        List.count_cons, List.count_nil, beq_iff_eq, hid, hid', List.mem_append, List.mem_singleton,
        or_false, if_false] at hc ⊢
      omega
  · intro id hid
    rcases List.mem_append.mp hid with hid | hid
    · exact Nat.lt_succ_of_lt (h.submitted_lt _ hid)
    · rw [List.mem_singleton.mp hid]
      exact Nat.lt_succ_self _
  · intro p hp
    rcases List.mem_append.mp hp with hp | hp
    · exact ⟨(h.inbox_unspawned p hp).1, List.mem_append_left _ (h.inbox_unspawned p hp).2⟩
    · simp only [List.mem_singleton] at hp
      subst hp
      exact ⟨unspawned, by simp⟩
  · exact fun id hid => List.mem_append_left _ (h.spawned_submitted id hid)
  · have hnot : s.nextId ∉ s.inbox.map Prod.fst := by
      intro hm
      obtain ⟨p, hp, he⟩ := List.mem_map.mp hm
      exact fresh (he ▸ (h.inbox_unspawned p hp).2)
    simp only [List.map_append, List.map_cons, List.map_nil]
    exact List.Nodup.append h.inbox_nodup (by simp) (by simpa using hnot)

lemma inv_reserve {s : State} (h : Inv s) : Inv { s with nextId := s.nextId + 1 } :=
  { h with submitted_lt := fun id hid => Nat.lt_succ_of_lt (h.submitted_lt id hid) }

/-- Moving the task of `id` on.  The step may take the claim (`c`), may send (`sends`), and may
drop the entry of the table; the obligation of `id` has to be carried over by the new task state,
and a task that an entry or the dispatcher still refers to has to stay cancellable. -/
lemma inv_task {s s' : State} {id : ℕ} {t : Task} {c : Bool} (h : Inv s)
    (htasks : s'.tasks = Function.update s.tasks id t)
    (hcompleted : s'.completed = Function.update s.completed id c)
    (hold : s.tasks id ≠ .unspawned) (hmono : s.completed id = true → c = true)
    (howes : sentCount s' id + t.owes c = sentCount s id + (s.tasks id).owes (s.completed id))
    (hother : ∀ i, i ≠ id → sentCount s' i = sentCount s i)
    (hcanc : (s.tasks id).cancellable (s.completed id) → t.cancellable c)
    (hstop : t = .aborted → s.abortRequested id = true)
    (htable : ∀ i, s'.cancellableTasksByOp.has i = true → s.cancellableTasksByOp.has i = true)
    (hpc : s'.pc = s.pc) (hinbox : s'.inbox = s.inbox)
    (habort : s'.abortRequested = s.abortRequested) (hsub : s'.submitted = s.submitted)
    (hnext : s'.nextId = s.nextId) : Inv s' := by
  have keep : ∀ i, (s.tasks i).cancellable (s.completed i) →
      (s'.tasks i).cancellable (s'.completed i) := by
    intro i hi
    rw [htasks, hcompleted]
    by_cases e : i = id
    · subst e
      simpa using hcanc hi
    · simpa [Function.update_of_ne e] using hi
  refine ⟨?_, ?_, ?_, ?_, ?_, ?_, ?_, ?_, ?_⟩
  · intro i
    have hc := h.conserved i
    rw [hsub]
    simp only [owed, hinbox, hpc, htasks, hcompleted] at hc ⊢
    by_cases e : i = id
    · subst e
      simp only [Function.update_self]
      omega
    · simp only [Function.update_of_ne e, hother i e]
      omega
  · rw [hsub, hnext]
    exact h.submitted_lt
  · intro p hp
    rw [hinbox] at hp
    obtain ⟨hu, hm⟩ := h.inbox_unspawned p hp
    have e : p.1 ≠ id := by
      rintro e
      exact hold (e ▸ hu)
    rw [htasks, Function.update_of_ne e, hsub]
    exact ⟨hu, hm⟩
  · intro i hi
    rw [hsub]
    by_cases e : i = id
    · exact e ▸ h.spawned_submitted id hold
    · rw [htasks, Function.update_of_ne e] at hi
      exact h.spawned_submitted i hi
  · rw [hinbox]
    exact h.inbox_nodup
  · exact fun i hi => keep i (h.listed i (htable i hi))
  · intro i hi
    rw [hpc] at hi
    exact keep i (h.handled i hi)
  · intro i hi
    rw [habort] at hi
    rw [hpc, hcompleted]
    rcases h.aborting i hi with hc | hc
    · left
      by_cases e : i = id
      · subst e
        simpa using hmono hc
      · simpa [Function.update_of_ne e] using hc
    · exact Or.inr hc
  · intro i hi
    rw [htasks] at hi
    rw [habort]
    by_cases e : i = id
    · subst e
      exact hstop (by simpa using hi)
    · rw [Function.update_of_ne e] at hi
      exact h.stopped i hi

/-- A task that keeps its claim and sends nothing moves on. -/
lemma inv_taskMoves {s s' : State} {id : ℕ} {t : Task} (h : Inv s)
    (hs' : s' = { s with
      tasks := Function.update s.tasks id t, cancellableTasksByOp := s'.cancellableTasksByOp })
    (hold : s.tasks id ≠ .unspawned)
    (howes : t.owes (s.completed id) = (s.tasks id).owes (s.completed id))
    (hcanc : (s.tasks id).cancellable (s.completed id) → t.cancellable (s.completed id))
    (hstop : t = .aborted → s.abortRequested id = true)
    (htable : ∀ i, s'.cancellableTasksByOp.has i = true → s.cancellableTasksByOp.has i = true) :
    Inv s' := by
  have hsent : ∀ i, sentCount s' i = sentCount s i := fun i => by rw [hs']; rfl
  refine inv_task (t := t) (c := s.completed id) h (by rw [hs']) ?_ hold (fun hc => hc) ?_
    (fun i _ => hsent i) hcanc hstop htable (by rw [hs']) (by rw [hs']) (by rw [hs']) (by rw [hs'])
    (by rw [hs'])
  · rw [Function.update_eq_self, hs']
  · rw [hsent, howes]

lemma inv_wake {s s' : State} (h : Inv s) {id : ℕ} {o : Outcome}
    (hs : step s (.wake id o) = some s') : Inv s' := by
  rcases wake_cases hs with ⟨on, ht, rfl⟩ | ⟨ht, rfl⟩
  · exact inv_taskMoves (t := .woken o) h rfl (by simp [ht]) (by simp [ht, Task.owes])
      (fun _ => trivial) (by simp) fun _ hi => hi
  · exact inv_taskMoves (t := .customDone o) h rfl (by simp [ht]) (by simp [ht, Task.owes])
      (by simp [ht, Task.cancellable]) (by simp) fun _ hi => hi

lemma inv_stop {s s' : State} (h : Inv s) {id : ℕ} (hs : step s (.stop id) = some s') : Inv s' := by
  obtain ⟨⟨on, ht⟩, habort, rfl⟩ := stop_cases hs
  exact inv_taskMoves (t := .aborted) h rfl (by simp [ht]) (by simp [ht, Task.owes])
    (fun _ => trivial) (fun _ => habort) fun _ hi => hi

/-- A task that has nothing left to decide sends its outcome and ends. -/
lemma inv_taskSends {s : State} {id : ℕ} {o : Outcome} (h : Inv s) (hold : s.tasks id ≠ .unspawned)
    (howes : (s.tasks id).owes (s.completed id) = 1)
    (hcanc : (s.tasks id).cancellable (s.completed id) → s.completed id = true) :
    Inv { send s id o with tasks := Function.update s.tasks id .finished } := by
  refine inv_task (t := .finished) (c := s.completed id) h rfl (by simp [send]) hold (fun hc => hc)
    ?_ ?_ hcanc (by simp) (fun _ hi => hi) rfl rfl rfl rfl rfl
  · rw [howes]
    simp [sentCount, send, Task.owes]
  · intro i hi
    simp [sentCount, send, Ne.symm hi]

/-- The task's side of the race: whoever swaps first sends. -/
lemma inv_proceed {s s' : State} (h : Inv s) {id : ℕ} (hs : proceed s id = some s') : Inv s' := by
  cases proceeds_of_proceed hs with
  | @unlist o ht hlock =>
      exact inv_taskMoves (t := .unlisted o) h rfl (by simp [ht]) (by simp [ht, Task.owes])
        (fun _ => trivial) (by simp) fun _ hi => (OrdMap.has_unset.mp hi).2
  | claimLost ht hcomp =>
      exact inv_taskMoves (t := .finished) h rfl (by simp [ht]) (by simp [ht, hcomp, Task.owes])
        (fun _ => hcomp) (by simp) fun _ hi => hi
  | @claimWon o ht hcomp =>
      refine inv_task (t := .claimed o) (c := true) h rfl rfl (by simp [ht]) (fun _ => rfl) ?_
        (fun _ _ => rfl) (fun _ => rfl) (by simp) (fun _ hi => hi) rfl rfl rfl rfl rfl
      simp [sentCount, ht, hcomp, Task.owes]
  | announce ht =>
      rcases ht with ht | ht
      · exact inv_taskSends h (by simp [ht]) (by simp [ht, Task.owes])
          (by simp [ht, Task.cancellable])
      · exact inv_taskSends h (by simp [ht]) (by simp [ht, Task.owes])
          (by simp [ht, Task.cancellable])

/-! ## Steps of the dispatcher -/

/-- A task that is called off is completed, but for the moment before the claim is looked at. -/
lemma Inv.completed_of_abort {s : State} (h : Inv s) {i : ℕ} (hpc : ∀ j, s.pc ≠ .claim j i)
    (hi : s.abortRequested i = true) : s.completed i = true := by
  rcases h.aborting i hi with hc | ⟨j, hj⟩
  · exact hc
  · exact absurd hj (hpc j)

/-- Spawning a cancellable task turns the obligation of the inbox into one of the task. -/
lemma inv_spawnCancellable {s : State} {id : ℕ} {op : Op} {rest : List (ℕ × Op)} (h : Inv s)
    (hpc : s.pc = .recv) (hin : s.inbox = (id, op) :: rest) (on : Wait) :
    Inv (spawnCancellable { s with inbox := rest } id on) := by
  obtain ⟨hun, hsub⟩ := h.inbox_unspawned (id, op) (by simp [hin])
  have hnd := h.inbox_nodup
  rw [hin, List.map_cons, List.nodup_cons] at hnd
  refine ⟨h.conserved.of_eq rfl ?_, h.submitted_lt, ?_, ?_, hnd.2, ?_, ?_, ?_, ?_⟩
  · intro i
    simp only [owed, sentCount, spawnCancellable, hpc, hin, Pc.owes, List.map_cons,
      List.count_cons, beq_iff_eq]
    by_cases e : i = id
    · subst e
      simp only [hun, Task.owes, if_true, Function.update_self, Bool.false_eq_true, if_false]
    · simp only [Function.update_of_ne e, Ne.symm e, if_false]
  · intro p (hp : p ∈ rest)
    have e : p.1 ≠ id := fun e => hnd.1 (List.mem_map.mpr ⟨p, hp, e⟩)
    simpa [spawnCancellable, Function.update_of_ne e] using
      h.inbox_unspawned p (by simp [hin, hp])
  · intro i hi
    by_cases e : i = id
    · exact e ▸ hsub
    · refine h.spawned_submitted i ?_
      simpa [spawnCancellable, Function.update_of_ne e] using hi
  · intro i hi
    by_cases e : i = id
    · subst e
      simp [spawnCancellable, Task.cancellable]
    · simpa [spawnCancellable, Function.update_of_ne e] using h.listed i hi
  · intro i hi
    have e : id = i := hi
    subst e
    simp [spawnCancellable, Task.cancellable]
  · intro i hi
    by_cases e : i = id
    · subst e
      simp [spawnCancellable] at hi
    · have hi' : s.abortRequested i = true := by
        simpa [spawnCancellable, Function.update_of_ne e] using hi
      have hold := h.completed_of_abort (by simp [hpc]) hi'
      exact Or.inl (by simpa [spawnCancellable, Function.update_of_ne e] using hold)
  · intro i hi
    by_cases e : i = id
    · subst e
      simp [spawnCancellable] at hi
    · simp only [spawnCancellable, Function.update_of_ne e] at hi ⊢
      exact h.stopped i hi

/-- Receiving an op that spawns no cancellable task: the id leaves the inbox, and its obligation is
met at once, handed to a custom task, or kept by the dispatcher. -/
lemma inv_receive {s : State} {id : ℕ} {op : Op} {rest : List (ℕ × Op)} (h : Inv s)
    (hpc : s.pc = .recv) (hin : s.inbox = (id, op) :: rest) :
    Inv (receive { s with inbox := rest } id op) := by
  obtain ⟨hun, hsub⟩ := h.inbox_unspawned (id, op) (by simp [hin])
  have hnd := h.inbox_nodup
  rw [hin, List.map_cons, List.nodup_cons] at hnd
  have tail : ∀ p ∈ rest, s.tasks p.1 = .unspawned ∧ p.1 ∈ s.submitted :=
    fun p hp => h.inbox_unspawned p (by simp [hin, hp])
  have quiet : ∀ i, s.abortRequested i = true → s.completed i = true :=
    fun i => h.completed_of_abort (by simp [hpc])
  cases op with
  | sleep us =>
      cases us with
      | zero =>
          refine { h with
            conserved := h.conserved.of_eq rfl ?_, inbox_unspawned := tail, inbox_nodup := hnd.2 }
          intro i
          simp only [receive, sentCount_send, owed_send]
          simp only [owed, sentCount, hpc, hin, Pc.owes, List.map_cons, List.count_cons,
            beq_iff_eq]
          omega
      | succ us => exact inv_spawnCancellable h hpc hin .timer
  | watch fd write => exact inv_spawnCancellable h hpc hin .fd
  | custom =>
      have other : ∀ i, i ≠ id → Function.update s.tasks id .custom i = s.tasks i :=
        fun i e => Function.update_of_ne e _ _
      refine { h with
        conserved := h.conserved.of_eq rfl ?_, inbox_unspawned := ?_, spawned_submitted := ?_,
        inbox_nodup := hnd.2, listed := ?_, handled := ?_, stopped := ?_ }
      · intro i
        simp only [receive, owed, sentCount, hpc, hin, Pc.owes, List.map_cons, List.count_cons,
          beq_iff_eq]
        by_cases e : i = id
        · subst e
          simp only [hun, Task.owes, if_true, Function.update_self]
        · simp only [other i e, Ne.symm e, if_false]
      · intro p hp
        have e : p.1 ≠ id := fun e => hnd.1 (List.mem_map.mpr ⟨p, hp, e⟩)
        simpa [receive, other _ e] using tail p hp
      · intro i hi
        by_cases e : i = id
        · exact e ▸ hsub
        · exact h.spawned_submitted i (by simpa [receive, other i e] using hi)
      · intro i hi
        have hl := h.listed i hi
        have e : i ≠ id := by
          rintro rfl
          simp [hun, Task.cancellable] at hl
        simpa [receive, other i e] using hl
      · intro i hi
        simp [receive, hpc, Pc.handles] at hi
      · intro i hi
        have e : i ≠ id := by
          rintro rfl
          simp [receive] at hi
        exact h.stopped i (by simpa [receive, other i e] using hi)
  | cancelWatch target =>
      simp only [receive]
      split
      · rename_i hhas
        refine { h with
          conserved := h.conserved.of_eq rfl ?_, inbox_unspawned := tail, inbox_nodup := hnd.2,
          listed := ?_, handled := ?_, aborting := ?_ }
        · intro i
          simp only [owed, sentCount, hpc, hin, Pc.owes, List.map_cons, List.count_cons,
            beq_iff_eq]
          omega
        · exact fun i hi => h.listed i (OrdMap.has_unset.mp hi).2
        · rintro i rfl
          exact h.listed target hhas
        · exact fun i hi => Or.inl (quiet i hi)
      · refine { h with
          conserved := h.conserved.of_eq rfl ?_, inbox_unspawned := tail, inbox_nodup := hnd.2,
          handled := ?_, aborting := ?_ }
        · intro i
          simp only [owed, sentCount, hpc, hin, Pc.owes, List.map_cons, List.count_cons,
            beq_iff_eq]
          omega
        · exact fun i hi => absurd hi (by simp [Pc.handles])
        · exact fun i hi => Or.inl (quiet i hi)

/-- The dispatcher's side of the race. -/
lemma inv_dispatch {s s' : State} (h : Inv s) (hs : dispatch s = some s') : Inv s' := by
  cases dispatches_of_dispatch hs with
  | receive hpc hin => exact inv_receive h hpc hin
  | @insert id hpc =>
      refine { h with conserved := ?_, listed := ?_, handled := ?_, aborting := ?_ }
      · exact h.conserved.of_eq rfl fun i => by simp [owed, sentCount, hpc, Pc.owes]
      · intro i hi
        rcases OrdMap.has_set.mp hi with e | hi
        · exact h.handled i (by simp [hpc, Pc.handles, e])
        · exact h.listed i hi
      · exact fun i hi => absurd hi (by simp [Pc.handles])
      · exact fun i hi => Or.inl (h.completed_of_abort (by simp [hpc]) hi)
  | @abort id target hpc =>
      refine { h with conserved := ?_, handled := ?_, aborting := ?_, stopped := ?_ }
      · exact h.conserved.of_eq rfl fun i => by simp [owed, sentCount, hpc, Pc.owes]
      · rintro i rfl
        exact h.handled target (by simp [hpc, Pc.handles])
      · intro i hi
        by_cases e : i = target
        · exact Or.inr ⟨id, by rw [e]⟩
        · simp only [Function.update_of_ne e] at hi
          exact Or.inl (h.completed_of_abort (by simp [hpc]) hi)
      · intro i hi
        by_cases e : i = target
        · simp [e]
        · simpa [Function.update_of_ne e] using h.stopped i hi
  | @claimLost id target hpc hcomp =>
      refine { h with conserved := ?_, handled := ?_, aborting := ?_ }
      · exact h.conserved.of_eq rfl fun i => by simp [owed, sentCount, hpc, Pc.owes]
      · exact fun i hi => absurd hi (by simp [Pc.handles])
      · intro i hi
        by_cases e : i = target
        · exact Or.inl (e ▸ hcomp)
        · exact Or.inl (h.completed_of_abort (by simp [hpc, Ne.symm e]) hi)
  | @claimWon id target hpc hcomp =>
      have hcanc := h.handled target (by simp [hpc, Pc.handles])
      rw [hcomp] at hcanc
      refine { h with conserved := ?_, listed := ?_, handled := ?_, aborting := ?_ }
      · refine h.conserved.of_eq rfl fun i => ?_
        simp only [owed, sentCount, hpc, Pc.owes]
        by_cases e : i = target
        · subst e
          simp only [hcomp, Task.owes_of_cancellable hcanc, Function.update_self,
            Task.owes_of_completed hcanc, if_true]
          omega
        · simp only [Function.update_of_ne e, Ne.symm e, if_false]
          omega
      · intro i hi
        by_cases e : i = target
        · subst e
          simpa using Task.cancellable_true hcanc
        · simpa [Function.update_of_ne e] using h.listed i hi
      · exact fun i hi => absurd hi (by simp [Pc.handles])
      · intro i hi
        by_cases e : i = target
        · exact Or.inl (by simp [e])
        · have hold := h.completed_of_abort (by simp [hpc, Ne.symm e]) hi
          exact Or.inl (by simpa [Function.update_of_ne e] using hold)
  | @announce id target hpc =>
      refine { h with conserved := ?_, handled := ?_, aborting := ?_ }
      · refine h.conserved.of_eq rfl fun i => ?_
        have hsend := sentCount_send s target i cancelledError
        simp only [owed, sentCount, send, hpc, Pc.owes] at hsend ⊢
        omega
      · exact fun i hi => absurd hi (by simp [Pc.handles])
      · exact fun i hi => Or.inl (h.completed_of_abort (by simp [hpc]) hi)
  | @ack id hpc =>
      refine { h with conserved := ?_, handled := ?_, aborting := ?_ }
      · refine h.conserved.of_eq rfl fun i => ?_
        have hsend := sentCount_send s id i cancelledError
        simp only [owed, sentCount, send, hpc, Pc.owes] at hsend ⊢
        omega
      · exact fun i hi => absurd hi (by simp [Pc.handles])
      · exact fun i hi => Or.inl (h.completed_of_abort (by simp [hpc]) hi)

/-! ## Runs -/

theorem inv_step {s s' : State} {a : Action} (h : Inv s) (hs : step s a = some s') : Inv s' := by
  cases a with
  | submit op => exact Option.some.inj hs ▸ inv_submit h op
  | reserve => exact Option.some.inj hs ▸ inv_reserve h
  | dispatch => exact inv_dispatch h hs
  | wake id o => exact inv_wake h hs
  | proceed id => exact inv_proceed h hs
  | stop id => exact inv_stop h hs

theorem inv_run {s : State} {as : List Action} (h : runFrom step init as = some s) : Inv s :=
  invariant_of_run step (fun _ _ _ => inv_step) inv_init h

/-- The dispatcher is done with `id`: it has received the op, and it is neither in the middle of
handling it nor in the middle of a cancel that took its entry out of the table. -/
def Processed (s : State) (id : ℕ) : Prop :=
  id ∈ s.submitted ∧ (∀ p ∈ s.inbox, p.1 ≠ id) ∧ s.pc.owes id = 0 ∧ ¬ s.pc.handles id

/-- No task of `id` will take another step. -/
def Task.dead : Task → Prop
  | .unspawned | .finished | .aborted => True
  | _ => False

lemma sentCount_of_dead {s : State} {id : ℕ} (hinv : Inv s) (hprocessed : Processed s id)
    (hdead : (s.tasks id).dead) : sentCount s id = 1 := by
  obtain ⟨hsub, hin, hpc, hhandles⟩ := hprocessed
  have hc := hinv.conserved id
  have hin' : (s.inbox.map Prod.fst).count id = 0 := by
    rw [List.count_eq_zero]
    intro hm
    obtain ⟨p, hp, he⟩ := List.mem_map.mp hm
    exact hin p hp he
  have htask : (s.tasks id).owes (s.completed id) = 0 := by
    cases ht : s.tasks id with
    | aborted =>
        -- an aborted task was called off by a cancel, and that cancel has taken the claim
        rcases hinv.aborting id (hinv.stopped id ht) with hcomp | ⟨i, hi⟩
        · simp [Task.owes, hcomp]
        · exact absurd (by simp [hi, Pc.handles]) hhandles
    | unspawned | finished => rfl
    | _ => simp [ht, Task.dead] at hdead
  rw [if_pos hsub, owed, hin', hpc, htask] at hc
  omega

/-! ## Past the last await -/

/-- The task has its outcome: nothing stops it any more. -/
def Task.pastAwait : Task → Bool
  | .woken _ | .unlisted _ | .claimed _ | .customDone _ | .finished => true
  | .unspawned | .waiting _ | .custom | .aborted => false

/-- The steps a task has left before it ends. -/
def Task.left : Task → ℕ
  | .woken _ => 3
  | .unlisted _ => 2
  | .claimed _ | .customDone _ => 1
  | _ => 0

/-- The steps the dispatcher has left before it receives again. -/
def Pc.left : Pc → ℕ
  | .recv => 0
  | .insert _ | .ack _ => 1
  | .announce _ _ => 2
  | .claim _ _ => 3
  | .abort _ _ => 4

/-- Between two `recv`s the dispatcher waits for nobody. -/
lemma dispatch_goes {s : State} (hpc : s.pc ≠ .recv) :
    ∃ s', dispatch s = some s' ∧ s'.tasks = s.tasks ∧ s'.pc.left < s.pc.left := by
  cases h : s.pc with
  | recv => exact absurd h hpc
  | insert id => exact ⟨_, by simp only [dispatch, h]; rfl, by rfl, by simp [Pc.left]⟩
  | abort id target => exact ⟨_, by simp only [dispatch, h]; rfl, by rfl, by simp [Pc.left]⟩
  | claim id target =>
      cases hcomp : s.completed target with
      | true =>
          refine ⟨{ s with pc := .ack id }, ?_, rfl, by simp [Pc.left]⟩
          simp [dispatch, h, hcomp]
      | false =>
          refine ⟨{ s with
            completed := Function.update s.completed target true
            pc := .announce id target }, ?_, rfl, by simp [Pc.left]⟩
          simp [dispatch, h, hcomp]
  | announce id target => exact ⟨_, by simp only [dispatch, h]; rfl, by rfl, by simp [Pc.left]⟩
  | ack id => exact ⟨_, by simp only [dispatch, h]; rfl, by rfl, by simp [Pc.left]⟩

/-- While nobody holds the table, a task that has its outcome goes on. -/
lemma proceed_goes {s : State} {id : ℕ} (hpc : s.pc = .recv)
    (hpast : (s.tasks id).pastAwait = true) (hnot : s.tasks id ≠ .finished) :
    ∃ s', proceed s id = some s' ∧ s'.pc = .recv ∧ (s'.tasks id).pastAwait = true ∧
      (s'.tasks id).left < (s.tasks id).left := by
  cases ht : s.tasks id with
  | woken o =>
      refine ⟨{ s with
        cancellableTasksByOp := s.cancellableTasksByOp.unset id
        tasks := Function.update s.tasks id (.unlisted o) }, ?_, hpc, ?_, ?_⟩
      · simp [proceed, ht, hpc, Pc.locked]
      · simp [Task.pastAwait]
      · simp [Task.left]
  | unlisted o =>
      cases hcomp : s.completed id with
      | true =>
          refine ⟨{ s with tasks := Function.update s.tasks id .finished }, ?_, hpc, ?_, ?_⟩
          · simp [proceed, ht, hcomp]
          · simp [Task.pastAwait]
          · simp [Task.left]
      | false =>
          refine ⟨{ s with
            completed := Function.update s.completed id true
            tasks := Function.update s.tasks id (.claimed o) }, ?_, hpc, ?_, ?_⟩
          · simp [proceed, ht, hcomp]
          · simp [Task.pastAwait]
          · simp [Task.left]
  | claimed o | customDone o =>
      refine ⟨{ send s id o with tasks := Function.update s.tasks id .finished }, ?_, hpc, ?_, ?_⟩
      · simp [proceed, ht]
      · simp [Task.pastAwait]
      · simp [Task.left]
  | finished => exact absurd ht hnot
  | unspawned | waiting | custom | aborted => simp [ht, Task.pastAwait] at hpast

/-- A task that is past its last await can run to its end, whatever the dispatcher was doing. -/
lemma finishes_of_pastAwait {s : State} {id : ℕ} (hinv : Inv s)
    (hpast : (s.tasks id).pastAwait = true) :
    ∃ as s', (∀ a ∈ as, a = .dispatch ∨ a = .proceed id) ∧ runFrom step s as = some s' ∧
      s'.tasks id = .finished ∧ sentCount s' id = 1 := by
  obtain ⟨as, s', has, hrun, ⟨hinv', -⟩, hpc, hdone⟩ := reaches_of_rank step
    (I := fun u => Inv u ∧ (u.tasks id).pastAwait = true)
    (Q := fun u => u.pc = .recv ∧ u.tasks id = .finished)
    (A := fun a => a = .dispatch ∨ a = .proceed id) (fun u => u.pc.left + (u.tasks id).left)
    (fun u hu hnot => by
      obtain ⟨hinv, hpast⟩ := hu
      by_cases hpc : u.pc = .recv
      · obtain ⟨u', hstep, hpc', hpast', hlt⟩ :=
          proceed_goes hpc hpast fun hdone => hnot ⟨hpc, hdone⟩
        refine ⟨.proceed id, u', .inr rfl, hstep,
          ⟨inv_step (a := .proceed id) hinv hstep, hpast'⟩, ?_⟩
        rw [hpc, hpc']
        omega
      · obtain ⟨u', hstep, htasks, hlt⟩ := dispatch_goes hpc
        refine ⟨.dispatch, u', .inl rfl, hstep,
          ⟨inv_step (a := .dispatch) hinv hstep, htasks ▸ hpast⟩, ?_⟩
        rw [htasks]
        omega)
    ⟨hinv, hpast⟩
  refine ⟨as, s', has, hrun, hdone, sentCount_of_dead hinv' ⟨?_, fun p hp hid => ?_, ?_, ?_⟩ ?_⟩
  · exact hinv'.spawned_submitted id (by simp [hdone])
  · have hunspawned := (hinv'.inbox_unspawned p hp).1
    rw [hid, hdone] at hunspawned
    cases hunspawned
  · simp [hpc, Pc.owes]
  · simp [hpc, Pc.handles]
  · simp [hdone, Task.dead]

/-- **Exactly once.**  Under every interleaving of submissions, the dispatcher, the tasks it
spawned and the cancels that name any id any number of times, no id is announced twice; an op
the dispatcher is done with and that has no live task has been announced; and a task that is past
its last await can always run to its end, with its op announced. -/
theorem sentCount_exactly_once {s : State} {as : List Action} (h : runFrom step init as = some s) :
    (∀ id, sentCount s id ≤ 1)
      ∧ (∀ id, Processed s id → (s.tasks id).dead → sentCount s id = 1)
      ∧ ∀ id, (s.tasks id).pastAwait = true →
        ∃ bs s', (∀ b ∈ bs, b = .dispatch ∨ b = .proceed id) ∧ runFrom step s bs = some s' ∧
          s'.tasks id = .finished ∧ sentCount s' id = 1 := by
  have hinv := inv_run h
  refine ⟨fun id => ?_, fun id => sentCount_of_dead hinv, fun id => finishes_of_pastAwait hinv⟩
  have hc := hinv.conserved id
  split_ifs at hc <;> omega

/-- The narrow race: the timer of op 1 fires before the dispatcher has inserted its entry, and a
cancel then finds the stale entry of a task that is between its removal and its swap. -/
def staleEntryRace : List Action :=
  [.submit (.sleep 5), .submit (.cancelWatch 1), .dispatch, .wake 1 (.slept 3), .proceed 1,
    .dispatch, .dispatch, .dispatch, .proceed 1, .dispatch, .dispatch, .proceed 1]

/-- In that race the task wins the swap, and the op it belongs to is announced once. -/
theorem staleEntryRace_exactly_once :
    ∃ s, runFrom step init staleEntryRace = some s ∧ sentCount s 1 = 1 ∧ sentCount s 2 ≤ 1 := by
  refine ⟨_, rfl, ?_, ?_⟩
  · have hrun : runFrom step init staleEntryRace = some _ := rfl
    exact (sentCount_exactly_once hrun).2.1 1 ⟨by decide, by decide, by decide, fun h => h⟩ trivial
  · have hrun : runFrom step init staleEntryRace = some _ := rfl
    exact (sentCount_exactly_once hrun).1 2

end Ignis.Dispatcher
