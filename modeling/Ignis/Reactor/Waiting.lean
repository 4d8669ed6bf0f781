import Mathlib.Algebra.GroupWithZero.Nat
import Mathlib.Algebra.Order.BigOperators.Group.List
import Mathlib.Algebra.Order.Group.Nat
import Ignis.Reactor.CallIds

/-!
# Ops that wait

An op is in flight until its completion is sent.  Most of what the dispatcher and the tasks do comes
to an end by itself; only a timer, a descriptor or a future waits for something outside, and may
wait for ever.  `Waits` says of which ops this is so: those that a task waits for, or will, and that
nobody has called off.

Two facts make it useful.  Nothing but the awaited event and `Op::CancelWatch` changes it
(`waits_step`), so an op that waits stays in flight; and an op that does not wait is completed by
steps of the dispatcher and its tasks alone (`settles_of_not_waits`).
-/

namespace Ignis

namespace Dispatcher

open StepSystem

/-- An op that waits for something outside. -/
def opWaits : Op → Bool
  | .sleep (_ + 1) | .watch _ _ | .custom => true
  | .sleep 0 | .cancelWatch _ => false

/-- An entry of the inbox that calls off the op of `id`. -/
def cancels (id : ℕ) (p : ℕ × Op) : Bool := p.2 = .cancelWatch id

/-- The op of `id` is in the inbox and will wait: a cancel counts only if it comes later, and never
for a custom op. -/
def waitsIn (id : ℕ) : List (ℕ × Op) → Bool
  | [] => false
  | (i, op) :: rest =>
      if i = id then opWaits op && (op = .custom || !rest.any (cancels id)) else waitsIn id rest

/-- The dispatcher has taken the entry of `id` out of the table and not yet looked at its claim. -/
def Pc.cancels (id : ℕ) : Pc → Bool
  | .abort _ target | .claim _ target => target = id
  | _ => false

/-- The op of `id` waits for something outside, and nobody has called it off. -/
def Waits (s : State) (id : ℕ) : Bool :=
  match s.tasks id with
  | .unspawned => waitsIn id s.inbox
  | .custom => true
  | .waiting _ => !s.completed id && !s.pc.cancels id && !s.inbox.any (cancels id)
  | _ => false

/-- A task that waits can be found by a cancel, or one has already found it. -/
def Listed (s : State) : Prop :=
  ∀ id on, s.tasks id = .waiting on → s.completed id = false →
    s.cancellableTasksByOp.has id = true ∨ s.pc = .insert id ∨ s.pc.cancels id = true

/-! ## Tasks that move on -/

/-- A task past its await. -/
def Task.past : Task → Bool
  | .woken _ | .unlisted _ | .claimed _ | .customDone _ | .finished | .aborted => true
  | .unspawned | .waiting _ | .custom => false

/-- One task moves on, past its await; the dispatcher stands still. -/
structure TaskMoves (s s' : State) (id : ℕ) : Prop where
  tasks : ∃ t, s'.tasks = Function.update s.tasks id t ∧ t.past = true
  pc : s'.pc = s.pc
  inbox : s'.inbox = s.inbox
  completed : ∀ i, i ≠ id → s'.completed i = s.completed i
  table : ∀ i, i ≠ id → s'.cancellableTasksByOp.has i = s.cancellableTasksByOp.has i

lemma taskMoves_wake {s s' : State} {id : ℕ} {o : Outcome} (h : step s (.wake id o) = some s') :
    TaskMoves s s' id := by
  rcases wake_cases h with ⟨on, ht, rfl⟩ | ⟨ht, rfl⟩
  · exact ⟨⟨_, rfl, rfl⟩, rfl, rfl, fun _ _ => rfl, fun _ _ => rfl⟩
  · exact ⟨⟨_, rfl, rfl⟩, rfl, rfl, fun _ _ => rfl, fun _ _ => rfl⟩

lemma taskMoves_proceed {s s' : State} {id : ℕ} (h : proceed s id = some s') :
    TaskMoves s s' id ∧ (s.tasks id).past = true := by
  cases proceeds_of_proceed h with
  | unlist ht hlock =>
      refine ⟨⟨⟨_, rfl, rfl⟩, rfl, rfl, fun _ _ => rfl, fun i hi => ?_⟩, by rw [ht]; rfl⟩
      simp [OrdMap.has, OrdMap.get?_unset, hi]
  | claimLost ht hcomp =>
      exact ⟨⟨⟨_, rfl, rfl⟩, rfl, rfl, fun _ _ => rfl, fun _ _ => rfl⟩, by rw [ht]; rfl⟩
  | claimWon ht hcomp =>
      exact ⟨⟨⟨_, rfl, rfl⟩, rfl, rfl, fun _ hi => Function.update_of_ne hi _ _, fun _ _ => rfl⟩,
        by rw [ht]; rfl⟩
  | announce ht =>
      refine ⟨⟨⟨_, rfl, rfl⟩, rfl, rfl, fun _ _ => rfl, fun _ _ => rfl⟩, ?_⟩
      rcases ht with ht | ht
      · rw [ht]
        rfl
      · rw [ht]
        rfl

lemma taskMoves_stop {s s' : State} {id : ℕ} (h : step s (.stop id) = some s') :
    TaskMoves s s' id := by
  obtain ⟨-, -, rfl⟩ := stop_cases h
  exact ⟨⟨_, rfl, rfl⟩, rfl, rfl, fun _ _ => rfl, fun _ _ => rfl⟩

/-! ## The table holds what waits -/

lemma listed_init : Listed init := fun id on h => by cases h

lemma listed_taskMoves {s s' : State} {id : ℕ} (h : Listed s) (hm : TaskMoves s s' id) :
    Listed s' := by
  obtain ⟨t, htasks, hpast⟩ := hm.tasks
  intro i on hi hc
  have hne : i ≠ id := by
    rintro rfl
    rw [htasks, Function.update_self] at hi
    rw [hi] at hpast
    cases hpast
  rw [hm.completed i hne] at hc
  rw [htasks, Function.update_of_ne hne] at hi
  rw [hm.table i hne, hm.pc]
  exact h i on hi hc

lemma listed_receive {s : State} {id : ℕ} {op : Op} {rest : List (ℕ × Op)} (h : Listed s)
    (hpc : s.pc = .recv) : Listed (receive { s with inbox := rest } id op) := by
  have hhas : ∀ i on, s.tasks i = .waiting on → s.completed i = false →
      s.cancellableTasksByOp.has i = true := by
    intro i on hi hc
    rcases h i on hi hc with hhas | hinsert | hcancels
    · exact hhas
    · rw [hpc] at hinsert
      cases hinsert
    · rw [hpc] at hcancels
      cases hcancels
  have hspawn : ∀ on, Listed (spawnCancellable { s with inbox := rest } id on) := by
    intro on i on' hi hc
    by_cases e : i = id
    · exact Or.inr (Or.inl (by rw [e]; rfl))
    · simp only [spawnCancellable, Function.update_of_ne e] at hi hc
      exact Or.inl (hhas i on' hi hc)
  cases op with
  | sleep us =>
      cases us with
      | zero => exact fun i on hi hc => Or.inl (hhas i on hi hc)
      | succ n => exact hspawn .timer
  | watch fd write => exact hspawn .fd
  | custom =>
      intro i on hi hc
      by_cases e : i = id
      · simp [receive, e] at hi
      · simp only [receive, Function.update_of_ne e] at hi
        exact Or.inl (hhas i on hi hc)
  | cancelWatch target =>
      simp only [receive]
      split
      · intro i on hi hc
        by_cases e : i = target
        · exact Or.inr (Or.inr (by simp [Pc.cancels, e]))
        · exact Or.inl (OrdMap.has_unset.mpr ⟨e, hhas i on hi hc⟩)
      · exact fun i on hi hc => Or.inl (hhas i on hi hc)

lemma listed_dispatch {s s' : State} (h : Listed s) (hs : dispatch s = some s') : Listed s' := by
  cases dispatches_of_dispatch hs with
  | receive hpc hin => exact listed_receive h hpc
  | @insert id hpc =>
      intro i on hi hc
      rcases h i on hi hc with hhas | hinsert | hcancels
      · exact Or.inl (OrdMap.has_set.mpr (Or.inr hhas))
      · rw [hpc, Pc.insert.injEq] at hinsert
        exact Or.inl (OrdMap.has_set.mpr (Or.inl hinsert.symm))
      · rw [hpc] at hcancels
        cases hcancels
  | @abort id target hpc =>
      intro i on hi hc
      have hold := h i on hi hc
      rw [hpc] at hold
      simpa [Pc.cancels] using hold
  | @claimLost id target hpc hcomp =>
      -- from the claim on the target counts as completed
      intro i on hi hc
      have e : i ≠ target := by
        rintro rfl
        rw [hcomp] at hc
        cases hc
      have hold := h i on hi hc
      rw [hpc] at hold
      simpa [Pc.cancels, Ne.symm e] using hold
  | @claimWon id target hpc hcomp =>
      intro i on hi hc
      have e : i ≠ target := by
        rintro rfl
        simp at hc
      simp only [Function.update_of_ne e] at hc
      have hold := h i on hi hc
      rw [hpc] at hold
      simpa [Pc.cancels, Ne.symm e] using hold
  | announce hpc | ack hpc =>
      intro i on hi hc
      have hold := h i on hi hc
      rw [hpc] at hold
      simpa [Pc.cancels, send] using hold

theorem listed_step {s s' : State} {a : Action} (h : Listed s) (hs : step s a = some s') :
    Listed s' := by
  cases a with
  | submit op | reserve => exact Option.some.inj hs ▸ h
  | dispatch => exact listed_dispatch h hs
  | wake id o => exact listed_taskMoves h (taskMoves_wake hs)
  | proceed id => exact listed_taskMoves h (taskMoves_proceed hs).1
  | stop id => exact listed_taskMoves h (taskMoves_stop hs)

/-! ## What waits goes on waiting -/

lemma waits_of_past {s : State} {id : ℕ} (h : (s.tasks id).past = true) : Waits s id = false := by
  unfold Waits
  cases ht : s.tasks id <;> rw [ht] at h <;> first | rfl | cases h

/-- What `Waits` depends on. -/
lemma waits_congr {s s' : State} {id : ℕ} (htasks : s'.tasks id = s.tasks id)
    (hcompleted : s'.completed id = s.completed id)
    (hpc : s'.pc.cancels id = s.pc.cancels id) (hwaits : waitsIn id s'.inbox = waitsIn id s.inbox)
    (hany : s'.inbox.any (cancels id) = s.inbox.any (cancels id)) : Waits s' id = Waits s id := by
  simp only [Waits, htasks, hcompleted, hpc, hwaits, hany]

lemma waits_taskMoves_of_ne {s s' : State} {i id : ℕ} (hm : TaskMoves s s' i) (hne : id ≠ i) :
    Waits s' id = Waits s id := by
  obtain ⟨t, htasks, -⟩ := hm.tasks
  refine waits_congr ?_ (hm.completed id hne) (by rw [hm.pc]) (by rw [hm.inbox]) (by rw [hm.inbox])
  rw [htasks, Function.update_of_ne hne]

lemma waits_taskMoves_self {s s' : State} {id : ℕ} (hm : TaskMoves s s' id) :
    Waits s' id = false := by
  obtain ⟨t, htasks, hpast⟩ := hm.tasks
  exact waits_of_past (by rw [htasks, Function.update_self]; exact hpast)

lemma waitsIn_of_notMem {id : ℕ} {inbox : List (ℕ × Op)} (h : id ∉ inbox.map Prod.fst) :
    waitsIn id inbox = false := by
  induction inbox with
  | nil => rfl
  | cons p rest ih =>
      simp only [List.map_cons, List.mem_cons, not_or] at h
      rw [waitsIn, if_neg (Ne.symm h.1), ih h.2]

/-- The dispatcher takes the op of `id` itself out of the inbox. -/
lemma waits_receive_self {s : State} {id : ℕ} {op : Op} {rest : List (ℕ × Op)} (h : Inv s)
    (hin : s.inbox = (id, op) :: rest) :
    Waits (receive { s with inbox := rest } id op) id = Waits s id := by
  have ht : s.tasks id = .unspawned :=
    (h.inbox_unspawned (id, op) (hin ▸ List.mem_cons_self)).1
  have hrest : waitsIn id rest = false := by
    have hnodup := h.inbox_nodup
    rw [hin, List.map_cons, List.nodup_cons] at hnodup
    exact waitsIn_of_notMem hnodup.1
  have hbefore : Waits s id = (opWaits op && (op = .custom || !rest.any (cancels id))) := by
    simp [Waits, ht, hin, waitsIn]
  rw [hbefore]
  cases op with
  | sleep us =>
      cases us with
      | zero => simp [receive, send, Waits, opWaits, ht, hrest]
      | succ n => simp [receive, spawnCancellable, Waits, opWaits, Pc.cancels]
  | watch fd write => simp [receive, spawnCancellable, Waits, opWaits, Pc.cancels]
  | custom => simp [receive, Waits, opWaits]
  | cancelWatch target =>
      simp only [receive]
      split <;> simp [Waits, opWaits, ht, hrest]

/-- The dispatcher takes another op out of the inbox, which may be a cancel of this one. -/
lemma waits_receive_of_ne {s : State} {i id : ℕ} {op : Op} {rest : List (ℕ × Op)}
    (hl : Listed s) (hpc : s.pc = .recv) (hin : s.inbox = (i, op) :: rest) (hne : id ≠ i) :
    Waits (receive { s with inbox := rest } i op) id = Waits s id := by
  have hskip : waitsIn id rest = waitsIn id s.inbox := by rw [hin, waitsIn, if_neg (Ne.symm hne)]
  have hany : op ≠ .cancelWatch id → rest.any (cancels id) = s.inbox.any (cancels id) := by
    intro hop
    simp [hin, cancels, hop]
  have hspawn : ∀ on, op ≠ .cancelWatch id →
      Waits (spawnCancellable { s with inbox := rest } i on) id = Waits s id := fun on hop =>
    waits_congr (Function.update_of_ne hne _ _) (Function.update_of_ne hne _ _) (by rw [hpc]; rfl)
      hskip (hany hop)
  cases op with
  | sleep us =>
      cases us with
      | zero => exact waits_congr rfl rfl rfl hskip (hany (by simp))
      | succ n => exact hspawn .timer (by simp)
  | watch fd write => exact hspawn .fd (by simp)
  | custom => exact waits_congr (Function.update_of_ne hne _ _) rfl rfl hskip (hany (by simp))
  | cancelWatch target =>
      simp only [receive]
      by_cases htarget : target = id
      · subst htarget
        -- a cancel of a task that waits finds it in the table, or it is claimed already
        have hcancel : s.inbox.any (cancels target) = true := by simp [hin, cancels]
        cases ht : s.tasks target with
        | waiting on =>
            have hbefore : Waits s target = false := by simp [Waits, ht, hcancel]
            rw [hbefore]
            split
            · simp [Waits, ht, Pc.cancels]
            · rename_i hhas
              have hcompleted : s.completed target = true := by
                by_contra hc
                rcases hl target on ht (by simpa using hc) with h | h | h
                · exact hhas h
                · rw [hpc] at h
                  cases h
                · rw [hpc] at h
                  cases h
              simp [Waits, ht, hcompleted]
        | unspawned => split <;> simp [Waits, ht, hskip]
        | _ => split <;> simp [Waits, ht]
      · have hcancels := hany (by simpa using htarget)
        split
        · exact waits_congr rfl rfl (by simp [hpc, Pc.cancels, htarget]) hskip hcancels
        · exact waits_congr rfl rfl (by simp [hpc, Pc.cancels]) hskip hcancels

/-- An op whose claim the dispatcher looks at has been called off. -/
lemma waits_of_claim {s : State} {id target : ℕ} (h : Inv s) (hpc : s.pc = .claim id target) :
    Waits s target = false := by
  have hcanc := h.handled target (by simp [hpc, Pc.handles])
  cases ht : s.tasks target with
  | waiting on => simp [Waits, ht, hpc, Pc.cancels]
  | unspawned | custom =>
      rw [ht] at hcanc
      exact hcanc.elim
  | _ => simp [Waits, ht]

/-- An op that is claimed does not wait. -/
lemma waits_of_completed {s : State} {id : ℕ} (hcanc : (s.tasks id).cancellable (s.completed id))
    (hcomp : s.completed id = true) : Waits s id = false := by
  cases ht : s.tasks id with
  | unspawned | custom =>
      rw [ht] at hcanc
      exact hcanc.elim
  | _ => simp [Waits, ht, hcomp]

lemma waits_dispatch {s s' : State} {id : ℕ} (h : Inv s) (hl : Listed s)
    (hs : dispatch s = some s') : Waits s' id = Waits s id := by
  cases dispatches_of_dispatch hs with
  | @receive i op rest hpc hin =>
      by_cases hne : id = i
      · subst hne
        exact waits_receive_self h hin
      · exact waits_receive_of_ne hl hpc hin hne
  | insert hpc | abort hpc | announce hpc | ack hpc =>
      exact waits_congr rfl rfl (by rw [hpc]; rfl) rfl rfl
  | @claimLost i target hpc hcomp =>
      by_cases htarget : target = id
      · subst htarget
        rw [waits_of_claim h hpc]
        exact waits_of_completed (h.handled target (by simp [hpc, Pc.handles])) hcomp
      · exact waits_congr rfl rfl (by simp [hpc, Pc.cancels, htarget]) rfl rfl
  | @claimWon i target hpc hcomp =>
      by_cases htarget : target = id
      · subst htarget
        rw [waits_of_claim h hpc]
        have hcanc := h.handled target (by simp [hpc, Pc.handles])
        exact waits_of_completed (by simpa using Task.cancellable_true hcanc) (by simp)
      · exact waits_congr rfl (Function.update_of_ne (Ne.symm htarget) _ _)
          (by simp [hpc, Pc.cancels, htarget]) rfl rfl

/-- What ends a wait: the awaited event, or somebody who calls the op off. -/
def Action.ends (id : ℕ) : Action → Bool
  | .wake i _ => i = id
  | .submit op => op = .cancelWatch id
  | _ => false

lemma waitsIn_append {id n : ℕ} {op : Op} (inbox : List (ℕ × Op)) (hn : n ≠ id)
    (hop : op ≠ .cancelWatch id) : waitsIn id (inbox ++ [(n, op)]) = waitsIn id inbox := by
  induction inbox with
  | nil => simp [waitsIn, hn]
  | cons p rest ih =>
      obtain ⟨i, q⟩ := p
      simp only [List.cons_append, waitsIn, ih]
      simp [cancels, hop]

/-- **An op that waits goes on waiting**, and one that does not wait does not begin to, until what
ends a wait happens to it. -/
theorem waits_step {s s' : State} {a : Action} {id : ℕ} (h : Inv s) (hl : Listed s)
    (hid : id < s.nextId) (ha : a.ends id = false) (hs : step s a = some s') :
    Waits s' id = Waits s id := by
  cases a with
  | submit op =>
      have hop : op ≠ .cancelWatch id := by simpa [Action.ends] using ha
      cases hs
      refine waits_congr rfl rfl rfl (waitsIn_append s.inbox (Nat.ne_of_gt hid) hop) ?_
      simp [cancels, hop]
  | reserve =>
      cases hs
      rfl
  | dispatch => exact waits_dispatch h hl hs
  | wake i o =>
      have hne : id ≠ i := by simpa [Action.ends, eq_comm] using ha
      exact waits_taskMoves_of_ne (taskMoves_wake hs) hne
  | proceed i =>
      obtain ⟨hm, hpast⟩ := taskMoves_proceed hs
      by_cases hne : id = i
      · subst hne
        rw [waits_taskMoves_self hm, waits_of_past hpast]
      · exact waits_taskMoves_of_ne hm hne
  | stop i =>
      have hm := taskMoves_stop hs
      by_cases hne : id = i
      · subst hne
        rw [waits_taskMoves_self hm]
        -- a task that is stopped was called off
        obtain ⟨⟨on, ht⟩, habort, -⟩ := stop_cases hs
        rcases h.aborting id habort with hcomp | ⟨j, hj⟩
        · simp [Waits, ht, hcomp]
        · simp [Waits, ht, hj, Pc.cancels]
      · exact waits_taskMoves_of_ne hm hne

lemma owed_of_waits {s : State} {id : ℕ} (hw : Waits s id = true) : 1 ≤ owed s id := by
  unfold Waits at hw
  unfold owed
  cases ht : s.tasks id with
  | unspawned =>
      rw [ht] at hw
      have hmem : id ∈ s.inbox.map Prod.fst := by
        by_contra hnot
        simp [waitsIn_of_notMem hnot] at hw
      have := List.count_pos_iff.mpr hmem
      omega
  | custom => simp [Task.owes]
  | waiting on =>
      simp only [ht, Bool.and_eq_true, Bool.not_eq_true'] at hw
      simp [Task.owes, hw.1.1]
  | _ => simp [ht] at hw

/-- An op that waits was submitted and has not been announced. -/
lemma unsent_of_waits {s : State} {id : ℕ} (h : Inv s) (hw : Waits s id = true) :
    id ∈ s.submitted ∧ sentCount s id = 0 := by
  have hconserved := h.conserved id
  have howed := owed_of_waits hw
  split_ifs at hconserved with hsub
  · exact ⟨hsub, by omega⟩
  · omega

/-! ## What does not wait is completed -/

/-- The steps that need nothing from outside. -/
def Action.internal : Action → Bool
  | .dispatch | .proceed _ => true
  | _ => false

def Pc.rank : Pc → ℕ
  | .recv => 0
  | .insert _ | .ack _ => 1
  | .announce _ _ => 2
  | .claim _ _ => 3
  | .abort _ _ => 4

def Task.rank : Task → ℕ
  | .unspawned | .waiting _ | .custom | .woken _ => 3
  | .unlisted _ => 2
  | .claimed _ | .customDone _ => 1
  | .finished | .aborted => 0

/-- How much the dispatcher, and the tasks of `ids`, have left to do. -/
def rank (ids : List ℕ) (s : State) : ℕ :=
  5 * s.inbox.length + s.pc.rank + (ids.map fun id => (s.tasks id).rank).sum

/-- The dispatcher is done. -/
def Idle (s : State) : Prop := s.pc = .recv ∧ s.inbox = []

lemma exists_dispatch {s : State} (h : ¬ Idle s) : ∃ s', dispatch s = some s' := by
  unfold dispatch
  cases hpc : s.pc with
  | recv =>
      cases hin : s.inbox with
      | nil => exact absurd ⟨hpc, hin⟩ h
      | cons p rest => exact ⟨_, rfl⟩
  | claim id target =>
      by_cases hcomp : s.completed target = true
      · exact ⟨{ s with pc := .ack id }, by simp [hcomp]⟩
      · simp [hcomp]
  | _ => exact ⟨_, rfl⟩

lemma rank_dispatch {ids : List ℕ} {s s' : State} (h : Inv s) (hs : dispatch s = some s') :
    rank ids s' < rank ids s := by
  -- the tasks do not move; a task that is spawned counts as before
  have hspawn : ∀ {i : ℕ} {op : Op} {rest : List (ℕ × Op)} (t : Task),
      s.inbox = (i, op) :: rest → t.rank ≤ 3 →
      (ids.map fun id => (Function.update s.tasks i t id).rank).sum ≤
        (ids.map fun id => (s.tasks id).rank).sum := by
    intro i op rest t hin ht
    refine List.sum_le_sum fun id _ => ?_
    by_cases e : id = i
    · subst e
      rw [Function.update_self, (h.inbox_unspawned (id, op) (hin ▸ List.mem_cons_self)).1]
      exact ht
    · rw [Function.update_of_ne e]
  cases dispatches_of_dispatch hs with
  | @receive i op rest hpc hin =>
      have hlist : s.inbox.length = rest.length + 1 := by rw [hin]; rfl
      unfold rank
      cases op with
      | sleep us =>
          cases us with
          | zero =>
              simp only [receive, send, hpc, Pc.rank, hlist]
              omega
          | succ n =>
              have := hspawn (.waiting .timer) hin le_rfl
              simp only [receive, spawnCancellable, hpc, Pc.rank, hlist]
              omega
      | watch fd write =>
          have := hspawn (.waiting .fd) hin le_rfl
          simp only [receive, spawnCancellable, hpc, Pc.rank, hlist]
          omega
      | custom =>
          have := hspawn .custom hin le_rfl
          simp only [receive, hpc, Pc.rank, hlist]
          omega
      | cancelWatch target =>
          simp only [receive]
          split <;>
            · simp only [hpc, Pc.rank, hlist]
              omega
  | announce hpc | ack hpc => simp [rank, hpc, Pc.rank, send]
  | insert hpc | abort hpc | claimLost hpc | claimWon hpc => simp [rank, hpc, Pc.rank]

/-- Once the dispatcher is idle, an op that does not wait and has not been announced is in the hands
of its task. -/
lemma exists_proceed {s : State} {id : ℕ} (h : Inv s) (hidle : Idle s) (hsub : id ∈ s.submitted)
    (hw : Waits s id = false) (hsent : sentCount s id ≠ 1) :
    ∃ s', proceed s id = some s' ∧ (s'.tasks id).rank < (s.tasks id).rank := by
  obtain ⟨hpc, hin⟩ := hidle
  have howes : (s.tasks id).owes (s.completed id) = 1 := by
    have hconserved := h.conserved id
    rw [if_pos hsub, owed, hin, hpc] at hconserved
    simp only [List.map_nil, List.count_nil, Pc.owes] at hconserved
    omega
  cases ht : s.tasks id with
  | unspawned | finished => simp [ht, Task.owes] at howes
  | waiting on =>
      rw [ht] at howes
      have hc : s.completed id = false := by
        by_contra hc
        simp [Task.owes, hc] at howes
      simp [Waits, ht, hc, hpc, hin, Pc.cancels] at hw
  | custom => simp [Waits, ht] at hw
  | aborted =>
      rw [ht] at howes
      rcases h.aborting id (h.stopped id ht) with hc | ⟨i, hi⟩
      · simp [Task.owes, hc] at howes
      · rw [hpc] at hi
        cases hi
  | woken o => simp [proceed, ht, hpc, Pc.locked, Task.rank]
  | unlisted o =>
      have hc : s.completed id = false := by
        by_contra hc
        rw [ht] at howes
        simp [Task.owes, hc] at howes
      simp [proceed, ht, hc, Task.rank]
  | claimed o | customDone o => simp [proceed, ht, Task.rank, send]

lemma rank_proceed {ids : List ℕ} {s s' : State} {id : ℕ} (hid : id ∈ ids)
    (hs : proceed s id = some s') (hlt : (s'.tasks id).rank < (s.tasks id).rank) :
    rank ids s' < rank ids s := by
  obtain ⟨hm, -⟩ := taskMoves_proceed hs
  obtain ⟨t, htasks, -⟩ := hm.tasks
  have hsum : (ids.map fun i => (s'.tasks i).rank).sum <
      (ids.map fun i => (s.tasks i).rank).sum := by
    refine List.sum_lt_sum _ _ (fun i _ => ?_) ⟨id, hid, hlt⟩
    by_cases e : i = id
    · exact e ▸ Nat.le_of_lt hlt
    · rw [htasks, Function.update_of_ne e]
  unfold rank
  rw [hm.pc, hm.inbox]
  omega

/-- What the runs below keep: the ops of `ids` do not wait. -/
structure Settling (ids : List ℕ) (s : State) : Prop where
  inv : Inv s
  listed : Listed s
  submitted : ∀ id ∈ ids, id ∈ s.submitted
  unawaited : ∀ id ∈ ids, Waits s id = false

lemma settling_step {ids : List ℕ} {s s' : State} {a : Action} (h : Settling ids s)
    (ha : a.internal = true) (hs : step s a = some s') :
    Settling ids s' ∧ s'.submitted = s.submitted := by
  have htokio : a.isTokio = true := by cases a <;> first | rfl | cases ha
  have hframe := tokio_frame htokio hs
  refine ⟨⟨inv_step h.inv hs, listed_step h.listed hs, fun id hid => ?_, fun id hid => ?_⟩,
    hframe.2.1⟩
  · rw [hframe.2.1]
    exact h.submitted id hid
  · have hends : a.ends id = false := by cases a <;> first | rfl | cases ha
    have hlt := h.inv.submitted_lt id (h.submitted id hid)
    rw [waits_step h.inv h.listed hlt hends hs]
    exact h.unawaited id hid

/-- **Ops that do not wait are completed** by the dispatcher and the tasks alone. -/
theorem settles_of_not_waits {ids : List ℕ} {s : State} (h : Settling ids s) :
    ∃ as s', (∀ a ∈ as, a.internal = true) ∧ runFrom step s as = some s' ∧
      s'.submitted = s.submitted ∧ ∀ id ∈ ids, sentCount s' id = 1 := by
  have hprogress : ∀ t, Settling ids t ∧ t.submitted = s.submitted →
      (¬ ∀ id ∈ ids, sentCount t id = 1) →
      ∃ a t', a.internal = true ∧ step t a = some t' ∧
        (Settling ids t' ∧ t'.submitted = s.submitted) ∧ rank ids t' < rank ids t := by
    rintro t ⟨ht, hsub⟩ hQ
    by_cases hidle : Idle t
    · obtain ⟨id, hid, hsent⟩ : ∃ id ∈ ids, sentCount t id ≠ 1 := by simpa using hQ
      obtain ⟨t', hproceed, hlt⟩ :=
        exists_proceed ht.inv hidle (ht.submitted id hid) (ht.unawaited id hid) hsent
      obtain ⟨ht', hsame⟩ := settling_step (a := .proceed id) ht rfl hproceed
      exact ⟨.proceed id, t', rfl, hproceed, ⟨ht', hsame.trans hsub⟩, rank_proceed hid hproceed hlt⟩
    · obtain ⟨t', hdispatch⟩ := exists_dispatch hidle
      obtain ⟨ht', hsame⟩ := settling_step (a := .dispatch) ht rfl hdispatch
      exact ⟨.dispatch, t', rfl, hdispatch, ⟨ht', hsame.trans hsub⟩, rank_dispatch ht.inv hdispatch⟩
  obtain ⟨as, s', has, hrun, ⟨-, hsub⟩, hall⟩ :=
    reaches_of_rank step (rank ids) hprogress ⟨h, rfl⟩
  exact ⟨as, s', has, hrun, hsub, hall⟩

end Dispatcher

end Ignis
