import Ignis.Lib.Places
import Ignis.Lib.StepSystem

/-!
# Shutting a Temporal worker down

A worker is polled by a workflow factory and any number of activity factories.  Every call into core
is an operation of its own on the reactor, and every operation starts by looking the worker up in
the table `WORKERS`: an entry that is not there is an error, which `CoreSource` throws.
`ignis_temporal_shutdown` looks the worker up as well, tells core, and takes the entry out.

Of core the file takes its contract for a shutdown: once it has been initiated a poll still returns
the tasks that are outstanding, and then `PollError::ShutDown`, which reaches PHP as `null`.  No
other error of core's is modelled, and it takes every completion that reaches it.

A poller that looks the worker up after the entry is gone throws, and the completion it may have had
in hand is lost.  `Settled` is the condition that this cannot happen any more when the entry goes.
-/

namespace Ignis

namespace Temporal

namespace Shutdown

/-- `ActivationSource::WORKFLOW` and `ActivationSource::ACTIVITY`. -/
inductive Kind where
  | workflow
  | activity
  deriving DecidableEq, Repr

structure Task where
  kind : Kind
  token : ℕ
  deriving DecidableEq, Repr

/-- Where a poller's loop stands. -/
inductive Phase where
  /-- `CoreSource::poll` is called next. -/
  | idle
  /-- The poll's operation looks the worker up next. -/
  | polling
  /-- The poll waits in core. -/
  | inCore
  /-- PHP works on the task. -/
  | working (task : Task)
  /-- The completion's operation looks the worker up next. -/
  | completing (task : Task)
  /-- The completion is handed to core next. -/
  | sending (task : Task)
  /-- `CoreSource::poll` returned `null`, and the loop has ended. -/
  | ended
  /-- `CoreSource` has thrown. -/
  | threw
  deriving DecidableEq, Repr

structure Poller where
  kind : Kind
  phase : Phase
  deriving DecidableEq, Repr

/-- Where `ignis_temporal_shutdown` stands. -/
inductive Progress where
  | notCalled
  /-- The operation looks the worker up next. -/
  | called
  /-- `initiate_shutdown` comes next. -/
  | found
  /-- `forget_worker` comes next. -/
  | initiated
  | forgotten
  /-- The worker was not found. -/
  | refused
  deriving DecidableEq, Repr

structure State where
  /-- The worker's entry is in `WORKERS`. -/
  entry : Bool
  shutdown : Progress
  /-- The tasks that core has outstanding and no poll has been given. -/
  queued : List Task
  pollers : List Poller
  /-- Ghost: the tasks core has handed out. -/
  handed : List Task
  /-- Ghost: the tasks whose completion has been delivered to core. -/
  completed : List Task
  deriving DecidableEq, Repr

/-- One workflow poller, and this many for activities. -/
def init (activities : ℕ) : State where
  entry := true
  shutdown := .notCalled
  queued := []
  pollers := ⟨.workflow, .idle⟩ :: List.replicate activities ⟨.activity, .idle⟩
  handed := []
  completed := []

inductive Action where
  /-- The server sends core a task. -/
  | arrives (task : Task)
  /-- The poller's PHP calls `CoreSource::poll`, or `complete` for the task it has worked on. -/
  | submits (i : ℕ)
  /-- The operation the poller waits for looks the worker up. -/
  | looksUp (i : ℕ)
  /-- Core returns a task from the poll. -/
  | hands (i : ℕ) (task : Task)
  /-- Core returns `PollError::ShutDown` from the poll. -/
  | stops (i : ℕ)
  /-- Core takes the completion, and may have more to do for it. -/
  | takes (i : ℕ) (more : List Task)
  /-- `ignis_temporal_shutdown` takes its next step. -/
  | shutsDown
  deriving DecidableEq, Repr

/-- The shutdown has been initiated. -/
def Progress.isInitiated : Progress → Bool
  | .initiated | .forgotten => true
  | _ => false

/-- The next step of `zif_shutdown`. -/
def State.shutDown (s : State) : Option State :=
  match s.shutdown with
  | .notCalled => some { s with shutdown := .called }
  | .called => some { s with shutdown := if s.entry then .found else .refused }
  | .found => some { s with shutdown := .initiated }
  | .initiated => some { s with entry := false, shutdown := .forgotten }
  | .forgotten | .refused => none

/-- The `i`th poller goes on to the phase given by `next`, if that is possible where it stands. -/
def State.move (s : State) (i : ℕ) (next : Poller → Option Phase) : Option State :=
  s.pollers[i]?.bind fun p =>
    (next p).map fun phase => { s with pollers := s.pollers.set i { p with phase := phase } }

/-- `worker(id)`: without an entry the operation fails, and `CoreSource` throws. -/
def Phase.lookUp (entry : Bool) : Phase → Option Phase
  | .polling => some (if entry then .inCore else .threw)
  | .completing task => some (if entry then .sending task else .threw)
  | _ => none

def step (s : State) : Action → Option State
  | .arrives task =>
      if s.shutdown.isInitiated then none else some { s with queued := s.queued ++ [task] }
  | .submits i =>
      s.move i fun p => match p.phase with
        | .idle => some .polling
        | .working task => some (.completing task)
        | _ => none
  | .looksUp i => s.move i fun p => p.phase.lookUp s.entry
  | .hands i task =>
      if task ∈ s.queued then
        (s.move i fun p =>
          if p.phase = .inCore ∧ p.kind = task.kind then some (.working task) else none).map
          fun t => { t with queued := s.queued.erase task, handed := task :: s.handed }
      else none
  | .stops i =>
      if s.shutdown.isInitiated then
        s.move i fun p =>
          if p.phase = .inCore ∧ ∀ task ∈ s.queued, task.kind ≠ p.kind then some .ended else none
      else none
  | .takes i more =>
      s.pollers[i]?.bind fun p =>
        match p.phase with
        | .sending task =>
            some { s with
              pollers := s.pollers.set i { p with phase := .idle }
              queued := s.queued ++ more
              completed := task :: s.completed }
        | _ => none
  | .shutsDown => s.shutDown

/-- The task a poller has in hand. -/
def Phase.task : Phase → Option Task
  | .working task | .completing task | .sending task => some task
  | _ => none

/-- No poller has thrown, and every task that was handed out has been completed or is in hand. -/
def Graceful (s : State) : Prop :=
  (∀ p ∈ s.pollers, p.phase ≠ .threw) ∧
  ∀ task ∈ s.handed, task ∈ s.completed ∨ ∃ p ∈ s.pollers, p.phase.task = some task

instance (s : State) : Decidable (Graceful s) :=
  inferInstanceAs (Decidable ((∀ p ∈ s.pollers, p.phase ≠ .threw) ∧
    ∀ task ∈ s.handed, task ∈ s.completed ∨ ∃ p ∈ s.pollers, p.phase.task = some task))

/-- A poller that has ended, or has nothing more to expect of core than the end. -/
def Poller.over (queued : List Task) (p : Poller) : Prop :=
  p.phase = .ended ∨ (p.phase = .inCore ∧ ∀ task ∈ queued, task.kind ≠ p.kind)

instance (queued : List Task) (p : Poller) : Decidable (p.over queued) :=
  inferInstanceAs (Decidable (p.phase = .ended ∨
    (p.phase = .inCore ∧ ∀ task ∈ queued, task.kind ≠ p.kind)))

/-- When the entry goes, every poller is over. -/
def Settled (s : State) : Action → Prop
  | .shutsDown => s.shutdown = .initiated → ∀ p ∈ s.pollers, p.over s.queued
  | _ => True

instance (s : State) (a : Action) : Decidable (Settled s a) :=
  match a with
  | .shutsDown => inferInstanceAs
      (Decidable (s.shutdown = .initiated → ∀ p ∈ s.pollers, p.over s.queued))
  | .arrives _ | .submits _ | .looksUp _ | .hands _ _ | .stops _ | .takes _ _ => isTrue trivial

structure Inv (s : State) : Prop where
  entry : s.shutdown ≠ .forgotten → s.entry = true
  graceful : Graceful s
  allOver : s.shutdown = .forgotten → ∀ p ∈ s.pollers, p.over s.queued

lemma inv_init (activities : ℕ) : Inv (init activities) where
  entry := fun _ => rfl
  graceful := by simp [Graceful, init]
  allOver := by simp [init]

section

variable {s s' : State}

lemma move_cases {i : ℕ} {next : Poller → Option Phase} (h : s.move i next = some s') :
    ∃ p phase, s.pollers[i]? = some p ∧ next p = some phase ∧
      s' = { s with pollers := s.pollers.set i { p with phase := phase } } := by
  obtain ⟨p, hp, hmap⟩ := Option.bind_eq_some_iff.mp h
  obtain ⟨phase, hphase, rfl⟩ := Option.map_eq_some_iff.mp hmap
  exact ⟨p, phase, hp, hphase, rfl⟩

/-- A poller that is over is neither at work nor about to look the worker up. -/
lemma Poller.over.phase {queued : List Task} {p : Poller} (h : p.over queued) :
    p.phase = .ended ∨ p.phase = .inCore :=
  h.imp_right And.left

/-- While the entry is there, a poller moves and keeps the task it has in hand, or completes it. -/
lemma Inv.set (h : Inv s) {i : ℕ} {p p' : Poller} {queued handed completed : List Task}
    (hi : s.pollers[i]? = some p) (hopen : s.shutdown ≠ .forgotten)
    (hthrew : p'.phase ≠ .threw)
    (hhanded : ∀ task ∈ handed, task ∈ s.handed ∨ p'.phase.task = some task)
    (hcompleted : ∀ task ∈ s.completed, task ∈ completed)
    (htask : ∀ task, p.phase.task = some task →
      p'.phase.task = some task ∨ task ∈ completed) :
    Inv { s with
      pollers := s.pollers.set i p'
      queued := queued
      handed := handed
      completed := completed } where
  entry := h.entry
  graceful := by
    refine ⟨fun q hq => ?_, fun task ht => ?_⟩
    · rcases List.mem_or_eq_of_mem_set hq with hq | rfl
      · exact h.graceful.1 q hq
      · exact hthrew
    · rcases hhanded task ht with ht | ht
      · rcases h.graceful.2 task ht with hdone | ⟨q, hq, hqt⟩
        · exact .inl (hcompleted task hdone)
        · obtain ⟨j, hj⟩ := List.mem_iff_getElem?.mp hq
          by_cases hij : i = j
          · subst hij
            obtain rfl := Option.some.inj (hi.symm.trans hj)
            rcases htask task hqt with hkept | hdone
            · exact .inr ⟨p', Places.mem_set_self hi p', hkept⟩
            · exact .inl hdone
          · exact .inr ⟨q, Places.mem_set_of_ne hj hij, hqt⟩
      · exact .inr ⟨p', Places.mem_set_self hi p', ht⟩
  allOver := fun hforgotten => absurd hforgotten hopen

/-- While the entry is there, a poller moves and keeps what it has in hand. -/
lemma Inv.move (h : Inv s) {i : ℕ} {p : Poller} {phase : Phase} (hi : s.pollers[i]? = some p)
    (hopen : s.shutdown ≠ .forgotten) (hthrew : phase ≠ .threw)
    (htask : phase.task = p.phase.task) :
    Inv { s with pollers := s.pollers.set i { p with phase := phase } } :=
  h.set hi hopen hthrew (fun _ ht => .inl ht) (fun _ ht => ht)
    fun _ ht => .inl (htask.trans ht)

/-- Where the entry is gone only a poll in core can come to an end. -/
lemma Inv.open_of_phase (h : Inv s) {i : ℕ} {p : Poller} (hi : s.pollers[i]? = some p)
    (hphase : p.phase ≠ .ended ∧ p.phase ≠ .inCore) : s.shutdown ≠ .forgotten := by
  intro hforgotten
  rcases (h.allOver hforgotten p (List.mem_of_getElem? hi)).phase with hended | hcore
  · exact hphase.1 hended
  · exact hphase.2 hcore

theorem Inv.step (h : Inv s) {a : Action} (hok : Settled s a) (hstep : step s a = some s') :
    Inv s' := by
  cases a with
  | arrives task =>
      simp only [Shutdown.step] at hstep
      split at hstep
      case isTrue => cases hstep
      case isFalse hopen =>
        obtain rfl := Option.some.inj hstep
        refine ⟨h.entry, h.graceful, fun hforgotten => absurd ?_ hopen⟩
        rw [show s.shutdown = .forgotten from hforgotten]
        rfl
  | submits i =>
      obtain ⟨p, phase, hi, hnext, rfl⟩ := move_cases hstep
      cases hphase : p.phase <;> simp only [hphase, Option.some.injEq, reduceCtorEq] at hnext
      case idle =>
        subst hnext
        exact h.move hi (h.open_of_phase hi (by simp [hphase])) (by simp) (by rw [hphase]; rfl)
      case working task =>
        subst hnext
        exact h.move hi (h.open_of_phase hi (by simp [hphase])) (by simp) (by rw [hphase]; rfl)
  | looksUp i =>
      obtain ⟨p, phase, hi, hnext, rfl⟩ := move_cases hstep
      cases hphase : p.phase <;> simp only [hphase, Phase.lookUp, reduceCtorEq] at hnext
      case polling =>
        have hopen := h.open_of_phase hi (by simp [hphase])
        rw [h.entry hopen] at hnext
        obtain rfl : phase = .inCore := by simpa using hnext.symm
        exact h.move hi hopen (by simp) (by rw [hphase]; rfl)
      case completing task =>
        have hopen := h.open_of_phase hi (by simp [hphase])
        rw [h.entry hopen] at hnext
        obtain rfl : phase = .sending task := by simpa using hnext.symm
        exact h.move hi hopen (by simp) (by rw [hphase]; rfl)
  | hands i task =>
      simp only [Shutdown.step] at hstep
      split at hstep
      case isFalse => cases hstep
      case isTrue hmem =>
        obtain ⟨t, ht, rfl⟩ := Option.map_eq_some_iff.mp hstep
        obtain ⟨p, phase, hi, hnext, rfl⟩ := move_cases ht
        split at hnext
        case isFalse => cases hnext
        case isTrue hcore =>
          obtain rfl := Option.some.inj hnext
          have hopen : s.shutdown ≠ .forgotten := by
            intro hforgotten
            rcases h.allOver hforgotten p (List.mem_of_getElem? hi) with hended | ⟨-, hnone⟩
            · cases hended.symm.trans hcore.1
            · exact hnone task hmem hcore.2.symm
          refine h.set hi hopen (by simp) (fun t ht => ?_) (fun _ ht => ht) ?_
          · rcases List.mem_cons.mp ht with rfl | ht
            · exact .inr rfl
            · exact .inl ht
          · simp [hcore.1, Phase.task]
  | stops i =>
      simp only [Shutdown.step] at hstep
      split at hstep
      case isFalse => cases hstep
      case isTrue hinit =>
        obtain ⟨p, phase, hi, hnext, rfl⟩ := move_cases hstep
        split at hnext
        case isFalse => cases hnext
        case isTrue hcore =>
          obtain rfl := Option.some.inj hnext
          by_cases hforgotten : s.shutdown = .forgotten
          · refine ⟨h.entry, ⟨fun q hq => ?_, fun task ht => ?_⟩, fun _ q hq => ?_⟩
            · rcases List.mem_or_eq_of_mem_set hq with hq | rfl
              · exact h.graceful.1 q hq
              · simp
            · rcases h.graceful.2 task ht with hdone | ⟨q, hq, hqt⟩
              · exact .inl hdone
              · rcases (h.allOver hforgotten q hq).phase with hphase | hphase <;>
                  simp [hphase, Phase.task] at hqt
            · rcases List.mem_or_eq_of_mem_set hq with hq | rfl
              · exact h.allOver hforgotten q hq
              · exact .inl rfl
          · exact h.move hi hforgotten (by simp) (by rw [hcore.1]; rfl)
  | takes i more =>
      obtain ⟨p, hi, hmatch⟩ := Option.bind_eq_some_iff.mp hstep
      cases hphase : p.phase <;> simp only [hphase, Option.some.injEq, reduceCtorEq] at hmatch
      case sending task =>
        subst hmatch
        refine h.set hi (h.open_of_phase hi (by simp [hphase])) (by simp) (fun _ ht => .inl ht)
          (fun _ ht => List.mem_cons_of_mem _ ht) fun t ht => .inr ?_
        obtain rfl : task = t := by simpa [hphase, Phase.task] using ht
        exact List.mem_cons_self
  | shutsDown =>
      simp only [Shutdown.step, State.shutDown] at hstep
      cases hs : s.shutdown <;> simp only [hs, Option.some.injEq, reduceCtorEq] at hstep
      case initiated =>
        subst hstep
        exact ⟨fun hne => absurd rfl hne, h.graceful, fun _ => hok hs⟩
      all_goals
        subst hstep
        refine ⟨fun _ => h.entry (by simp [hs]), h.graceful, fun hforgotten => ?_⟩
        first | cases hforgotten | (split at hforgotten <;> cases hforgotten)

/-! ### How the loops end -/

/-- Every loop has ended with `null`. -/
def AllEnded (s : State) : Prop := ∀ p ∈ s.pollers, p.phase = .ended

/-- How many polls core has still to answer. -/
def State.waiting (s : State) : ℕ := s.pollers.countP fun p => p.phase = .inCore

/-- Once the entry is gone and every poller is over, core tells one of them so. -/
lemma Inv.stops (h : Inv s) (hforgotten : s.shutdown = .forgotten) (hended : ¬ AllEnded s) :
    ∃ a s', True ∧ Shutdown.step s a = some s' ∧ (Inv s' ∧ s'.shutdown = .forgotten) ∧
      s'.waiting < s.waiting := by
  obtain ⟨p, hp, hne⟩ : ∃ p ∈ s.pollers, p.phase ≠ .ended := by
    simpa [AllEnded] using hended
  obtain ⟨i, hi⟩ := List.mem_iff_getElem?.mp hp
  obtain ⟨hcore, hnone⟩ : p.phase = .inCore ∧ ∀ task ∈ s.queued, task.kind ≠ p.kind :=
    (h.allOver hforgotten p hp).resolve_left hne
  have hstep : Shutdown.step s (.stops i) =
      some { s with pollers := s.pollers.set i { p with phase := .ended } } := by
    simp only [Shutdown.step, State.move, hforgotten, Progress.isInitiated, if_true, hi,
      Option.bind_some, if_pos (And.intro hcore hnone), Option.map_some]
  have hcount := Places.countP_set (fun p : Poller => decide (p.phase = .inCore))
    { p with phase := .ended } hi
  refine ⟨.stops i, _, trivial, hstep, ⟨h.step (a := .stops i) trivial hstep, hforgotten⟩, ?_⟩
  simp only [hcore, decide_true, Bool.toNat_true, reduceCtorEq, decide_false,
    Bool.toNat_false] at hcount
  simp only [State.waiting]
  omega

/-- Then every loop can end with `null`. -/
lemma Inv.ends (h : Inv s) (hforgotten : s.shutdown = .forgotten) :
    ∃ as s', StepSystem.runFrom Shutdown.step s as = some s' ∧ AllEnded s' ∧ Inv s' := by
  obtain ⟨as, s', -, hrun, hI, hQ⟩ := StepSystem.reaches_of_rank Shutdown.step
    (I := fun s => Inv s ∧ s.shutdown = .forgotten) (A := fun _ => True) State.waiting
    (fun s hI hQ => hI.1.stops hI.2 hQ) ⟨h, hforgotten⟩
  exact ⟨as, s', hrun, hQ, hI.1⟩

/-- The entry is gone, and a poller is at work, or core still has a task for one that waits. -/
structure Doomed (s : State) : Prop where
  entry : s.entry = false
  forgotten : s.shutdown = .forgotten
  notOver : ∃ p ∈ s.pollers, ¬ p.over s.queued

/-- A poller that is at work is not over. -/
lemma Doomed.of_mover (h : Doomed s) {i : ℕ} {p p' : Poller} {queued handed completed : List Task}
    (hi : s.pollers[i]? = some p) (hphase : p'.phase ≠ .ended ∧ p'.phase ≠ .inCore) :
    Doomed { s with
      pollers := s.pollers.set i p'
      queued := queued
      handed := handed
      completed := completed } where
  entry := h.entry
  forgotten := h.forgotten
  notOver := ⟨p', Places.mem_set_self hi p', fun hover => hover.phase.elim hphase.1 hphase.2⟩

/-- Whoever is at work when the entry is gone comes to look the worker up, and throws. -/
lemma Doomed.step (h : Doomed s) {a : Action} (hstep : step s a = some s') : Doomed s' := by
  cases a with
  | arrives task => simp [Shutdown.step, h.forgotten, Progress.isInitiated] at hstep
  | submits i =>
      obtain ⟨p, phase, hi, hnext, rfl⟩ := move_cases hstep
      refine h.of_mover hi ?_
      cases hphase : p.phase <;> simp only [hphase, Option.some.injEq, reduceCtorEq] at hnext <;>
        simp [← hnext]
  | looksUp i =>
      obtain ⟨p, phase, hi, hnext, rfl⟩ := move_cases hstep
      refine h.of_mover hi ?_
      cases hphase : p.phase <;> simp [hphase, Phase.lookUp, h.entry] at hnext <;>
        simp [← hnext]
  | hands i task =>
      simp only [Shutdown.step] at hstep
      split at hstep
      case isFalse => cases hstep
      case isTrue =>
        obtain ⟨t, ht, rfl⟩ := Option.map_eq_some_iff.mp hstep
        obtain ⟨p, phase, hi, hnext, rfl⟩ := move_cases ht
        refine h.of_mover hi ?_
        split at hnext
        · simp [← Option.some.inj hnext]
        · cases hnext
  | stops i =>
      simp only [Shutdown.step] at hstep
      split at hstep
      case isFalse => cases hstep
      case isTrue =>
        obtain ⟨p, phase, hi, hnext, rfl⟩ := move_cases hstep
        split at hnext
        case isFalse => cases hnext
        case isTrue hcore =>
          obtain ⟨q, hq, hnot⟩ := h.notOver
          obtain ⟨j, hj⟩ := List.mem_iff_getElem?.mp hq
          refine ⟨h.entry, h.forgotten, q, Places.mem_set_of_ne hj ?_, hnot⟩
          rintro rfl
          obtain rfl := Option.some.inj (hi.symm.trans hj)
          exact hnot (.inr hcore)
  | takes i more =>
      obtain ⟨p, hi, hmatch⟩ := Option.bind_eq_some_iff.mp hstep
      cases hphase : p.phase <;> simp only [hphase, Option.some.injEq, reduceCtorEq] at hmatch
      case sending task =>
        subst hmatch
        exact h.of_mover hi (by simp)
  | shutsDown => simp [Shutdown.step, State.shutDown, h.forgotten] at hstep

/-- A loop that is not over when the entry goes keeps the loops from all ending with `null`. -/
lemma Doomed.not_allEnded (h : Doomed s) {as : List Action}
    (hrun : StepSystem.runFrom Shutdown.step s as = some s') : ¬ AllEnded s' := by
  have hdoomed : Doomed s' :=
    StepSystem.invariant_of_run _ (fun _ _ _ hI hstep => Doomed.step hI hstep) h hrun
  obtain ⟨p, hp, hnot⟩ := hdoomed.notOver
  exact fun hall => hnot (.inl (hall p hp))

/-- **The shutdown is graceful.**  In a run that takes the entry out only when every poller is over,
no poller throws and no completion is lost; once the entry is gone every loop can end with `null`,
and then every task that was handed out has been completed.  And the condition is exact: wherever
the entry is about to go, the loops can still all end with `null` if and only if they are over. -/
theorem shutdown_graceful {activities : ℕ} {as : List Action}
    (h : StepSystem.runFrom Shutdown.step (init activities) as = some s)
    (hok : StepSystem.Along Shutdown.step Settled (init activities) as) :
    Graceful s ∧
    (s.shutdown = .forgotten → ∃ bs s', StepSystem.runFrom Shutdown.step s bs = some s' ∧
      AllEnded s' ∧ ∀ task ∈ s'.handed, task ∈ s'.completed) ∧
    (s.shutdown = .initiated → ∀ t, step s .shutsDown = some t →
      ((∃ bs s', StepSystem.runFrom Shutdown.step t bs = some s' ∧ AllEnded s') ↔
        ∀ p ∈ s.pollers, p.over s.queued)) := by
  have hinv : Inv s :=
    StepSystem.invariant_of_step _ (fun _ _ _ hI hsa hstep => Inv.step hI hsa hstep)
      (inv_init activities) hok h
  refine ⟨hinv.graceful, fun hforgotten => ?_, fun hinit t ht => ⟨?_, fun hover => ?_⟩⟩
  · obtain ⟨bs, s', hrun, hended, hinv'⟩ := hinv.ends hforgotten
    refine ⟨bs, s', hrun, hended, fun task htask => ?_⟩
    refine (hinv'.graceful.2 task htask).resolve_right ?_
    rintro ⟨p, hp, hpt⟩
    rw [hended p hp] at hpt
    cases hpt
  · rintro ⟨bs, s', hrun, hended⟩ p hp
    obtain rfl : { s with entry := false, shutdown := .forgotten } = t := by
      simpa [Shutdown.step, State.shutDown, hinit] using ht
    by_contra hnot
    have hdoomed : Doomed { s with entry := false, shutdown := .forgotten } :=
      ⟨rfl, rfl, p, hp, hnot⟩
    exact hdoomed.not_allEnded hrun hended
  · obtain ⟨bs, s', hrun, hended, -⟩ := (hinv.step (a := .shutsDown) (fun _ => hover) ht).ends (by
      simp only [Shutdown.step, State.shutDown, hinit, Option.some.injEq] at ht
      rw [← ht])
    exact ⟨bs, s', hrun, hended⟩

end

/-- The poller is given a task, works on it and completes it. -/
def serves (i : ℕ) (task : Task) : List Action :=
  [.submits i, .looksUp i, .arrives task, .hands i task, .submits i, .looksUp i, .takes i []]

/-- Both pollers have served a task and wait in core when the worker is shut down. -/
theorem shutdown_graceful_waiting : ∃ s,
    StepSystem.runFrom step (init 1)
      (serves 0 ⟨.workflow, 1⟩ ++ serves 1 ⟨.activity, 2⟩ ++
        ([.submits 0, .looksUp 0, .submits 1, .looksUp 1] : List Action) ++
        List.replicate 4 Action.shutsDown) = some s ∧
    ∃ bs s', StepSystem.runFrom step s bs = some s' ∧ AllEnded s' ∧
      ∀ task ∈ s'.handed, task ∈ s'.completed :=
  ⟨_, rfl, (@shutdown_graceful _ 1 (serves 0 ⟨.workflow, 1⟩ ++ serves 1 ⟨.activity, 2⟩ ++
      ([.submits 0, .looksUp 0, .submits 1, .looksUp 1] : List Action) ++
      List.replicate 4 Action.shutsDown)
    rfl (by decide)).2.1 rfl⟩

/-- The workflow poller has a task in hand when the worker is shut down: its completion finds no
worker, and is lost. -/
theorem completion_lost : ∃ s,
    StepSystem.runFrom step (init 0)
      (([.submits 0, .looksUp 0, .arrives ⟨.workflow, 1⟩, .hands 0 ⟨.workflow, 1⟩] : List Action) ++
        List.replicate 4 Action.shutsDown ++ ([.submits 0, .looksUp 0] : List Action)) = some s ∧
    ¬ Graceful s ∧ s.pollers = [⟨.workflow, .threw⟩] ∧ ⟨.workflow, 1⟩ ∉ s.completed :=
  ⟨_, rfl, by decide, rfl, by decide⟩

end Shutdown

end Temporal

end Ignis
