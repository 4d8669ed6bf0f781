import Mathlib.Data.Int.Notation
import Ignis.Lib.StepSystem

/-!
# The settle window of the watcher

Three atomics tie the watcher's callback to the task that waits out the settle window.  The callback
stores the time of the event in `LAST_EVENT` and calls `schedule_wake`, which spawns the waker
unless `WAKE_SCHEDULED` says there is one.  The waker sleeps, reads the time, and when it is old
enough puts zero in its place and bumps `GENERATION`.  When it is done it clears the flag first and
looks at `LAST_EVENT` once more second.

Each call on an atomic is a step of its own, and so is each reading of the system clock; between
any two of them every other thread may run.  The tokio runtime is installed.  Tokio sleeps by a
clock that has nothing to do with the system's, so the end of a sleep may come at any reading of it.

`Effect` lists what a step can do.  Most of the steps of a thread only read an atomic, and what they
do to the thread is `Moves`.
-/

namespace Ignis

namespace Settle

/-- Where a thread stands: a callback of the watcher, a waker, or a call of `claim_reset`. -/
inductive Task where
  /-- A watched file has changed, and the callback calls `now_ms` next. -/
  | noticed
  /-- `LAST_EVENT.store` comes next. -/
  | stamped (now : ℕ)
  /-- The event is stored, and `schedule_wake` swaps `WAKE_SCHEDULED` next. -/
  | arming
  /-- `schedule_wake` found the flag clear, and spawns the waker next. -/
  | spawning
  /-- The waker sleeps. -/
  | sleeping
  /-- The waker loads `LAST_EVENT` next. -/
  | loading
  /-- The waker read this time, and compares it with `now_ms` next. -/
  | testing (last : ℕ)
  /-- The compare-exchange from this time to zero comes next. -/
  | exchanging (last : ℕ)
  /-- `GENERATION.fetch_add` comes next. -/
  | bumping
  /-- The waker has left its loop, and clears `WAKE_SCHEDULED` next. -/
  | releasing
  /-- The waker loads `LAST_EVENT` for the last time next. -/
  | rechecking
  /-- The last load found an event, and the re-check's `schedule_wake` swaps the flag next. -/
  | rearming
  /-- `claim_reset` loads `GENERATION` next. -/
  | claiming
  /-- `claim_reset` read this generation, and calls `RESET_GENERATION.fetch_max` next. -/
  | claimingAt (generation : ℕ)
  | done
  deriving DecidableEq, Repr

structure State where
  /-- The system clock, in milliseconds since the epoch. -/
  clock : ℤ
  /-- `LAST_EVENT`. -/
  lastEvent : ℕ
  /-- `WAKE_SCHEDULED`. -/
  wakeScheduled : Bool
  /-- `GENERATION`. -/
  generation : ℕ
  /-- `RESET_GENERATION`. -/
  resetGeneration : ℕ
  tasks : List Task
  /-- Ghost: the generations for which `claim_reset` has returned true. -/
  claimed : List ℕ
  deriving DecidableEq, Repr

def init (clock : ℤ) : State where
  clock := clock
  lastEvent := 0
  wakeScheduled := false
  generation := 0
  resetGeneration := 0
  tasks := []
  claimed := []

/-- `now_ms`: zero before the epoch. -/
def State.nowMs (s : State) : ℕ := s.clock.toNat

inductive Action where
  /-- The watcher reports a change of a watched file. -/
  | event
  /-- A thread calls `claim_reset`. -/
  | claim
  /-- `request`: a reload without a file event. -/
  | request
  /-- Time passes. -/
  | elapses (ms : ℕ)
  /-- The system clock is set. -/
  | sets (clock : ℤ)
  /-- A thread takes its next step. -/
  | task (i : ℕ)
  deriving DecidableEq, Repr

/-- The next step of a thread: what it does to the atomics, and where it stands afterwards. -/
def advance (settleMs : ℕ) (s : State) : Task → Option (State × Task)
  | .noticed => some (s, .stamped s.nowMs)
  | .stamped now => some ({ s with lastEvent := now }, .arming)
  | .arming | .rearming =>
      some ({ s with wakeScheduled := true }, if s.wakeScheduled then .done else .spawning)
  | .spawning => some ({ s with tasks := s.tasks ++ [.sleeping] }, .done)
  | .sleeping => some (s, .loading)
  | .loading => some (s, if s.lastEvent = 0 then .releasing else .testing s.lastEvent)
  | .testing last =>
      some (s, if settleMs ≤ s.nowMs - last then .exchanging last else .sleeping)
  | .exchanging last =>
      if s.lastEvent = last then some ({ s with lastEvent := 0 }, .bumping)
      else some (s, .sleeping)
  | .bumping => some ({ s with generation := s.generation + 1 }, .releasing)
  | .releasing => some ({ s with wakeScheduled := false }, .rechecking)
  | .rechecking => some (s, if s.lastEvent = 0 then .done else .rearming)
  | .claiming => some (s, .claimingAt s.generation)
  | .claimingAt generation =>
      some ({ s with
        resetGeneration := max s.resetGeneration generation
        claimed :=
          if s.resetGeneration < generation then generation :: s.claimed else s.claimed }, .done)
  | .done => none

def step (settleMs : ℕ) (s : State) : Action → Option State
  | .event => some { s with tasks := s.tasks ++ [.noticed] }
  | .claim => some { s with tasks := s.tasks ++ [.claiming] }
  | .request => some { s with generation := s.generation + 1 }
  | .elapses ms => some { s with clock := s.clock + ms }
  | .sets clock => some { s with clock := clock }
  | .task i =>
      s.tasks[i]?.bind fun task =>
        (advance settleMs s task).map fun (t, next) => { t with tasks := t.tasks.set i next }

/-- The thread answers for `WAKE_SCHEDULED`: it is a waker that has not cleared the flag, or about
to spawn one. -/
def Task.holds : Task → Bool
  | .spawning | .sleeping | .loading | .testing _ | .exchanging _ | .bumping | .releasing => true
  | _ => false

/-- A waker from its spawn to the clearing of the flag. -/
def Task.active : Task → Bool
  | .sleeping | .loading | .testing _ | .exchanging _ | .bumping | .releasing => true
  | _ => false

/-- An event in `LAST_EVENT` is not forgotten: a waker that is scheduled or active will read it, the
callback has still to swap the flag, or a finishing waker has still to complete its re-check. -/
def Task.attends : Task → Bool
  | .arming | .rechecking | .rearming => true
  | task => task.holds

/-- The clock is past the epoch when a callback reads it. -/
def PastEpoch (s : State) : Action → Prop
  | .task i => s.tasks[i]? = some .noticed → 0 < s.clock
  | _ => True

instance (s : State) (a : Action) : Decidable (PastEpoch s a) :=
  match a with
  | .task i => inferInstanceAs (Decidable (s.tasks[i]? = some .noticed → 0 < s.clock))
  | .event | .claim | .request | .elapses _ | .sets _ => isTrue trivial

/-- What a thread can do without touching an atomic but to read it. -/
inductive Moves (settleMs : ℕ) (s : State) : Task → Task → Prop where
  | stamps : Moves settleMs s .noticed (.stamped s.nowMs)
  | wakes : Moves settleMs s .sleeping .loading
  | loadsZero (hlast : s.lastEvent = 0) : Moves settleMs s .loading .releasing
  | loads (hlast : s.lastEvent ≠ 0) : Moves settleMs s .loading (.testing s.lastEvent)
  | quiet {last : ℕ} (hquiet : settleMs ≤ s.nowMs - last) :
      Moves settleMs s (.testing last) (.exchanging last)
  | notQuiet {last : ℕ} : Moves settleMs s (.testing last) .sleeping
  | loses {last : ℕ} (hlast : s.lastEvent ≠ last) : Moves settleMs s (.exchanging last) .sleeping
  | rechecksZero (hlast : s.lastEvent = 0) : Moves settleMs s .rechecking .done
  | rechecks (hlast : s.lastEvent ≠ 0) : Moves settleMs s .rechecking .rearming
  | reads : Moves settleMs s .claiming (.claimingAt s.generation)

/-- What a step can do. -/
inductive Effect (settleMs : ℕ) (s : State) : Action → State → Prop where
  | event : Effect settleMs s .event { s with tasks := s.tasks ++ [.noticed] }
  | claim : Effect settleMs s .claim { s with tasks := s.tasks ++ [.claiming] }
  | request : Effect settleMs s .request { s with generation := s.generation + 1 }
  | elapses (ms : ℕ) : Effect settleMs s (.elapses ms) { s with clock := s.clock + ms }
  | sets (clock : ℤ) : Effect settleMs s (.sets clock) { s with clock := clock }
  | moves {i : ℕ} {task next : Task} (hi : s.tasks[i]? = some task)
      (hmove : Moves settleMs s task next) :
      Effect settleMs s (.task i) { s with tasks := s.tasks.set i next }
  | stores {i now : ℕ} (hi : s.tasks[i]? = some (.stamped now)) :
      Effect settleMs s (.task i) { s with lastEvent := now, tasks := s.tasks.set i .arming }
  | arms {i : ℕ} {task : Task} (hi : s.tasks[i]? = some task)
      (htask : task = .arming ∨ task = .rearming) (hflag : s.wakeScheduled = false) :
      Effect settleMs s (.task i)
        { s with wakeScheduled := true, tasks := s.tasks.set i .spawning }
  | armed {i : ℕ} {task : Task} (hi : s.tasks[i]? = some task)
      (htask : task = .arming ∨ task = .rearming) (hflag : s.wakeScheduled = true) :
      Effect settleMs s (.task i) { s with tasks := s.tasks.set i .done }
  | spawns {i : ℕ} (hi : s.tasks[i]? = some .spawning) :
      Effect settleMs s (.task i) { s with tasks := s.tasks.set i .done ++ [.sleeping] }
  | exchanges {i : ℕ} (hi : s.tasks[i]? = some (.exchanging s.lastEvent)) :
      Effect settleMs s (.task i) { s with lastEvent := 0, tasks := s.tasks.set i .bumping }
  | bumps {i : ℕ} (hi : s.tasks[i]? = some .bumping) :
      Effect settleMs s (.task i)
        { s with generation := s.generation + 1, tasks := s.tasks.set i .releasing }
  | releases {i : ℕ} (hi : s.tasks[i]? = some .releasing) :
      Effect settleMs s (.task i)
        { s with wakeScheduled := false, tasks := s.tasks.set i .rechecking }
  | claims {i generation : ℕ} (hi : s.tasks[i]? = some (.claimingAt generation)) :
      Effect settleMs s (.task i)
        { s with
          resetGeneration := max s.resetGeneration generation
          claimed :=
            if s.resetGeneration < generation then generation :: s.claimed else s.claimed
          tasks := s.tasks.set i .done }

section

variable {settleMs : ℕ} {s s' : State}

/-- One thread's step. -/
lemma Effect.of_advance {i : ℕ} {task next : Task} {t : State} (hi : s.tasks[i]? = some task)
    (h : advance settleMs s task = some (t, next)) :
    Effect settleMs s (.task i) { t with tasks := t.tasks.set i next } := by
  cases task with
  | noticed =>
      obtain ⟨rfl, rfl⟩ := Prod.mk.inj (Option.some.inj h)
      exact .moves hi .stamps
  | stamped now =>
      obtain ⟨rfl, rfl⟩ := Prod.mk.inj (Option.some.inj h)
      exact .stores hi
  | arming | rearming =>
      obtain ⟨rfl, rfl⟩ := Prod.mk.inj (Option.some.inj h)
      cases hflag : s.wakeScheduled with
      | true =>
          have heffect : Effect settleMs s (.task i) { s with tasks := s.tasks.set i .done } :=
            .armed hi (by simp) hflag
          rw [← hflag]
          simpa [hflag] using heffect
      | false =>
          exact .arms hi (by simp) hflag
  | spawning =>
      obtain ⟨rfl, rfl⟩ := Prod.mk.inj (Option.some.inj h)
      have hlt := (List.getElem?_eq_some_iff.mp hi).1
      have heffect : Effect settleMs s (.task i)
          { s with tasks := s.tasks.set i .done ++ [.sleeping] } := .spawns hi
      rwa [← List.set_append_left _ _ hlt] at heffect
  | sleeping =>
      obtain ⟨rfl, rfl⟩ := Prod.mk.inj (Option.some.inj h)
      exact .moves hi .wakes
  | loading =>
      obtain ⟨rfl, rfl⟩ := Prod.mk.inj (Option.some.inj h)
      split
      case isTrue hlast => exact .moves hi (.loadsZero hlast)
      case isFalse hlast => exact .moves hi (.loads hlast)
  | testing last =>
      obtain ⟨rfl, rfl⟩ := Prod.mk.inj (Option.some.inj h)
      split
      case isTrue hquiet => exact .moves hi (.quiet hquiet)
      case isFalse => exact .moves hi .notQuiet
  | exchanging last =>
      simp only [advance] at h
      split at h
      case isTrue hlast =>
        obtain ⟨rfl, rfl⟩ := Prod.mk.inj (Option.some.inj h)
        subst hlast
        exact .exchanges hi
      case isFalse hlast =>
        obtain ⟨rfl, rfl⟩ := Prod.mk.inj (Option.some.inj h)
        exact .moves hi (.loses hlast)
  | bumping =>
      obtain ⟨rfl, rfl⟩ := Prod.mk.inj (Option.some.inj h)
      exact .bumps hi
  | releasing =>
      obtain ⟨rfl, rfl⟩ := Prod.mk.inj (Option.some.inj h)
      exact .releases hi
  | rechecking =>
      obtain ⟨rfl, rfl⟩ := Prod.mk.inj (Option.some.inj h)
      split
      case isTrue hlast => exact .moves hi (.rechecksZero hlast)
      case isFalse hlast => exact .moves hi (.rechecks hlast)
  | claiming =>
      obtain ⟨rfl, rfl⟩ := Prod.mk.inj (Option.some.inj h)
      exact .moves hi .reads
  | claimingAt generation =>
      obtain ⟨rfl, rfl⟩ := Prod.mk.inj (Option.some.inj h)
      exact .claims hi
  | done => cases h

/-- **One step.** -/
theorem effect_of_step {a : Action} (h : step settleMs s a = some s') :
    Effect settleMs s a s' := by
  cases a with
  | event =>
      obtain rfl := Option.some.inj h
      exact .event
  | claim =>
      obtain rfl := Option.some.inj h
      exact .claim
  | request =>
      obtain rfl := Option.some.inj h
      exact .request
  | elapses ms =>
      obtain rfl := Option.some.inj h
      exact .elapses ms
  | sets clock =>
      obtain rfl := Option.some.inj h
      exact .sets clock
  | task i =>
      obtain ⟨task, hi, hmap⟩ := Option.bind_eq_some_iff.mp h
      obtain ⟨⟨t, next⟩, hadv, rfl⟩ := Option.map_eq_some_iff.mp hmap
      exact Effect.of_advance hi hadv

end

end Settle

end Ignis
