import Ignis.Watch.Settle

/-!
# Workers that reload

The watcher's atomics of `Ignis.Watch.Settle` together with what feeds them and what reads them.  A
file is saved; if it is one of the watched files the watcher's callback is called, and the event
goes through the settle window into a generation.  A supervised worker loads files, reads the
generation at its first loop turn, and gives up its thread when the generation has grown and
`begin_reload` grants it one of the slots; the next incarnation's boot gives the slot back.

The saves are kept in a list of their own, with the place each has reached on its way to a
generation, so that a statement can speak of the generation a save settled into.
-/

namespace Ignis

namespace Watch

/-- Where a supervised worker stands. -/
inductive Life where
  /-- The thread has been spawned, and `Loop::boot` has not read the generation. -/
  | starting
  /-- `boot` has read the generation, and calls `ignis_watch_end_reload` next. -/
  | counted
  /-- `boot` hands the loaded files to the watcher next. -/
  | reporting
  | serving
  /-- `$stopping` is set. -/
  | winding
  /-- The thread is finished, or has died. -/
  | ended
  deriving DecidableEq, Repr

structure Worker where
  life : Life
  /-- The files this incarnation has loaded. -/
  loaded : List ℕ
  /-- `$watchGeneration`. -/
  watchGeneration : ℕ
  /-- Ghost: `begin_reload` has granted a slot, and no boot has given it back. -/
  away : Bool
  /-- Ghost: the saves, by their place in the list, of files this incarnation had loaded. -/
  stale : List ℕ
  deriving DecidableEq, Repr

/-- How far the event of a save has come. -/
inductive Stage where
  | raised
  /-- The watcher's callback is this task. -/
  | noticed (task : ℕ)
  /-- The callback has stored the time of the event. -/
  | stored
  /-- A compare-exchange has taken the time, and its increment comes next. -/
  | taken
  | settled (generation : ℕ)
  deriving DecidableEq, Repr

structure Save where
  file : ℕ
  stage : Stage
  deriving DecidableEq, Repr

structure Config where
  /-- `settle_ms`. -/
  settleMs : ℕ
  /-- `reload_parallel`. -/
  parallel : ℕ
  deriving DecidableEq, Repr

structure State where
  settle : Settle.State
  /-- The watched files. -/
  files : List ℕ
  /-- `RELOADING`. -/
  reloading : ℕ
  workers : List Worker
  saves : List Save
  deriving DecidableEq, Repr

/-- A thread that `spawn_worker` has just started. -/
def Worker.spawned (away : Bool) : Worker where
  life := .starting
  loaded := []
  watchGeneration := 0
  away := away
  stale := []

def init (clock : ℤ) (threads : ℕ) : State where
  settle := Settle.init clock
  files := []
  reloading := 0
  workers := List.replicate threads (.spawned false)
  saves := []

inductive Action where
  /-- A worker loads a file. -/
  | loads (i file : ℕ)
  /-- A file changes on disk. -/
  | saves (file : ℕ)
  /-- The watcher's callback finds the file of this save among the watched ones. -/
  | notices (n : ℕ)
  /-- A step of the watcher's tasks, of time, or of `request`. -/
  | settle (a : Settle.Action)
  /-- `Loop::boot` reads the generation. -/
  | boots (i : ℕ)
  /-- `Loop::boot` calls `ignis_watch_end_reload`. -/
  | endsReload (i : ℕ)
  /-- `watchLoadedFiles`. -/
  | reports (i : ℕ)
  /-- A loop turn sees a new generation and calls `ignis_watch_begin_reload`. -/
  | beginsReload (i : ℕ)
  /-- `Ignis\stop()`. -/
  | stops (i : ℕ)
  /-- The thread returns, or dies. -/
  | ends (i : ℕ)
  /-- `Worker::respawn`. -/
  | respawns (i : ℕ)
  deriving DecidableEq, Repr

/-- A save of this file makes an incarnation that has loaded it stale. -/
def Worker.saved (n file : ℕ) (w : Worker) : Worker :=
  if file ∈ w.loaded then { w with stale := n :: w.stale } else w

/-- What the next step of task `i` of the watcher does for a save. -/
def Stage.advance (s : Settle.State) (i : ℕ) (stage : Stage) : Stage :=
  match s.tasks[i]?, stage with
  | some (.stamped _), .noticed j => if j = i then .stored else stage
  | some (.exchanging last), .stored => if s.lastEvent = last then .taken else stage
  | some .bumping, .taken => .settled (s.generation + 1)
  | _, _ => stage

def Save.settle (s : Settle.State) (a : Settle.Action) (save : Save) : Save :=
  match a with
  | .task i => { save with stage := save.stage.advance s i }
  | _ => save

/-- The `i`th worker is in one of these states, and becomes another. -/
def State.update (s : State) (i : ℕ) (lives : List Life) (f : Worker → Worker) : Option State :=
  s.workers[i]?.bind fun w =>
    if w.life ∈ lives then some { s with workers := s.workers.set i (f w) } else none

/-- `begin_reload`, for a worker whose generation is behind. -/
def State.beginReload (cfg : Config) (s : State) (i : ℕ) : Option State :=
  s.workers[i]?.bind fun w =>
    if w.life = .serving ∧ w.watchGeneration < s.settle.generation then
      if s.reloading < cfg.parallel then
        some { s with
          reloading := s.reloading + 1
          workers := s.workers.set i { w with life := .winding, away := true } }
      else some s
    else none

def step (cfg : Config) (s : State) : Action → Option State
  | .loads i file =>
      s.update i [.starting, .counted, .reporting, .serving, .winding] fun w =>
        { w with loaded := file :: w.loaded }
  | .saves file =>
      some { s with
        workers := s.workers.map (Worker.saved s.saves.length file)
        saves := s.saves ++ [{ file := file, stage := .raised }] }
  | .notices n =>
      s.saves[n]?.bind fun save =>
        if save.stage = .raised ∧ save.file ∈ s.files then
          (Settle.step cfg.settleMs s.settle .event).map fun settle =>
            { s with
              settle := settle
              saves := s.saves.set n { save with stage := .noticed s.settle.tasks.length } }
        else none
  | .settle a =>
      (Settle.step cfg.settleMs s.settle a).map fun settle =>
        { s with settle := settle, saves := s.saves.map (Save.settle s.settle a) }
  | .boots i =>
      s.update i [.starting] fun w =>
        { w with life := .counted, watchGeneration := s.settle.generation }
  | .endsReload i =>
      (s.update i [.counted] fun w => { w with life := .reporting, away := false }).map fun t =>
        { t with reloading := s.reloading - 1 }
  | .reports i =>
      (s.update i [.reporting, .serving, .winding] fun w =>
        { w with life := if w.life = .reporting then .serving else w.life }).map fun t =>
          { t with files := (s.workers[i]?.elim [] Worker.loaded) ++ s.files }
  | .beginsReload i => s.beginReload cfg i
  | .stops i => s.update i [.serving] fun w => { w with life := .winding }
  | .ends i =>
      s.update i [.starting, .counted, .reporting, .serving, .winding] fun w =>
        { w with life := .ended }
  | .respawns i => s.update i [.ended] fun w => .spawned w.away

section

variable {cfg : Config} {s s' : State}

lemma update_cases {i : ℕ} {lives : List Life} {f : Worker → Worker}
    (h : s.update i lives f = some s') :
    ∃ w, s.workers[i]? = some w ∧ w.life ∈ lives ∧
      s' = { s with workers := s.workers.set i (f w) } := by
  obtain ⟨w, hw, hif⟩ := Option.bind_eq_some_iff.mp h
  split at hif
  case isTrue hlife => exact ⟨w, hw, hlife, (Option.some.inj hif).symm⟩
  case isFalse => cases hif

/-- The two ends of `begin_reload`. -/
lemma beginReload_cases {i : ℕ} (h : s.beginReload cfg i = some s') :
    s' = s ∨ ∃ w, s.workers[i]? = some w ∧ w.life = .serving ∧ s.reloading < cfg.parallel ∧
      s' = { s with
        reloading := s.reloading + 1
        workers := s.workers.set i { w with life := .winding, away := true } } := by
  obtain ⟨w, hw, hif⟩ := Option.bind_eq_some_iff.mp h
  split at hif
  case isTrue hlife =>
    split at hif
    case isTrue hslot => exact .inr ⟨w, hw, hlife.1, hslot, (Option.some.inj hif).symm⟩
    case isFalse => exact .inl (Option.some.inj hif).symm
  case isFalse => cases hif

end

end Watch

end Ignis
