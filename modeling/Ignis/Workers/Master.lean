import Ignis.Lib.ProcessTable
import Ignis.Lib.StepSystem

/-!
# The master of `--workers`

`run` forks the workers and `supervise` keeps them: it reaps, respawns within a budget, retries the
slots it has paused, and acts on the signal that is pending.  The master is one thread, but the
kernel is not, so the loop is cut where a worker may end, a signal may arrive or time may pass
between two of its calls.  `advance` is the master's next step and what it passes to `kill`; the
argument `answer` is the pid the kernel returns from `fork` or `waitpid(-1)`, `none` for a failure
or for no child that has ended.

A worker that ends becomes a zombie of the process table and stays one until the master waits for
it.  `Effect` lists what a step can do, and the modules that follow work from that list.
-/

namespace Ignis

namespace Workers

/-- The signals the master has a handler for. -/
inductive Signal where
  | hup
  | term
  | int
  deriving DecidableEq, Repr

structure Config where
  /-- `--workers`. -/
  count : ℕ
  respawn : Bool
  /-- `drain_timeout`, in milliseconds. -/
  drainTimeout : ℕ
  deriving DecidableEq, Repr

/-- `RESTARTS_PER_MINUTE`. -/
def restartsPerMinute : ℕ := 10

/-- `RESTART_PAUSE`, in milliseconds. -/
def restartPause : ℕ := 5000

/-- How long a worker is given to drain, in milliseconds. -/
def Config.patience (cfg : Config) : ℕ := cfg.drainTimeout + 2000

structure Child where
  slot : ℕ
  pid : ℕ
  retryAt : Option ℕ
  deriving DecidableEq, Repr

/-- Where the master stands. -/
inductive Control where
  /-- `run` is about to fork the worker of this slot. -/
  | starting (slot : ℕ)
  /-- At the head of the loop of `supervise`. -/
  | sleeping
  /-- About to call `reap_one`. -/
  | reaping
  /-- The worker of this slot has been reaped, and `spawn` comes next. -/
  | respawning (slot : ℕ)
  /-- `retry_paused_slots` looks at this child next. -/
  | retrying (i : ℕ)
  /-- About to swap `PENDING_SIGNAL`. -/
  | signalling
  /-- `reload_one_at_a_time` signals this child next. -/
  | reloading (i : ℕ)
  /-- `wait_for` polls for this child until the deadline. -/
  | waiting (i : ℕ) (deadline : ℕ)
  /-- `wait_for` has killed this child, and its `waitpid` blocks. -/
  | killed (i : ℕ)
  /-- This child has been waited for, and `spawn` comes next. -/
  | replacing (i : ℕ)
  /-- The signal has been dealt with; the two tests at the end of the loop come next. -/
  | checking
  | returned (status : ℕ)
  deriving DecidableEq, Repr

structure State where
  /-- The workers the kernel keeps for the master, with the slot each was forked for. -/
  table : ProcessTable ℕ
  now : ℕ
  /-- `PENDING_SIGNAL`. -/
  pendingSignal : Option Signal
  children : List Child
  worstStatus : ℕ
  restartsThisMinute : ℕ
  minute : ℕ
  shutdownDeadline : Option ℕ
  control : Control
  /-- Ghost: the slots that are not paused and whose last fork, in a reload, failed. -/
  unreplaced : List ℕ

def init : State where
  table := .empty
  now := 0
  pendingSignal := none
  children := []
  worstStatus := 0
  restartsThisMinute := 0
  minute := 0
  shutdownDeadline := none
  control := .starting 0
  unreplaced := []

/-- `spawn`: the kernel answers `fork` with a pid no child of the master carries, or refuses. -/
def spawn (s : State) (slot : ℕ) : Option ℕ → Option (State × Option Child)
  | none => some (s, none)
  | some pid =>
      (s.table.fork pid slot).map fun T =>
        ({ s with table := T }, some { slot := slot, pid := pid, retryAt := none })

/-- One pass of the loop of `run`. -/
def State.start (cfg : Config) (s : State) (slot : ℕ) (answer : Option ℕ) : Option State :=
  if slot < cfg.count then
    (spawn s slot answer).map fun
      | (t, some child) =>
          { t with children := t.children ++ [child], control := .starting (slot + 1) }
      | (t, none) => { t with control := .returned 1 }
  else
    some { s with minute := s.now, control := .sleeping }

/-- The body of the reaping loop, for a child taken off the list. -/
def State.ended (cfg : Config) (s : State) (child : Child) (status : ℕ) : State :=
  let s := { s with worstStatus := max s.worstStatus status }
  if s.shutdownDeadline.isSome || !cfg.respawn then
    { s with control := .reaping }
  else
    let s := if s.now - s.minute > 60000 then
      { s with minute := s.now, restartsThisMinute := 0 } else s
    if restartsPerMinute ≤ s.restartsThisMinute then
      { s with
        children := s.children ++ [{ child with retryAt := some (s.now + restartPause) }]
        control := .reaping }
    else
      { s with restartsThisMinute := s.restartsThisMinute + 1, control := .respawning child.slot }

/-- The head of the reaping loop: `reap_one` and the search of the list. -/
def State.reapOne (cfg : Config) (s : State) : Option ℕ → Option State
  | none => if s.table.AllRun then some { s with control := .retrying 0 } else none
  | some pid =>
      (s.table.status pid).map fun status =>
        let s := { s with table := s.table.reap pid }
        match s.children.findIdx? fun child => child.pid = pid with
        | none => { s with control := .reaping }
        | some index =>
            match s.children[index]? with
            | none => { s with control := .reaping }
            | some child =>
                State.ended cfg { s with children := s.children.eraseIdx index } child status

/-- The end of the reaping loop's body: `spawn` for the slot of the worker that ended. -/
def State.respawn (s : State) (slot : ℕ) (answer : Option ℕ) : Option State :=
  (spawn s slot answer).map fun
    | (t, some child) => { t with children := t.children ++ [child], control := .reaping }
    | (t, none) => { t with control := .reaping }

/-- One pass of the loop of `retry_paused_slots`. -/
def State.retry (s : State) (i : ℕ) (answer : Option ℕ) : Option State :=
  match s.children[i]? with
  | none => some { s with control := .signalling }
  | some child =>
      match child.retryAt with
      | none => some { s with control := .retrying (i + 1) }
      | some retryAt =>
          if s.now < retryAt then
            some { s with control := .retrying (i + 1) }
          else
            (spawn s child.slot answer).map fun
              | (t, some fresh) =>
                  { t with children := t.children.set i fresh, control := .retrying (i + 1) }
              | (t, none) => { t with control := .retrying (i + 1) }

/-- What `forward` passes to `kill`. -/
def forward (children : List Child) : List ℕ :=
  children.map Child.pid

/-- `PENDING_SIGNAL` is swapped and acted on. -/
def State.handle (cfg : Config) (s : State) : State × List ℕ :=
  match s.pendingSignal with
  | none => ({ s with control := .checking }, [])
  | some .hup => ({ s with pendingSignal := none, control := .reloading 0 }, [])
  | some _ =>
      ({ s with
          pendingSignal := none
          shutdownDeadline := some (s.shutdownDeadline.getD (s.now + cfg.patience))
          control := .checking },
        forward s.children)

/-- The head of the loop of `reload_one_at_a_time`: the child is asked to drain. -/
def State.reload (cfg : Config) (s : State) (i : ℕ) : State × List ℕ :=
  match s.children[i]? with
  | none => ({ s with control := .checking }, [])
  | some child => ({ s with control := .waiting i (s.now + cfg.patience) }, [child.pid])

/-- One pass of the loop of `wait_for`. -/
def State.waitFor (s : State) (i deadline : ℕ) : Option (State × List ℕ) :=
  s.children[i]?.map fun child =>
    if (s.table.status child.pid).isSome then
      ({ s with table := s.table.reap child.pid, control := .replacing i }, [])
    else if deadline < s.now then
      ({ s with control := .killed i }, [child.pid])
    else
      (s, [])

/-- The blocking `waitpid` of `wait_for`: it returns when the process has ended, and at once for a
pid that is not a child's. -/
def State.waitKilled (s : State) (i : ℕ) : Option State :=
  s.children[i]?.bind fun child =>
    if (s.table.status child.pid).isSome ∨ ¬ s.table.Unreaped child.pid then
      some { s with table := s.table.reap child.pid, control := .replacing i }
    else none

/-- The end of the loop body of `reload_one_at_a_time`. -/
def State.replace (s : State) (i : ℕ) (answer : Option ℕ) : Option State :=
  s.children[i]?.bind fun child =>
    (spawn s child.slot answer).map fun
      | (t, some fresh) =>
          { t with
            children := t.children.set i fresh
            control := .reloading (i + 1)
            unreplaced := t.unreplaced.filter (· ≠ child.slot) }
      | (t, none) =>
          { t with
            control := .reloading (i + 1)
            unreplaced :=
              if child.retryAt = none then child.slot :: t.unreplaced else t.unreplaced }

/-- The two tests at the end of the loop of `supervise`. -/
def State.check (s : State) : State × List ℕ :=
  if s.children = [] then
    ({ s with control := .returned (if s.shutdownDeadline.isSome then 0 else s.worstStatus) }, [])
  else if ∃ deadline ∈ s.shutdownDeadline, deadline < s.now then
    ({ s with control := .returned 0 }, forward s.children)
  else
    ({ s with control := .sleeping }, [])

/-- The master's next step, and the pids it passes to `kill`. -/
def advance (cfg : Config) (s : State) (answer : Option ℕ) : Option (State × List ℕ) :=
  match s.control with
  | .starting slot => (s.start cfg slot answer).map (·, [])
  | .sleeping => some ({ s with control := .reaping }, [])
  | .reaping => (s.reapOne cfg answer).map (·, [])
  | .respawning slot => (s.respawn slot answer).map (·, [])
  | .retrying i => (s.retry i answer).map (·, [])
  | .signalling => some (s.handle cfg)
  | .reloading i => some (s.reload cfg i)
  | .waiting i deadline => s.waitFor i deadline
  | .killed i => (s.waitKilled i).map (·, [])
  | .replacing i => (s.replace i answer).map (·, [])
  | .checking => some s.check
  | .returned _ => none

inductive Action where
  /-- A process ends. -/
  | exits (pid status : ℕ)
  /-- A signal arrives at the master: `remember_signal`. -/
  | receives (signal : Signal)
  /-- Time passes, in milliseconds. -/
  | elapses (ms : ℕ)
  | master (answer : Option ℕ)
  deriving DecidableEq, Repr

def step (cfg : Config) (s : State) : Action → Option State
  | .exits pid status => some { s with table := s.table.exit pid status }
  | .receives signal => some { s with pendingSignal := some signal }
  | .elapses ms => some { s with now := s.now + ms }
  | .master answer => (advance cfg s answer).map Prod.fst

/-- The pids an action passes to `kill`. -/
def kills (cfg : Config) (s : State) : Action → List ℕ
  | .master answer => ((advance cfg s answer).map Prod.snd).getD []
  | _ => []

/-- What a step can do. -/
inductive Effect (cfg : Config) (s : State) : Action → State → Prop where
  | exits (pid status : ℕ) :
      Effect cfg s (.exits pid status) { s with table := s.table.exit pid status }
  | receives (signal : Signal) :
      Effect cfg s (.receives signal) { s with pendingSignal := some signal }
  | elapses (ms : ℕ) : Effect cfg s (.elapses ms) { s with now := s.now + ms }
  | started {slot pid : ℕ} {T : ProcessTable ℕ} (hc : s.control = .starting slot)
      (hslot : slot < cfg.count) (hT : s.table.fork pid slot = some T) :
      Effect cfg s (.master (some pid))
        { s with
          table := T
          children := s.children ++ [{ slot := slot, pid := pid, retryAt := none }]
          control := .starting (slot + 1) }
  | startFailed {slot : ℕ} (hc : s.control = .starting slot) (hslot : slot < cfg.count) :
      Effect cfg s (.master none) { s with control := .returned 1 }
  | startDone {slot : ℕ} {answer : Option ℕ} (hc : s.control = .starting slot)
      (hslot : cfg.count ≤ slot) :
      Effect cfg s (.master answer) { s with minute := s.now, control := .sleeping }
  | woke {answer : Option ℕ} (hc : s.control = .sleeping) :
      Effect cfg s (.master answer) { s with control := .reaping }
  | allRun (hc : s.control = .reaping) (hrun : s.table.AllRun) :
      Effect cfg s (.master none) { s with control := .retrying 0 }
  | reapedStranger {pid : ℕ} (hc : s.control = .reaping)
      (hpid : ∀ child ∈ s.children, child.pid ≠ pid) :
      Effect cfg s (.master (some pid))
        { s with table := s.table.reap pid, control := .reaping }
  | reaped {pid status index : ℕ} {child : Child} (hc : s.control = .reaping)
      (hindex : s.children.findIdx? (fun child => child.pid = pid) = some index)
      (hchild : s.children[index]? = some child) :
      Effect cfg s (.master (some pid))
        (State.ended cfg
          { s with table := s.table.reap pid, children := s.children.eraseIdx index } child status)
  | respawned {slot pid : ℕ} {T : ProcessTable ℕ} (hc : s.control = .respawning slot)
      (hT : s.table.fork pid slot = some T) :
      Effect cfg s (.master (some pid))
        { s with
          table := T
          children := s.children ++ [{ slot := slot, pid := pid, retryAt := none }]
          control := .reaping }
  | respawnFailed {slot : ℕ} (hc : s.control = .respawning slot) :
      Effect cfg s (.master none) { s with control := .reaping }
  | retriedAll {i : ℕ} {answer : Option ℕ} (hc : s.control = .retrying i)
      (hi : s.children[i]? = none) : Effect cfg s (.master answer) { s with control := .signalling }
  | notRetried {i : ℕ} {child : Child} {answer : Option ℕ} (hc : s.control = .retrying i)
      (hi : s.children[i]? = some child)
      (hdue : ∀ retryAt ∈ child.retryAt, s.now < retryAt ∨ answer = none) :
      Effect cfg s (.master answer) { s with control := .retrying (i + 1) }
  | retried {i pid retryAt : ℕ} {child : Child} {T : ProcessTable ℕ} (hc : s.control = .retrying i)
      (hi : s.children[i]? = some child) (hretry : child.retryAt = some retryAt)
      (hdue : retryAt ≤ s.now) (hT : s.table.fork pid child.slot = some T) :
      Effect cfg s (.master (some pid))
        { s with
          table := T
          children := s.children.set i { slot := child.slot, pid := pid, retryAt := none }
          control := .retrying (i + 1) }
  | noSignal {answer : Option ℕ} (hc : s.control = .signalling) (hsig : s.pendingSignal = none) :
      Effect cfg s (.master answer) { s with control := .checking }
  | reloads {answer : Option ℕ} (hc : s.control = .signalling)
      (hsig : s.pendingSignal = some .hup) :
      Effect cfg s (.master answer) { s with pendingSignal := none, control := .reloading 0 }
  | shutsDown {signal : Signal} {answer : Option ℕ} (hc : s.control = .signalling)
      (hsig : s.pendingSignal = some signal) (hhup : signal ≠ .hup) :
      Effect cfg s (.master answer)
        { s with
          pendingSignal := none
          shutdownDeadline := some (s.shutdownDeadline.getD (s.now + cfg.patience))
          control := .checking }
  | reloadedAll {i : ℕ} {answer : Option ℕ} (hc : s.control = .reloading i)
      (hi : s.children[i]? = none) : Effect cfg s (.master answer) { s with control := .checking }
  | asked {i : ℕ} {child : Child} {answer : Option ℕ} (hc : s.control = .reloading i)
      (hi : s.children[i]? = some child) :
      Effect cfg s (.master answer)
        { s with control := .waiting i (s.now + cfg.patience) }
  | drained {i deadline : ℕ} {child : Child} {answer : Option ℕ}
      (hc : s.control = .waiting i deadline) (hi : s.children[i]? = some child) :
      Effect cfg s (.master answer)
        { s with table := s.table.reap child.pid, control := .replacing i }
  | timedOut {i deadline : ℕ} {child : Child} {answer : Option ℕ}
      (hc : s.control = .waiting i deadline) (hi : s.children[i]? = some child) :
      Effect cfg s (.master answer) { s with control := .killed i }
  | waits {i deadline : ℕ} {answer : Option ℕ} (hc : s.control = .waiting i deadline) :
      Effect cfg s (.master answer) s
  | waited {i : ℕ} {child : Child} {answer : Option ℕ} (hc : s.control = .killed i)
      (hi : s.children[i]? = some child) :
      Effect cfg s (.master answer)
        { s with table := s.table.reap child.pid, control := .replacing i }
  | replaced {i pid : ℕ} {child : Child} {T : ProcessTable ℕ} (hc : s.control = .replacing i)
      (hi : s.children[i]? = some child) (hT : s.table.fork pid child.slot = some T) :
      Effect cfg s (.master (some pid))
        { s with
          table := T
          children := s.children.set i { slot := child.slot, pid := pid, retryAt := none }
          control := .reloading (i + 1)
          unreplaced := s.unreplaced.filter (· ≠ child.slot) }
  | replaceFailed {i : ℕ} {child : Child} (hc : s.control = .replacing i)
      (hi : s.children[i]? = some child) :
      Effect cfg s (.master none)
        { s with
          control := .reloading (i + 1)
          unreplaced := if child.retryAt = none then child.slot :: s.unreplaced else s.unreplaced }
  | returns {status : ℕ} {answer : Option ℕ} (hc : s.control = .checking) :
      Effect cfg s (.master answer) { s with control := .returned status }
  | loops {answer : Option ℕ} (hc : s.control = .checking) :
      Effect cfg s (.master answer) { s with control := .sleeping }

/-- What `spawn` answers: the slot's process is in the table, or nothing has happened. -/
lemma spawn_cases {s t : State} {slot : ℕ} {answer : Option ℕ} {child : Option Child}
    (h : spawn s slot answer = some (t, child)) :
    (answer = none ∧ t = s ∧ child = none) ∨
    ∃ pid T, answer = some pid ∧ s.table.fork pid slot = some T ∧ t = { s with table := T } ∧
      child = some { slot := slot, pid := pid, retryAt := none } := by
  cases answer with
  | none =>
      simp only [spawn, Option.some.injEq, Prod.mk.injEq] at h
      exact .inl ⟨rfl, h.1.symm, h.2.symm⟩
  | some pid =>
      simp only [spawn, Option.map_eq_some_iff, Prod.mk.injEq] at h
      obtain ⟨T, hT, rfl, rfl⟩ := h
      exact .inr ⟨pid, T, rfl, hT, rfl, rfl⟩

section

variable {cfg : Config} {s t : State} {answer : Option ℕ}

lemma Effect.of_start {slot : ℕ} (hc : s.control = .starting slot)
    (h : s.start cfg slot answer = some t) : Effect cfg s (.master answer) t := by
  unfold State.start at h
  split at h
  case isTrue hslot =>
    obtain ⟨⟨u, child⟩, hu, rfl⟩ := Option.map_eq_some_iff.mp h
    rcases spawn_cases hu with ⟨rfl, rfl, rfl⟩ | ⟨pid, T, rfl, hT, rfl, rfl⟩
    · exact .startFailed hc hslot
    · exact .started hc hslot hT
  case isFalse hslot =>
    obtain rfl := Option.some.inj h
    exact .startDone hc (by omega)

lemma Effect.of_reapOne (hc : s.control = .reaping) (h : s.reapOne cfg answer = some t) :
    Effect cfg s (.master answer) t := by
  cases answer with
  | none =>
      simp only [State.reapOne] at h
      split at h
      case isTrue hrun =>
        obtain rfl := Option.some.inj h
        exact .allRun hc hrun
      case isFalse => cases h
  | some pid =>
      obtain ⟨status, -, rfl⟩ := Option.map_eq_some_iff.mp h
      cases hindex : s.children.findIdx? fun child => child.pid = pid with
      | none =>
          simp only [hindex]
          rw [List.findIdx?_eq_none_iff] at hindex
          exact .reapedStranger hc (by simpa using hindex)
      | some index =>
          obtain ⟨hlt, -⟩ := List.findIdx?_eq_some_iff_getElem.mp hindex
          have hchild : s.children[index]? = some s.children[index] := List.getElem?_eq_getElem hlt
          simp only [hindex, hchild]
          exact .reaped hc hindex hchild

lemma Effect.of_respawn {slot : ℕ} (hc : s.control = .respawning slot)
    (h : s.respawn slot answer = some t) : Effect cfg s (.master answer) t := by
  obtain ⟨⟨u, child⟩, hu, rfl⟩ := Option.map_eq_some_iff.mp h
  rcases spawn_cases hu with ⟨rfl, rfl, rfl⟩ | ⟨pid, T, rfl, hT, rfl, rfl⟩
  · exact .respawnFailed hc
  · exact .respawned hc hT

lemma Effect.of_retry {i : ℕ} (hc : s.control = .retrying i) (h : s.retry i answer = some t) :
    Effect cfg s (.master answer) t := by
  unfold State.retry at h
  split at h
  case h_1 hi =>
    obtain rfl := Option.some.inj h
    exact .retriedAll hc hi
  case h_2 child hi =>
    split at h
    case h_1 hretry =>
      obtain rfl := Option.some.inj h
      exact .notRetried hc hi (by simp [hretry])
    case h_2 retryAt hretry =>
      split at h
      case isTrue hnow =>
        obtain rfl := Option.some.inj h
        refine .notRetried hc hi fun at' hat => .inl ?_
        rw [hretry] at hat
        exact Option.some.inj hat ▸ hnow
      case isFalse hnow =>
        obtain ⟨⟨u, fresh⟩, hu, rfl⟩ := Option.map_eq_some_iff.mp h
        rcases spawn_cases hu with ⟨rfl, rfl, rfl⟩ | ⟨pid, T, rfl, hT, rfl, rfl⟩
        · exact .notRetried hc hi fun _ _ => .inr rfl
        · exact .retried hc hi hretry (by omega) hT

lemma Effect.of_handle (hc : s.control = .signalling) :
    Effect cfg s (.master answer) (s.handle cfg).1 := by
  unfold State.handle
  split
  case h_1 hsig => exact .noSignal hc hsig
  case h_2 hsig => exact .reloads hc hsig
  case h_3 signal hhup hsig => exact .shutsDown hc hsig (by simpa using hhup)

lemma Effect.of_reload {i : ℕ} (hc : s.control = .reloading i) :
    Effect cfg s (.master answer) (s.reload cfg i).1 := by
  unfold State.reload
  split
  case h_1 hi => exact .reloadedAll hc hi
  case h_2 child hi => exact .asked hc hi

lemma Effect.of_waitFor {i deadline : ℕ} {out : State × List ℕ}
    (hc : s.control = .waiting i deadline) (h : s.waitFor i deadline = some out) :
    Effect cfg s (.master answer) out.1 := by
  obtain ⟨child, hi, rfl⟩ := Option.map_eq_some_iff.mp h
  split
  · exact .drained hc hi
  · split
    · exact .timedOut hc hi
    · exact .waits hc

lemma Effect.of_waitKilled {i : ℕ} (hc : s.control = .killed i) (h : s.waitKilled i = some t) :
    Effect cfg s (.master answer) t := by
  obtain ⟨child, hi, hwait⟩ := Option.bind_eq_some_iff.mp h
  split at hwait
  · obtain rfl := Option.some.inj hwait
    exact .waited hc hi
  · cases hwait

lemma Effect.of_replace {i : ℕ} (hc : s.control = .replacing i)
    (h : s.replace i answer = some t) : Effect cfg s (.master answer) t := by
  obtain ⟨child, hi, hmap⟩ := Option.bind_eq_some_iff.mp h
  obtain ⟨⟨u, fresh⟩, hu, rfl⟩ := Option.map_eq_some_iff.mp hmap
  rcases spawn_cases hu with ⟨rfl, rfl, rfl⟩ | ⟨pid, T, rfl, hT, rfl, rfl⟩
  · exact .replaceFailed hc hi
  · exact .replaced hc hi hT

lemma Effect.of_check (hc : s.control = .checking) :
    Effect cfg s (.master answer) s.check.1 := by
  unfold State.check
  split
  · exact .returns hc
  · split
    · exact .returns hc
    · exact .loops hc

end

/-- **One step.** -/
theorem effect_of_step {cfg : Config} {s s' : State} {a : Action} (h : step cfg s a = some s') :
    Effect cfg s a s' := by
  cases a with
  | exits pid status =>
      obtain rfl := Option.some.inj h
      exact .exits pid status
  | receives signal =>
      obtain rfl := Option.some.inj h
      exact .receives signal
  | elapses ms =>
      obtain rfl := Option.some.inj h
      exact .elapses ms
  | master answer =>
      obtain ⟨out, hout, rfl⟩ := Option.map_eq_some_iff.mp h
      unfold advance at hout
      split at hout
      case h_1 slot hc =>
        obtain ⟨t, ht, rfl⟩ := Option.map_eq_some_iff.mp hout
        exact .of_start hc ht
      case h_2 hc =>
        obtain rfl := Option.some.inj hout
        exact .woke hc
      case h_3 hc =>
        obtain ⟨t, ht, rfl⟩ := Option.map_eq_some_iff.mp hout
        exact .of_reapOne hc ht
      case h_4 slot hc =>
        obtain ⟨t, ht, rfl⟩ := Option.map_eq_some_iff.mp hout
        exact .of_respawn hc ht
      case h_5 i hc =>
        obtain ⟨t, ht, rfl⟩ := Option.map_eq_some_iff.mp hout
        exact .of_retry hc ht
      case h_6 hc =>
        obtain rfl := Option.some.inj hout
        exact .of_handle hc
      case h_7 i hc =>
        obtain rfl := Option.some.inj hout
        exact .of_reload hc
      case h_8 i deadline hc => exact .of_waitFor hc hout
      case h_9 i hc =>
        obtain ⟨t, ht, rfl⟩ := Option.map_eq_some_iff.mp hout
        exact .of_waitKilled hc ht
      case h_10 i hc =>
        obtain ⟨t, ht, rfl⟩ := Option.map_eq_some_iff.mp hout
        exact .of_replace hc ht
      case h_11 hc =>
        obtain rfl := Option.some.inj hout
        exact .of_check hc
      case h_12 => cases hout

end Workers

end Ignis
