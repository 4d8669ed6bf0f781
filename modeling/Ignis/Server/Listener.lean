import Ignis.Lib.StepSystem

/-!
# The listener and the drain

`accept_loop` accepts until the drain closes the listener.  It learns of that in two ways, the flag
`LISTENER_STOP` and the notification `SHUTDOWN`, and `shutdown_signalled` looks at the flag first
and creates the notification's future second.  The drain stores the flag and notifies, and between
any two of these four steps the other task may run.

Of tokio this file takes two things.  `notify_waiters` completes the `Notified` futures created
before the call and no others: it counts its calls, and a future remembers the count it was created
at.  A biased `select!` polls its first branch first, at its start and after every wake-up.
-/

namespace Ignis

namespace Listener

/-- Where `accept_loop` stands.  The number is the count of `notify_waiters` calls the pending
`Notified` was created at. -/
inductive AcceptLoop where
  /-- About to load `LISTENER_STOP`, at the head of the loop. -/
  | load
  /-- The flag read false; `SHUTDOWN.notified()` comes next. -/
  | create
  /-- `select!` polls its first branch. -/
  | pollNotified (created : ℕ)
  /-- The first branch is pending; `select!` polls `listener.accept()`. -/
  | pollAccept (created : ℕ)
  /-- Both branches are pending. -/
  | parked (created : ℕ)
  /-- `listener.accept()` returned a connection. -/
  | handle
  /-- The loop has returned and the listener is dropped. -/
  | closed
  deriving DecidableEq, Repr

/-- Where `drain` stands, up to the loop that waits for the requests in flight. -/
inductive Drain where
  | start
  /-- Health answers "draining", the listener still accepts (`IGNIS_DRAIN_DELAY_MS`). -/
  | delay
  /-- `LISTENER_STOP` is stored; `SHUTDOWN.notify_waiters()` comes next. -/
  | stored
  | waiting
  deriving DecidableEq, Repr

/-- What a poll of `listener.accept()` finds. -/
inductive Accepted where
  | connection
  | error
  | pending
  deriving DecidableEq, Repr

structure State where
  acceptLoop : AcceptLoop
  drain : Drain
  /-- `SHUTTING_DOWN`. -/
  shuttingDown : Bool
  /-- `LISTENER_STOP`. -/
  listenerStop : Bool
  /-- How often `SHUTDOWN.notify_waiters()` has been called. -/
  notifies : ℕ
  /-- `connection_permits`. -/
  permits : ℕ
  /-- Connections that hold a permit. -/
  serving : ℕ
  /-- Connections answered 503 over the cap. -/
  refused : ℕ
  /-- Ghost: connections `accept` has returned. -/
  accepted : ℕ
  deriving DecidableEq, Repr

/-- The listener at `max_connections`, with no signal received. -/
def init (maxConnections : ℕ) : State where
  acceptLoop := .load
  drain := .start
  shuttingDown := false
  listenerStop := false
  notifies := 0
  permits := maxConnections
  serving := 0
  refused := 0
  accepted := 0

inductive Action where
  /-- `shutdown_signalled` loads the flag. -/
  | loadStop
  /-- `shutdown_signalled` creates its `Notified`. -/
  | createNotified
  /-- `select!` polls the `Notified`. -/
  | pollNotified
  /-- `select!` polls `listener.accept()`. -/
  | pollAccept (found : Accepted)
  /-- The task is woken, by either branch or by nobody. -/
  | wake
  /-- The loop hands the connection to a task of its own, or refuses it over the cap. -/
  | spawn
  /-- A connection ends and its permit is released. -/
  | hangUp
  /-- `drain` begins: health answers "draining". -/
  | drainStart
  /-- The delay is over: `LISTENER_STOP` is stored. -/
  | drainStore
  /-- `SHUTDOWN.notify_waiters()`. -/
  | drainNotify
  deriving DecidableEq, Repr

/-- What follows a poll of `listener.accept()` with the `Notified` created at `g`. -/
def State.accept (s : State) (g : ℕ) : Accepted → State
  | .connection => { s with acceptLoop := .handle, accepted := s.accepted + 1 }
  | .error => { s with acceptLoop := .load }
  | .pending => { s with acceptLoop := .parked g }

/-- `try_acquire_owned`, then `serve_connection` or `refuse_over_capacity`. -/
def State.handle (s : State) : State :=
  if 0 < s.permits then
    { s with acceptLoop := .load, permits := s.permits - 1, serving := s.serving + 1 }
  else
    { s with acceptLoop := .load, refused := s.refused + 1 }

def step (s : State) : Action → Option State
  | .loadStop =>
      match s.acceptLoop with
      | .load => some { s with acceptLoop := if s.listenerStop then .closed else .create }
      | _ => none
  | .createNotified =>
      match s.acceptLoop with
      | .create => some { s with acceptLoop := .pollNotified s.notifies }
      | _ => none
  | .pollNotified =>
      match s.acceptLoop with
      | .pollNotified g =>
          some { s with acceptLoop := if g < s.notifies then .closed else .pollAccept g }
      | _ => none
  | .pollAccept found =>
      match s.acceptLoop with
      | .pollAccept g => some (s.accept g found)
      | _ => none
  | .wake =>
      match s.acceptLoop with
      | .parked g => some { s with acceptLoop := .pollNotified g }
      | _ => none
  | .spawn =>
      match s.acceptLoop with
      | .handle => some s.handle
      | _ => none
  | .hangUp =>
      if 0 < s.serving then
        some { s with permits := s.permits + 1, serving := s.serving - 1 }
      else none
  | .drainStart =>
      if s.drain = .start then some { s with drain := .delay, shuttingDown := true } else none
  | .drainStore =>
      if s.drain = .delay then some { s with drain := .stored, listenerStop := true } else none
  | .drainNotify =>
      if s.drain = .stored then some { s with drain := .waiting, notifies := s.notifies + 1 }
      else none

/-! ## What the loop holds -/

/-- The loop is neither between its look at the flag and the creation of its future, nor between
its look at the future and the accept. -/
def AcceptLoop.settled : AcceptLoop → Bool
  | .create | .pollAccept _ => false
  | .load | .pollNotified _ | .parked _ | .handle | .closed => true

/-- The count the loop's pending `Notified` was created at, if it has one. -/
def AcceptLoop.created : AcceptLoop → Option ℕ
  | .pollNotified g | .pollAccept g | .parked g => some g
  | .load | .create | .handle | .closed => none

/-- A pending `Notified` was created at a count that has been reached, and the flag is stored before
the drain notifies. -/
structure Inv (s : State) : Prop where
  reached : ∀ g, s.acceptLoop.created = some g → g ≤ s.notifies
  stored : s.drain = .stored → s.listenerStop = true

/-- The listener accepts nothing more: the flag is stored, the drain has notified, and the loop will
look at the one or the other before it accepts. -/
structure Stopped (s : State) : Prop where
  flag : s.listenerStop = true
  waiting : s.drain = .waiting
  settled : s.acceptLoop.settled = true
  complete : ∀ g, s.acceptLoop.created = some g → g < s.notifies

lemma inv_init (maxConnections : ℕ) : Inv (init maxConnections) := by
  constructor <;> simp [init, AcceptLoop.created]

/-- Every step keeps the invariant: a future is created at the count of its moment, and the count
only grows. -/
lemma inv_step {s s' : State} {a : Action} (hs : Inv s) (h : step s a = some s') : Inv s' := by
  obtain ⟨hreached, hstored⟩ := hs
  cases a with
  | loadStop | createNotified | pollNotified | wake =>
      simp only [step] at h
      split at h <;> cases h
      rename_i hpc
      refine ⟨?_, hstored⟩
      simp only [hpc] at hreached ⊢
      (try split) <;> simp_all [AcceptLoop.created]
  | pollAccept found =>
      simp only [step] at h
      split at h <;> cases h
      rename_i g hpc
      cases found <;> exact ⟨by simp_all [State.accept, AcceptLoop.created], hstored⟩
  | spawn =>
      simp only [step] at h
      split at h <;> cases h
      unfold State.handle
      split <;> exact ⟨by simp [AcceptLoop.created], hstored⟩
  | hangUp | drainStart =>
      simp only [step] at h
      split at h <;> cases h
      exact ⟨hreached, by simp_all⟩
  | drainStore =>
      simp only [step] at h
      split at h <;> cases h
      exact ⟨hreached, fun _ => rfl⟩
  | drainNotify =>
      simp only [step] at h
      split at h <;> cases h
      exact ⟨fun g hg => Nat.le_succ_of_le (hreached g hg), by simp⟩

/-- A stopped listener stays stopped and accepts nothing. -/
lemma stopped_step {s s' : State} {a : Action} (hs : Stopped s) (h : step s a = some s') :
    Stopped s' ∧ s'.accepted = s.accepted := by
  obtain ⟨hflag, hwaiting, hsettled, hcomplete⟩ := hs
  cases a with
  | loadStop | createNotified | pollNotified | wake =>
      simp only [step] at h
      split at h <;> cases h
      rename_i hpc
      refine ⟨⟨hflag, hwaiting, ?_, ?_⟩, rfl⟩ <;>
        simp_all [AcceptLoop.settled, AcceptLoop.created]
  | pollAccept found =>
      simp only [step] at h
      split at h <;> cases h
      rename_i g hpc
      simp [hpc, AcceptLoop.settled] at hsettled
  | spawn =>
      simp only [step] at h
      split at h <;> cases h
      unfold State.handle
      split <;> exact ⟨⟨hflag, hwaiting, rfl, by simp [AcceptLoop.created]⟩, rfl⟩
  | hangUp =>
      simp only [step] at h
      split at h <;> cases h
      exact ⟨⟨hflag, hwaiting, hsettled, hcomplete⟩, rfl⟩
  | drainStart | drainStore | drainNotify => simp [step, hwaiting] at h

/-! ## The listener stops -/

/-- From `notify_waiters` on nothing is accepted, if the loop was settled then. -/
lemma stopped_of_notify {s s' : State} (hs : Inv s) (hsettled : s.acceptLoop.settled = true)
    (h : step s .drainNotify = some s') : Stopped s' := by
  simp only [step] at h
  split at h <;> cases h
  rename_i hdrain
  exact ⟨hs.stored hdrain, rfl, hsettled, fun g hg => Nat.lt_succ_of_le (hs.reached g hg)⟩

/-- A loop that was not settled accepts the connection that comes next. -/
lemma accepts_of_not_settled {s s' : State} (hsettled : s.acceptLoop.settled = false)
    (h : step s .drainNotify = some s') :
    ∃ as t, StepSystem.runFrom step s' as = some t ∧ t.accepted = s'.accepted + 1 := by
  simp only [step] at h
  split at h <;> cases h
  cases hpc : s.acceptLoop with
  | create =>
      refine ⟨[.createNotified, .pollNotified, .pollAccept .connection], ?_⟩
      simp [StepSystem.runFrom, step, State.accept]
  | pollAccept g =>
      refine ⟨[.pollAccept .connection], ?_⟩
      simp [StepSystem.runFrom, step, State.accept]
  | load | pollNotified _ | parked _ | handle | closed => simp [hpc, AcceptLoop.settled] at hsettled

/-- **When the listener really stops.**  After any run, let the drain execute `notify_waiters` (it
has stored `LISTENER_STOP` before).  From there on the accept loop returns no connection, however
the run goes on, exactly when the notification did not fall between the loop's load of the flag and
the creation of its future, nor between the poll of that future and the poll of the accept. -/
theorem accepts_nothing_after_notify_iff (maxConnections : ℕ) (as : List Action) (s s' : State)
    (hrun : StepSystem.runFrom step (init maxConnections) as = some s)
    (hnotify : step s .drainNotify = some s') :
    (∀ bs t, StepSystem.runFrom step s' bs = some t → t.accepted = s'.accepted) ↔
      s.acceptLoop.settled = true := by
  have hinv : Inv s :=
    StepSystem.invariant_of_run step (fun _ _ _ => inv_step) (inv_init maxConnections) hrun
  constructor
  · intro hnone
    by_contra hsettled
    obtain ⟨bs, t, ht, haccepted⟩ :=
      accepts_of_not_settled (Bool.not_eq_true _ ▸ hsettled) hnotify
    have hsame := hnone bs t ht
    omega
  · intro hsettled bs t ht
    -- the count of accepted connections rides along with `Stopped`
    have hkeep : Stopped t ∧ t.accepted = s'.accepted := by
      refine StepSystem.invariant_of_run step
        (I := fun u => Stopped u ∧ u.accepted = s'.accepted) ?_
        ⟨stopped_of_notify hinv hsettled hnotify, rfl⟩ ht
      intro u a u' hu hstep
      obtain ⟨hstopped, hcount⟩ := stopped_step hu.1 hstep
      exact ⟨hstopped, hcount.trans hu.2⟩
    exact hkeep.2

/-- A loop parked in `select!` when the drain notifies is woken and returns. -/
theorem accepts_nothing_after_notify_parked :
    ∃ s s', StepSystem.runFrom step (init 1)
        [.loadStop, .createNotified, .pollNotified, .pollAccept .pending, .drainStart,
          .drainStore] = some s ∧
      step s .drainNotify = some s' ∧
      ∀ bs t, StepSystem.runFrom step s' bs = some t → t.accepted = s'.accepted := by
  refine ⟨_, _, rfl, rfl, ?_⟩
  exact (accepts_nothing_after_notify_iff 1
    [.loadStop, .createNotified, .pollNotified, .pollAccept .pending, .drainStart, .drainStore]
    _ _ rfl rfl).mpr rfl

/-- The loop loads the flag; the drain stores it and notifies, and nobody hears; the loop creates
its future, finds it pending and accepts the next connection. -/
theorem accepts_connection_after_notify :
    ∃ s s' t, StepSystem.runFrom step (init 1) [.drainStart, .loadStop, .drainStore] = some s ∧
      step s .drainNotify = some s' ∧
      StepSystem.runFrom step s'
        [.createNotified, .pollNotified, .pollAccept .connection] = some t ∧
      t.accepted = s'.accepted + 1 :=
  ⟨_, _, _, rfl, rfl, rfl, rfl⟩

end Listener

end Ignis
