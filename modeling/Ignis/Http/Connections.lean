import Ignis.Lib.OrdMap
import Ignis.Lib.StepSystem

/-!
# The connections of the listener

`accept_loop` gives each connection a permit and refuses one it has no permit for.
`serve_connection` keeps the permit for as long as the connection lives, and guards it with a timer:
when no request has begun for `idle_timeout` it has hyper shut the connection down, which lets
what is in flight come to its end.

The clock goes on when no timer is due: the runtime polls a timer at its time.  What ends a
connection otherwise, the client, an error or hyper's own timer for the head of a request, may do so
at any time, and hyper may hand over another request whose head it was reading when the shutdown
began.
-/

namespace Ignis.Connections

open StepSystem

structure Limits where
  maxConnections : ℕ
  idleTimeout : ℕ
  deriving DecidableEq, Repr

/-- `serve_connection`, with the future of the connection. -/
structure Conn where
  lastActivity : ℕ
  /-- When the loop looks at the clock again; `none` after `graceful_shutdown`. -/
  timer : Option ℕ
  /-- Requests that were handed over and not answered. -/
  inflight : ℕ
  /-- Ghost. -/
  begun : ℕ
  answered : ℕ
  deriving DecidableEq, Repr

/-- What has happened to a connection, for the record. -/
inductive Event where
  /-- `refuse_over_capacity`, with so many connections alive. -/
  | refused (live : ℕ)
  | shutDown (conn lastActivity at_ : ℕ)
  /-- The connection has ended by itself after its shutdown. -/
  | finished (conn begun answered : ℕ)
  deriving DecidableEq, Repr

structure State where
  listening : Bool
  now : ℕ
  permits : ℕ
  conns : OrdMap ℕ Conn
  next : ℕ
  log : List Event

def init (limits : Limits) : State := ⟨true, 0, limits.maxConnections, ∅, 0, []⟩

def State.live (s : State) : ℕ := s.conns.total fun _ => 1

def Conn.due (conn : Conn) (now : ℕ) : Bool :=
  match conn.timer with
  | some at_ => at_ ≤ now
  | none => false

inductive Action where
  | tick
  | accept
  | stop
  | request (c : ℕ)
  | answer (c : ℕ)
  /-- The loop of `serve_connection`, at its head. -/
  | check (c : ℕ)
  /-- hyper has nothing left to do on a connection that is shut down. -/
  | finish (c : ℕ)
  | drop (c : ℕ)
  deriving DecidableEq, Repr

/-- A turn of `accept_loop`. -/
def accept (s : State) : State :=
  if 0 < s.permits then
    { s with
      permits := s.permits - 1
      conns := s.conns.set s.next ⟨s.now, some s.now, 0, 0, 0⟩
      next := s.next + 1 }
  else { s with log := s.log ++ [.refused s.live] }

def check (limits : Limits) (s : State) (c : ℕ) (conn : Conn) : State :=
  if limits.idleTimeout ≤ s.now - conn.lastActivity then
    { s with
      conns := s.conns.set c { conn with timer := none }
      log := s.log ++ [.shutDown c conn.lastActivity s.now] }
  else
    { s with conns := s.conns.set c { conn with
        timer := some (s.now + (limits.idleTimeout - (s.now - conn.lastActivity))) } }

/-- The connection is gone, and its permit is back. -/
def State.release (s : State) (c : ℕ) : State :=
  { s with permits := s.permits + 1, conns := s.conns.unset c }

def connStep (limits : Limits) (s : State) (c : ℕ) (conn : Conn) : Action → Option State
  | .request _ => some { s with conns := s.conns.set c { conn with
      lastActivity := s.now, inflight := conn.inflight + 1, begun := conn.begun + 1 } }
  | .answer _ =>
      if 0 < conn.inflight then
        some { s with conns := s.conns.set c { conn with
          inflight := conn.inflight - 1, answered := conn.answered + 1 } }
      else none
  | .check _ => if conn.due s.now then some (check limits s c conn) else none
  | .finish _ =>
      if conn.timer = none ∧ conn.inflight = 0 then
        some { s.release c with log := s.log ++ [.finished c conn.begun conn.answered] }
      else none
  | .drop _ => some (s.release c)
  | _ => none

def step (limits : Limits) (s : State) : Action → Option State
  | .tick =>
      if s.conns.entries.any fun e => e.2.due s.now then none else some { s with now := s.now + 1 }
  | .accept => if s.listening then some (accept s) else none
  | .stop => some { s with listening := false }
  | .request c => (s.conns.get? c).bind fun conn => connStep limits s c conn (.request c)
  | .answer c => (s.conns.get? c).bind fun conn => connStep limits s c conn (.answer c)
  | .check c => (s.conns.get? c).bind fun conn => connStep limits s c conn (.check c)
  | .finish c => (s.conns.get? c).bind fun conn => connStep limits s c conn (.finish c)
  | .drop c => (s.conns.get? c).bind fun conn => connStep limits s c conn (.drop c)

/-! ## What a step does -/

/-- One step, with what it was possible for. -/
inductive Move (limits : Limits) (s : State) : Action → State → Prop
  | tick (hdue : ∀ c conn, s.conns.get? c = some conn → conn.due s.now = false) :
      Move limits s .tick { s with now := s.now + 1 }
  | accepted (hpermits : 0 < s.permits) : Move limits s .accept { s with
      permits := s.permits - 1
      conns := s.conns.set s.next ⟨s.now, some s.now, 0, 0, 0⟩
      next := s.next + 1 }
  | refused (hpermits : s.permits = 0) :
      Move limits s .accept { s with log := s.log ++ [.refused s.live] }
  | stop : Move limits s .stop { s with listening := false }
  | request (c : ℕ) (conn : Conn) (hconn : s.conns.get? c = some conn) :
      Move limits s (.request c) { s with conns := s.conns.set c { conn with
        lastActivity := s.now, inflight := conn.inflight + 1, begun := conn.begun + 1 } }
  | answer (c : ℕ) (conn : Conn) (hconn : s.conns.get? c = some conn)
      (hinflight : 0 < conn.inflight) :
      Move limits s (.answer c) { s with conns := s.conns.set c { conn with
        inflight := conn.inflight - 1, answered := conn.answered + 1 } }
  | shutDown (c at_ : ℕ) (conn : Conn) (hconn : s.conns.get? c = some conn)
      (htimer : conn.timer = some at_) (hat : at_ ≤ s.now)
      (hidle : limits.idleTimeout ≤ s.now - conn.lastActivity) :
      Move limits s (.check c) { s with
        conns := s.conns.set c { conn with timer := none }
        log := s.log ++ [.shutDown c conn.lastActivity s.now] }
  | sleepOn (c at_ : ℕ) (conn : Conn) (hconn : s.conns.get? c = some conn)
      (htimer : conn.timer = some at_) (hat : at_ ≤ s.now)
      (hidle : s.now - conn.lastActivity < limits.idleTimeout) :
      Move limits s (.check c) { s with conns := s.conns.set c { conn with
        timer := some (s.now + (limits.idleTimeout - (s.now - conn.lastActivity))) } }
  | finish (c : ℕ) (conn : Conn) (hconn : s.conns.get? c = some conn) (htimer : conn.timer = none)
      (hinflight : conn.inflight = 0) :
      Move limits s (.finish c)
        { s.release c with log := s.log ++ [.finished c conn.begun conn.answered] }
  | drop (c : ℕ) (conn : Conn) (hconn : s.conns.get? c = some conn) :
      Move limits s (.drop c) (s.release c)

lemma due_iff {conn : Conn} {now : ℕ} :
    conn.due now = true ↔ ∃ at_, conn.timer = some at_ ∧ at_ ≤ now := by
  unfold Conn.due
  cases conn.timer <;> simp

theorem move_of_step {limits : Limits} {s s' : State} {a : Action}
    (h : step limits s a = some s') : Move limits s a s' := by
  cases a with
  | tick =>
      obtain ⟨hdue, hs⟩ := Option.ite_none_left_eq_some.mp h
      obtain rfl := Option.some.inj hs
      refine .tick fun c conn hconn => ?_
      by_contra hnot
      exact hdue (List.any_eq_true.mpr
        ⟨(c, conn), OrdMap.mem_entries_iff.mpr hconn, by simpa using hnot⟩)
  | accept =>
      obtain ⟨-, hs⟩ := Option.ite_none_right_eq_some.mp h
      obtain rfl := Option.some.inj hs
      unfold accept
      split_ifs with hpermits
      · exact .accepted hpermits
      · exact .refused (by omega)
  | stop =>
      obtain rfl := Option.some.inj h
      exact .stop
  | request c =>
      obtain ⟨conn, hconn, hs⟩ := Option.bind_eq_some_iff.mp h
      obtain rfl := Option.some.inj hs
      exact .request c conn hconn
  | answer c =>
      obtain ⟨conn, hconn, hs⟩ := Option.bind_eq_some_iff.mp h
      obtain ⟨hinflight, hs⟩ := Option.ite_none_right_eq_some.mp hs
      obtain rfl := Option.some.inj hs
      exact .answer c conn hconn hinflight
  | check c =>
      obtain ⟨conn, hconn, hs⟩ := Option.bind_eq_some_iff.mp h
      obtain ⟨hdue, hs⟩ := Option.ite_none_right_eq_some.mp hs
      obtain rfl := Option.some.inj hs
      obtain ⟨at_, htimer, hat⟩ := due_iff.mp hdue
      unfold check
      split_ifs with hidle
      · exact .shutDown c at_ conn hconn htimer hat hidle
      · exact .sleepOn c at_ conn hconn htimer hat (by omega)
  | finish c =>
      obtain ⟨conn, hconn, hs⟩ := Option.bind_eq_some_iff.mp h
      obtain ⟨⟨htimer, hinflight⟩, hs⟩ := Option.ite_none_right_eq_some.mp hs
      obtain rfl := Option.some.inj hs
      exact .finish c conn hconn htimer hinflight
  | drop c =>
      obtain ⟨conn, hconn, hs⟩ := Option.bind_eq_some_iff.mp h
      obtain rfl := Option.some.inj hs
      exact .drop c conn hconn

end Ignis.Connections
