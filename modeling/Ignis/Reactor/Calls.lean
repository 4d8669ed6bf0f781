import Mathlib.Data.Finmap
import Ignis.Reactor.Dispatcher

/-!
# The methods of a reactor, one atomic access at a time

A `Reactor` is shared: the PHP thread submits, answers and polls, tokio delivers and cancels, the
dispatcher and its tasks complete.  None of the methods is atomic.  Each is a short program over
three shared things, the counter `inflight`, the map `answers` and the completion channel, and
between two of its accesses anybody may make one of theirs.

`Call` says where a call stands, `Call.next` which access it makes next and where it stands then
(this is the text of the methods), and `Access.apply` what an access does.  A state holds every call
made so far, so a run of `step` is an arbitrary interleaving of any number of callers.  The
dispatcher is the machine of `Ignis.Reactor.Dispatcher`; what it sends goes to the same channel.

The memory is sequentially consistent here, and a counter of live ops does not overflow upwards:
each unit of it stands for an op, a task or a message that exists.  Downwards it is the `u64` of the
source, which wraps.
-/

namespace Ignis

/-- The dispatcher's end of `to_tokio`: an op arrives under the id `submit` took for it. -/
def Dispatcher.State.enqueue (d : Dispatcher.State) (id : ℕ) (op : Op) : Dispatcher.State :=
  { d with inbox := d.inbox ++ [(id, op)], submitted := d.submitted ++ [id] }

/-- The steps of the dispatcher and of its tasks, as opposed to those of its clients. -/
def Dispatcher.Action.isTokio : Dispatcher.Action → Bool
  | .submit _ | .reserve => false
  | .dispatch | .wake _ _ | .proceed _ | .stop _ => true

namespace Reactor

/-! ## Data -/

/-- `reactor::HttpResponse` with a whole body (`ResponseBody::Full`), as `respond` is given it. -/
structure HttpResponse where
  status : ℕ
  headers : List (PhpString × PhpString)
  body : PhpString
  deriving DecidableEq, Repr

/-- `reactor::Answer`, less the sending end it carries: whether the other end of the channel is
still there is `State.hungUp`. -/
inductive Answer where
  | whole
  | streaming
  | grpc
  deriving DecidableEq, Repr

/-- What goes over the channel of an answer: a whole response; the status line and headers of a
streamed one, and its end; a message of a gRPC stream, and its end (with code 0 nothing but the
end). -/
inductive Wire where
  | response (resp : HttpResponse)
  | head (status : ℕ) (headers : List (PhpString × PhpString))
  | bodyEnd
  | message (msg : PhpString)
  | status (code : ℤ) (message : PhpString)
  deriving DecidableEq, Repr

/-- The answers after which nothing follows. -/
def Wire.terminal : Wire → Bool
  | .response _ | .bodyEnd | .status _ _ => true
  | .head _ _ | .message _ => false

/-- The decimal digits of a status. -/
def decimal (n : ℕ) : PhpString := bytes (Nat.repr n)

/-- `grpc_refusal`: how an HTTP failure status reads as a gRPC status. -/
def grpcRefusal : ℕ → ℤ × PhpString
  | 503 => (14, bytes "unavailable: the server is at its request budget")
  | 504 => (4, bytes "deadline exceeded")
  | 500 => (13, bytes "internal")
  | other => (2, bytes "the server refused the call with HTTP " ++ decimal other)

/-- Ghost: what an id was taken for. -/
inductive Use where
  | op
  | reserved
  | request
  deriving DecidableEq, Repr

/-- What a method returns. -/
inductive Ret where
  | unit
  | id (n : ℕ)
  | bool (b : Bool)
  | sender (isOpen : Bool)
  | count (n : ℕ)
  | batch (completions : List Completion)
  deriving DecidableEq, Repr

/-- A call in progress, by the access it makes next. -/
inductive Call where
  -- `submit`
  | submit (op : Op)
  | submitCount (id : ℕ) (op : Op)
  | submitSend (id : ℕ) (op : Op)
  | submitDrop (id : ℕ)
  -- `reserve_op`, `complete`, `inject`
  | reserveOp
  | reserveCount (id : ℕ)
  | complete (id : ℕ) (outcome : Outcome)
  | inject (outcome : Outcome)
  | injectCount (id : ℕ) (outcome : Outcome)
  | injectSend (id : ℕ) (outcome : Outcome)
  -- `deliver_request_with_id` (`whole`) and `deliver_stream_request` (`grpc`)
  | deliver (answer : Answer) (req : HttpRequest)
  | deliverInsert (id : ℕ) (answer : Answer) (req : HttpRequest)
  | deliverCount (id : ℕ) (req : HttpRequest)
  | deliverSend (id : ℕ) (req : HttpRequest)
  -- `stream_send`, `stream_end`
  | streamSend (id : ℕ) (msg : PhpString)
  | streamEnd (id : ℕ) (code : ℤ) (message : PhpString)
  | streamEnded (id : ℕ) (code : ℤ) (message : PhpString)
  -- `cancel_request`
  | cancelRequest (id : ℕ)
  | cancelCount (id : ℕ)
  | cancelSend (id : ℕ)
  -- `respond`
  | respond (id : ℕ) (resp : HttpResponse)
  | respondTake (id : ℕ) (resp : HttpResponse)
  | respondSend (id : ℕ) (resp : HttpResponse)
  -- `respond_start`, `stream_sender`, `respond_end`
  | respondStart (id : ℕ) (status : ℕ) (headers : List (PhpString × PhpString))
  | streamSender (id : ℕ)
  | respondEnd (id : ℕ)
  | respondEnded (id : ℕ)
  | failPending
  | pendingRequests
  | serverStarted
  /-- `poll` before its first load. -/
  | poll (timeout : Option ℕ)
  /-- The counter read zero.  `seen` is ghost: the completions sent until then. -/
  | pollServers (timeout : Option ℕ) (seen : ℕ)
  | pollSpinTest (timeout : Option ℕ)
  | pollSpin (timeout : Option ℕ)
  | pollRecv (timeout : Option ℕ)
  | pollDrain (out : List Completion)
  | pollAccount (out : List Completion)
  | done (ret : Ret)
  deriving DecidableEq, Repr

structure State where
  /-- `next_id`, `to_tokio` and everything behind it. -/
  disp : Dispatcher.State
  /-- The runtime is shutting down: the receiver of `to_tokio` has been dropped. -/
  gone : Bool
  inflight : ℕ
  servers : ℕ
  spinUs : ℕ
  answers : Finmap fun _ : ℕ => Answer
  /-- `done_tx` to `from_tokio`: sent, not yet received. -/
  channel : List Completion
  /-- The receiving end of an answer's channel has been dropped. -/
  hungUp : ℕ → Bool
  calls : List Call
  /-- Ghost: what the ids taken so far were taken for. -/
  use : ℕ → Option Use
  /-- Ghost: ids `reserve_op` has returned and nobody has begun to complete. -/
  reserved : List ℕ
  /-- Ghost: request ids that have been entered into the map. -/
  delivered : List ℕ
  /-- Ghost: everything sent on `done_tx`, oldest first. -/
  announced : List Completion
  /-- Ghost: everything the answers' channels took, oldest first. -/
  wire : List (ℕ × Wire)

/-- `Reactor::new`. -/
def init (spinUs : ℕ) : State where
  disp := Dispatcher.init
  gone := false
  inflight := 0
  servers := 0
  spinUs := spinUs
  answers := ∅
  channel := []
  hungUp := fun _ => false
  calls := []
  use := fun _ => none
  reserved := []
  delivered := []
  announced := []
  wire := []

/-! ## Accesses -/

/-- One access to the shared state. -/
inductive Access where
  /-- A load, or nothing. -/
  | load
  /-- `next_id.fetch_add(1)`. -/
  | takeId (use : Use)
  /-- `inflight.fetch_add(1)`; at the end of `reserve_op` the id is handed to the caller. -/
  | count
  | countReserved (id : ℕ)
  /-- `inflight.fetch_sub(1)`. -/
  | uncount
  /-- The `fetch_update` of `poll`. -/
  | account (n : ℕ)
  /-- `to_tokio.send`. -/
  | enqueue (id : ℕ) (op : Op)
  /-- `done_tx.send`.  The receiver lives in the reactor, so it cannot fail. -/
  | send (c : Completion)
  /-- `from_tokio.try_recv` or `recv` with a completion in the channel. -/
  | recv
  /-- A lock section that inserts an answer, removes one, or removes and inserts again. -/
  | insert (id : ℕ) (answer : Answer)
  | remove (id : ℕ)
  | reinsert (id : ℕ) (answer : Answer)
  /-- The lock section of `respond_start` that sends the headers and keeps the stream. -/
  | startStream (id : ℕ) (status : ℕ) (headers : List (PhpString × PhpString))
  /-- `drain()`. -/
  | clear
  /-- A send on the channel of an answer, or the drop of its last sender. -/
  | put (id : ℕ) (w : Wire)
  | addServer
  deriving DecidableEq, Repr

/-- `fetch_sub(1)` on a `u64`. -/
def fetchSubOne (n : ℕ) : ℕ := if n = 0 then 18446744073709551615 else n - 1

/-- What an access does.  Subtraction on `ℕ` is the `saturating_sub` of `poll`. -/
def Access.apply (s : State) : Access → State
  | .load => s
  | .takeId use => { s with
      disp := { s.disp with nextId := s.disp.nextId + 1 }
      use := Function.update s.use s.disp.nextId (some use) }
  | .count => { s with inflight := s.inflight + 1 }
  | .countReserved id => { s with inflight := s.inflight + 1, reserved := id :: s.reserved }
  | .uncount => { s with inflight := fetchSubOne s.inflight }
  | .account n => { s with inflight := s.inflight - n }
  | .enqueue id op => { s with disp := s.disp.enqueue id op }
  | .send c => { s with channel := s.channel ++ [c], announced := s.announced ++ [c] }
  | .recv => { s with channel := s.channel.tail }
  | .insert id answer => { s with
      answers := s.answers.insert id answer
      delivered := id :: s.delivered }
  | .remove id => { s with answers := s.answers.erase id }
  | .reinsert id answer => { s with answers := (s.answers.erase id).insert id answer }
  | .startStream id status headers => { s with
      answers := (s.answers.erase id).insert id .streaming
      wire := s.wire ++ [(id, .head status headers)] }
  | .clear => { s with answers := ∅ }
  | .put id w => { s with wire := s.wire ++ [(id, w)] }
  | .addServer => { s with servers := s.servers + 1 }

/-! ## The methods -/

/-- `take_answer`, then `k`; a caller that expected another answer is refused. -/
def takeAnswer (s : State) (id : ℕ) (expected : Answer) (k : Call) : Access × Call :=
  if s.answers.lookup id = some expected then (.remove id, k) else (.load, .done (.bool false))

/-- The lock section of `respond_start`. -/
def startOrRefuse (s : State) (id status : ℕ) (headers : List (PhpString × PhpString)) :
    Access × Call :=
  match s.answers.lookup id with
  | some .whole =>
      if s.hungUp id then (.remove id, .done (.bool false))
      else (.startStream id status headers, .done (.bool true))
  | some other => (.reinsert id other, .done (.bool false))
  | none => (.load, .done (.bool false))

/-- Receives into `out` if something is there; `otherwise` is what an empty channel means. -/
def receive (s : State) (out : List Completion) (otherwise : Option (Access × Call)) :
    Option (Access × Call) :=
  match s.channel with
  | c :: _ => some (.recv, .pollDrain (out ++ [c]))
  | [] => otherwise

/-- The next access of a call and where it stands afterwards; `none` when it has returned, or
blocks. -/
def Call.next (s : State) : Call → Option (Access × Call)
  | .submit op => some (.takeId .op, .submitCount s.disp.nextId op)
  | .submitCount id op => some (.count, .submitSend id op)
  | .submitSend id op =>
      if s.gone then some (.load, .submitDrop id) else some (.enqueue id op, .done (.id id))
  | .submitDrop id => some (.uncount, .done (.id id))
  | .reserveOp => some (.takeId .reserved, .reserveCount s.disp.nextId)
  | .reserveCount id => some (.countReserved id, .done (.id id))
  | .complete id outcome => some (.send ⟨id, outcome⟩, .done .unit)
  | .inject outcome => some (.takeId .reserved, .injectCount s.disp.nextId outcome)
  | .injectCount id outcome => some (.count, .injectSend id outcome)
  | .injectSend id outcome => some (.send ⟨id, outcome⟩, .done (.id id))
  | .deliver answer req => some (.takeId .request, .deliverInsert s.disp.nextId answer req)
  | .deliverInsert id answer req => some (.insert id answer, .deliverCount id req)
  | .deliverCount id req => some (.count, .deliverSend id req)
  | .deliverSend id req => some (.send ⟨id, .request req⟩, .done (.id id))
  | .streamSend id msg =>
      if s.answers.lookup id = some .grpc ∧ s.hungUp id = false then
        some (.put id (.message msg), .done (.bool true))
      else some (.load, .done (.bool false))
  | .streamEnd id code message => some (takeAnswer s id .grpc (.streamEnded id code message))
  | .streamEnded id code message => some (.put id (.status code message), .done (.bool true))
  | .cancelRequest id =>
      if (s.answers.lookup id).isSome then some (.remove id, .cancelCount id)
      else some (.load, .done .unit)
  | .cancelCount id => some (.count, .cancelSend id)
  | .cancelSend id => some (.send ⟨id, .cancelled⟩, .done .unit)
  | .respond id resp =>
      if 400 ≤ resp.status ∧ s.answers.lookup id = some .grpc then
        let (code, message) := grpcRefusal resp.status
        some (.load, .streamEnd id code message)
      else some (.load, .respondTake id resp)
  | .respondTake id resp => some (takeAnswer s id .whole (.respondSend id resp))
  | .respondSend id resp =>
      if s.hungUp id then some (.load, .done (.bool false))
      else some (.put id (.response resp), .done (.bool true))
  | .respondStart id status headers => some (startOrRefuse s id status headers)
  | .streamSender id =>
      some (.load, .done (.sender (decide (s.answers.lookup id = some .streaming))))
  | .respondEnd id => some (takeAnswer s id .streaming (.respondEnded id))
  | .respondEnded id => some (.put id .bodyEnd, .done (.bool true))
  | .failPending => some (.clear, .done (.count s.answers.keys.card))
  | .pendingRequests => some (.load, .done (.count s.answers.keys.card))
  | .serverStarted => some (.addServer, .done .unit)
  | .poll timeout =>
      if s.inflight = 0 then some (.load, .pollServers timeout s.announced.length)
      else some (.load, .pollSpinTest timeout)
  | .pollServers timeout _ =>
      if s.servers = 0 then some (.load, .done (.batch [])) else some (.load, .pollSpinTest timeout)
  | .pollSpinTest timeout =>
      if 0 < s.spinUs ∧ 0 < s.inflight then some (.load, .pollSpin timeout)
      else some (.load, .pollRecv timeout)
  | .pollSpin timeout => receive s [] (some (.load, .pollSpin timeout))
  | .pollRecv _ => receive s [] none
  | .pollDrain out => receive s out (some (.load, .pollAccount out))
  | .pollAccount out => some (.account out.length, .done (.batch out))
  | .done _ => none

/-- What the passing of time does to a call: the spin of `poll` ends, or its `recv_timeout`. -/
def Call.timedOut : Call → Option Call
  | .pollSpin timeout => some (.pollRecv timeout)
  | .pollRecv (some _) => some (.done (.batch []))
  | _ => none

/-! ## Steps -/

/-- The public methods. -/
inductive Method where
  | submit (op : Op)
  | reserveOp
  | complete (id : ℕ) (outcome : Outcome)
  | inject (outcome : Outcome)
  | deliverRequestWithId (req : HttpRequest)
  | deliverStreamRequest (req : HttpRequest)
  | streamSend (id : ℕ) (msg : PhpString)
  | streamEnd (id : ℕ) (code : ℤ) (message : PhpString)
  | cancelRequest (id : ℕ)
  | respond (id : ℕ) (resp : HttpResponse)
  | respondStart (id : ℕ) (status : ℕ) (headers : List (PhpString × PhpString))
  | streamSender (id : ℕ)
  | respondEnd (id : ℕ)
  | failPending
  | pendingRequests
  | serverStarted
  | poll (timeout : Option ℕ)
  deriving DecidableEq, Repr

/-- Where a call of a method begins. -/
def Method.start : Method → Call
  | .submit op => .submit op
  | .reserveOp => .reserveOp
  | .complete id outcome => .complete id outcome
  | .inject outcome => .inject outcome
  | .deliverRequestWithId req => .deliver .whole req
  | .deliverStreamRequest req => .deliver .grpc req
  | .streamSend id msg => .streamSend id msg
  | .streamEnd id code message => .streamEnd id code message
  | .cancelRequest id => .cancelRequest id
  | .respond id resp => .respond id resp
  | .respondStart id status headers => .respondStart id status headers
  | .streamSender id => .streamSender id
  | .respondEnd id => .respondEnd id
  | .failPending => .failPending
  | .pendingRequests => .pendingRequests
  | .serverStarted => .serverStarted
  | .poll timeout => .poll timeout

inductive Action where
  /-- Somebody calls a method. -/
  | call (m : Method)
  /-- The `k`-th call makes its next access. -/
  | advance (k : ℕ)
  /-- A timeout of the `k`-th call lapses. -/
  | timeout (k : ℕ)
  /-- The dispatcher or one of its tasks moves on. -/
  | tokio (a : Dispatcher.Action)
  /-- A client's end of an answer's channel is dropped. -/
  | hangUp (id : ℕ)
  /-- The runtime shuts down. -/
  | shutDown
  deriving DecidableEq, Repr

/-- A caller of `complete` gives up the id it had reserved. -/
def Method.gives : Method → List ℕ → List ℕ
  | .complete id _, reserved => reserved.erase id
  | _, reserved => reserved

def State.setCall (s : State) (k : ℕ) (c : Call) : State := { s with calls := s.calls.set k c }

def step (s : State) : Action → Option State
  | .call m => some { s with calls := s.calls ++ [m.start], reserved := m.gives s.reserved }
  | .advance k => do
      let c ← s.calls[k]?
      let (access, c') ← c.next s
      some ((access.apply s).setCall k c')
  | .timeout k => do
      let c ← s.calls[k]?
      let c' ← c.timedOut
      some (s.setCall k c')
  | .tokio a =>
      if a.isTokio ∧ ¬ (s.gone ∧ a = .dispatch) then do
        let d ← Dispatcher.step s.disp a
        let sent := d.sent.drop s.disp.sent.length
        some { s with
          disp := d, channel := s.channel ++ sent, announced := s.announced ++ sent }
      else none
  | .hangUp id => some { s with hungUp := Function.update s.hungUp id true }
  | .shutDown => some { s with gone := true }

end Reactor

end Ignis
