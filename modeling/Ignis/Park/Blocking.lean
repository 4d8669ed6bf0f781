import Ignis.Park.Timeouts

/-!
# Data calls that park instead of blocking

`read`, `write`, `recv`, `send`, their vectored and message forms and `accept` go through one
pattern: if the call may park, is not a non-blocking request and would block, look whether the
descriptor is ready; if it is not, park; then make the system call, unless the socket's own timeout
came first.  Whether it would block is decided by one predicate, `would_block`.

`kernelWaits` is the other side: the calls that put the thread to sleep when they find nothing.  The
two disagree on the descriptors of `Overlooked`, a listening socket under `accept` among them, and
after a wake-up nobody looks again.
-/

namespace Ignis

namespace Park

/-! ## Descriptors -/

inductive SockType where
  | stream
  | dgram
  | seqpacket
  | raw
  deriving DecidableEq, Repr

/-- What `getsockname` fills in.  The path of an unbound `AF_UNIX` socket is empty, that of an
abstract one starts with a zero byte. -/
inductive SockName where
  | inet (port : ℕ)
  | inet6 (port : ℕ)
  | unix (path : List UInt8)
  | other
  deriving DecidableEq, Repr

/-- `getpeername` succeeds on a connected socket only. -/
inductive Peer where
  | none
  | connecting
  | connected
  deriving DecidableEq, Repr

structure Socket where
  type : SockType
  listening : Bool
  peer : Peer
  name : SockName
  /-- `listen(2)` is for the connection-based types, before a connection. -/
  listening_only : listening = true → (type = .stream ∨ type = .seqpacket) ∧ peer = .none

/-- What `S_IFMT` tells apart.  Of the character devices some wait (a terminal), others do not
(`/dev/null`). -/
inductive File where
  | regular
  | directory
  | blockDevice
  | charDevice (waits : Bool)
  | fifo
  /-- `eventfd`, `timerfd` and the like. -/
  | anonymous
  | socket (s : Socket)

structure Fd where
  /-- `O_NONBLOCK`. -/
  nonblock : Bool
  file : File

/-- `is_bound`. -/
def isBound : SockName → Bool
  | .inet port => port != 0
  | .inet6 port => port != 0
  | .unix path => path.headD 0 != 0
  | .other => false

/-- `would_block`; `none` is a bad descriptor. -/
def wouldBlock : Option Fd → Bool
  | none => false
  | some fd =>
      if fd.nonblock then false
      else
        match fd.file with
        | .fifo | .anonymous => true
        | .socket s =>
            if s.listening then false
            else if s.peer = .connected then true
            else
              match s.type with
              | .dgram => isBound s.name
              | _ => false
        | _ => false

/-! ## The handlers -/

inductive Syscall where
  | read
  | readv
  | recvfrom
  | recvmsg
  | write
  | writev
  | sendto
  | sendmsg
  | accept4
  deriving DecidableEq, Repr

/-- A system call as it is issued. -/
structure Request where
  sys : Syscall
  /-- `MSG_DONTWAIT`. -/
  dontWait : Bool
  /-- It names the peer itself. -/
  addressed : Bool
  deriving DecidableEq, Repr

/-- The calling thread and call site: the gate, and the policy's answer for a symbol. -/
structure Site where
  gate : ℕ
  rows : String → Bool

/-- `may_park`. -/
def mayPark (site : Site) (sym : String) : Bool := site.gate == 1 && site.rows sym

/-- What the handler meets on its way: the answer of the probe, how `park_pollfds` returns, and
whether there is something to find when the system call is made. -/
structure Moment where
  probe : Bool
  wake : Wake
  ready : Bool
  deriving DecidableEq, Repr

inductive IoWait where
  | ready
  | timedOut
  deriving DecidableEq, Repr

/-- `park_io`. -/
def parkIo : Wake → IoWait
  | .byTimer => .timedOut
  | .byFd | .cannotPark => .ready

/-- What a handler does. -/
inductive Act where
  /-- `ready_now`. -/
  | probe (write ready : Bool)
  | park (write : Bool) (wake : Wake)
  | raw (r : Request)
  /-- It returns -1 with `EAGAIN`. -/
  | eagain
  deriving DecidableEq, Repr

/-- The pattern of all handlers. -/
def parkThenCall (site : Site) (sym : String) (r : Request) (write : Bool) (fd : Option Fd)
    (m : Moment) : List Act :=
  if mayPark site sym && !r.dontWait && wouldBlock fd then
    if m.probe then [.probe write true, .raw r]
    else
      match parkIo m.wake with
      | .timedOut => [.probe write false, .park write m.wake, .eagain]
      | .ready => [.probe write false, .park write m.wake, .raw r]
  else [.raw r]

def msgDontwait : BitVec 32 := 0x40

def dontWait (flags : BitVec 32) : Bool := flags &&& msgDontwait != 0

section handlers

variable (site : Site) (fd : Option Fd) (m : Moment)

def ignisParkRead : List Act := parkThenCall site "read" ⟨.read, false, false⟩ false fd m

def ignisParkWrite : List Act := parkThenCall site "write" ⟨.write, false, false⟩ true fd m

def ignisParkReadv : List Act := parkThenCall site "readv" ⟨.readv, false, false⟩ false fd m

def ignisParkWritev : List Act := parkThenCall site "writev" ⟨.writev, false, false⟩ true fd m

def ignisParkRecv (flags : BitVec 32) : List Act :=
  parkThenCall site "recv" ⟨.recvfrom, dontWait flags, false⟩ false fd m

def ignisParkSend (flags : BitVec 32) : List Act :=
  parkThenCall site "send" ⟨.sendto, dontWait flags, false⟩ true fd m

def ignisParkRecvfrom (flags : BitVec 32) : List Act :=
  parkThenCall site "recvfrom" ⟨.recvfrom, dontWait flags, false⟩ false fd m

/-- `addr` is whether the address pointer is given. -/
def ignisParkSendto (flags : BitVec 32) (addr : Bool) : List Act :=
  parkThenCall site "sendto" ⟨.sendto, dontWait flags, addr⟩ true fd m

def ignisParkRecvmsg (flags : BitVec 32) : List Act :=
  parkThenCall site "recvmsg" ⟨.recvmsg, dontWait flags, false⟩ false fd m

/-- `name` is whether the message has a `msg_name`. -/
def ignisParkSendmsg (flags : BitVec 32) (name : Bool) : List Act :=
  parkThenCall site "sendmsg" ⟨.sendmsg, dontWait flags, name⟩ true fd m

/-- Its flags are for the new socket; it goes by the row of `accept`. -/
def ignisParkAccept4 : List Act := parkThenCall site "accept" ⟨.accept4, false, false⟩ false fd m

end handlers

/-- A call of an interposed symbol. -/
inductive IoCall where
  | read
  | write
  | readv
  | writev
  | recv (flags : BitVec 32)
  | send (flags : BitVec 32)
  | recvfrom (flags : BitVec 32)
  | sendto (flags : BitVec 32) (addr : Bool)
  | recvmsg (flags : BitVec 32)
  | sendmsg (flags : BitVec 32) (name : Bool)
  | accept4
  deriving DecidableEq, Repr

def IoCall.handle (c : IoCall) (site : Site) (fd : Option Fd) (m : Moment) : List Act :=
  match c with
  | .read => ignisParkRead site fd m
  | .write => ignisParkWrite site fd m
  | .readv => ignisParkReadv site fd m
  | .writev => ignisParkWritev site fd m
  | .recv flags => ignisParkRecv site fd m flags
  | .send flags => ignisParkSend site fd m flags
  | .recvfrom flags => ignisParkRecvfrom site fd m flags
  | .sendto flags addr => ignisParkSendto site fd m flags addr
  | .recvmsg flags => ignisParkRecvmsg site fd m flags
  | .sendmsg flags name => ignisParkSendmsg site fd m flags name
  | .accept4 => ignisParkAccept4 site fd m

/-! ## The kernel -/

inductive SysKind where
  | receive
  | send
  | accept
  deriving DecidableEq, Repr

def Syscall.kind : Syscall → SysKind
  | .read | .readv | .recvfrom | .recvmsg => .receive
  | .write | .writev | .sendto | .sendmsg => .send
  | .accept4 => .accept

/-- The calls that are for sockets only answer `ENOTSOCK` elsewhere. -/
def Syscall.onFiles : Syscall → Bool
  | .read | .readv | .write | .writev => true
  | _ => false

/-- Whether the call sleeps on the socket when it finds nothing.  Without a connection a
connection-based socket answers at once, except that a connection in progress is waited for; the
others receive whatever their address is, and send if they know where to. -/
def socketWaits (kind : SysKind) (addressed : Bool) (s : Socket) : Bool :=
  match kind, s.type with
  | .accept, _ => s.listening
  | .receive, .stream | .receive, .seqpacket => s.peer != .none
  | .receive, .dgram | .receive, .raw => true
  | .send, .stream | .send, .seqpacket => s.peer != .none
  | .send, .dgram | .send, .raw => s.peer == .connected || addressed

/-- Whether the call puts the thread to sleep when it finds nothing. -/
def kernelWaits (r : Request) : Option Fd → Bool
  | none => false
  | some fd =>
      if fd.nonblock || r.dontWait then false
      else
        match fd.file with
        | .regular | .directory | .blockDevice => false
        | .charDevice waits => waits && r.sys.onFiles
        | .fifo | .anonymous => r.sys.onFiles
        | .socket s => socketWaits r.sys.kind r.addressed s

/-! ## When a call does not block -/

/-- A system call is made only when the probe said ready, the kernel answers at once, or parking
failed. -/
def NeverBlocks (fd : Option Fd) (m : Moment) (acts : List Act) : Prop :=
  ∀ r, Act.raw r ∈ acts →
    (∃ write, Act.probe write true ∈ acts) ∨ (kernelWaits r fd = true → m.ready = true) ∨
      ∃ write, Act.park write .cannotPark ∈ acts

/-- The sockets that a call waits on though `would_block` says it does not. -/
def SocketOverlooked (kind : SysKind) (addressed : Bool) (s : Socket) : Prop :=
  match kind, s.type with
  | .accept, _ => s.listening = true
  | .receive, .stream | .receive, .seqpacket => s.peer = .connecting
  | .receive, .dgram => s.peer ≠ .connected ∧ isBound s.name = false
  | .receive, .raw => s.peer ≠ .connected
  | .send, .stream | .send, .seqpacket => s.peer = .connecting
  | .send, .dgram => s.peer ≠ .connected ∧ isBound s.name = false ∧ addressed = true
  | .send, .raw => s.peer ≠ .connected ∧ addressed = true

/-- The descriptors that a blocking call waits on though `would_block` says it does not: a
character device that waits, and the sockets above. -/
def Overlooked (r : Request) : Option Fd → Prop
  | none => False
  | some fd =>
      fd.nonblock = false ∧ r.dontWait = false ∧
        match fd.file with
        | .charDevice waits => waits = true ∧ r.sys.onFiles = true
        | .socket s => SocketOverlooked r.sys.kind r.addressed s
        | _ => False

/-- The call parks and a watch wakes it. -/
def WokenByWatch (r : Request) (fd : Option Fd) (m : Moment) : Prop :=
  r.dontWait = false ∧ wouldBlock fd = true ∧ m.probe = false ∧ m.wake = .byFd

/-- What a call comes to in the kernel. -/
def IoCall.request : IoCall → Request
  | .read => ⟨.read, false, false⟩
  | .write => ⟨.write, false, false⟩
  | .readv => ⟨.readv, false, false⟩
  | .writev => ⟨.writev, false, false⟩
  | .recv flags => ⟨.recvfrom, dontWait flags, false⟩
  | .send flags => ⟨.sendto, dontWait flags, false⟩
  | .recvfrom flags => ⟨.recvfrom, dontWait flags, false⟩
  | .sendto flags addr => ⟨.sendto, dontWait flags, addr⟩
  | .recvmsg flags => ⟨.recvmsg, dontWait flags, false⟩
  | .sendmsg flags name => ⟨.sendmsg, dontWait flags, name⟩
  | .accept4 => ⟨.accept4, false, false⟩

/-- The symbol whose policy row is asked. -/
def IoCall.symbol : IoCall → String
  | .read => "read"
  | .write => "write"
  | .readv => "readv"
  | .writev => "writev"
  | .recv _ => "recv"
  | .send _ => "send"
  | .recvfrom _ => "recvfrom"
  | .sendto _ _ => "sendto"
  | .recvmsg _ => "recvmsg"
  | .sendmsg _ _ => "sendmsg"
  | .accept4 => "accept"

/-- The direction it waits in. -/
def IoCall.writes : IoCall → Bool
  | .write | .writev | .send _ | .sendto _ _ | .sendmsg _ _ => true
  | _ => false

/-- All handlers are the pattern, each at its own values. -/
lemma IoCall.handle_eq (c : IoCall) (site : Site) (fd : Option Fd) (m : Moment) :
    c.handle site fd m = parkThenCall site c.symbol c.request c.writes fd m := by
  cases c <;> rfl

lemma socketOverlooked_iff (kind : SysKind) (addressed : Bool) (s : Socket) :
    (socketWaits kind addressed s = true ∧
      wouldBlock (some ⟨false, .socket s⟩) = false) ↔ SocketOverlooked kind addressed s := by
  obtain ⟨type, listening, peer, name, honly⟩ := s
  cases listening with
  | true =>
      -- a listening socket is connection-based and has no peer
      obtain ⟨rfl | rfl, rfl⟩ := honly rfl <;> cases kind <;>
        simp [socketWaits, wouldBlock, SocketOverlooked]
  | false =>
      cases kind <;> cases type <;> cases peer <;>
        simp [socketWaits, wouldBlock, SocketOverlooked, and_comm]

/-- A blocking request on a descriptor that `would_block` takes for one that answers at once. -/
lemma overlooked_iff (r : Request) (fd : Option Fd) :
    (kernelWaits r fd = true ∧ wouldBlock fd = false) ↔ Overlooked r fd := by
  cases fd with
  | none => simp [kernelWaits, Overlooked]
  | some fd =>
      obtain ⟨nonblock, file⟩ := fd
      cases nonblock with
      | true => simp [kernelWaits, Overlooked]
      | false =>
          cases hdw : r.dontWait with
          | true => simp [kernelWaits, Overlooked, hdw]
          | false =>
              cases file with
              | socket s =>
                  simpa [kernelWaits, Overlooked, hdw] using
                    socketOverlooked_iff r.sys.kind r.addressed s
              | _ => simp [kernelWaits, wouldBlock, Overlooked, hdw]

/-- A system call that is made without looking blocks exactly on an overlooked descriptor with
nothing to find. -/
lemma neverBlocks_raw {r : Request} {fd : Option Fd} {m : Moment}
    (h : wouldBlock fd = false ∨ r.dontWait = true) :
    NeverBlocks fd m [.raw r] ↔ (Overlooked r fd → m.ready = true) := by
  have hwaits : kernelWaits r fd = true ↔ Overlooked r fd := by
    rw [← overlooked_iff]
    refine ⟨fun hw => ⟨hw, h.resolve_right fun hd => ?_⟩, fun hw => hw.1⟩
    cases fd with
    | none => cases hw
    | some fd => simp [kernelWaits, hd] at hw
  simp [NeverBlocks, hwaits]

/-- **When a call that may park does not block the thread.**  Exactly if there is something to find
when it reaches the kernel, or else its descriptor is none of those that `would_block` overlooks and
it was not woken by a watch to a call that waits. -/
theorem neverBlocks_iff (c : IoCall) (site : Site) (fd : Option Fd) (m : Moment)
    (hmay : mayPark site c.symbol = true) :
    NeverBlocks fd m (c.handle site fd m) ↔
      (m.ready = false → ¬ Overlooked c.request fd ∧
        ¬ (WokenByWatch c.request fd m ∧ kernelWaits c.request fd = true)) := by
  rw [c.handle_eq]
  by_cases hpark : wouldBlock fd = true ∧ c.request.dontWait = false
  · -- the call looks, and parks if nothing is ready
    obtain ⟨hwould, hdont⟩ := hpark
    have hnot : ¬ Overlooked c.request fd := by
      rw [← overlooked_iff, hwould]
      simp
    simp only [parkThenCall, hmay, hdont, hwould, Bool.not_false, Bool.and_true, if_true, hnot,
      not_false_eq_true, true_and, WokenByWatch]
    cases hprobe : m.probe with
    | true => simp [NeverBlocks]
    | false =>
        cases hwake : m.wake with
        | byFd =>
            cases hready : m.ready <;> simp [parkIo, NeverBlocks, hready]
        | byTimer => simp [parkIo, NeverBlocks]
        | cannotPark => simp [parkIo, NeverBlocks]
  · -- the call goes to the kernel at once
    have hor : wouldBlock fd = false ∨ c.request.dontWait = true := by
      by_contra hno
      push Not at hno
      exact hpark ⟨by simpa using hno.1, by simpa using hno.2⟩
    have hwoken : ¬ WokenByWatch c.request fd m := fun h => hpark ⟨h.2.1, h.1⟩
    have hraw : parkThenCall site c.symbol c.request c.writes fd m = [.raw c.request] := by
      rcases hor with h | h <;> simp [parkThenCall, h]
    rw [hraw, neverBlocks_raw hor]
    simp only [hwoken, false_and, not_false_eq_true, and_true]
    cases m.ready <;> simp

/-- A stream socket that listens, in blocking mode. -/
def listener : Fd := ⟨false, .socket ⟨.stream, true, .none, .inet 8080, by decide⟩⟩

def parkingSite : Site := ⟨1, fun _ => true⟩

/-- A connected stream socket, in blocking mode. -/
def connection : Fd := ⟨false, .socket ⟨.stream, false, .connected, .inet 80, by decide⟩⟩

/-- A `recv` that finds nothing parks, and its timeout ends it without a system call. -/
theorem neverBlocks_iff_recv :
    mayPark parkingSite (IoCall.recv 0).symbol = true ∧
      NeverBlocks (some connection) ⟨false, .byTimer, false⟩
        ((IoCall.recv 0).handle parkingSite (some connection) ⟨false, .byTimer, false⟩) := by
  refine ⟨by decide, (neverBlocks_iff _ _ _ _ (by decide)).mpr fun _ => ⟨?_, ?_⟩⟩
  · rintro ⟨-, -, hpeer⟩
    cases hpeer
  · rintro ⟨⟨-, -, -, hwake⟩, -⟩
    cases hwake

/-- `accept` on a listening socket with no connection pending goes to the kernel at once, without a
look at the socket, and sleeps there. -/
theorem accept_blocks_on_listener :
    mayPark parkingSite IoCall.accept4.symbol = true ∧
      IoCall.accept4.handle parkingSite (some listener) ⟨false, .byFd, false⟩
        = [.raw ⟨.accept4, false, false⟩] ∧
      kernelWaits ⟨.accept4, false, false⟩ (some listener) = true ∧
      ¬ NeverBlocks (some listener) ⟨false, .byFd, false⟩
        (IoCall.accept4.handle parkingSite (some listener) ⟨false, .byFd, false⟩) := by
  refine ⟨by decide, by decide, by decide, fun h => ?_⟩
  rcases h ⟨.accept4, false, false⟩ (by decide) with ⟨write, hprobe⟩ | hready | ⟨write, hpark⟩
  · revert hprobe
    cases write <;> decide
  · exact absurd (hready (by decide)) (by decide)
  · revert hpark
    cases write <;> decide

end Park

end Ignis
