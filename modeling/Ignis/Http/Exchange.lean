import Ignis.Lib.StepSystem
import Ignis.Reactor.Calls

/-!
# One request at the front door

`http::handle` delivers a request to a PHP thread and waits for the answer, with a guard at its
side: when hyper drops the future, or the body it has become, because the client has left, the guard
has the fiber of the request cancelled.  PHP answers from its own thread meanwhile.  What the two
have between them is an entry of the `answers` map, a oneshot channel and, for a streamed body, a
bounded channel of chunks, and either side may be gone when the other reaches for them.

`State` is one request with all of this.  The steps of the front door and of PHP interleave freely;
within one method a step is what it does under one lock.  The receiving end of a channel is dropped
before the guard: the future awaits it, and in `ChannelBody` it is the first field.

hyper drops the body also of an answer to HEAD, and of a 204 or a 304; nothing here tells that from
a client that has left.  The chunks that wait for room go in the order they came, and before any
that comes later.  In tokio a chunk may overtake an op that has not been polled yet; that order is
left out.
-/

namespace Ignis.Exchange

open Reactor

/-- `http::response::Builder` takes the status and the headers or not; `cap` is that of the chunk
channel. -/
structure Setting where
  cap : ℕ
  valid : ℕ → List (PhpString × PhpString) → Bool
  cap_pos : 0 < cap

/-- What `collect_body` fails with. -/
inductive BodyError where
  | tooLarge
  | broken
  deriving DecidableEq, Repr

/-- What hyper has been given in full. -/
inductive Reply where
  | refused (error : BodyError)
  /-- `no response from php`. -/
  | noResponse
  /-- `bad response headers`. -/
  | badHeaders
  | whole (resp : HttpResponse)
  | streamed (status : ℕ) (headers : List (PhpString × PhpString))
  deriving DecidableEq, Repr

def BodyError.status : BodyError → ℕ
  | .tooLarge => 413
  | .broken => 400

def BodyError.message : BodyError → PhpString
  | .tooLarge => bytes "request body too large\n"
  | .broken => bytes "bad request body\n"

/-- The status line of a reply. -/
def Reply.status : Reply → ℕ
  | .refused error => error.status
  | .noResponse | .badHeaders => 500
  | .whole resp => resp.status
  | .streamed status _ => status

/-- `simple`: the header of the replies that `handle` makes itself. -/
def plainText : List (PhpString × PhpString) := [(bytes "content-type", bytes "text/plain")]

/-- Status and headers of a reply, as hyper is given them. -/
def Reply.head (reply : Reply) : ℕ × List (PhpString × PhpString) :=
  match reply with
  | .refused _ | .noResponse | .badHeaders => (reply.status, plainText)
  | .whole resp => (resp.status, resp.headers)
  | .streamed status headers => (status, headers)

/-- Where `handle`, or the body it has returned, stands. -/
inductive Client where
  | reading
  | waiting
  | streaming (status : ℕ) (headers : List (PhpString × PhpString))
  /-- The receiving ends are dropped; the guard is not yet. -/
  | dropping (reply : Option Reply)
  /-- `cancel_request` has removed the answer and has not yet announced it. -/
  | cancelling (reply : Option Reply)
  /-- Nothing is left; `none` if hyper has dropped the future or the body. -/
  | done (reply : Option Reply)
  deriving DecidableEq, Repr

/-- Status and headers of the response that hyper has, if it has one. -/
def Client.head : Client → Option (ℕ × List (PhpString × PhpString))
  | .streaming status headers => some (status, headers)
  | .dropping reply | .cancelling reply | .done reply => reply.map Reply.head
  | .reading | .waiting => none

/-- A value in the oneshot channel. -/
inductive Slot where
  | full (resp : HttpResponse)
  | stream (status : ℕ) (headers : List (PhpString × PhpString))
  deriving DecidableEq, Repr

/-- `Answer::Whole` and `Answer::Streaming`; a gRPC call does not come this way. -/
inductive Answer where
  | whole
  | streaming
  deriving DecidableEq, Repr

/-- How a call of PHP ends: there was no such answer to give, the client turned out to be gone, or
it was sent. -/
inductive Result where
  | refused
  | gone
  | sent
  /-- The chunk waits for room, and PHP for its op. -/
  | parked
  deriving DecidableEq, Repr

/-- What PHP has done about the request, with the result. -/
inductive Told where
  | respond (resp : HttpResponse) (result : Result)
  | respondStart (status : ℕ) (headers : List (PhpString × PhpString)) (result : Result)
  | chunk (chunk : PhpString) (result : Result)
  /-- The op of a chunk that was parked. -/
  | parkedChunk (chunk : PhpString) (result : Result)
  | respondEnd (result : Result)
  | failPending (result : Result)
  deriving DecidableEq, Repr

/-- The completions of the request. -/
inductive Announced where
  | request
  | cancelled
  deriving DecidableEq, Repr

structure State where
  client : Client
  /-- The entry of the map. -/
  answer : Option Answer
  /-- `respond` has taken the sender and has not yet sent. -/
  sending : Option HttpResponse
  slot : Option Slot
  /-- The chunk channel, and the ops that wait for room in it. -/
  queue : List PhpString
  parked : List PhpString
  /-- The frames hyper has polled. -/
  received : List PhpString
  announced : List Announced
  /-- Ghost: what PHP has done. -/
  log : List Told
  deriving DecidableEq, Repr

def init : State := ⟨.reading, none, none, none, [], [], [], [], []⟩

/-- The receiving end of the chunk channel exists: in the response, or in the body. -/
def State.receiving (s : State) : Bool :=
  match s.slot, s.client with
  | some (.stream _ _), _ => true
  | _, .streaming _ _ => true
  | _, _ => false

/-! ## The front door -/

/-- The end of `collect_body`; a body that was read is delivered. -/
def readBody (s : State) : Option BodyError → State
  | none => { s with
      client := .waiting, answer := some .whole, announced := s.announced ++ [.request] }
  | some error => { s with client := .done (some (.refused error)) }

/-- `php_response`. -/
def phpResponse (cfg : Setting) (s : State) : Slot → State
  | .full resp => { s with
      slot := none
      client := .done (some (if cfg.valid resp.status resp.headers then .whole resp
        else .badHeaders)) }
  | .stream status headers =>
      if cfg.valid status headers then { s with slot := none, client := .streaming status headers }
      else { s with slot := none, queue := [], client := .dropping (some .badHeaders) }

/-- Status and headers of what `php_response` makes of a status and headers. -/
def Setting.head (cfg : Setting) (status : ℕ) (headers : List (PhpString × PhpString)) :
    ℕ × List (PhpString × PhpString) :=
  if cfg.valid status headers then (status, headers) else Reply.badHeaders.head

/-- **`php_response`** keeps the head it is given, or answers with its own. -/
lemma head_phpResponse (cfg : Setting) (s : State) (v : Slot) :
    (phpResponse cfg s v).client.head = some (match v with
      | .full resp => cfg.head resp.status resp.headers
      | .stream status headers => cfg.head status headers) := by
  cases v with
  | full resp =>
      simp only [phpResponse, Setting.head, Client.head, Option.map_some]
      split_ifs <;> rfl
  | stream status headers =>
      simp only [phpResponse, Setting.head]
      split_ifs <;> rfl

/-- hyper drops the future or the body: the client has left, or the answer is one without a body. -/
def leave (s : State) : Option State :=
  match s.client with
  | .reading => some { s with client := .done none }
  | .waiting | .streaming _ _ =>
      some { s with slot := none, queue := [], client := .dropping none }
  | _ => none

/-- `CancelOnDrop::drop`: the lock section of `cancel_request`, if the answer is still there. -/
def dropGuard (s : State) (reply : Option Reply) : State :=
  if s.answer.isSome then { s with answer := none, client := .cancelling reply }
  else { s with client := .done reply }

/-! ## PHP -/

/-- `respond`, as far as `take_answer`. -/
def respond (s : State) (resp : HttpResponse) : State :=
  if s.answer = some .whole then { s with answer := none, sending := some resp }
  else { s with log := s.log ++ [.respond resp .refused] }

/-- The `send` of `respond`. -/
def respondSend (s : State) (resp : HttpResponse) : State :=
  if s.client = .waiting then
    { s with
      sending := none, slot := some (.full resp), log := s.log ++ [.respond resp .sent] }
  else { s with sending := none, log := s.log ++ [.respond resp .gone] }

def respondStart (s : State) (status : ℕ) (headers : List (PhpString × PhpString)) : State :=
  if s.answer = some .whole then
    if s.client = .waiting then
      { s with
        answer := some .streaming
        slot := some (.stream status headers)
        log := s.log ++ [.respondStart status headers .sent] }
    else { s with answer := none, log := s.log ++ [.respondStart status headers .gone] }
  else { s with log := s.log ++ [.respondStart status headers .refused] }

/-- `send_chunk`: `try_send`, and an op if the channel is full.  Whoever waits for room is before
whoever comes. -/
def sendChunk (cfg : Setting) (s : State) (chunk : PhpString) : State :=
  if s.answer = some .streaming then
    if s.receiving = false then { s with log := s.log ++ [.chunk chunk .gone] }
    else if s.queue.length < cfg.cap ∧ s.parked = [] then
      { s with queue := s.queue ++ [chunk], log := s.log ++ [.chunk chunk .sent] }
    else { s with parked := s.parked ++ [chunk], log := s.log ++ [.chunk chunk .parked] }
  else { s with log := s.log ++ [.chunk chunk .refused] }

/-- The op of the oldest parked chunk goes on. -/
def sendParked (cfg : Setting) (s : State) : Option State :=
  match s.parked with
  | [] => none
  | chunk :: parked =>
      if s.receiving = false then
        some { s with parked := parked, log := s.log ++ [.parkedChunk chunk .gone] }
      else if s.queue.length < cfg.cap then
        some { s with
          parked := parked
          queue := s.queue ++ [chunk]
          log := s.log ++ [.parkedChunk chunk .sent] }
      else none

def respondEnd (s : State) : State :=
  if s.answer = some .streaming then
    { s with answer := none, log := s.log ++ [.respondEnd .sent] }
  else { s with log := s.log ++ [.respondEnd .refused] }

/-- `fail_pending`: the PHP thread is going. -/
def failPending (s : State) : State :=
  if s.answer.isSome then { s with answer := none, log := s.log ++ [.failPending .sent] }
  else { s with log := s.log ++ [.failPending .refused] }

/-! ## Steps -/

inductive Action where
  | readBody (error : Option BodyError)
  /-- The oneshot resolves, with a value or because its sender is gone. -/
  | receive
  | receiveError
  /-- `poll_frame` is ready, with a chunk or because no sender is left. -/
  | frame
  | bodyEnd
  | leave
  | dropGuard
  | announce
  | respond (resp : HttpResponse)
  | respondSend
  | respondStart (status : ℕ) (headers : List (PhpString × PhpString))
  | sendChunk (chunk : PhpString)
  | sendParked
  | respondEnd
  | failPending
  deriving DecidableEq, Repr

/-- A call of PHP, which makes one at a time. -/
def call (s s' : State) : Option State := if s.sending = none then some s' else none

def step (cfg : Setting) (s : State) : Action → Option State
  | .readBody error => if s.client = .reading then some (readBody s error) else none
  | .receive =>
      if s.client = .waiting then s.slot.map (phpResponse cfg s) else none
  | .receiveError =>
      if s.client = .waiting ∧ s.slot = none ∧ s.answer ≠ some .whole ∧ s.sending = none then
        some { s with client := .done (some .noResponse) }
      else none
  | .frame =>
      match s.client, s.queue with
      | .streaming _ _, chunk :: queue =>
          some { s with queue := queue, received := s.received ++ [chunk] }
      | _, _ => none
  | .bodyEnd =>
      match s.client, s.queue with
      | .streaming status headers, [] =>
          if s.answer ≠ some .streaming ∧ s.parked = [] then
            some { s with client := .done (some (.streamed status headers)) }
          else none
      | _, _ => none
  | .leave => leave s
  | .dropGuard =>
      match s.client with
      | .dropping reply => some (dropGuard s reply)
      | _ => none
  | .announce =>
      match s.client with
      | .cancelling reply =>
          some { s with client := .done reply, announced := s.announced ++ [.cancelled] }
      | _ => none
  | .respond resp => call s (respond s resp)
  | .respondSend => s.sending.map (respondSend s)
  | .respondStart status headers => call s (respondStart s status headers)
  | .sendChunk chunk => call s (sendChunk cfg s chunk)
  | .sendParked => sendParked cfg s
  | .respondEnd => call s (respondEnd s)
  | .failPending => call s (failPending s)

/-! ## What a step does -/

def Told.result : Told → Result
  | .respond _ result | .respondStart _ _ result | .chunk _ result | .parkedChunk _ result
  | .respondEnd result | .failPending result => result

/-- One step, with what it was possible for. -/
inductive Move (cfg : Setting) (s : State) : State → Prop
  | delivered (hclient : s.client = .reading) : Move cfg s { s with
      client := .waiting, answer := some .whole, announced := s.announced ++ [.request] }
  | refused (error : BodyError) (hclient : s.client = .reading) :
      Move cfg s { s with client := .done (some (.refused error)) }
  | whole (resp : HttpResponse) (hclient : s.client = .waiting)
      (hslot : s.slot = some (.full resp)) : Move cfg s { s with
        slot := none
        client := .done (some (if cfg.valid resp.status resp.headers then .whole resp
          else .badHeaders)) }
  | head (status : ℕ) (headers : List (PhpString × PhpString)) (hclient : s.client = .waiting)
      (hslot : s.slot = some (.stream status headers)) (hvalid : cfg.valid status headers = true) :
      Move cfg s { s with slot := none, client := .streaming status headers }
  | badHead (status : ℕ) (headers : List (PhpString × PhpString)) (hclient : s.client = .waiting)
      (hslot : s.slot = some (.stream status headers))
      (hvalid : cfg.valid status headers = false) :
      Move cfg s { s with slot := none, queue := [], client := .dropping (some .badHeaders) }
  | noResponse (hclient : s.client = .waiting) (hslot : s.slot = none)
      (hanswer : s.answer ≠ some .whole) (hsending : s.sending = none) :
      Move cfg s { s with client := .done (some .noResponse) }
  | frame (status : ℕ) (headers : List (PhpString × PhpString)) (chunk : PhpString)
      (queue : List PhpString) (hclient : s.client = .streaming status headers)
      (hqueue : s.queue = chunk :: queue) :
      Move cfg s { s with queue := queue, received := s.received ++ [chunk] }
  | bodyEnd (status : ℕ) (headers : List (PhpString × PhpString))
      (hclient : s.client = .streaming status headers) (hqueue : s.queue = [])
      (hanswer : s.answer ≠ some .streaming) (hparked : s.parked = []) :
      Move cfg s { s with client := .done (some (.streamed status headers)) }
  | leftEarly (hclient : s.client = .reading) : Move cfg s { s with client := .done none }
  | left (hclient : s.client = .waiting ∨ ∃ status headers, s.client = .streaming status headers) :
      Move cfg s { s with slot := none, queue := [], client := .dropping none }
  | owing (reply : Option Reply) (hclient : s.client = .dropping reply)
      (hanswer : s.answer.isSome = true) :
      Move cfg s { s with answer := none, client := .cancelling reply }
  | owingNothing (reply : Option Reply) (hclient : s.client = .dropping reply)
      (hanswer : s.answer = none) : Move cfg s { s with client := .done reply }
  | cancelled (reply : Option Reply) (hclient : s.client = .cancelling reply) :
      Move cfg s { s with client := .done reply, announced := s.announced ++ [.cancelled] }
  | took (resp : HttpResponse) (hsending : s.sending = none) (hanswer : s.answer = some .whole) :
      Move cfg s { s with answer := none, sending := some resp }
  | sent (resp : HttpResponse) (hsending : s.sending = some resp) (hclient : s.client = .waiting) :
      Move cfg s { s with
        sending := none, slot := some (.full resp), log := s.log ++ [.respond resp .sent] }
  | sentToNobody (resp : HttpResponse) (hsending : s.sending = some resp)
      (hclient : s.client ≠ .waiting) :
      Move cfg s { s with sending := none, log := s.log ++ [.respond resp .gone] }
  | started (status : ℕ) (headers : List (PhpString × PhpString)) (hsending : s.sending = none)
      (hanswer : s.answer = some .whole) (hclient : s.client = .waiting) : Move cfg s { s with
        answer := some .streaming
        slot := some (.stream status headers)
        log := s.log ++ [.respondStart status headers .sent] }
  | startedToNobody (status : ℕ) (headers : List (PhpString × PhpString))
      (hsending : s.sending = none) (hanswer : s.answer = some .whole)
      (hclient : s.client ≠ .waiting) : Move cfg s { s with
        answer := none, log := s.log ++ [.respondStart status headers .gone] }
  | chunk (chunk : PhpString) (hanswer : s.answer = some .streaming)
      (hreceiving : s.receiving = true) (hparked : s.parked = []) : Move cfg s { s with
        queue := s.queue ++ [chunk], log := s.log ++ [.chunk chunk .sent] }
  | park (chunk : PhpString) (hanswer : s.answer = some .streaming)
      (hreceiving : s.receiving = true) : Move cfg s { s with
        parked := s.parked ++ [chunk], log := s.log ++ [.chunk chunk .parked] }
  | chunkToNobody (chunk : PhpString) (hanswer : s.answer = some .streaming)
      (hreceiving : s.receiving = false) :
      Move cfg s { s with log := s.log ++ [.chunk chunk .gone] }
  | unpark (chunk : PhpString) (parked : List PhpString) (hparked : s.parked = chunk :: parked)
      (hreceiving : s.receiving = true) : Move cfg s { s with
        parked := parked, queue := s.queue ++ [chunk], log := s.log ++ [.parkedChunk chunk .sent] }
  | unparkToNobody (chunk : PhpString) (parked : List PhpString)
      (hparked : s.parked = chunk :: parked) (hreceiving : s.receiving = false) :
      Move cfg s { s with parked := parked, log := s.log ++ [.parkedChunk chunk .gone] }
  | ended (hanswer : s.answer = some .streaming) (hsending : s.sending = none) :
      Move cfg s { s with answer := none, log := s.log ++ [.respondEnd .sent] }
  | failed (hanswer : s.answer.isSome = true) (hsending : s.sending = none) :
      Move cfg s { s with answer := none, log := s.log ++ [.failPending .sent] }
  | nothing (told : Told) (hresult : told.result = .refused) :
      Move cfg s { s with log := s.log ++ [told] }

theorem move_of_step {cfg : Setting} {s s' : State} {a : Action} (h : step cfg s a = some s') :
    Move cfg s s' := by
  cases a with
  | readBody error =>
      simp only [step] at h
      split_ifs at h with hclient
      obtain rfl := Option.some.inj h
      cases error with
      | none => exact .delivered hclient
      | some error => exact .refused error hclient
  | receive =>
      simp only [step] at h
      split_ifs at h with hclient
      obtain ⟨v, hslot, rfl⟩ := Option.map_eq_some_iff.mp h
      cases v with
      | full resp => exact .whole resp hclient hslot
      | stream status headers =>
          simp only [phpResponse]
          split_ifs with hvalid
          · exact .head status headers hclient hslot hvalid
          · exact .badHead status headers hclient hslot (by simpa using hvalid)
  | receiveError =>
      simp only [step] at h
      split_ifs at h with hcond
      obtain rfl := Option.some.inj h
      exact .noResponse hcond.1 hcond.2.1 hcond.2.2.1 hcond.2.2.2
  | frame =>
      simp only [step] at h
      split at h
      · next status headers chunk queue hclient hqueue =>
          obtain rfl := Option.some.inj h
          exact .frame status headers chunk queue hclient hqueue
      · cases h
  | bodyEnd =>
      simp only [step] at h
      split at h
      · next status headers hclient hqueue =>
          split_ifs at h with hcond
          obtain rfl := Option.some.inj h
          exact .bodyEnd status headers hclient hqueue hcond.1 hcond.2
      · cases h
  | leave =>
      simp only [step, leave] at h
      split at h
      · next hclient =>
          obtain rfl := Option.some.inj h
          exact .leftEarly hclient
      · next hclient =>
          obtain rfl := Option.some.inj h
          exact .left (.inl hclient)
      · next status headers hclient =>
          obtain rfl := Option.some.inj h
          exact .left (.inr ⟨status, headers, hclient⟩)
      · cases h
  | dropGuard =>
      simp only [step] at h
      split at h
      · next reply hclient =>
          obtain rfl := Option.some.inj h
          unfold dropGuard
          split_ifs with hanswer
          · exact .owing reply hclient hanswer
          · exact .owingNothing reply hclient (by simpa using hanswer)
      · cases h
  | announce =>
      simp only [step] at h
      split at h
      · next reply hclient =>
          obtain rfl := Option.some.inj h
          exact .cancelled reply hclient
      · cases h
  | respond resp =>
      simp only [step, call] at h
      split_ifs at h with hsending
      obtain rfl := Option.some.inj h
      unfold respond
      split_ifs with hanswer
      · exact .took resp hsending hanswer
      · exact .nothing _ rfl
  | respondSend =>
      obtain ⟨resp, hsending, rfl⟩ := Option.map_eq_some_iff.mp h
      unfold respondSend
      split_ifs with hclient
      · exact .sent resp hsending hclient
      · exact .sentToNobody resp hsending hclient
  | respondStart status headers =>
      simp only [step, call] at h
      split_ifs at h with hsending
      obtain rfl := Option.some.inj h
      unfold respondStart
      split_ifs with hanswer hclient
      · exact .started status headers hsending hanswer hclient
      · exact .startedToNobody status headers hsending hanswer hclient
      · exact .nothing _ rfl
  | sendChunk chunk =>
      simp only [step, call] at h
      split_ifs at h with hsending
      obtain rfl := Option.some.inj h
      unfold sendChunk
      split_ifs with hanswer hreceiving hroom
      · exact .chunkToNobody chunk hanswer hreceiving
      · exact .chunk chunk hanswer (by simpa using hreceiving) hroom.2
      · exact .park chunk hanswer (by simpa using hreceiving)
      · exact .nothing _ rfl
  | sendParked =>
      simp only [step, sendParked] at h
      split at h
      · cases h
      · next chunk parked hparked =>
          split_ifs at h with hreceiving hroom
          · obtain rfl := Option.some.inj h
            exact .unparkToNobody chunk parked hparked hreceiving
          · obtain rfl := Option.some.inj h
            exact .unpark chunk parked hparked (by simpa using hreceiving)
  | respondEnd =>
      simp only [step, call] at h
      split_ifs at h with hsending
      obtain rfl := Option.some.inj h
      unfold respondEnd
      split_ifs with hanswer
      · exact .ended hanswer hsending
      · exact .nothing _ rfl
  | failPending =>
      simp only [step, call] at h
      split_ifs at h with hsending
      obtain rfl := Option.some.inj h
      unfold failPending
      split_ifs with hanswer
      · exact .failed hanswer hsending
      · exact .nothing _ rfl

end Ignis.Exchange
