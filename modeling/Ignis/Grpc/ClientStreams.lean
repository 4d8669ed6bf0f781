import Ignis.Http.Decimal
import Ignis.Lib.OrdMap
import Ignis.Lib.Places
import Ignis.Lib.Scan
import Ignis.Lib.StepSystem

/-!
# Server streams read from PHP

`Client::serverStream` is a generator: it opens a call, and each time it is asked it reads one
message.  The stream itself stays on the other side, in the table `STREAMS`, under a handle that PHP
gets as JSON.  Any number of generators do this at once, on any number of threads; a fiber may be
cancelled while it waits, and then the future it waited for runs on by itself, for nothing cancels
an `Op::Custom`.

A status crosses in the text of an error, from which PHP takes the code with `/code=(\d+)/`;
`code_of_failed` is that it gets the code back, whatever the message says.
-/

namespace Ignis

namespace ClientStreams

open StepSystem

/-! ## A status in a text -/

/-- `tonic::Status`; it has one of seventeen codes. -/
structure Status where
  code : Fin 17
  message : PhpString
  deriving DecidableEq, Repr

/-- The text of `failed`. -/
def failed (what : PhpString) (s : Status) : PhpString :=
  bytes "grpc " ++ what ++ bytes ": code=" ++ bytes s.code.val.repr ++ bytes " " ++ s.message

/-- `code=` before a digit. -/
def codeEquals : Scan.Pattern UInt8 where
  run s :=
    if bytes "code=" <+: s ∧ ((s.drop 5).head?.map isDigit).getD false then some (s.drop 5) else none
  shorter := by
    intro s rest h
    obtain ⟨hpre, hrest⟩ := Option.ite_none_right_eq_some.mp h
    have hle : (bytes "code=").length ≤ s.length := hpre.1.length_le
    rw [← Option.some.inj hrest, List.length_drop]
    have : (bytes "code=").length = 5 := by decide
    omega

/-- `Status::UNKNOWN`. -/
def unknown : ℕ := 2

/-- `preg_match('/code=(\d+)/', $m, $mm) ? (int) $mm[1] : Status::UNKNOWN`; a number that is too
large for an int becomes the largest one. -/
def codeOf (m : PhpString) : ℕ :=
  match codeEquals.cut m with
  | some (_, rest) => min zendLongMax (digitsValue (rest.takeWhile isDigit))
  | none => unknown

lemma codeEquals_run_of_not_prefix {s : PhpString} (h : ¬ bytes "code=" <+: s) :
    codeEquals.run s = none := if_neg fun hs => h hs.1

/-- Before the code of `failed` there is no `code=`: what stands there has no `=`. -/
lemma cut_failed {what : PhpString} (hwhat : (61 : UInt8) ∉ what) (s : Status) :
    codeEquals.cut (failed what s) = some
      (bytes "grpc " ++ what ++ bytes ": ", bytes s.code.val.repr ++ (bytes " " ++ s.message)) := by
  have htext : failed what s = (bytes "grpc " ++ what ++ bytes ": ")
      ++ (bytes "code=" ++ (bytes s.code.val.repr ++ (bytes " " ++ s.message))) := by
    simp only [failed, show bytes ": code=" = bytes ": " ++ bytes "code=" by decide,
      List.append_assoc]
  have hfree : (61 : UInt8) ∉ bytes "grpc " ++ what ++ bytes ": " := by
    have hgrpc : (61 : UInt8) ∉ bytes "grpc " := by decide
    have hcolon : (61 : UInt8) ∉ bytes ": " := by decide
    simp only [List.mem_append, not_or]
    exact ⟨⟨hgrpc, hwhat⟩, hcolon⟩
  rw [htext]
  refine Scan.Pattern.cut_append _ (fun a b hab hb => codeEquals_run_of_not_prefix fun hpre => ?_) ?_
  · -- a match that begins in `b` would have its `=` there, or a `c` behind the first byte
    have hmem : ∀ x ∈ b, x ≠ 61 := fun x hx heq =>
      hfree (hab ▸ List.mem_append_right a (heq ▸ hx))
    have hcode : bytes "code=" = [99, 111, 100, 101, 61] := by decide
    rw [hcode] at hpre
    obtain ⟨rest, hrest⟩ := hpre
    match b, hb, hmem, hrest with
    | [x], _, _, hrest => simp at hrest
    | [x, y], _, _, hrest => simp at hrest
    | [x, y, z], _, _, hrest => simp at hrest
    | [x, y, z, w], _, _, hrest => simp at hrest
    | x :: y :: z :: w :: v :: b, _, hmem, hrest =>
        simp only [List.cons_append, List.nil_append, List.cons.injEq] at hrest
        exact hmem v (by simp) hrest.2.2.2.2.1.symm
  · have hne := bytes_repr_ne_nil s.code.val
    obtain ⟨d, ds, hds⟩ := List.exists_cons_of_ne_nil hne
    have hd : isDigit d = true := isDigit_of_mem_bytes_repr (hds ▸ List.mem_cons_self)
    have hlength : (bytes "code=").length = 5 := by decide
    have hdrop : (bytes "code=" ++ (bytes s.code.val.repr ++ (bytes " " ++ s.message))).drop 5
        = bytes s.code.val.repr ++ (bytes " " ++ s.message) := by
      rw [← hlength, List.drop_left]
    refine (if_pos ⟨List.prefix_append _ _, ?_⟩).trans (congrArg some hdrop)
    rw [hdrop, hds]
    simp [hd]

/-- **The code survives the text.**  Whatever the message of the status says. -/
theorem code_of_failed {what : PhpString} (hwhat : (61 : UInt8) ∉ what) (s : Status) :
    codeOf (failed what s) = s.code.val := by
  have htake : (bytes s.code.val.repr ++ (bytes " " ++ s.message)).takeWhile isDigit
      = bytes s.code.val.repr :=
    takeWhile_isDigit_bytes_repr _ fun b hb => by
      obtain rfl : 32 = b := by simpa [bytes] using hb
      decide
  rw [codeOf, cut_failed hwhat]
  simp only [htake, digitsValue_bytes_repr]
  have hlt := s.code.isLt
  rw [zendLongMax]
  omega

/-! ## The machine -/

/-- How a server ends a call. -/
inductive Closing where
  | ok
  | status (s : Status)
  deriving DecidableEq, Repr

/-- What tonic holds of one call. -/
structure Stream where
  /-- Ghost: every message of the server that has come in. -/
  sent : List PhpString
  /-- Those that have not been read. -/
  queue : List PhpString
  closed : Option Closing
  /-- An error has been reported; from then on the stream is at its end. -/
  reported : Bool
  deriving DecidableEq, Repr

/-- `Streaming::message`: nothing yet while the server has neither sent nor closed. -/
def Stream.message (st : Stream) : Option (Except Status (Option PhpString) × Stream) :=
  match st.queue, st.closed with
  | m :: queue, _ => some (.ok (some m), { st with queue := queue })
  | [], some (.status e) =>
      some (if st.reported then .ok none else .error e, { st with reported := true })
  | [], some .ok => some (.ok none, st)
  | [], none => none

inductive Outcome where
  | json (text : PhpString)
  | blob (message : Option PhpString)
  | failed (text : PhpString)
  deriving DecidableEq, Repr

/-- Where `call` finds out that there will be no stream. -/
inductive Stage where
  | channel
  | ready
  | serverStreaming
  deriving DecidableEq, Repr

def Stage.text : Stage → PhpString
  | .channel => bytes "channel"
  | .ready => bytes "ready"
  | .serverStreaming => bytes "server_streaming"

inductive Refusal where
  | status (what : Stage) (s : Status)
  /-- The method is no path; the text is the parser's. -/
  | path (error : PhpString)
  deriving DecidableEq, Repr

def Refusal.text : Refusal → PhpString
  | .status what s => ClientStreams.failed what.text s
  | .path error => bytes "grpc path: " ++ error

/-- The code that PHP finds in the text. -/
def Refusal.code : Refusal → ℕ
  | .status _ s => s.code.val
  | .path error => codeOf (bytes "grpc path: " ++ error)

lemma codeOf_text (r : Refusal) : codeOf r.text = r.code := by
  cases r with
  | status what s => exact code_of_failed (by cases what <;> decide) s
  | path error => rfl

/-- Where the future of an `Op::Custom` stands. -/
inductive Future where
  /-- `call` waits for the server's answer. -/
  | calling
  /-- `NEXT_STREAM.fetch_add` comes next. -/
  | accepted
  /-- `STREAMS.insert` comes next. -/
  | numbered (id : ℕ)
  /-- `recv` looks the handle up next. -/
  | looking (handle : ℕ)
  /-- `recv` has this call's stream and waits for a message. -/
  | reading (handle : ℕ) (call : ℕ)
  /-- `STREAMS.remove` comes next, and then this is the outcome. -/
  | forgetting (handle : ℕ) (outcome : Outcome)
  | completed (outcome : Outcome)
  deriving DecidableEq, Repr

inductive Thrown where
  /-- `StatusException`. -/
  | status (code : ℕ) (message : PhpString)
  | cancelled
  deriving DecidableEq, Repr

/-- Where the generator stands. -/
inductive Generator where
  /-- It waits for `ignis_grpc_call`. -/
  | opening
  /-- It waits for `ignis_grpc_recv`. -/
  | receiving (stream : ℕ)
  /-- At its `yield`. -/
  | yielding (stream : ℕ)
  | returned
  | threw (e : Thrown)
  deriving DecidableEq, Repr

/-- Ghost: what has become of the call's entry in the table. -/
inductive Entry where
  /-- There is no stream yet. -/
  | none
  | accepted
  | numbered (id : ℕ)
  | listed (id : ℕ)
  | forgotten (id : ℕ)
  deriving DecidableEq, Repr

/-- A generator with its call. -/
structure Client where
  generator : Generator
  future : Option Future
  stream : Stream
  /-- Ghost: what the generator has yielded. -/
  yielded : List PhpString
  /-- Ghost: what has been read with nobody waiting for it. -/
  lost : List PhpString
  entry : Entry
  deriving DecidableEq, Repr

structure State where
  clients : List Client
  /-- `STREAMS`, with the call whose stream is shared. -/
  streams : OrdMap ℕ ℕ
  /-- `NEXT_STREAM`. -/
  nextStream : ℕ
  deriving DecidableEq

def init : State where
  clients := []
  streams := ∅
  nextStream := 1

/-- `serverStream`, when it is first asked. -/
def Client.start : Client where
  generator := .opening
  future := some .calling
  stream := ⟨[], [], none, false⟩
  yielded := []
  lost := []
  entry := .none

/-- The document that `call` answers with. -/
def streamJson (id : ℕ) : PhpString := bytes "\x7b\"stream\":" ++ bytes id.repr ++ bytes "\x7d"

/-- `streamIdFromJson`, on documents of the kind the reactor writes: `json_decode` reads a number
past `PHP_INT_MAX` as a float, which is not an int. -/
def streamIdFromJson (json : PhpString) : Option ℕ :=
  let rest := json.drop (bytes "\x7b\"stream\":").length
  let digits := rest.takeWhile isDigit
  if bytes "\x7b\"stream\":" <+: json ∧ digits ≠ [] ∧ rest = digits ++ bytes "\x7d"
      ∧ digitsValue digits ≤ zendLongMax then
    some (digitsValue digits)
  else none

/-- The handle survives the document, as long as it is an int. -/
lemma streamIdFromJson_streamJson {id : ℕ} (h : id ≤ zendLongMax) :
    streamIdFromJson (streamJson id) = some id := by
  have hdrop : (streamJson id).drop (bytes "\x7b\"stream\":").length
      = bytes id.repr ++ bytes "\x7d" := by
    rw [streamJson, List.append_assoc, List.drop_left]
  have htake : (bytes id.repr ++ bytes "\x7d").takeWhile isDigit = bytes id.repr :=
    takeWhile_isDigit_bytes_repr _ fun b hb => by
      obtain rfl : 125 = b := by simpa [bytes] using hb
      decide
  have hpre : bytes "\x7b\"stream\":" <+: streamJson id := by
    rw [streamJson, List.append_assoc]
    exact List.prefix_append _ _
  dsimp only [streamIdFromJson]
  rw [hdrop, htake, digitsValue_bytes_repr]
  exact if_pos ⟨hpre, bytes_repr_ne_nil id, rfl, h⟩

/-- A completion as `ignis_poll` hands it over. -/
inductive Payload where
  | string (s : PhpString)
  | null
  /-- `['kind' => 'error', 'message' => …]`. -/
  | error (message : PhpString)
  deriving DecidableEq, Repr

def Outcome.payload : Outcome → Payload
  | .json text => .string text
  | .blob (some m) => .string m
  | .blob none => .null
  | .failed text => .error text

/-- The message that a completion carries. -/
def Outcome.message : Outcome → List PhpString
  | .blob (some m) => [m]
  | .json _ | .blob none | .failed _ => []

/-- The exception that `result` makes of an error. -/
def resultError (m : PhpString) : Thrown := .status (codeOf m) m

/-- `awaitOp` returns, and the generator goes on to where it waits next.  A completion nobody waits
for any more is dropped. -/
def Client.resume (c : Client) (outcome : Outcome) : Client :=
  match c.generator, outcome.payload with
  | .opening, .error m | .receiving _, .error m =>
      { c with generator := .threw (resultError m), future := none }
  | .opening, .null =>
      { c with
        generator := .threw (.status unknown (bytes "expected a message, got null"))
        future := none }
  | .opening, .string json =>
      match streamIdFromJson json with
      | some stream => { c with generator := .receiving stream, future := some (.looking stream) }
      | none =>
          { c with
            generator := .threw (.status unknown
              (bytes "expected \x7b\"stream\": int\x7d from the reactor, got " ++ json))
            future := none }
  | .receiving _, .null => { c with generator := .returned, future := none }
  | .receiving stream, .string m =>
      { c with generator := .yielding stream, future := none, yielded := c.yielded ++ [m] }
  | .yielding _, _ | .returned, _ | .threw _, _ =>
      { c with future := none, lost := c.lost ++ outcome.message }

/-- The entry is made, and removed. -/
def Entry.list : Entry → Entry
  | .numbered id => .listed id
  | e => e

def Entry.forget : Entry → Entry
  | .listed id => .forgotten id
  | e => e

inductive Action where
  /-- A generator is asked for the first time. -/
  | opens
  | refuses (i : ℕ) (r : Refusal)
  /-- The server takes the call. -/
  | accepts (i : ℕ)
  | sends (i : ℕ) (m : PhpString)
  | closes (i : ℕ) (how : Closing)
  /-- The future of this call takes its next step. -/
  | advances (i : ℕ)
  /-- Its completion reaches the loop. -/
  | completes (i : ℕ)
  /-- The consumer asks for the next message. -/
  | asks (i : ℕ)
  /-- The fiber is thrown a `CancelledException` where it waits. -/
  | cancels (i : ℕ)
  deriving DecidableEq, Repr

def State.put (s : State) (i : ℕ) (c : Client) : State := { s with clients := s.clients.set i c }

/-- What a `recv` does with what it has read. -/
def afterRead (handle : ℕ) : Except Status (Option PhpString) → Future
  | .ok (some m) => .completed (.blob (some m))
  | .ok none => .forgetting handle (.blob none)
  | .error e => .forgetting handle (.failed (failed (bytes "recv") e))

/-- The next step of a future, up to where another one can come in between. -/
def State.advance (s : State) (i : ℕ) (c : Client) : Option State :=
  match c.future with
  | some .accepted =>
      some { s with
        clients := s.clients.set i
          { c with future := some (.numbered s.nextStream), entry := .numbered s.nextStream }
        nextStream := (s.nextStream + 1) % 2 ^ 64 }
  | some (.numbered id) =>
      some { s with
        clients := s.clients.set i
          { c with future := some (.completed (.json (streamJson id))), entry := c.entry.list }
        streams := s.streams.set id i }
  | some (.looking handle) =>
      some (s.put i { c with future := some (match s.streams.get? handle with
        | some call => .reading handle call
        | none => .completed (.failed (bytes "grpc recv: unknown stream"))) })
  | some (.reading handle call) =>
      s.clients[call]?.bind fun source => source.stream.message.bind fun (r, stream) =>
        let s := s.put call { source with stream := stream }
        -- read again: the stream may be the reader's own
        s.clients[i]?.map fun c => s.put i { c with future := some (afterRead handle r) }
  | some (.forgetting handle outcome) =>
      some { s with
        clients := s.clients.set i
          { c with future := some (.completed outcome), entry := c.entry.forget }
        streams := s.streams.unset handle }
  | some .calling | some (.completed _) | none => none

def step (s : State) : Action → Option State
  | .opens => some { s with clients := s.clients ++ [.start] }
  | .refuses i r => s.clients[i]?.bind fun c =>
      if c.future = some .calling then
        some (s.put i { c with future := some (.completed (.failed r.text)) })
      else none
  | .accepts i => s.clients[i]?.bind fun c =>
      if c.future = some .calling then
        some (s.put i { c with future := some .accepted, entry := .accepted })
      else none
  | .sends i m => s.clients[i]?.bind fun c =>
      if c.entry ≠ .none ∧ c.stream.closed = none then
        some (s.put i { c with
          stream := { c.stream with
            sent := c.stream.sent ++ [m]
            queue := c.stream.queue ++ [m] } })
      else none
  | .closes i how => s.clients[i]?.bind fun c =>
      if c.entry ≠ .none ∧ c.stream.closed = none then
        some (s.put i { c with stream := { c.stream with closed := some how } })
      else none
  | .advances i => s.clients[i]?.bind (s.advance i)
  | .completes i => s.clients[i]?.bind fun c =>
      match c.future with
      | some (.completed outcome) => some (s.put i (c.resume outcome))
      | _ => none
  | .asks i => s.clients[i]?.bind fun c =>
      match c.generator with
      | .yielding stream =>
          some (s.put i { c with
            generator := .receiving stream
            future := some (.looking stream) })
      | _ => none
  | .cancels i => s.clients[i]?.bind fun c =>
      match c.generator with
      | .opening | .receiving _ => some (s.put i { c with generator := .threw .cancelled })
      | _ => none

/-! ## What a step can do -/

inductive Effect (s : State) : Action → State → Prop where
  | opens : Effect s .opens { s with clients := s.clients ++ [.start] }
  | refuses {i : ℕ} {r : Refusal} {c : Client} (hc : s.clients[i]? = some c)
      (hf : c.future = some .calling) :
      Effect s (.refuses i r) (s.put i { c with future := some (.completed (.failed r.text)) })
  | accepts {i : ℕ} {c : Client} (hc : s.clients[i]? = some c) (hf : c.future = some .calling) :
      Effect s (.accepts i) (s.put i { c with future := some .accepted, entry := .accepted })
  | sends {i : ℕ} {m : PhpString} {c : Client} (hc : s.clients[i]? = some c)
      (he : c.entry ≠ .none) (hopen : c.stream.closed = none) :
      Effect s (.sends i m) (s.put i { c with
        stream := { c.stream with
          sent := c.stream.sent ++ [m]
          queue := c.stream.queue ++ [m] } })
  | closes {i : ℕ} {how : Closing} {c : Client} (hc : s.clients[i]? = some c)
      (he : c.entry ≠ .none) (hopen : c.stream.closed = none) :
      Effect s (.closes i how)
        (s.put i { c with stream := { c.stream with closed := some how } })
  | numbers {i : ℕ} {c : Client} (hc : s.clients[i]? = some c) (hf : c.future = some .accepted) :
      Effect s (.advances i) { s with
        clients := s.clients.set i
          { c with future := some (.numbered s.nextStream), entry := .numbered s.nextStream }
        nextStream := (s.nextStream + 1) % 2 ^ 64 }
  | lists {i id : ℕ} {c : Client} (hc : s.clients[i]? = some c)
      (hf : c.future = some (.numbered id)) :
      Effect s (.advances i) { s with
        clients := s.clients.set i
          { c with future := some (.completed (.json (streamJson id))), entry := c.entry.list }
        streams := s.streams.set id i }
  | finds {i handle call : ℕ} {c : Client} (hc : s.clients[i]? = some c)
      (hf : c.future = some (.looking handle)) (hcall : s.streams.get? handle = some call) :
      Effect s (.advances i) (s.put i { c with future := some (.reading handle call) })
  | misses {i handle : ℕ} {c : Client} (hc : s.clients[i]? = some c)
      (hf : c.future = some (.looking handle)) (hcall : s.streams.get? handle = none) :
      Effect s (.advances i) (s.put i { c with
        future := some (.completed (.failed (bytes "grpc recv: unknown stream"))) })
  | reads {i handle call : ℕ} {c source reader : Client}
      {r : Except Status (Option PhpString)} {stream : Stream}
      (hc : s.clients[i]? = some c) (hf : c.future = some (.reading handle call))
      (hsource : s.clients[call]? = some source) (hr : source.stream.message = some (r, stream))
      (hreader : (s.put call { source with stream := stream }).clients[i]? = some reader) :
      Effect s (.advances i) ((s.put call { source with stream := stream }).put i
        { reader with future := some (afterRead handle r) })
  | forgets {i handle : ℕ} {outcome : Outcome} {c : Client} (hc : s.clients[i]? = some c)
      (hf : c.future = some (.forgetting handle outcome)) :
      Effect s (.advances i) { s with
        clients := s.clients.set i
          { c with future := some (.completed outcome), entry := c.entry.forget }
        streams := s.streams.unset handle }
  | completes {i : ℕ} {outcome : Outcome} {c : Client} (hc : s.clients[i]? = some c)
      (hf : c.future = some (.completed outcome)) :
      Effect s (.completes i) (s.put i (c.resume outcome))
  | asks {i stream : ℕ} {c : Client} (hc : s.clients[i]? = some c)
      (hg : c.generator = .yielding stream) :
      Effect s (.asks i) (s.put i { c with
        generator := .receiving stream
        future := some (.looking stream) })
  | cancels {i : ℕ} {c : Client} (hc : s.clients[i]? = some c)
      (hg : c.generator = .opening ∨ ∃ stream, c.generator = .receiving stream) :
      Effect s (.cancels i) (s.put i { c with generator := .threw .cancelled })

lemma Effect.of_advance {s t : State} {i : ℕ} {c : Client} (hc : s.clients[i]? = some c)
    (h : s.advance i c = some t) : Effect s (.advances i) t := by
  unfold State.advance at h
  split at h
  · next hf => exact Option.some.inj h ▸ .numbers hc hf
  · next id hf => exact Option.some.inj h ▸ .lists hc hf
  · next handle hf =>
      cases hcall : s.streams.get? handle with
      | some call =>
          rw [hcall] at h
          exact Option.some.inj h ▸ .finds hc hf hcall
      | none =>
          rw [hcall] at h
          exact Option.some.inj h ▸ .misses hc hf hcall
  · next handle call hf =>
      obtain ⟨source, hsource, h⟩ := Option.bind_eq_some_iff.mp h
      obtain ⟨⟨r, stream⟩, hr, h⟩ := Option.bind_eq_some_iff.mp h
      obtain ⟨reader, hreader, rfl⟩ := Option.map_eq_some_iff.mp h
      exact .reads hc hf hsource hr hreader
  · next handle outcome hf => exact Option.some.inj h ▸ .forgets hc hf
  · cases h
  · cases h
  · cases h

lemma effect_of_step {s t : State} {a : Action} (h : step s a = some t) : Effect s a t := by
  cases a with
  | opens => exact Option.some.inj h ▸ .opens
  | refuses i r =>
      obtain ⟨c, hc, h⟩ := Option.bind_eq_some_iff.mp h
      obtain ⟨hf, h⟩ := Option.ite_none_right_eq_some.mp h
      exact Option.some.inj h ▸ .refuses hc hf
  | accepts i =>
      obtain ⟨c, hc, h⟩ := Option.bind_eq_some_iff.mp h
      obtain ⟨hf, h⟩ := Option.ite_none_right_eq_some.mp h
      exact Option.some.inj h ▸ .accepts hc hf
  | sends i m =>
      obtain ⟨c, hc, h⟩ := Option.bind_eq_some_iff.mp h
      obtain ⟨⟨he, hopen⟩, h⟩ := Option.ite_none_right_eq_some.mp h
      exact Option.some.inj h ▸ .sends hc he hopen
  | closes i how =>
      obtain ⟨c, hc, h⟩ := Option.bind_eq_some_iff.mp h
      obtain ⟨⟨he, hopen⟩, h⟩ := Option.ite_none_right_eq_some.mp h
      exact Option.some.inj h ▸ .closes hc he hopen
  | advances i =>
      obtain ⟨c, hc, h⟩ := Option.bind_eq_some_iff.mp h
      exact .of_advance hc h
  | completes i =>
      obtain ⟨c, hc, h⟩ := Option.bind_eq_some_iff.mp h
      split at h
      · next outcome hf => exact Option.some.inj h ▸ .completes hc hf
      · cases h
  | asks i =>
      obtain ⟨c, hc, h⟩ := Option.bind_eq_some_iff.mp h
      split at h
      · next stream hg => exact Option.some.inj h ▸ .asks hc hg
      · cases h
  | cancels i =>
      obtain ⟨c, hc, h⟩ := Option.bind_eq_some_iff.mp h
      split at h
      · next hg => exact Option.some.inj h ▸ .cancels hc (.inl hg)
      · next stream hg => exact Option.some.inj h ▸ .cancels hc (.inr ⟨stream, hg⟩)
      · cases h

end ClientStreams

end Ignis
