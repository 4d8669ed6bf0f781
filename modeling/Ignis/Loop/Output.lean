import Ignis.Http.FrontDoor
import Ignis.Reactor.Owner

/-!
# Output that is a response body

While a fiber is bound to a response, what it writes leaves as chunks of the body.  The status line
is not sent when the fiber is bound but with the first chunk, whatever wrote it, so a producer that
fails early can still be answered with a 500.

`Bound` is that binding and `push` the one place where chunks leave.  The queue to the socket is
bounded; whether there is room is up to the client, so a `try_send` is a question to the outside
world.
-/

namespace Ignis.Answering

open Caller Reactor

/-- What the fiber of a request does: it calls the reactor and asks the outside world. -/
abbrev Fiber (α : Type) := Prog Method Ret Question Reply α

/-- What reaches a `catch` of the loop. -/
inductive Thrown where
  | deadlineExceeded (message : PhpString)
  | cancelled (message : PhpString)
  | other (cls message : PhpString)
  deriving DecidableEq, Repr

/-- `$e::class`. -/
def Thrown.cls : Thrown → PhpString
  | .deadlineExceeded _ => bytes "Ignis\\DeadlineExceededException"
  | .cancelled _ => bytes "Ignis\\CancelledException"
  | .other cls _ => cls

/-- `$e->getMessage()`. -/
def Thrown.message : Thrown → PhpString
  | .deadlineExceeded message | .cancelled message | .other _ message => message

/-! ## Headers -/

/-- A header value of a PHP response: a string, a list of strings, or something that is skipped. -/
inductive HeaderValue where
  | string (s : PhpString)
  | array (values : List Scalar)
  | other
  deriving DecidableEq, Repr

/-- A PHP array of headers, in its order. -/
abbrev PhpHeaders := List (ArrayKey × HeaderValue)

/-- `push_each_value`: one pair for each string of a list-valued header. -/
def pushEachValue (name : PhpString) (values : List Scalar) : List (PhpString × PhpString) :=
  values.filterMap fun
    | .string s => some (name, fromUtf8Lossy s)
    | _ => none

/-- `header_pairs`: what is not keyed by a name, or is neither a string nor a list of strings, is
skipped. -/
def headerPairs (headers : PhpHeaders) : List (PhpString × PhpString) :=
  headers.flatMap fun
    | (.str name, .string s) => [(fromUtf8Lossy name, fromUtf8Lossy s)]
    | (.str name, .array values) => pushEachValue (fromUtf8Lossy name) values
    | _ => []

/-- Headers as their author means them: pairs of texts, some of them in lists under one name. -/
inductive Spells : PhpHeaders → List (PhpString × PhpString) → Prop
  | nil : Spells [] []
  | one (name value : PhpString) {headers : PhpHeaders} {pairs : List (PhpString × PhpString)}
      (rest : Spells headers pairs) :
      Spells ((.str name, .string value) :: headers) ((name, value) :: pairs)
  | many (name : PhpString) (values : List PhpString) {headers : PhpHeaders}
      {pairs : List (PhpString × PhpString)} (rest : Spells headers pairs) :
      Spells ((.str name, .array (values.map .string)) :: headers)
        (values.map (fun value => (name, value)) ++ pairs)

/-- Such headers are taken as they are, if they are UTF-8. -/
lemma headerPairs_of_spells {headers : PhpHeaders} {pairs : List (PhpString × PhpString)}
    (h : Spells headers pairs)
    (hutf8 : ∀ p ∈ pairs, fromUtf8Lossy p.1 = p.1 ∧ fromUtf8Lossy p.2 = p.2) :
    headerPairs headers = pairs := by
  induction h with
  | nil => rfl
  | one name value rest ih =>
      obtain ⟨hname, hvalue⟩ := hutf8 _ List.mem_cons_self
      rw [headerPairs, List.flatMap_cons, ← headerPairs,
        ih fun p hp => hutf8 p (List.mem_cons_of_mem _ hp)]
      simp [hname, hvalue]
  | many name values rest ih =>
      have hvalues : pushEachValue (fromUtf8Lossy name) (values.map .string)
          = values.map fun value => (name, value) := by
        rw [pushEachValue, List.filterMap_map]
        refine List.filterMap_eq_map_iff_forall_eq_some.mpr fun value hvalue => ?_
        obtain ⟨hname, hvalue⟩ :=
          hutf8 (name, value) (List.mem_append_left _ (List.mem_map_of_mem hvalue))
        simp [hname, hvalue]
      rw [headerPairs, List.flatMap_cons, ← headerPairs,
        ih fun p hp => hutf8 p (List.mem_append_right _ hp)]
      exact congrArg (· ++ _) hvalues

/-- `status.clamp(100, 599) as u16`. -/
def clampStatus (status : ℤ) : ℕ := (max 100 (min status 599)).toNat

/-! ## The binding -/

/-- `output::Bound`. -/
structure Bound where
  id : ℕ
  status : ℕ
  headers : List (PhpString × PhpString)
  pending : PhpString
  started : Bool
  deriving DecidableEq, Repr

/-- `tx.try_send(frame)` on the sender of the stream, if it is open; what did not fit comes back. -/
def trySend (b : Bound) (frame : PhpString) : Fiber (Bound × PhpString) :=
  .call (.streamSender b.id) fun
    | .sender true => .ask .trySend fun reply => .done (b, if reply = .full then frame else [])
    | _ => .done (b, [])

/-- `Bound::push`: opens the response first if this is its first byte.  The headers are taken out of
the binding by the attempt, whether it succeeds or not. -/
def push (b : Bound) (frame : PhpString) : Fiber (Bound × PhpString) :=
  if b.started then trySend b frame
  else .call (.respondStart b.id b.status b.headers) fun
    | .bool true => trySend { b with headers := [], started := true } frame
    | _ => .done ({ b with headers := [] }, [])

/-- `bound.pending = bound.push(take(&mut bound.pending))`. -/
def pushPending (b : Bound) : Fiber Bound := do
  let (b', back) ← push { b with pending := [] } b.pending
  return { b' with pending := back }

/-- `ub_write` of a bound fiber: an `echo` accumulates until it fills a frame. -/
def ubWrite (frameBytes : ℕ) (b : Bound) (str : PhpString) : Fiber Bound :=
  if str = [] then .done b
  else
    let b := { b with pending := b.pending ++ str }
    if frameBytes ≤ b.pending.length then pushPending b else .done b

/-- `output::flush`. -/
def flush (b : Bound) : Fiber Bound :=
  if b.pending = [] then .done b else pushPending b

/-- `send_chunk`: `0` if the runtime took the chunk, an op to await if the queue is full, `-1` if
the stream is gone. -/
def sendChunk (id : ℕ) (_chunk : PhpString) : Fiber ℤ :=
  .call (.streamSender id) fun
    | .sender true => .ask .trySend fun
        | .full => .call (.submit .custom) fun
            | .id op => .done op
            | _ => .done (-1)
        | .closed => .done (-1)
        | _ => .done 0
    | _ => .done (-1)

/-- `ignis_stream_write`: everything pending goes first; what did not fit becomes an op. -/
def streamWrite (b : Bound) (str : PhpString) : Fiber (Bound × ℤ) := do
  let (b', back) ← push { b with pending := [] } (b.pending ++ str)
  let op ← if back = [] then pure 0 else sendChunk b.id back
  return ({ b' with pending := [] }, op)

/-- `ignis_stream_bind`. -/
def streamBind (id : ℕ) (status : ℤ) (headers : PhpHeaders) : Bound :=
  ⟨id, clampStatus status, headerPairs headers, [], false⟩

/-- `ignis_stream_unbind`: pushes what is pending and reports `[tail, started]`. -/
def streamUnbind (b : Bound) : Fiber (PhpString × Bool) := do
  let b ← if b.pending = [] then pure b else pushPending b
  return (b.pending, b.started)

/-! ## Producers -/

/-- A producer, as a tree of what it does: it writes, flushes, writes with back-pressure, parks, and
in the end returns or throws.  What it does next may depend on every result. -/
inductive Producer where
  | echo (str : PhpString) (k : Producer)
  | flush (k : Producer)
  | write (str : PhpString) (k : ℤ → Producer)
  | await (k : Reply → Producer)
  | returns
  | throws (e : Thrown)

/-- The producer runs with its fiber bound. -/
def Producer.run (frameBytes : ℕ) : Producer → Bound → Fiber (Bound × Option Thrown)
  | .echo str k, b => do k.run frameBytes (← ubWrite frameBytes b str)
  | .flush k, b => do k.run frameBytes (← Answering.flush b)
  | .write str k, b => do
      let (b, op) ← streamWrite b str
      (k op).run frameBytes b
  | .await k, b => .ask (.awaitOp false) fun reply => (k reply).run frameBytes b
  | .returns, b => .done (b, none)
  | .throws e, b => .done (b, some e)

end Ignis.Answering
