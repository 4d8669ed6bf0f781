import Ignis.Loop.Answering

/-!
# The frames of a streamed response

`Answering` follows a streamed response as far as its entry in the reactor is concerned, and there a
chunk is a chunk.  Here the same functions carry the bytes: what `push` hands to the queue, what
comes back from it, and what an op that waits for room holds.  `erase` forgets the bytes again, and
`erase_produce` says that nothing else is different.
-/

namespace Ignis.Frames

open Caller Reactor Answering

/-! ## The functions, with the bytes they carry -/

inductive Call where
  | respondStart (id status : ℕ) (headers : List (PhpString × PhpString))
  | respond (id : ℕ) (resp : HttpResponse)
  | respondEnd (id : ℕ)
  /-- `stream_sender(id)` and `try_send(frame)` on it. -/
  | trySend (id : ℕ) (frame : PhpString)
  /-- Submits `tx.send(chunk).await`. -/
  | submitSend (id : ℕ) (chunk : PhpString)
  deriving DecidableEq, Repr

inductive Result where
  | ret (r : Ret)
  | sent (r : Reply)
  deriving DecidableEq, Repr

/-- Which op is waited for, and by whom. -/
inductive Await where
  | awaitOp (op : ℕ) (tail : Bool)
  deriving DecidableEq, Repr

abbrev Fiber (α : Type) := Prog Call Result Await Reply α

/-- `tx.try_send(frame)`; what did not fit comes back. -/
def trySend (b : Bound) (frame : PhpString) : Fiber (Bound × PhpString) :=
  .call (.trySend b.id frame) fun
    | .sent .full => .done (b, frame)
    | _ => .done (b, [])

/-- `Bound::push`. -/
def push (b : Bound) (frame : PhpString) : Fiber (Bound × PhpString) :=
  if b.started then trySend b frame
  else .call (.respondStart b.id b.status b.headers) fun
    | .ret (.bool true) => trySend { b with headers := [], started := true } frame
    | _ => .done ({ b with headers := [] }, [])

/-- `bound.pending = bound.push(take(&mut bound.pending))`. -/
def pushPending (b : Bound) : Fiber Bound := do
  let (b', back) ← push { b with pending := [] } b.pending
  return { b' with pending := back }

/-- `ub_write` of a bound fiber. -/
def ubWrite (frameBytes : ℕ) (b : Bound) (str : PhpString) : Fiber Bound :=
  if str = [] then .done b
  else
    let b := { b with pending := b.pending ++ str }
    if frameBytes ≤ b.pending.length then pushPending b else .done b

/-- `output::flush`. -/
def flush (b : Bound) : Fiber Bound :=
  if b.pending = [] then .done b else pushPending b

/-- `send_chunk`. -/
def sendChunk (id : ℕ) (chunk : PhpString) : Fiber ℤ :=
  .call (.trySend id chunk) fun
    | .sent .full => .call (.submitSend id chunk) fun
        | .ret (.id op) => .done op
        | _ => .done (-1)
    | .sent .closed => .done (-1)
    | _ => .done 0

/-- `ignis_stream_write`. -/
def streamWrite (b : Bound) (str : PhpString) : Fiber (Bound × ℤ) := do
  let (b', back) ← push { b with pending := [] } (b.pending ++ str)
  let op ← if back = [] then pure 0 else sendChunk b.id back
  return ({ b' with pending := [] }, op)

/-- `ignis_stream_unbind`. -/
def streamUnbind (b : Bound) : Fiber (PhpString × Bool) := do
  let b ← if b.pending = [] then pure b else pushPending b
  return (b.pending, b.started)

/-- `Loop::awaitOp`: it returns, or an exception of `cancelRequest` comes out of it. -/
def awaitOp (op : ℕ) (tail : Bool) : Fiber (Option Thrown) :=
  .ask (.awaitOp op tail) fun
    | .deadlineExceeded => .done (some (.deadlineExceeded (bytes "deadline exceeded")))
    | .cancelled => .done (some (.cancelled (bytes "client disconnected")))
    | _ => .done none

/-! ## What a producer writes -/

inductive Write where
  | echo (str : PhpString)
  | flush
  | write (str : PhpString)
  deriving DecidableEq, Repr

/-- The exception of `Ignis\write` on a fiber that is not streaming. -/
def notStreaming : Thrown :=
  .other (bytes "RuntimeException")
    (bytes "Ignis\\write(): this fiber is not streaming a response")

/-- `Ignis\write`, which does nothing for an empty chunk and waits if it has been given an op. -/
def write (b : Bound) (str : PhpString) : Fiber (Bound × Option Thrown) :=
  if str = [] then .done (b, none)
  else do
    let (b, op) ← streamWrite b str
    if op = 0 then return (b, none)
    else if op < 0 then return (b, some notStreaming)
    else do
      let thrown ← awaitOp op.toNat false
      return (b, thrown)

def Write.run (frameBytes : ℕ) (b : Bound) : Write → Fiber (Bound × Option Thrown)
  | .echo str => do
      let b ← ubWrite frameBytes b str
      return (b, none)
  | .flush => do
      let b ← Frames.flush b
      return (b, none)
  | .write str => Frames.write b str

/-- A producer that makes these writes and then returns, or throws. -/
def runWrites (frameBytes : ℕ) (ending : Option Thrown) :
    List Write → Bound → Fiber (Bound × Option Thrown)
  | [], b => .done (b, ending)
  | w :: ws, b => do
      let (b, thrown) ← w.run frameBytes b
      match thrown with
      | some e => return (b, some e)
      | none => runWrites frameBytes ending ws b

/-- `Loop::respondTo`. -/
def respondTo (id : ℕ) (status : ℤ) (headers : PhpHeaders) (body : PhpString) : Fiber Bool :=
  .call (.respond id ⟨clampStatus status, headerPairs headers, body⟩) fun
    | .ret (.bool accepted) => .done accepted
    | _ => .done false

/-- `ignis_respond_end`. -/
def respondEnd (id : ℕ) : Fiber Bool :=
  .call (.respondEnd id) fun
    | .ret (.bool ended) => .done ended
    | _ => .done false

/-- `Loop::endStream`. -/
def endStream (id : ℕ) (tail : PhpString) (started : Bool) : Fiber (Except Thrown Unit) :=
  if started = false ∧ tail = [] then do
    let _ ← respondTo id 204 [] []
    return .ok ()
  else do
    let thrown ← if tail = [] then pure none else do
      let op ← sendChunk id tail
      if 0 < op then awaitOp op.toNat true else pure none
    match thrown with
    | some e => return .error e
    | none => do
        let _ ← respondEnd id
        return .ok ()

/-- `Loop::produce`. -/
def produce (frameBytes id : ℕ) (status : ℤ) (headers : PhpHeaders) (ws : List Write)
    (ending : Option Thrown) : Fiber (Except Thrown Unit) := do
  let (b, thrown) ← runWrites frameBytes ending ws (streamBind id status headers)
  let (tail, started) ← streamUnbind b
  match thrown with
  | none => endStream id tail started
  | some e =>
      if started = false ∧ tail = [] then do
        let _ ← respondTo id 500 textPlain (failureBody e)
        return .ok ()
      else endStream id tail started

/-! ## Forgetting the bytes -/

/-- The call without the bytes.  A sender that is not there cannot be told from one whose other
end is gone. -/
def eraseCall : Call → Answering.Fiber Result
  | .respondStart id status headers =>
      .call (.respondStart id status headers) fun r => .done (.ret r)
  | .respond id resp => .call (.respond id resp) fun r => .done (.ret r)
  | .respondEnd id => .call (.respondEnd id) fun r => .done (.ret r)
  | .trySend id _ =>
      .call (.streamSender id) fun
        | .sender true => .ask .trySend fun r => .done (.sent r)
        | _ => .done (.sent .closed)
  | .submitSend _ _ => .call (.submit .custom) fun r => .done (.ret r)

/-- The program without the bytes. -/
def erase {α : Type} : Fiber α → Answering.Fiber α
  | .done a => .done a
  | .call m k => eraseCall m >>= fun r => erase (k r)
  | .ask (.awaitOp _ tail) k => .ask (.awaitOp tail) fun r => erase (k r)

/-- The producer that makes the writes. -/
def producer (ending : Option Thrown) : List Write → Producer
  | [] => match ending with
      | none => .returns
      | some e => .throws e
  | .echo str :: ws => .echo str (producer ending ws)
  | .flush :: ws => .flush (producer ending ws)
  | .write str :: ws =>
      if str = [] then producer ending ws
      else .write str fun op =>
        if op = 0 then producer ending ws
        else if op < 0 then .throws notStreaming
        else .await fun
          | .deadlineExceeded => .throws (.deadlineExceeded (bytes "deadline exceeded"))
          | .cancelled => .throws (.cancelled (bytes "client disconnected"))
          | _ => producer ending ws

lemma erase_bind {α β : Type} (p : Fiber α) (f : α → Fiber β) :
    erase (p >>= f) = erase p >>= fun a => erase (f a) := by
  induction p with
  | done a => rfl
  | call m k ih =>
      show eraseCall m >>= (fun r => erase (k r >>= f))
        = (eraseCall m >>= fun r => erase (k r)) >>= fun a => erase (f a)
      rw [Prog.bind_assoc]
      exact congrArg _ (funext ih)
  | ask q k ih => exact Prog.ask_congr ih

lemma erase_ite {α : Type} (c : Prop) [Decidable c] (p q : Fiber α) :
    erase (if c then p else q) = if c then erase p else erase q :=
  apply_ite erase c p q

lemma erase_trySend (b : Bound) (frame : PhpString) :
    erase (trySend b frame) = Answering.trySend b frame := by
  refine Prog.call_congr fun r => ?_
  rcases r with _ | _ | _ | ⟨_ | _⟩ | _ | _
  case sender.true => exact Prog.ask_congr fun reply => by cases reply <;> rfl
  all_goals rfl

lemma erase_push (b : Bound) (frame : PhpString) :
    erase (push b frame) = Answering.push b frame := by
  unfold push Answering.push
  rw [erase_ite, erase_trySend]
  refine ite_congr rfl (fun _ => rfl) fun _ => Prog.call_congr fun r => ?_
  rcases r with _ | _ | ⟨_ | _⟩ | _ | _ | _
  case bool.true => exact erase_trySend _ _
  all_goals rfl

lemma erase_pushPending (b : Bound) : erase (pushPending b) = Answering.pushPending b := by
  unfold pushPending Answering.pushPending
  rw [erase_bind, erase_push]
  rfl

lemma erase_ubWrite (frameBytes : ℕ) (b : Bound) (str : PhpString) :
    erase (ubWrite frameBytes b str) = Answering.ubWrite frameBytes b str := by
  unfold ubWrite Answering.ubWrite
  rw [erase_ite]
  dsimp only
  rw [erase_ite, erase_pushPending]
  rfl

lemma erase_flush (b : Bound) : erase (flush b) = Answering.flush b := by
  unfold flush Answering.flush
  rw [erase_ite, erase_pushPending]
  rfl

lemma erase_sendChunk (id : ℕ) (chunk : PhpString) :
    erase (sendChunk id chunk) = Answering.sendChunk id chunk := by
  refine Prog.call_congr fun r => ?_
  rcases r with _ | _ | _ | ⟨_ | _⟩ | _ | _
  case sender.true =>
    refine Prog.ask_congr fun reply => ?_
    cases reply
    case full => exact Prog.call_congr fun r => by cases r <;> rfl
    all_goals rfl
  all_goals rfl

lemma erase_streamWrite (b : Bound) (str : PhpString) :
    erase (streamWrite b str) = Answering.streamWrite b str := by
  unfold streamWrite Answering.streamWrite
  rw [erase_bind, erase_push]
  refine congrArg _ (funext fun ⟨b', back⟩ => ?_)
  dsimp only
  rw [erase_ite, erase_bind, erase_bind, erase_sendChunk]
  rfl

lemma erase_streamUnbind (b : Bound) : erase (streamUnbind b) = Answering.streamUnbind b := by
  unfold streamUnbind Answering.streamUnbind
  dsimp only
  rw [erase_ite, erase_bind, erase_bind, erase_pushPending]
  rfl

lemma erase_respondTo (id : ℕ) (status : ℤ) (headers : PhpHeaders) (body : PhpString) :
    erase (respondTo id status headers body) = Answering.respondTo id status headers body :=
  Prog.call_congr fun r => by cases r <;> rfl

lemma erase_respondEnd (id : ℕ) : erase (respondEnd id) = Answering.respondEnd id :=
  Prog.call_congr fun r => by cases r <;> rfl

lemma erase_endStream (id : ℕ) (tail : PhpString) (started : Bool) :
    erase (endStream id tail started) = Answering.endStream id tail started := by
  unfold endStream Answering.endStream
  rw [erase_ite, erase_bind, erase_respondTo]
  refine ite_congr rfl (fun _ => rfl) fun _ => ?_
  dsimp only
  rw [erase_ite]
  refine ite_congr rfl (fun _ => ?_) fun _ => ?_
  · rw [erase_bind]
    show erase (respondEnd id >>= _) = _
    rw [erase_bind, erase_respondEnd]
    rfl
  · rw [erase_bind, erase_sendChunk]
    refine congrArg _ (funext fun op => ?_)
    rw [erase_ite]
    refine ite_congr rfl (fun _ => Prog.ask_congr fun reply => ?_) fun _ => ?_
    · cases reply
      case deadlineExceeded | cancelled => rfl
      all_goals
        show erase (respondEnd id >>= _) = _
        rw [erase_bind, erase_respondEnd]
        rfl
    · show erase (respondEnd id >>= _) = _
      rw [erase_bind, erase_respondEnd]
      rfl

/-- The writes of a producer. -/
lemma erase_runWrites (frameBytes : ℕ) (ending : Option Thrown) (ws : List Write) (b : Bound) :
    erase (runWrites frameBytes ending ws b) = (producer ending ws).run frameBytes b := by
  induction ws generalizing b with
  | nil => cases ending <;> rfl
  | cons w ws ih =>
      cases w with
      | echo str =>
          simp only [runWrites, Write.run, producer, Producer.run]
          rw [Prog.bind_assoc, erase_bind, erase_ubWrite]
          exact congrArg _ (funext fun b => ih b)
      | flush =>
          simp only [runWrites, Write.run, producer, Producer.run]
          rw [Prog.bind_assoc, erase_bind, erase_flush]
          exact congrArg _ (funext fun b => ih b)
      | write str =>
          simp only [runWrites, Write.run, producer, Frames.write]
          split_ifs with hempty
          · exact ih b
          · simp only [Producer.run]
            rw [Prog.bind_assoc, erase_bind, erase_streamWrite]
            refine congrArg _ (funext fun ⟨b', op⟩ => ?_)
            dsimp only
            split_ifs
            · exact ih b'
            · rfl
            · refine Prog.ask_congr fun reply => ?_
              cases reply
              case deadlineExceeded | cancelled => rfl
              all_goals exact ih b'

/-- **The same programs.**  With the bytes forgotten, the production of a streamed response is the
one that `Answering` has. -/
theorem erase_produce (frameBytes id : ℕ) (status : ℤ) (headers : PhpHeaders) (ws : List Write)
    (ending : Option Thrown) :
    erase (produce frameBytes id status headers ws ending)
      = Answering.produce frameBytes id ⟨producer ending ws, status, headers⟩ := by
  unfold produce Answering.produce
  rw [erase_bind, erase_runWrites]
  refine congrArg _ (funext fun ⟨b, thrown⟩ => ?_)
  dsimp only
  rw [erase_bind, erase_streamUnbind]
  refine congrArg _ (funext fun ⟨tail, started⟩ => ?_)
  cases thrown with
  | none => exact erase_endStream id tail started
  | some e =>
      dsimp only
      rw [erase_ite, erase_bind, erase_respondTo, erase_endStream]
      rfl

end Ignis.Frames
