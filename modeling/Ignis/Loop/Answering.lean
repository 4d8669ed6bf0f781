import Ignis.Loop.Output

/-!
# How a request is answered

The loop runs the handler, and what the handler returned is the contract: a `StreamedResponse` has
its producer driven by the loop, a `Response` is sent, `null` means another channel has answered,
and every exception becomes a status.  The loop answers in HTTP terms without knowing the transport;
the reactor maps a failure status onto the wire of a gRPC call, and refuses a success.

`answer_settles` is the account of all these answers but the streamed ones.
-/

namespace Ignis.Answering

open Caller Reactor

/-! ## The handler's result -/

/-- `Http\Response`. -/
structure Response where
  body : PhpString
  status : ℤ
  headers : PhpHeaders
  deriving DecidableEq, Repr

/-- `Http\Response::text`. -/
def Response.text (body : PhpString) (status : ℤ) : Response :=
  ⟨body, status, [(.str (bytes "content-type"), .string (bytes "text/plain; charset=utf-8"))]⟩

/-- `Http\StreamedResponse`. -/
structure StreamedResponse where
  producer : Producer
  status : ℤ
  headers : PhpHeaders

/-- Its constructor drops a `content-length`. -/
def StreamedResponse.new (producer : Producer) (status : ℤ) (headers : PhpHeaders) :
    StreamedResponse :=
  ⟨producer, status, headers.filter fun h => h.1 ≠ .str contentLength⟩
where
  contentLength : PhpString := bytes "content-length"

/-- What a handler may return; `value` is anything else. -/
inductive HandlerResult where
  | streamed (response : StreamedResponse)
  | response (response : Response)
  | null
  | value

/-- The body of a 500. -/
def failureBody (e : Thrown) : PhpString :=
  bytes "500 " ++ e.cls ++ bytes ": " ++ e.message ++ bytes "\n"

def textPlain : PhpHeaders := [(.str (bytes "content-type"), .string (bytes "text/plain"))]

/-- The `catch` clauses of `runHandler`. -/
def caught : Thrown → Response
  | .deadlineExceeded _ => .text (bytes "504 deadline exceeded\n") 504
  | .cancelled _ => .text (bytes "499 cancelled\n") 499
  | e => .text (failureBody e) 500

def noHandler : Thrown :=
  .other (bytes "LogicException")
    (bytes "no request handler is set: serve through Ignis\\serve()")

/-- `Loop::runHandler`, given what entering the request and the handler, if one is set, came to. -/
def runHandler (enterRequest : Except Thrown Unit)
    (handler : Option (Except Thrown HandlerResult)) : HandlerResult :=
  match enterRequest, handler with
  | .error e, _ => .response (caught e)
  | .ok _, none => .response (caught noHandler)
  | .ok _, some (.error e) => .response (caught e)
  | .ok _, some (.ok result) => result

/-! ## The answers -/

/-- `Loop::respondTo`, less its line in the log. -/
def respondTo (id : ℕ) (status : ℤ) (headers : PhpHeaders) (body : PhpString) : Fiber Bool :=
  .call (.respond id ⟨clampStatus status, headerPairs headers, body⟩) fun
    | .bool accepted => .done accepted
    | _ => .done false

/-- `Loop::awaitOp` on the loop's own behalf: it returns, or one of the two exceptions of
`cancelRequest` comes out of it. -/
def awaitTail : Fiber (Except Thrown Unit) :=
  .ask (.awaitOp true) fun
    | .deadlineExceeded => .done (.error (.deadlineExceeded (bytes "deadline exceeded")))
    | .cancelled => .done (.error (.cancelled (bytes "client disconnected")))
    | _ => .done (.ok ())

/-- `ignis_respond_end`. -/
def respondEnd (id : ℕ) : Fiber Bool :=
  .call (.respondEnd id) fun
    | .bool ended => .done ended
    | _ => .done false

/-- `Loop::endStream`. -/
def endStream (id : ℕ) (tail : PhpString) (started : Bool) : Fiber (Except Thrown Unit) :=
  if started = false ∧ tail = [] then do
    let _ ← respondTo id 204 [] []
    return .ok ()
  else do
    let sent ← if tail = [] then pure (.ok ()) else do
      let op ← sendChunk id tail
      if 0 < op then awaitTail else pure (.ok ())
    match sent with
    | .error e => return .error e
    | .ok _ => do
        let _ ← respondEnd id
        return .ok ()

/-- `Loop::produce`. -/
def produce (frameBytes id : ℕ) (response : StreamedResponse) : Fiber (Except Thrown Unit) := do
  let (b, thrown) ← response.producer.run frameBytes
    (streamBind id response.status response.headers)
  let (tail, started) ← streamUnbind b
  match thrown with
  | none => endStream id tail started
  | some e =>
      if started = false ∧ tail = [] then do
        let _ ← respondTo id 500 textPlain (failureBody e)
        return .ok ()
      else endStream id tail started

/-- The answer to a handler that returned none. -/
def mustReturn : PhpString := bytes "handler must return Ignis\\Http\\Response or null\n"

/-- `Loop::answer`. -/
def answer (frameBytes id : ℕ) : HandlerResult → Fiber (Except Thrown Unit)
  | .streamed response => produce frameBytes id response
  | .response response => do
      let _ ← respondTo id response.status response.headers response.body
      return .ok ()
  | .null => return .ok ()
  | .value => do
      let _ ← respondTo id 500 textPlain mustReturn
      return .ok ()

/-- `Loop::answerFailed`. -/
def answerFailed (id : ℕ) (e : Thrown) : Fiber Unit := do
  let _ ← respondTo id 500 textPlain (failureBody e)

/-- The fiber of `Loop::admitRequest` from the end of the handler to `releaseRequest`. -/
def finishRequest (frameBytes id : ℕ) (result : HandlerResult) : Fiber Unit := do
  match ← answer frameBytes id result with
  | .ok _ => return ()
  | .error e => answerFailed id e

/-! ## What `respondTo` comes to -/

section Specs

variable {id : ℕ} {R : State → Question → Reply → Bool} {s : State}

lemma wp_respondTo {status : ℤ} {headers : PhpHeaders} {body : PhpString}
    {Q : Bool → State → Prop} (ho : Owned id s)
    (h : ∀ t b, Owned id t →
      Answered id s t
        (saysResponse ⟨clampStatus status, headerPairs headers, body⟩ (s.answers.lookup id)) b →
      Q b t) :
    (system id R).wp (respondTo id status headers body) Q s :=
  wp_respond ho fun _ _ hot hb => wp_doneOwned hot fun u hou hu => h u _ hou (hb.leaves hu)

end Specs

/-- The response the loop sends for a result, if it sends one in one piece. -/
def HandlerResult.reply : HandlerResult → Option Response
  | .response r => some r
  | .value => some ⟨mustReturn, 500, textPlain⟩
  | .null | .streamed _ => none

/-- Sending a reply is one `respondTo`. -/
lemma answer_eq {frameBytes id : ℕ} {result : HandlerResult} {r : Response}
    (h : result.reply = some r) :
    answer frameBytes id result
      = (do let _ ← respondTo id r.status r.headers r.body; return .ok ()) := by
  cases result with
  | streamed response => cases h
  | response response =>
      obtain rfl := Option.some.inj h
      rfl
  | null => cases h
  | value =>
      obtain rfl := Option.some.inj h
      rfl

/-- Every exception, and every value that is no response, is answered with a failure status. -/
lemma failure_of_no_response {enter : Except Thrown Unit}
    {handler : Option (Except Thrown HandlerResult)} {r : Response}
    (h : ∀ response, enter = .ok () → handler ≠ some (.ok (.response response)))
    (hr : (runHandler enter handler).reply = some r) : 400 ≤ clampStatus r.status := by
  have hcaught : ∀ e : Thrown, 400 ≤ clampStatus (caught e).status := by
    intro e
    cases e <;> simp [caught, Response.text, clampStatus]
  rcases enter with e | ⟨⟩
  · obtain rfl := Option.some.inj hr
    exact hcaught e
  · rcases handler with _ | e | result
    · obtain rfl := Option.some.inj hr
      exact hcaught noHandler
    · obtain rfl := Option.some.inj hr
      exact hcaught e
    · cases result with
      | response response => exact absurd rfl (h response rfl)
      | value =>
          obtain rfl := Option.some.inj hr
          decide
      | null | streamed => cases hr

/-! ## `respond` comes to an end -/

/-- The accesses a `respond` still has to make. -/
def respondRank : Call → ℕ
  | .respond _ _ => 3
  | .respondTake _ _ | .streamEnd _ _ _ => 2
  | .respondSend _ _ | .streamEnded _ _ _ => 1
  | _ => 0

def isResponding (c : Call) : Prop := 0 < respondRank c ∨ ∃ ret, c = .done ret

lemma respond_progress (s : State) (c : Call) (hc : isResponding c)
    (hres : object.result c = none) :
    ∃ s' c', object.next s c = some (s', c') ∧ isResponding c' ∧
      respondRank c' < respondRank c := by
  rcases hc with hc | ⟨ret, rfl⟩
  · cases c <;> simp only [respondRank, lt_irrefl] at hc
    case respond id resp =>
      by_cases h : 400 ≤ resp.status ∧ s.answers.lookup id = some .grpc
      · exact ⟨s, .streamEnd id (grpcRefusal resp.status).1 (grpcRefusal resp.status).2,
          by simp [object, Call.next, h, Access.apply], Or.inl (by simp [respondRank]),
          by simp [respondRank]⟩
      · exact ⟨s, .respondTake id resp, by simp [object, Call.next, h, Access.apply],
          Or.inl (by simp [respondRank]), by simp [respondRank]⟩
    case streamEnded => simp [object, Call.next, isResponding, respondRank]
    all_goals
      simp only [object, Call.next, takeAnswer]
      split <;> simp [isResponding, respondRank]
  · simp [object] at hres

/-- A fiber that has one `respond` to make and is done then. -/
def Replying {α : Type} : Thread Call Method Ret Question Reply α → Prop
  | .running (.call m k) => isResponding m.start ∧ ∀ r, ∃ a, k r = .done a
  | .calling c k => isResponding c ∧ ∀ r, ∃ a, k r = .done a
  | .running (.done _) => True
  | .running (.ask _ _) => False

lemma replying_step {α : Type} {id : ℕ} {R : State → Question → Reply → Bool}
    {x x' : Config State Call Method Ret Question Reply α} {a : Caller.Action Reply Reactor.Action}
    (hx : Replying x.thread) (h : (system id R).step x a = some x') : Replying x'.thread := by
  obtain ⟨s, thread⟩ := x
  cases a with
  | env i =>
      simp only [System.step, Option.map_eq_some_iff] at h
      obtain ⟨s', -, rfl⟩ := h
      exact hx
  | own =>
      cases thread with
      | running p =>
          cases p with
          | done a => simp [System.step] at h
          | ask q k => simp [System.step] at h
          | call m k =>
              simp only [System.step, Option.some.injEq] at h
              subst h
              exact hx
      | calling c k =>
          simp only [System.step] at h
          split at h
          · rename_i r hr
            simp only [Option.some.injEq] at h
            subst h
            obtain ⟨a, ha⟩ := hx.2 r
            simp [ha, Replying]
          · rename_i hres
            obtain ⟨s', c', hs', hc', -⟩ := respond_progress s c hx.1 hres
            have hnext : (system id R).next s c = some (s', c') := hs'
            simp only [hnext, Option.map_some, Option.some.injEq] at h
            subst h
            exact ⟨hc', hx.2⟩
  | reply e =>
      cases thread with
      | calling c k => simp [System.step] at h
      | running p =>
          cases p with
          | done a => simp [System.step] at h
          | call m k => simp [System.step] at h
          | ask q k => exact hx.elim

/-- Wherever such a fiber stands, it gets to its end by itself. -/
lemma replying_finishes {α : Type} {id : ℕ} {R : State → Question → Reply → Bool}
    {x : Config State Call Method Ret Question Reply α} (hx : Replying x.thread) :
    ∃ n t a, StepSystem.runFrom (system id R).step x (List.replicate n .own)
      = some ⟨t, .running (.done a)⟩ := by
  have hcall : ∀ (s : State) (c : Call) (k : Ret → Fiber α), isResponding c →
      (∀ r, ∃ a, k r = .done a) →
      ∃ n t a, StepSystem.runFrom (system id R).step ⟨s, .calling c k⟩ (List.replicate n .own)
        = some ⟨t, .running (.done a)⟩ := by
    intro s c k hc hk
    obtain ⟨n, t, r, hrun⟩ :=
      System.returns_of_rank (S := system id R) respondRank respond_progress s c k hc
    obtain ⟨a, ha⟩ := hk r
    exact ⟨n, t, a, ha ▸ hrun⟩
  obtain ⟨s, thread⟩ := x
  cases thread with
  | calling c k => exact hcall s c k hx.1 hx.2
  | running p =>
      cases p with
      | done a => exact ⟨0, s, a, rfl⟩
      | ask q k => exact hx.elim
      | call m k =>
          obtain ⟨n, t, a, hrun⟩ := hcall s m.start k hx.1 hx.2
          refine ⟨n + 1, t, a, ?_⟩
          rw [List.replicate_succ]
          exact hrun

/-! ## Every answer but the streamed ones -/

/-- What a finished answer leaves behind when the transport has words for it: the request is gone,
and exactly one terminal answer went out, unless the client left. -/
structure AnsweredOnce (id : ℕ) (s t : State) : Prop where
  gone : t.answers.lookup id = none
  wire : (∃ w : Wire, w.terminal = true ∧ t.wireOf id = s.wireOf id ++ [w])
    ∨ (t.wireOf id = s.wireOf id ∧ t.clientLeft id)

/-- What it leaves behind when the reactor refuses it: nothing went out, and the request is still
pending, unless the client left. -/
structure RefusedPending (id : ℕ) (s t : State) : Prop where
  pending : t.answers.lookup id = s.answers.lookup id ∨ t.clientLeft id
  wire : t.wireOf id = s.wireOf id

lemma saysResponse_terminal {resp : HttpResponse} {a : Option Answer} {w : Wire}
    (h : saysResponse resp a = some w) : w.terminal = true := by
  rcases a with _ | _ | _ | _ <;> simp only [saysResponse, Option.some.injEq, reduceCtorEq] at h
  · subst h
    rfl
  · split_ifs at h
    · simp only [Option.some.injEq] at h
      subst h
      rfl

/-- Wherever the answer has something to say, it is said once. -/
lemma answeredOnce_of_answered {id : ℕ} {s t : State} {resp : HttpResponse} {b : Bool}
    (h : Answered id s t (saysResponse resp (s.answers.lookup id)) b)
    (hsome : (saysResponse resp (s.answers.lookup id)).isSome) : AnsweredOnce id s t := by
  rcases h with ⟨-, w, hw, hsettles⟩ | ⟨-, hleaves, hnone⟩
  · exact ⟨hsettles.gone, Or.inl ⟨w, saysResponse_terminal hw, hsettles.wire⟩⟩
  · refine ⟨hnone hsome, Or.inr ⟨hleaves.wire, ?_⟩⟩
    rcases hleaves.answer with heq | hgone
    · have hgone := hnone hsome
      rw [← heq, hgone] at hsome
      simp [saysResponse] at hsome
    · exact hgone.2

/-- **An answered handler is an answered client.**  Whatever the handler came to, short of `null`
and of a streamed response, and whatever everybody else does meanwhile: the fiber never blocks, and
when it is done, an HTTP request has got exactly one terminal answer, and so has a gRPC call that
was answered with a failure status, as every exception and every value that is no response is,
unless its client left.  A success on a gRPC call is refused: that door is `ignis_grpc_send` and
`ignis_grpc_end`. -/
theorem answer_settles (frameBytes id : ℕ) (s : State) (enter : Except Thrown Unit)
    (handler : Option (Except Thrown HandlerResult)) (r : Response) (ho : Owned id s)
    (hr : (runHandler enter handler).reply = some r)
    (as : List (Caller.Action Reply Reactor.Action))
    (x : Config State Call Method Ret Question Reply (Except Thrown Unit))
    (hrun : StepSystem.runFrom (system id (replies id)).step
      ⟨s, .running (answer frameBytes id (runHandler enter handler))⟩ as = some x) :
    (∃ n t a, StepSystem.runFrom (system id (replies id)).step x (List.replicate n .own)
        = some ⟨t, .running (.done a)⟩)
      ∧ ∀ t a, x = ⟨t, .running (.done a)⟩ →
        (s.answers.lookup id = some .whole → AnsweredOnce id s t)
        ∧ (s.answers.lookup id = some .grpc → 400 ≤ clampStatus r.status → AnsweredOnce id s t)
        ∧ (s.answers.lookup id = some .grpc → clampStatus r.status < 400 →
          RefusedPending id s t)
        ∧ ((∀ response, enter = .ok () → handler ≠ some (.ok (.response response))) →
          400 ≤ clampStatus r.status) := by
  rw [answer_eq hr] at hrun
  constructor
  · refine replying_finishes ?_
    refine StepSystem.invariant_of_run (system id (replies id)).step
      (I := fun y => Replying y.thread) (fun _ _ _ => replying_step) ?_ hrun
    refine ⟨Or.inl (by simp [Method.start, respondRank]), fun ret => ?_⟩
    cases ret <;> exact ⟨_, rfl⟩
  · rintro t a rfl
    set resp : HttpResponse := ⟨clampStatus r.status, headerPairs r.headers, r.body⟩
    have hend : ∃ b, Answered id s t (saysResponse resp (s.answers.lookup id)) b := by
      refine System.wp_sound (Q := fun _ u =>
        ∃ b, Answered id s u (saysResponse resp (s.answers.lookup id)) b) ?_ hrun
      refine System.wp_bind (wp_respondTo ho fun u b hou hb => ?_)
      exact wp_doneOwned hou fun v _ hv => ⟨b, hb.leaves hv⟩
    obtain ⟨b, hb⟩ := hend
    refine ⟨fun hs => ?_, fun hs h4 => ?_, fun hs h4 => ?_, fun h =>
      failure_of_no_response h hr⟩
    · exact answeredOnce_of_answered hb (by simp [hs, saysResponse])
    · exact answeredOnce_of_answered hb (by simp [hs, saysResponse, resp, h4])
    · have hno : saysResponse resp (s.answers.lookup id) = none := by
        simp [hs, saysResponse, resp, h4]
      rcases hb with ⟨-, w, hw, -⟩ | ⟨-, hleaves, -⟩
      · rw [hno] at hw
        cases hw
      · refine ⟨?_, hleaves.wire⟩
        rcases hleaves.answer with heq | hgone
        · exact Or.inl heq
        · exact Or.inr hgone.2

/-- The calls that deliver one gRPC request. -/
def deliverGrpc : List Reactor.Action :=
  [.call (.deliverStreamRequest ⟨bytes "POST", bytes "/pkg.Svc/M", [], []⟩), .advance 0,
    .advance 0, .advance 0, .advance 0]

/-- A handler that throws on a gRPC call: the call is ended with INTERNAL. -/
theorem answer_settles_grpc_throw :
    ∃ s x, StepSystem.runFrom Reactor.step (Reactor.init 0) deliverGrpc = some s
      ∧ StepSystem.runFrom (system 1 (replies 1)).step
          ⟨s, .running (answer 8192 1 (runHandler (.ok ())
            (some (.error (.other (bytes "E") (bytes "m"))))))⟩ (List.replicate 5 .own) = some x
      ∧ ∃ t a, x = ⟨t, .running (.done a)⟩ ∧ AnsweredOnce 1 s t := by
  refine ⟨_, _, rfl, rfl, _, _, rfl, ?_⟩
  exact ((answer_settles 8192 1 _ (.ok ()) (some (.error (.other (bytes "E") (bytes "m")))) _
    ⟨by decide, by decide⟩ rfl (List.replicate 5 .own) _ rfl).2 _ _ rfl).2.1 rfl (by decide)

/-- A handler that returns a 200 on a gRPC call: the answer is refused and the call stays
pending. -/
theorem success_on_grpc_refused :
    ∃ s t a, StepSystem.runFrom Reactor.step (Reactor.init 0) deliverGrpc = some s
      ∧ StepSystem.runFrom (system 1 (replies 1)).step
          ⟨s, .running (answer 8192 1 (runHandler (.ok ())
            (some (.ok (.response (.text (bytes "ok") 200))))))⟩ (List.replicate 4 .own)
          = some ⟨t, .running (.done a)⟩
      ∧ t.answers.lookup 1 = some .grpc ∧ t.wireOf 1 = [] ∧ ¬ t.clientLeft 1 := by
  refine ⟨_, _, _, rfl, rfl, rfl, rfl, ?_⟩
  rintro (h | h | h | h) <;> revert h <;> decide

end Ignis.Answering
