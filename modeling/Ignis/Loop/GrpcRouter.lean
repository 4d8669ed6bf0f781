import Ignis.Loop.Answering

/-!
# The two gRPC classifiers

Whether a request is a gRPC call is decided twice.  `is_grpc` looks at the method and at the first
`content-type` and decides how the request is delivered; `Ignis\Grpc\router` looks at the PHP header
map, which has no method and keeps the last `content-type`, and decides how the request is answered:
over the gRPC channel, with `null` for the loop.  Where the two disagree the loop sends nothing and
the gRPC channel does not exist, or a gRPC call gets an HTTP answer.

`classifiers_agree_iff` says for which requests they agree, and that for those a `null` of the
router means a call that `ignis_grpc_end` has ended.
-/

namespace Ignis.Answering

open Caller Reactor

/-! ## `Ignis\Grpc\Call` -/

/-- What a method handler may throw, as the router tells it apart; both exceptions the loop throws
into a fiber are `CancelledException`s. -/
inductive GrpcThrown where
  | status (code : ℤ) (message : PhpString)
  | cancelled (message : PhpString)
  | other (cls message : PhpString)
  deriving DecidableEq, Repr

/-- `Call::$ended` and `Call::$sent`. -/
structure GrpcCall where
  ended : Bool
  sent : ℕ
  deriving DecidableEq, Repr

/-- `Call::send`. -/
def GrpcCall.send (id : ℕ) (call : GrpcCall) (message : PhpString) :
    Fiber (GrpcCall × Option GrpcThrown) :=
  if call.ended then
    .done (call, some (.other (bytes "LogicException") (bytes "gRPC call already ended")))
  else .call (.streamSend id message) fun
    | .bool true => .done ({ call with sent := call.sent + 1 }, none)
    | _ => .done ({ call with ended := true }, some (.cancelled (bytes "gRPC client went away")))

/-- `code as i32`. -/
def asI32 (code : ℤ) : ℤ := code.bmod (2 ^ 32)

/-- `Call::end`.  What `ignis_grpc_end` returns is not looked at. -/
def GrpcCall.end (id : ℕ) (call : GrpcCall) (status : ℤ) (message : PhpString) :
    Fiber GrpcCall :=
  if call.ended then .done call
  else .call (.streamEnd id (asI32 status) (fromUtf8Lossy message)) fun _ =>
    .done { call with ended := true }

/-- A method handler, as a tree of what it does with its call; it may catch what `send` throws. -/
inductive GrpcHandler where
  | send (message : PhpString) (k : Option GrpcThrown → GrpcHandler)
  | finish (status : ℤ) (message : PhpString) (k : GrpcHandler)
  | await (k : Reply → GrpcHandler)
  | returns (reply : Option PhpString)
  | throws (e : GrpcThrown)

def GrpcHandler.run (id : ℕ) : GrpcHandler → GrpcCall →
    Fiber (GrpcCall × Except GrpcThrown (Option PhpString))
  | .send message k, call => do
      let (call, thrown) ← call.send id message
      (k thrown).run id call
  | .finish status message k, call => do k.run id (← call.end id status message)
  | .await k, call => .ask (.awaitOp false) fun reply => (k reply).run id call
  | .returns reply, call => .done (call, .ok reply)
  | .throws e, call => .done (call, .error e)

/-! ## `Ignis\Grpc\router` -/

/-- `Request::path`. -/
def path (uri : PhpString) : PhpString := uri.takeWhile fun c => c ≠ 63

/-- The test at the head of the router's handler. -/
def treatsAsGrpc (raw : IgnisRequest) : Bool :=
  applicationGrpc.isPrefixOf ((raw.headers.get? contentType).getD [])

/-- The `catch` clauses of the router, as the status they end the call with. -/
def GrpcThrown.toStatus : GrpcThrown → ℤ × PhpString
  | .status code message => (code, message)
  | .cancelled _ => (1, bytes "cancelled")
  | .other cls message => (13, cls ++ bytes ": " ++ message)

/-- The `try` of the router: a returned string is the single reply. -/
def serveCall (id : ℕ) (handler : GrpcHandler) : Fiber GrpcCall := do
  let (call, result) ← handler.run id ⟨false, 0⟩
  match result with
  | .error e => call.end id e.toStatus.1 e.toStatus.2
  | .ok none => call.end id 0 []
  | .ok (some reply) =>
      let (call, thrown) ← call.send id reply
      match thrown with
      | none => call.end id 0 []
      | some e => call.end id e.toStatus.1 e.toStatus.2

/-- `Ignis\Grpc\router`: `none` is the `null` that leaves the answer to the gRPC channel. -/
def router (id : ℕ) (methods : PhpString → Option GrpcHandler)
    (fallback : Option (IgnisRequest → Response)) (raw : IgnisRequest) : Fiber (Option Response) :=
  if treatsAsGrpc raw = false then
    return some (match fallback with
      | some f => f raw
      | none => .text (bytes "404 not a gRPC request\n") 404)
  else
    match methods (path raw.uri) with
    | none => do
        let _ ← GrpcCall.end id ⟨false, 0⟩ 12 (bytes "unknown method " ++ path raw.uri)
        return none
    | some handler => do
        let _ ← serveCall id handler
        return none

/-! ## A call that is served -/

/-- `ignis_grpc_end` has ended the call. -/
def grpcEnded (t : State) (id : ℕ) : Prop :=
  ∃ code message, .status code message ∈ t.wireOf id

/-- The router's call and the reactor's agree: a call that is not ended is open, one that is ended
has got its status; or the client has left. -/
structure Serving (id : ℕ) (call : GrpcCall) (t : State) : Prop where
  owned : Owned id t
  isOpen : call.ended = false → t.answers.lookup id = some .grpc ∨ t.clientLeft id
  ended : call.ended = true → grpcEnded t id ∨ t.clientLeft id

section Serving

variable {id : ℕ} {R : State → Question → Reply → Bool} {call : GrpcCall} {s t : State}

lemma Serving.leaves (h : Serving id call s) (ho : Owned id t) (ht : Leaves id s t) :
    Serving id call t where
  owned := ho
  isOpen := fun hc => by
    rcases h.isOpen hc with hs | hs
    · rcases ht.answer with heq | hgone
      · exact Or.inl (heq.trans hs)
      · exact Or.inr hgone.2
    · exact Or.inr (ht.left hs)
  ended := fun hc => by
    rcases h.ended hc with ⟨code, message, hs⟩ | hs
    · exact Or.inl ⟨code, message, ht.wire ▸ hs⟩
    · exact Or.inr (ht.left hs)

lemma wp_callSend {message : PhpString} {Q : GrpcCall × Option GrpcThrown → State → Prop}
    (h : Serving id call s) (hQ : ∀ t call' thrown, Serving id call' t → Q (call', thrown) t) :
    (system id R).wp (call.send id message) Q s := by
  unfold GrpcCall.send
  split_ifs with hended
  · exact wp_doneOwned h.owned fun t hot ht => hQ t _ _ (h.leaves hot ht)
  · have hopen := h.isOpen (Bool.eq_false_iff.mpr hended)
    refine wp_streamSend h.owned fun t b hot hb => ?_
    have hleft : s.clientLeft id → t.clientLeft id := hb.left
    cases b with
    | true =>
        have hserving : Serving id { call with sent := call.sent + 1 } t := by
          refine ⟨hot, fun _ => ?_, fun hc => absurd hc hended⟩
          rcases hopen with hs | hs
          · rcases hb.answer with heq | hgone
            · exact Or.inl (heq.trans hs)
            · exact Or.inr hgone.2
          · exact Or.inr (hleft hs)
        exact wp_doneOwned hot fun u hou hu => hQ u _ _ (hserving.leaves hou hu)
    | false =>
        have hserving : Serving id { call with ended := true } t := by
          refine ⟨hot, fun hc => (by cases hc), fun _ => Or.inr ?_⟩
          rcases hopen with hs | hs
          · exact hb.lost rfl hs
          · exact hleft hs
        exact wp_doneOwned hot fun u hou hu => hQ u _ _ (hserving.leaves hou hu)

lemma wp_callEnd {status : ℤ} {message : PhpString} {Q : GrpcCall → State → Prop}
    (h : Serving id call s)
    (hQ : ∀ t call', Serving id call' t → call'.ended = true → Q call' t) :
    (system id R).wp (call.end id status message) Q s := by
  unfold GrpcCall.end
  split_ifs with hended
  · exact wp_doneOwned h.owned fun t hot ht => hQ t _ (h.leaves hot ht) hended
  · have hopen := h.isOpen (Bool.eq_false_iff.mpr hended)
    refine wp_streamEnd h.owned fun t b hot hb => ?_
    have hserving : Serving id { call with ended := true } t := by
      refine ⟨hot, fun hc => (by cases hc), fun _ => ?_⟩
      rcases hb with ⟨-, w, hw, hsettles⟩ | ⟨-, hl, hnone⟩
      · refine Or.inl ⟨asI32 status, fromUtf8Lossy message, ?_⟩
        have hgrpc := saysEnd_isSome (by rw [hw]; rfl)
        rw [hgrpc, saysEnd, Option.some.injEq] at hw
        simp [hsettles.wire, hw]
      · rcases hopen with hs | hs
        · have hgone := hnone (by simp [hs, saysEnd])
          rcases hl.answer with heq | hleft
          · rw [hgone, hs] at heq
            cases heq
          · exact Or.inr hleft.2
        · exact Or.inr (hl.left hs)
    exact wp_doneOwned hot fun u hou hu => hQ u _ (hserving.leaves hou hu) rfl

lemma wp_handler {Q : GrpcCall × Except GrpcThrown (Option PhpString) → State → Prop}
    (handler : GrpcHandler) (h : Serving id call s)
    (hQ : ∀ t call' result, Serving id call' t → Q (call', result) t) :
    (system id R).wp (handler.run id call) Q s := by
  induction handler generalizing call s with
  | send message k ih => exact System.wp_bind (wp_callSend h fun t _ thrown ht => ih thrown ht)
  | finish status message k ih => exact System.wp_bind (wp_callEnd h fun t _ ht _ => ih ht)
  | await k ih =>
      exact wp_askOwned h.owned fun t reply hot ht _ => ih reply (h.leaves hot ht)
  | returns reply => exact wp_doneOwned h.owned fun t hot ht => hQ t _ _ (h.leaves hot ht)
  | throws e => exact wp_doneOwned h.owned fun t hot ht => hQ t _ _ (h.leaves hot ht)

/-- **A served call is ended**, whatever the handler does. -/
lemma wp_serveCall {Q : GrpcCall → State → Prop} (handler : GrpcHandler)
    (h : Serving id ⟨false, 0⟩ s)
    (hQ : ∀ t call', Serving id call' t → call'.ended = true → Q call' t) :
    (system id R).wp (serveCall id handler) Q s := by
  refine System.wp_bind (wp_handler handler h fun t call' result ht => ?_)
  rcases result with e | _ | reply
  · exact wp_callEnd ht hQ
  · exact wp_callEnd ht hQ
  · refine System.wp_bind (wp_callSend ht fun u call'' thrown hu => ?_)
    cases thrown with
    | none => exact wp_callEnd hu hQ
    | some e => exact wp_callEnd hu hQ

/-- A `null` of the router for a gRPC call: the call is ended, or its client has left. -/
lemma wp_router {methods : PhpString → Option GrpcHandler}
    {fallback : Option (IgnisRequest → Response)} {raw : IgnisRequest} (ho : Owned id s)
    (hs : treatsAsGrpc raw = true → s.answers.lookup id = some .grpc) :
    (system id R).wp (router id methods fallback raw)
      (fun result t => result = none → grpcEnded t id ∨ t.clientLeft id) s := by
  unfold router
  split_ifs with htreats
  · exact wp_doneOwned ho fun t _ _ hnone => by cases hnone
  · have hserving : Serving id ⟨false, 0⟩ s :=
      ⟨ho, fun _ => Or.inl (hs (by simpa using htreats)), fun hc => by cases hc⟩
    have hend : ∀ (t : State) (call' : GrpcCall), Serving id call' t → call'.ended = true →
        (system id R).wp (pure none : Fiber (Option Response))
          (fun result t => result = none → grpcEnded t id ∨ t.clientLeft id) t :=
      fun t call' ht hended => wp_doneOwned ht.owned fun u hou hu _ =>
        (ht.leaves hou hu).ended hended
    split
    · exact System.wp_bind (wp_callEnd hserving hend)
    · exact System.wp_bind (wp_serveCall _ hserving hend)

end Serving

/-! ## When the classifiers agree -/

/-- A `content-type` that begins with `application/grpc`. -/
def startsGrpc (value : Option PhpString) : Bool :=
  value.any fun ct => applicationGrpc.isPrefixOf ct

/-- The requests the two classifiers read differently. -/
inductive Misread (r : Incoming) : Prop where
  /-- The last content type says gRPC, but the method is not `POST`. -/
  | notPost (hmethod : r.method ≠ bytes "POST")
      (hlast : startsGrpc (r.lastHeader contentType) = true)
  /-- The last content type says gRPC, and the first does not, or is not visible ASCII. -/
  | hidden (hfirst : startsGrpc ((r.header contentType).bind toStr) = false)
      (hlast : startsGrpc (r.lastHeader contentType) = true)
  /-- The first content type says gRPC, and the last one does not. -/
  | overwritten (hmethod : r.method = bytes "POST")
      (hfirst : startsGrpc ((r.header contentType).bind toStr) = true)
      (hlast : startsGrpc (r.lastHeader contentType) = false)

/-- The router decides by the last content type. -/
lemma treatsAsGrpc_eq {r : Incoming} {raw : IgnisRequest}
    (h : asIgnisRequest (requestToZval r.delivered) = .ok raw) :
    treatsAsGrpc raw = startsGrpc (r.lastHeader contentType) := by
  rw [treatsAsGrpc, get?_headers_of_asIgnisRequest h (by decide)]
  cases r.lastHeader contentType with
  | none => rfl
  | some ct =>
      exact isPrefixOf_utf8Lossy applicationGrpc (by decide) ct ct.length le_rfl

lemma isGrpc_eq (r : Incoming) :
    isGrpc r =
      (decide (r.method = bytes "POST") && startsGrpc ((r.header contentType).bind toStr)) :=
  rfl

/-- **The two classifiers.**  Take any request that gets through the validator.  Front door and
router agree on whether it is a gRPC call, and whenever the router returns `null` for it, in any run
at the end of which the client is still there, `ignis_grpc_end` has ended the call: all this exactly
when the request is not one of the three kinds of `Misread`. -/
theorem classifiers_agree_iff (r : Incoming) (raw : IgnisRequest)
    (hraw : asIgnisRequest (requestToZval r.delivered) = .ok raw) :
    ((isGrpc r = treatsAsGrpc raw)
      ∧ ∀ (id : ℕ) (s t : State) (methods : PhpString → Option GrpcHandler)
          (fallback : Option (IgnisRequest → Response))
          (as : List (Caller.Action Reply Reactor.Action)),
        Owned id s → s.answers.lookup id = some (if isGrpc r then .grpc else .whole) →
        StepSystem.runFrom (system id (replies id)).step
          ⟨s, .running (router id methods fallback raw)⟩ as = some ⟨t, .running (.done none)⟩ →
        ¬ t.clientLeft id → grpcEnded t id)
      ↔ ¬ Misread r := by
  have htreats := treatsAsGrpc_eq hraw
  constructor
  · rintro ⟨hagree, -⟩ hmisread
    rw [htreats, isGrpc_eq] at hagree
    cases hmisread with
    | notPost hmethod hlast => simp [hmethod, hlast] at hagree
    | hidden hfirst hlast => simp [hfirst, hlast] at hagree
    | overwritten hmethod hfirst hlast => simp [hmethod, hfirst, hlast] at hagree
  · intro hmisread
    have hagree : isGrpc r = treatsAsGrpc raw := by
      rw [htreats, isGrpc_eq]
      cases hlast : startsGrpc (r.lastHeader contentType) with
      | true =>
          have hmethod : r.method = bytes "POST" := by
            by_contra hne
            exact hmisread (.notPost hne hlast)
          have hfirst : startsGrpc ((r.header contentType).bind toStr) = true := by
            by_contra hne
            exact hmisread (.hidden (Bool.eq_false_iff.mpr hne) hlast)
          simp [hmethod, hfirst]
      | false =>
          by_contra hne
          simp only [Bool.not_eq_false, Bool.and_eq_true, decide_eq_true_eq] at hne
          exact hmisread (.overwritten hne.1 hne.2 hlast)
    refine ⟨hagree, fun id s t methods fallback as ho hs hrun hstays => ?_⟩
    have hgrpc : treatsAsGrpc raw = true → s.answers.lookup id = some .grpc := by
      intro h
      rw [hs, hagree, h]
      rfl
    have hend := System.wp_sound (Q := fun result u => result = none →
      grpcEnded u id ∨ u.clientLeft id) (wp_router ho hgrpc) hrun rfl
    exact hend.resolve_right hstays

/-- A request of one header, its content type. -/
def grpcRequest (method : String) : Incoming :=
  ⟨bytes method, bytes "/pkg.Svc/M", [(contentType, applicationGrpc)], []⟩

/-- The two classifiers agree on an ordinary gRPC call. -/
theorem classifiers_agree_post :
    ∃ raw, asIgnisRequest (requestToZval (grpcRequest "POST").delivered) = .ok raw
      ∧ isGrpc (grpcRequest "POST") = true ∧ treatsAsGrpc raw = true := by
  refine ⟨_, rfl, rfl, ?_⟩
  refine ((classifiers_agree_iff (grpcRequest "POST") _ rfl).mpr ?_).1.symm.trans rfl
  rintro (⟨hmethod, -⟩ | ⟨hfirst, -⟩ | ⟨-, -, hlast⟩)
  · exact hmethod rfl
  · revert hfirst
    decide
  · revert hlast
    decide

/-- A `GET` with the content type of gRPC is delivered as an HTTP request; the router answers it
over the gRPC channel, which refuses, and returns `null`.  The client waits. -/
theorem classifiers_disagree_get :
    ∃ raw s t, asIgnisRequest (requestToZval (grpcRequest "GET").delivered) = .ok raw
      ∧ isGrpc (grpcRequest "GET") = false ∧ treatsAsGrpc raw = true
      ∧ StepSystem.runFrom Reactor.step (Reactor.init 0)
          [.call (.deliverRequestWithId (grpcRequest "GET").delivered), .advance 0, .advance 0,
            .advance 0, .advance 0] = some s
      ∧ StepSystem.runFrom (system 1 (replies 1)).step
          ⟨s, .running (router 1 (fun _ => none) none raw)⟩ (List.replicate 3 .own)
            = some ⟨t, .running (.done none)⟩
      ∧ t.answers.lookup 1 = some .whole ∧ t.wireOf 1 = [] :=
  ⟨_, _, _, rfl, rfl, rfl, rfl, rfl, rfl, rfl⟩

end Ignis.Answering
