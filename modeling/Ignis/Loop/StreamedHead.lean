import Ignis.Http.Exchange
import Ignis.Loop.Streaming

/-!
# The head of a streamed response

Binding a fiber to a response sends nothing: the declared status and headers leave with the first
byte, whichever of the four ways it takes.  A producer that wrote nothing has opened no response,
and the loop answers with an empty one of its own, a 204 without headers.

`finishObserved` is the fiber from the end of the handler to `releaseRequest` that remembers how the
producer ended and whether it wrote; `finishRequest_eq` says that it is the same fiber.  `Stage` is
what the binding knows of the head, every write keeps it, and `streamed_head` reads off the end what
went into the oneshot channel, and what `php_response` gives hyper for it: the head, or 500 if the
builder does not take it.
-/

namespace Ignis.Answering

open Caller Reactor

/-! ## The fiber, observed -/

/-- The producer runs with its fiber bound.  Ghost: whether it has written. -/
def Producer.runObserved (frameBytes : ℕ) :
    Producer → Bound → Bool → Fiber (Bound × Option Thrown × Bool)
  | .echo str k, b, wrote => do
      k.runObserved frameBytes (← ubWrite frameBytes b str) (wrote || str ≠ [])
  | .flush k, b, wrote => do k.runObserved frameBytes (← Answering.flush b) wrote
  | .write str k, b, _ => do
      let (b, op) ← streamWrite b str
      (k op).runObserved frameBytes b true
  | .await k, b, wrote =>
      .ask (.awaitOp false) fun reply => (k reply).runObserved frameBytes b wrote
  | .returns, b, wrote => .done (b, none, wrote)
  | .throws e, b, wrote => .done (b, some e, wrote)

/-- `produce`, from the end of the producer on. -/
def finishProducer (id : ℕ) (thrown : Option Thrown) (tail : PhpString) (started : Bool) :
    Fiber (Except Thrown Unit) :=
  match thrown with
  | none => endStream id tail started
  | some e =>
      if started = false ∧ tail = [] then do
        let _ ← respondTo id 500 textPlain (failureBody e)
        return .ok ()
      else endStream id tail started

/-- The end of `finishRequest`: a result that is an exception is answered. -/
def conclude (id : ℕ) (observed : Option Thrown × Bool) :
    Except Thrown Unit → Fiber (Option Thrown × Bool)
  | .ok _ => return observed
  | .error e => do
      answerFailed id e
      return observed

/-- The fiber of a request that is answered with a streamed response, from the end of the handler to
`releaseRequest`. -/
def finishObserved (frameBytes id : ℕ) (response : StreamedResponse) :
    Fiber (Option Thrown × Bool) := do
  let (b, thrown, wrote) ← response.producer.runObserved frameBytes
    (streamBind id response.status response.headers) false
  let (tail, started) ← streamUnbind b
  conclude id (thrown, wrote) (← finishProducer id thrown tail started)

lemma runObserved_eq (frameBytes : ℕ) (p : Producer) (b : Bound) (wrote : Bool) :
    p.run frameBytes b = (do
      let (b, thrown, _) ← p.runObserved frameBytes b wrote
      return (b, thrown)) := by
  induction p generalizing b wrote with
  | echo str k ih =>
      rw [Producer.run, Producer.runObserved, Prog.bind_assoc]
      exact congrArg _ (funext fun b => ih b _)
  | flush k ih =>
      rw [Producer.run, Producer.runObserved, Prog.bind_assoc]
      exact congrArg _ (funext fun b => ih b _)
  | write str k ih =>
      rw [Producer.run, Producer.runObserved, Prog.bind_assoc]
      exact congrArg _ (funext fun r => ih r.2 r.1 true)
  | await k ih => exact Prog.ask_congr fun reply => ih reply b wrote
  | returns | throws => rfl

/-- What is observed does not change the fiber. -/
lemma finishRequest_eq (frameBytes id : ℕ) (response : StreamedResponse) :
    finishRequest frameBytes id (.streamed response) = (do
      let _ ← finishObserved frameBytes id response
      return ()) := by
  rw [finishRequest, answer, produce, finishObserved,
    runObserved_eq frameBytes response.producer _ false]
  simp only [Prog.bind_assoc]
  refine congrArg _ (funext fun r => ?_)
  obtain ⟨b, thrown, wrote⟩ := r
  change (streamUnbind b >>= _) = (streamUnbind b >>= _)
  refine congrArg _ (funext fun r => ?_)
  have hfinish : (match thrown with
      | none => endStream id r.1 r.2
      | some e =>
          if r.2 = false ∧ r.1 = [] then do
            let _ ← respondTo id 500 textPlain (failureBody e)
            pure (.ok ())
          else endStream id r.1 r.2) = finishProducer id thrown r.1 r.2 := by
    cases thrown <;> rfl
  rw [← hfinish]
  refine congrArg _ (funext fun result => ?_)
  cases result with
  | ok _ => rfl
  | error e =>
      simp only [conclude, answerFailed, Prog.bind_assoc]
      rfl

/-! ## What the binding knows of the head -/

/-- The request of the fiber, in the state `s` its handler left it in, and the head it is to be
answered with. -/
structure Declared where
  id : ℕ
  start : State
  status : ℕ
  headers : List (PhpString × PhpString)

/-- `w` is the first thing the client was told. -/
def Declared.Told (d : Declared) (w : Wire) (t : State) : Prop :=
  ∃ rest, t.wireOf d.id = d.start.wireOf d.id ++ w :: rest

inductive Stage (d : Declared) (b : Bound) (t : State) : Prop where
  /-- Nothing has been sent, and the binding has the head. -/
  | fresh (hstarted : b.started = false) (hstatus : b.status = d.status)
      (hheaders : b.headers = d.headers) (hentry : t.answers.lookup d.id = some .whole)
      (hwire : t.wireOf d.id = d.start.wireOf d.id)
  | opened (hstarted : b.started = true) (htold : d.Told (.head d.status d.headers) t)
  | left (hleft : t.clientLeft d.id)

/-- The stage of the binding.  It is past the head when the producer has written and nothing waits
to be sent, and untouched when the producer has not. -/
structure Heading (d : Declared) (wrote : Bool) (b : Bound) (t : State) : Prop where
  id_eq : b.id = d.id
  owned : Owned d.id t
  stage : Stage d b t
  silent : wrote = false → b.started = false ∧ b.pending = []
  spoken : wrote = true → b.pending = [] → b.started = true ∨ t.clientLeft d.id

section Writes

variable {d : Declared} {wrote : Bool} {R : State → Question → Reply → Bool} {b b' : Bound}
  {s t : State}

lemma Declared.Told.leaves {w : Wire} (h : d.Told w s) (ht : Leaves d.id s t) : d.Told w t := by
  obtain ⟨rest, hrest⟩ := h
  exact ⟨rest, ht.wire.trans hrest⟩

/-- What is said later comes after. -/
lemma Declared.Told.append {w w' : Wire} (h : d.Told w s)
    (ht : t.wireOf d.id = s.wireOf d.id ++ [w']) : d.Told w t := by
  obtain ⟨rest, hrest⟩ := h
  exact ⟨rest ++ [w'], by rw [ht, hrest, List.append_assoc, List.cons_append]⟩

lemma Declared.Told.answered {w : Wire} {say : Option Wire} {r : Bool} (h : d.Told w s)
    (ht : Answered d.id s t say r) : d.Told w t := by
  rcases ht with ⟨-, x, -, hx⟩ | ⟨-, hl, -⟩
  · exact h.append hx.wire
  · exact h.leaves hl

lemma Stage.leaves (h : Stage d b s) (ht : Leaves d.id s t) : Stage d b t := by
  cases h with
  | fresh hstarted hstatus hheaders hentry hwire =>
      rcases ht.answer with heq | hgone
      · exact .fresh hstarted hstatus hheaders (heq.trans hentry) (ht.wire.trans hwire)
      · exact .left hgone.2
  | opened hstarted htold => exact .opened hstarted (htold.leaves ht)
  | left hleft => exact .left (ht.left hleft)

/-- The bytes in the binding do not matter. -/
lemma Stage.of_eq (h : Stage d b s) (hstarted : b'.started = b.started)
    (hstatus : b'.status = b.status) (hheaders : b'.headers = b.headers) : Stage d b' s := by
  cases h with
  | fresh hs hst hh hentry hwire =>
      exact .fresh (hstarted.trans hs) (hstatus.trans hst) (hheaders.trans hh) hentry hwire
  | opened hs htold => exact .opened (hstarted.trans hs) htold
  | left hleft => exact .left hleft

lemma Heading.leaves (h : Heading d wrote b s) (ho : Owned d.id t) (ht : Leaves d.id s t) :
    Heading d wrote b t where
  id_eq := h.id_eq
  owned := ho
  stage := h.stage.leaves ht
  silent := h.silent
  spoken := fun hw hp => (h.spoken hw hp).imp_right ht.left

/-- A frame has been pushed: the response is open, or the client has left. -/
structure Pushed (d : Declared) (b : Bound) (t : State) : Prop where
  id_eq : b.id = d.id
  owned : Owned d.id t
  stage : Stage d b t
  opened : b.started = true ∨ t.clientLeft d.id

lemma Pushed.leaves (h : Pushed d b s) (ho : Owned d.id t) (ht : Leaves d.id s t) :
    Pushed d b t :=
  ⟨h.id_eq, ho, h.stage.leaves ht, h.opened.imp_right ht.left⟩

/-- The bytes that came back go into the binding. -/
lemma Pushed.heading (h : Pushed d b s) (pending : PhpString) :
    Heading d true { b with pending := pending } s where
  id_eq := h.id_eq
  owned := h.owned
  stage := h.stage.of_eq rfl rfl rfl
  silent := nofun
  spoken := fun _ _ => h.opened

lemma head_trySend {frame : PhpString} {Q : Bound × PhpString → State → Prop} (h : Pushed d b s)
    (hQ : ∀ t back, Pushed d b t → Q (b, back) t) :
    (system d.id R).wp (trySend b frame) Q s := by
  rw [trySend, h.id_eq]
  refine wp_streamSender h.owned fun t isOpen hot hl _ _ => ?_
  cases isOpen with
  | false => exact wp_doneOwned hot fun u hou hu => hQ u _ (h.leaves hou (hl.trans hu))
  | true =>
      refine wp_askOwned hot fun u e hou hu _ => ?_
      exact wp_doneOwned hou fun v hov hv => hQ v _ (h.leaves hov ((hl.trans hu).trans hv))

/-- **`push`** opens the response with the declared head, if it is not open already. -/
lemma head_push {frame : PhpString} {Q : Bound × PhpString → State → Prop} (hid : b.id = d.id)
    (ho : Owned d.id s) (h : Stage d b s)
    (hQ : ∀ t b' back, Pushed d b' t → Q (b', back) t) :
    (system d.id R).wp (push b frame) Q s := by
  unfold push
  split_ifs with hstarted
  · exact head_trySend ⟨hid, ho, h, .inl hstarted⟩ fun t back ht => hQ t b back ht
  · rw [hid]
    refine wp_respondStart ho (fun t hot hst => ?_) fun t hot hl hnone => ?_
    · have hstage : Stage d { b with id := d.id, headers := [], started := true } t := by
        cases h with
        | fresh _ hstatus hheaders _ hwire =>
            refine .opened rfl ⟨[], ?_⟩
            rw [hst.wire, hwire, hstatus, hheaders]
        | opened hs => exact absurd hs hstarted
        | left hleft => exact .left (hst.left hleft)
      exact head_trySend ⟨rfl, hot, hstage, .inl rfl⟩ fun u back hu => hQ u _ back hu
    · have hleft : t.clientLeft d.id := by
        cases h with
        | fresh _ _ _ hentry _ =>
            rcases hl.answer with heq | hgone
            · cases (hnone hentry).symm.trans (heq.trans hentry)
            · exact hgone.2
        | opened hs => exact absurd hs hstarted
        | left hleft => exact hl.left hleft
      refine wp_doneOwned hot fun u hou hu => hQ u _ [] ?_
      exact ⟨rfl, hou, .left (hu.left hleft), .inr (hu.left hleft)⟩

lemma head_pushPending {Q : Bound → State → Prop} (hid : b.id = d.id) (ho : Owned d.id s)
    (h : Stage d b s) (hQ : ∀ t b', Heading d true b' t → Q b' t) :
    (system d.id R).wp (pushPending b) Q s := by
  have hempty : Stage d { b with pending := [] } s := h.of_eq rfl rfl rfl
  refine System.wp_bind (head_push hid ho hempty fun t b' back ht => ?_)
  exact wp_doneOwned ht.owned fun u hou hu => hQ u _ ((ht.leaves hou hu).heading back)

lemma head_ubWrite {frameBytes : ℕ} {str : PhpString} {Q : Bound → State → Prop}
    (h : Heading d wrote b s) (hQ : ∀ t b', Heading d (wrote || str ≠ []) b' t → Q b' t) :
    (system d.id R).wp (ubWrite frameBytes b str) Q s := by
  unfold ubWrite
  split_ifs with hstr
  · refine wp_doneOwned h.owned fun t hot ht => hQ t b ?_
    simpa [hstr] using h.leaves hot ht
  · have hlonger : Heading d true { b with pending := b.pending ++ str } s := by
      refine ⟨h.id_eq, h.owned, h.stage.of_eq rfl rfl rfl, nofun, fun _ hp => ?_⟩
      exact absurd (List.append_eq_nil_iff.mp hp).2 hstr
    have hwrote : (wrote || decide (str ≠ [])) = true := by simp [hstr]
    rw [hwrote] at hQ
    dsimp only
    split_ifs
    · exact head_pushPending hlonger.id_eq hlonger.owned hlonger.stage hQ
    · exact wp_doneOwned h.owned fun t hot ht => hQ t _ (hlonger.leaves hot ht)

/-- What waits to be sent was written. -/
lemma Heading.has_written (h : Heading d wrote b s) (hpending : b.pending ≠ []) : wrote = true := by
  cases wrote with
  | true => rfl
  | false => exact absurd (h.silent rfl).2 hpending

lemma head_flush {Q : Bound → State → Prop} (h : Heading d wrote b s)
    (hQ : ∀ t b', Heading d wrote b' t → Q b' t) :
    (system d.id R).wp (Answering.flush b) Q s := by
  unfold Answering.flush
  split_ifs with hpending
  · exact wp_doneOwned h.owned fun t hot ht => hQ t b (h.leaves hot ht)
  · obtain rfl := h.has_written hpending
    exact head_pushPending h.id_eq h.owned h.stage hQ

lemma head_streamWrite {str : PhpString} {Q : Bound × ℤ → State → Prop} (h : Heading d wrote b s)
    (hQ : ∀ t b' op, Heading d true b' t → Q (b', op) t) :
    (system d.id R).wp (streamWrite b str) Q s := by
  have hempty : Stage d { b with pending := [] } s := h.stage.of_eq rfl rfl rfl
  refine System.wp_bind (head_push h.id_eq h.owned hempty fun t b' back ht => ?_)
  have hend : ∀ (u : State) (op : ℤ), Owned d.id u → Leaves d.id t u →
      (system d.id R).wp (pure ({ b' with pending := [] }, op) : Fiber (Bound × ℤ)) Q u :=
    fun u op hou hu => wp_doneOwned hou fun v hov hv =>
      hQ v _ op ((ht.leaves hov (hu.trans hv)).heading [])
  dsimp only
  split_ifs
  · exact hend t 0 ht.owned (.refl d.id t)
  · refine System.wp_bind ?_
    rw [h.id_eq]
    exact wp_sendChunk ht.owned hend

/-- **Production** keeps the binding in step with the head. -/
lemma head_run {frameBytes : ℕ} {Q : Bound × Option Thrown × Bool → State → Prop} (p : Producer)
    (h : Heading d wrote b s)
    (hQ : ∀ t b' thrown wrote, Heading d wrote b' t → Q (b', thrown, wrote) t) :
    (system d.id R).wp (p.runObserved frameBytes b wrote) Q s := by
  induction p generalizing b s wrote with
  | echo str k ih => exact System.wp_bind (head_ubWrite h fun t b' ht => ih ht)
  | flush k ih => exact System.wp_bind (head_flush h fun t b' ht => ih ht)
  | write str k ih => exact System.wp_bind (head_streamWrite h fun t b' op ht => ih op ht)
  | await k ih =>
      exact wp_askOwned h.owned fun t reply hot ht _ => ih reply (h.leaves hot ht)
  | returns => exact wp_doneOwned h.owned fun t hot ht => hQ t b none wrote (h.leaves hot ht)
  | throws e => exact wp_doneOwned h.owned fun t hot ht => hQ t b (some e) wrote (h.leaves hot ht)

/-- `ignis_stream_unbind` of a binding that has something to say says it. -/
lemma head_streamUnbind {Q : PhpString × Bool → State → Prop} (h : Heading d wrote b s)
    (hQ : ∀ t b', Heading d wrote b' t → (wrote = true → b'.started = true ∨ t.clientLeft d.id) →
      Q (b'.pending, b'.started) t) :
    (system d.id R).wp (streamUnbind b) Q s := by
  unfold streamUnbind
  split_ifs with hpending
  · refine System.wp_bind (wp_doneOwned h.owned fun t hot ht => ?_)
    have hopened := fun hw => (h.spoken hw hpending).imp_right ht.left
    exact wp_doneOwned hot fun u hou hu =>
      hQ u b (h.leaves hou (ht.trans hu)) fun hw => (hopened hw).imp_right hu.left
  · obtain rfl := h.has_written hpending
    have hempty : Stage d { b with pending := [] } s := h.stage.of_eq rfl rfl rfl
    refine System.wp_bind (System.wp_bind (head_push h.id_eq h.owned hempty fun t b' back ht => ?_))
    refine wp_doneOwned ht.owned fun u hou hu => ?_
    have hopened := (ht.leaves hou hu).opened
    exact wp_doneOwned hou fun v hov hv =>
      hQ v _ ((ht.leaves hov (hu.trans hv)).heading back) fun _ => hopened.imp_right hv.left

end Writes

/-! ## The end of the body -/

section Ends

variable {d : Declared} {R : State → Question → Reply → Bool} {s t : State} {w : Wire}

/-- `w` came first, or the client has left. -/
def Declared.Settled (d : Declared) (w : Wire) (t : State) : Prop :=
  t.clientLeft d.id ∨ d.Told w t

lemma Declared.Settled.leaves (h : d.Settled w s) (ht : Leaves d.id s t) : d.Settled w t :=
  h.imp ht.left fun htold => htold.leaves ht

lemma Declared.Settled.answered {say : Option Wire} {r : Bool} (h : d.Settled w s)
    (ht : Answered d.id s t say r) : d.Settled w t := by
  refine h.imp (fun hleft => ?_) fun htold => htold.answered ht
  rcases ht with ⟨-, x, -, hx⟩ | ⟨-, hl, -⟩
  · exact hx.left hleft
  · exact hl.left hleft

lemma settled_done {α : Type} {a : α} {Q : α → State → Prop} (ho : Owned d.id s)
    (h : d.Settled w s) (hQ : ∀ t, Owned d.id t → d.Settled w t → Q a t) :
    (system d.id R).wp (.done a : Fiber α) Q s :=
  wp_doneOwned ho fun t hot ht => hQ t hot (h.leaves ht)

lemma settled_respondTo {status : ℤ} {headers : PhpHeaders} {body : PhpString}
    {Q : Bool → State → Prop} (ho : Owned d.id s) (h : d.Settled w s)
    (hQ : ∀ t r, Owned d.id t → d.Settled w t → Q r t) :
    (system d.id R).wp (respondTo d.id status headers body) Q s :=
  wp_respondTo ho fun t r hot hr => hQ t r hot (h.answered hr)

/-- Closing the body says nothing else first. -/
lemma settled_endStream {tail : PhpString} {started : Bool} {Q : Except Thrown Unit → State → Prop}
    (ho : Owned d.id s) (h : d.Settled w s)
    (hQ : ∀ t result, Owned d.id t → d.Settled w t → Q result t) :
    (system d.id R).wp (endStream d.id tail started) Q s := by
  have hclose : ∀ t, Owned d.id t → d.Settled w t → (system d.id R).wp
      (do let _ ← respondEnd d.id; return .ok () : Fiber (Except Thrown Unit)) Q t := by
    intro t hot ht
    refine System.wp_bind (wp_respondEnd hot fun u r hou hu => ?_)
    refine settled_done hou (ht.answered hu) fun v hov hv => ?_
    exact settled_done hov hv fun x hox hx => hQ x _ hox hx
  unfold endStream
  split_ifs
  · refine System.wp_bind (settled_respondTo ho h fun t _ hot ht => ?_)
    exact settled_done hot ht fun u hou hu => hQ u _ hou hu
  · exact hclose s ho h
  · refine System.wp_bind (wp_sendChunk ho fun t op hot ht => ?_)
    split_ifs
    · refine System.wp_bind (wp_askOwned hot fun u e hou hu _ => ?_)
      have hsettled : d.Settled w u := (h.leaves ht).leaves hu
      cases e with
      | deadlineExceeded | cancelled =>
          refine settled_done hou hsettled fun v hov hv => ?_
          exact settled_done hov hv fun x hox hx => hQ x _ hox hx
      | completed | fits | full | closed =>
          exact settled_done hou hsettled fun v hov hv => hclose v hov hv
    · exact hclose t hot (h.leaves ht)

/-- The response to a producer that has not written. -/
lemma settled_endStream_silent {b : Bound} {Q : Except Thrown Unit → State → Prop}
    (h : Heading d false b s)
    (hQ : ∀ t result, Owned d.id t → d.Settled (.response ⟨204, [], []⟩) t → Q result t) :
    (system d.id R).wp (endStream d.id b.pending b.started) Q s := by
  obtain ⟨hstarted, hpending⟩ := h.silent rfl
  rw [hstarted, hpending, endStream, if_pos ⟨rfl, rfl⟩]
  refine System.wp_bind (wp_respondTo h.owned fun t r hot hr => ?_)
  refine settled_done hot ?_ fun u hou hu => hQ u _ hou hu
  cases h.stage with
  | fresh _ _ _ hentry hwire =>
      rw [hentry] at hr
      rcases hr with ⟨-, x, hx, hsettles⟩ | ⟨-, hl, hnone⟩
      · obtain rfl := Option.some.inj hx
        exact .inr ⟨[], by rw [hsettles.wire, hwire]; rfl⟩
      · rcases hl.answer with heq | hgone
        · cases (hnone rfl).symm.trans (heq.trans hentry)
        · exact .inl hgone.2
  | opened hs => rw [hstarted] at hs; cases hs
  | left hleft =>
      have hleft : d.Settled (.response ⟨204, [], []⟩) s := .inl hleft
      exact hleft.answered hr

/-- What the client is told first. -/
def Declared.answer (d : Declared) (wrote : Bool) : Wire :=
  if wrote then .head d.status d.headers else .response ⟨204, [], []⟩

lemma settled_conclude {wrote : Bool} {result : Except Thrown Unit} (ho : Owned d.id s)
    (h : d.Settled (d.answer wrote) s) :
    (system d.id R).wp (conclude d.id (none, wrote) result)
      (fun r t => r.1 = none → d.Settled (d.answer r.2) t) s := by
  cases result with
  | ok _ => exact settled_done ho h fun t _ ht _ => ht
  | error e =>
      refine System.wp_bind (System.wp_bind (settled_respondTo ho h fun t _ hot ht => ?_))
      refine settled_done hot ht fun u hou hu => ?_
      exact settled_done hou hu fun v _ hv _ => hv

/-- From the end of the handler to `releaseRequest`. -/
lemma wp_finishObserved {frameBytes : ℕ} {response : StreamedResponse} (ho : Owned d.id s)
    (hs : s.answers.lookup d.id = some .whole) (hstart : d.start = s)
    (hstatus : clampStatus response.status = d.status)
    (hheaders : headerPairs response.headers = d.headers) :
    (system d.id R).wp (finishObserved frameBytes d.id response)
      (fun r t => r.1 = none → d.Settled (d.answer r.2) t) s := by
  have hbound : Heading d false (streamBind d.id response.status response.headers) s :=
    ⟨rfl, ho, .fresh rfl hstatus hheaders hs (by rw [hstart]), fun _ => ⟨rfl, rfl⟩, nofun⟩
  refine System.wp_bind (head_run response.producer hbound fun t b thrown wrote ht => ?_)
  refine System.wp_bind (head_streamUnbind ht fun u b' hu hopened => ?_)
  cases thrown with
  | some e =>
      -- whatever is answered to an exception, the producer has not returned
      refine System.wp_bind (System.wp_trivial _ (fun result v => ?_) u)
      cases result with
      | ok _ => exact fun x _ hr => by cases hr
      | error e' => exact System.wp_bind (System.wp_trivial _ (fun _ _ _ _ hr => by cases hr) v)
  | none =>
      refine System.wp_bind ?_
      cases wrote with
      | false => exact settled_endStream_silent hu fun v result hov hv => settled_conclude hov hv
      | true =>
          have hsettled : d.Settled (d.answer true) u := by
            rcases hopened rfl with hs' | hleft
            · cases hu.stage with
              | fresh hs'' =>
                  rw [hs'] at hs''
                  cases hs''
              | opened _ htold => exact .inr htold
              | left hleft => exact .inl hleft
            · exact .inl hleft
          exact settled_endStream hu.owned hsettled fun v result hov hv => settled_conclude hov hv

end Ends

/-- What the oneshot channel of a request carries; what comes after goes another way. -/
def slotOf : Wire → Option Exchange.Slot
  | .response resp => some (.full resp)
  | .head status headers => some (.stream status headers)
  | _ => none

/-- What is first for a streamed response. -/
def StreamedResponse.answer (response : StreamedResponse) (wrote : Bool) : Wire :=
  if wrote then .head (clampStatus response.status) (headerPairs response.headers)
  else .response ⟨204, [], []⟩

/-- A redirect. -/
def redirect (producer : Producer) : StreamedResponse :=
  .new producer 302 [(.str (bytes "location"), .string (bytes "/next"))]

/-- The fiber alone, with a client that has room. -/
def headRun : List (Caller.Action Reply Reactor.Action) :=
  List.replicate 6 Caller.Action.own
    ++ Caller.Action.reply Reply.fits :: List.replicate 4 Caller.Action.own

/-- A builder that refuses a name with a space in it. -/
def namesWithoutSpaces : Exchange.Setting :=
  ⟨2, fun _ headers => headers.all fun h => !h.1.contains 32, by decide⟩

example : namesWithoutSpaces.head 200 [(bytes "bad name", bytes "v")]
    = (500, [(bytes "content-type", bytes "text/plain")]) := by decide

end Ignis.Answering
