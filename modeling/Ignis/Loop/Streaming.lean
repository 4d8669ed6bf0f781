import Ignis.Loop.Answering

/-!
# Streamed responses end

When the fiber of a request with a streamed response gets to `releaseRequest`, the reactor must not
have an entry for the request any more: the client's body would stay open and the drain would wait.
Production, the sending of the tail and the answer to a failure are three regions that can each be
left by an exception, and the last of them is refused once the headers are out.

`Binding` is what ties the fiber's binding to the entry of the map: the stream is open exactly when
the binding says so, unless the client left.  Every write keeps it (`wp_push` and what follows), and
`streamed_response_ends` follows the exits.  Two of them leave the entry behind.
-/

namespace Ignis.Answering

open Caller Reactor

/-! ## The binding and the map -/

/-- The binding of the fiber knows how far the response of `id` has got.  Only under `P` is the
request a gRPC call. -/
structure Binding (id : ℕ) (P : Prop) (b : Bound) (t : State) : Prop where
  id_eq : b.id = id
  owned : Owned id t
  started : b.started = true → t.answers.lookup id = some .streaming ∨ t.answers.lookup id = none
  fresh : b.started = false → t.answers.lookup id ≠ some .streaming
  grpc : t.answers.lookup id = some .grpc → P

section Writes

variable {id : ℕ} {P : Prop} {R : State → Question → Reply → Bool} {b b' : Bound} {s t : State}

lemma Binding.leaves (h : Binding id P b s) (ho : Owned id t) (ht : Leaves id s t) :
    Binding id P b t where
  id_eq := h.id_eq
  owned := ho
  started := fun hb => by
    rcases h.started hb with hs | hs
    · rcases ht.answer with heq | hgone
      · exact Or.inl (heq.trans hs)
      · exact Or.inr hgone.1
    · exact Or.inr (ht.gone hs)
  fresh := fun hb hstreaming => h.fresh hb (ht.kept hstreaming)
  grpc := fun hgrpc => h.grpc (ht.kept hgrpc)

/-- The bytes in the binding do not matter. -/
lemma Binding.of_eq (h : Binding id P b s) (hid : b'.id = b.id)
    (hstarted : b'.started = b.started) :
    Binding id P b' s :=
  ⟨hid.trans h.id_eq, h.owned, fun hb => h.started (hstarted ▸ hb),
    fun hb => h.fresh (hstarted ▸ hb), h.grpc⟩

lemma wp_trySend {frame : PhpString} {Q : Bound × PhpString → State → Prop} (h : Binding id P b s)
    (hQ : ∀ t back, Binding id P b t → Q (b, back) t) :
    (system id R).wp (trySend b frame) Q s := by
  obtain rfl := h.id_eq
  refine wp_streamSender h.owned fun t isOpen hot hl _ _ => ?_
  cases isOpen with
  | false => exact wp_doneOwned hot fun u hou hu => hQ u _ (h.leaves hou (hl.trans hu))
  | true =>
      refine wp_askOwned hot fun u e hou hu _ => ?_
      exact wp_doneOwned hou fun v hov hv => hQ v _ (h.leaves hov ((hl.trans hu).trans hv))

/-- **`push`.**  What comes back while the response is not open is nothing. -/
lemma wp_push {frame : PhpString} {Q : Bound × PhpString → State → Prop} (h : Binding id P b s)
    (hQ : ∀ t b' back, Binding id P b' t → (b'.started = false → back = []) → Q (b', back) t) :
    (system id R).wp (push b frame) Q s := by
  unfold push
  split_ifs with hstarted
  · refine wp_trySend h fun t back ht => hQ t b back ht fun hb => ?_
    rw [hstarted] at hb
    cases hb
  · obtain rfl := h.id_eq
    refine wp_respondStart h.owned (fun t hot hst => ?_) fun t hot hl _ => ?_
    · have hopen : Binding b.id P { b with headers := [], started := true } t := by
        refine ⟨rfl, hot, fun _ => ?_, fun hb => (by cases hb), fun hgrpc => ?_⟩
        · rcases hst.answer with hs | hs
          · exact Or.inl hs
          · exact Or.inr hs.1
        · rcases hst.answer with hs | hs
          · rw [hs] at hgrpc
            cases hgrpc
          · rw [hs.1] at hgrpc
            cases hgrpc
      exact wp_trySend hopen fun u back hu => hQ u _ back hu fun hb => by cases hb
    · have hclosed : Binding b.id P { b with headers := [] } t :=
        (h.leaves hot hl).of_eq rfl rfl
      exact wp_doneOwned hot fun u hou hu => hQ u _ [] (hclosed.leaves hou hu) fun _ => rfl

lemma wp_pushPending {Q : Bound → State → Prop} (h : Binding id P b s)
    (hQ : ∀ t b', Binding id P b' t → (b'.started = false → b'.pending = []) → Q b' t) :
    (system id R).wp (pushPending b) Q s := by
  have hempty : Binding id P { b with pending := [] } s := h.of_eq rfl rfl
  refine System.wp_bind (wp_push hempty fun t b' back ht hback => ?_)
  exact wp_doneOwned ht.owned fun u hou hu =>
    hQ u _ ((ht.leaves hou hu).of_eq rfl rfl) fun hb => hback hb

lemma wp_ubWrite {frameBytes : ℕ} {str : PhpString} {Q : Bound → State → Prop}
    (h : Binding id P b s) (hQ : ∀ t b', Binding id P b' t → Q b' t) :
    (system id R).wp (ubWrite frameBytes b str) Q s := by
  have hlonger : Binding id P { b with pending := b.pending ++ str } s := h.of_eq rfl rfl
  unfold ubWrite
  split_ifs
  · exact wp_doneOwned h.owned fun t hot ht => hQ t b (h.leaves hot ht)
  · dsimp only
    split_ifs
    · exact wp_pushPending hlonger fun t b' ht _ => hQ t b' ht
    · exact wp_doneOwned h.owned fun t hot ht => hQ t _ (hlonger.leaves hot ht)

lemma wp_flush {Q : Bound → State → Prop} (h : Binding id P b s)
    (hQ : ∀ t b', Binding id P b' t → Q b' t) : (system id R).wp (Answering.flush b) Q s := by
  unfold Answering.flush
  split_ifs
  · exact wp_doneOwned h.owned fun t hot ht => hQ t b (h.leaves hot ht)
  · exact wp_pushPending h fun t b' ht _ => hQ t b' ht

/-- `send_chunk` leaves the request as it is. -/
lemma wp_sendChunk {chunk : PhpString} {Q : ℤ → State → Prop} (ho : Owned id s)
    (hQ : ∀ t op, Owned id t → Leaves id s t → Q op t) :
    (system id R).wp (sendChunk id chunk) Q s := by
  refine wp_streamSender ho fun t isOpen hot hl _ _ => ?_
  have hdone : ∀ (u : State) (op : ℤ), Owned id u → Leaves id s u →
      (system id R).wp (.done op : Fiber ℤ) Q u := fun u op hou hu =>
    wp_doneOwned hou fun v hov hv => hQ v op hov (hu.trans hv)
  cases isOpen with
  | false => exact hdone t (-1) hot hl
  | true =>
      refine wp_askOwned hot fun u e hou hu _ => ?_
      cases e with
      | full =>
          refine wp_submit hou fun v n hov hv _ => ?_
          exact hdone v n hov ((hl.trans hu).trans hv)
      | closed => exact hdone u (-1) hou (hl.trans hu)
      | completed | deadlineExceeded | cancelled | fits => exact hdone u 0 hou (hl.trans hu)

lemma wp_streamWrite {str : PhpString} {Q : Bound × ℤ → State → Prop} (h : Binding id P b s)
    (hQ : ∀ t b' op, Binding id P b' t → Q (b', op) t) :
    (system id R).wp (streamWrite b str) Q s := by
  have hempty : Binding id P { b with pending := [] } s := h.of_eq rfl rfl
  refine System.wp_bind (wp_push hempty fun t b' back ht _ => ?_)
  have hend : ∀ (u : State) (op : ℤ), Owned id u → Leaves id t u →
      (system id R).wp (pure ({ b' with pending := [] }, op) : Fiber (Bound × ℤ)) Q u :=
    fun u op hou hu => wp_doneOwned hou fun v hov hv =>
      hQ v _ op ((ht.leaves hov (hu.trans hv)).of_eq rfl rfl)
  dsimp only
  split_ifs
  · exact hend t 0 ht.owned (.refl id t)
  · refine System.wp_bind ?_
    rw [h.id_eq]
    exact wp_sendChunk ht.owned hend

/-- A producer that ends every run by throwing. -/
def Producer.Throws : Producer → Prop
  | .echo _ k | .flush k => k.Throws
  | .write _ k => ∀ op, (k op).Throws
  | .await k => ∀ reply, (k reply).Throws
  | .returns => False
  | .throws _ => True

/-- **Production.**  Whatever the producer does, it leaves the binding in step with the map. -/
lemma wp_run {frameBytes : ℕ} {Q : Bound × Option Thrown → State → Prop} (p : Producer)
    (h : Binding id P b s) (hp : P → p.Throws)
    (hQ : ∀ t b' thrown, Binding id P b' t → (P → thrown ≠ none) → Q (b', thrown) t) :
    (system id R).wp (p.run frameBytes b) Q s := by
  induction p generalizing b s with
  | echo str k ih => exact System.wp_bind (wp_ubWrite h fun t b' ht => ih ht hp)
  | flush k ih => exact System.wp_bind (wp_flush h fun t b' ht => ih ht hp)
  | write str k ih =>
      exact System.wp_bind (wp_streamWrite h fun t b' op ht => ih op ht fun hP => hp hP op)
  | await k ih =>
      exact wp_askOwned h.owned fun t reply hot ht _ =>
        ih reply (h.leaves hot ht) fun hP => hp hP reply
  | returns =>
      exact wp_doneOwned h.owned fun t hot ht =>
        hQ t b none (h.leaves hot ht) fun hP => (hp hP).elim
  | throws e =>
      exact wp_doneOwned h.owned fun t hot ht =>
        hQ t b (some e) (h.leaves hot ht) fun _ => by simp

/-- `ignis_stream_unbind`: a tail is left only of a response that is open. -/
lemma wp_streamUnbind {Q : PhpString × Bool → State → Prop} (h : Binding id P b s)
    (hQ : ∀ t b', Binding id P b' t → (b'.started = false → b'.pending = []) →
      Q (b'.pending, b'.started) t) :
    (system id R).wp (streamUnbind b) Q s := by
  have hend : ∀ (t : State) (b' : Bound), Binding id P b' t →
      (b'.started = false → b'.pending = []) →
      (system id R).wp (pure (b'.pending, b'.started) : Fiber (PhpString × Bool)) Q t :=
    fun t b' ht htail => wp_doneOwned ht.owned fun u hou hu => hQ u b' (ht.leaves hou hu) htail
  unfold streamUnbind
  split_ifs with hpending
  · exact hend s b h fun _ => hpending
  · exact System.wp_bind (wp_pushPending h hend)

end Writes

/-! ## The ends -/

/-- The replies of runs in which no deadline interrupts the loop while it waits for the tail of an
open stream to be taken. -/
def calmReplies (id : ℕ) (s : State) (q : Question) (e : Reply) : Bool :=
  replies id s q e
    && !(q = .awaitOp true && e = .deadlineExceeded && s.answers.lookup id = some .streaming)

section Ends

variable {id : ℕ} {P : Prop} {R : State → Question → Reply → Bool} {s : State}

/-- The wait for the tail: an exception comes out of it only when the entry is gone already. -/
lemma wp_awaitTail {Q : Except Thrown Unit → State → Prop} (ho : Owned id s)
    (hs : s.answers.lookup id = some .streaming ∨ s.answers.lookup id = none)
    (hok : ∀ t, Owned id t → Leaves id s t → Q (.ok ()) t)
    (herror : ∀ t e, Owned id t → t.answers.lookup id = none → Q (.error e) t) :
    (system id (calmReplies id)).wp awaitTail Q s := by
  refine wp_askOwned ho fun t e hot ht he => ?_
  have hout : ∀ thrown : Thrown, t.answers.lookup id = none →
      (system id (calmReplies id)).wp (.done (.error thrown) : Fiber (Except Thrown Unit)) Q t :=
    fun thrown hnone => wp_doneOwned hot fun u hou hu => herror u thrown hou (hu.gone hnone)
  have hdone : (system id (calmReplies id)).wp
      (.done (.ok ()) : Fiber (Except Thrown Unit)) Q t :=
    wp_doneOwned hot fun u hou hu => hok u hou (ht.trans hu)
  cases e with
  | deadlineExceeded =>
      refine hout _ ?_
      rcases hs with hs | hs
      · rcases ht.answer with heq | hgone
        · simp [calmReplies, heq.trans hs] at he
        · exact hgone.1
      · exact ht.gone hs
  | cancelled =>
      refine hout _ ?_
      simpa [calmReplies, replies] using he
  | completed | fits | full | closed => exact hdone

lemma wp_respondEnd_gone {Q : Bool → State → Prop} (ho : Owned id s)
    (hs : s.answers.lookup id = some .streaming ∨ s.answers.lookup id = none)
    (hQ : ∀ t b, Owned id t → t.answers.lookup id = none → Q b t) :
    (system id R).wp (respondEnd id) Q s := by
  refine wp_respondEnd ho fun t b hot hb => ?_
  have hnone : t.answers.lookup id = none := by
    rcases hb with ⟨-, w, -, hsettles⟩ | ⟨-, hl, hsome⟩
    · exact hsettles.gone
    · rcases hs with hs | hs
      · exact hsome (by simp [hs, saysBodyEnd])
      · exact hl.gone hs
  exact wp_doneOwned hot fun u hou hu => hQ u _ hou (hu.gone hnone)

/-- An answer in one piece ends every request that has not been opened, if there are words for
it. -/
lemma wp_respondTo_gone {status : ℤ} {headers : PhpHeaders} {body : PhpString}
    {Q : Bool → State → Prop} (ho : Owned id s)
    (hs : s.answers.lookup id ≠ some .streaming)
    (hgrpc : s.answers.lookup id = some .grpc → 400 ≤ clampStatus status)
    (hQ : ∀ t b, Owned id t → t.answers.lookup id = none → Q b t) :
    (system id R).wp (respondTo id status headers body) Q s := by
  refine wp_respondTo ho fun t b hot hb => hQ t b hot ?_
  rcases hb with ⟨-, w, -, hsettles⟩ | ⟨-, hl, hsome⟩
  · exact hsettles.gone
  · cases hl' : s.answers.lookup id with
    | none => exact hl.gone hl'
    | some a =>
        cases a with
        | whole => exact hsome (by simp [hl', saysResponse])
        | streaming => exact absurd hl' hs
        | grpc => exact hsome (by simp [hl', saysResponse, hgrpc hl'])

/-- **`endStream`** ends the response, whichever way it is left. -/
lemma wp_endStream {tail : PhpString} {started : Bool} {Q : Except Thrown Unit → State → Prop}
    (ho : Owned id s)
    (hstarted : started = true →
      s.answers.lookup id = some .streaming ∨ s.answers.lookup id = none)
    (hfresh : started = false → tail = [] ∧ s.answers.lookup id ≠ some .streaming
      ∧ s.answers.lookup id ≠ some .grpc)
    (hQ : ∀ t result, Owned id t → t.answers.lookup id = none → Q result t) :
    (system id (calmReplies id)).wp (endStream id tail started) Q s := by
  have hend : ∀ (t : State) (result : Except Thrown Unit), Owned id t →
      t.answers.lookup id = none →
      (system id (calmReplies id)).wp (pure result : Fiber (Except Thrown Unit)) Q t :=
    fun t result hot hnone => wp_doneOwned hot fun u hou hu => hQ u result hou (hu.gone hnone)
  have hclose : ∀ t : State, Owned id t →
      (t.answers.lookup id = some .streaming ∨ t.answers.lookup id = none) →
      (system id (calmReplies id)).wp
        (do let _ ← respondEnd id; return .ok () : Fiber (Except Thrown Unit)) Q t := by
    intro t hot hs
    refine System.wp_bind (wp_respondEnd_gone hot hs fun u _ hou hnone => ?_)
    exact hend u _ hou hnone
  unfold endStream
  split_ifs with hempty htail
  · refine System.wp_bind (wp_respondTo_gone ho (hfresh hempty.1).2.1 ?_ ?_)
    · exact fun hgrpc => absurd hgrpc (hfresh hempty.1).2.2
    · exact fun t _ hot hnone => hend t _ hot hnone
  · have hopen : started = true := by
      cases started with
      | true => rfl
      | false => exact absurd ⟨rfl, htail⟩ hempty
    exact hclose s ho (hstarted hopen)
  · have hopen : started = true := by
      cases started with
      | true => rfl
      | false => exact absurd (hfresh rfl).1 htail
    refine System.wp_bind (wp_sendChunk ho fun t op hot ht => ?_)
    have hs : t.answers.lookup id = some .streaming ∨ t.answers.lookup id = none := by
      rcases ht.answer with heq | hgone
      · exact heq ▸ hstarted hopen
      · exact Or.inr hgone.1
    split_ifs
    · refine System.wp_bind (wp_awaitTail hot hs (fun u hou hu => ?_) fun u e hou hnone => ?_)
      · refine hclose u hou ?_
        rcases hu.answer with heq | hgone
        · exact heq ▸ hs
        · exact Or.inr hgone.1
      · exact hend u _ hou hnone
    · exact hclose t hot hs

/-- **`produce`** ends the response of an HTTP request, and that of a gRPC call whose producer
throws. -/
lemma wp_produce {frameBytes : ℕ} {response : StreamedResponse}
    {Q : Except Thrown Unit → State → Prop} (ho : Owned id s)
    (hs : s.answers.lookup id ≠ some .streaming)
    (hgrpc : s.answers.lookup id = some .grpc → response.producer.Throws)
    (hQ : ∀ t result, Owned id t → t.answers.lookup id = none → Q result t) :
    (system id (calmReplies id)).wp (produce frameBytes id response) Q s := by
  have hbound : Binding id (s.answers.lookup id = some .grpc)
      (streamBind id response.status response.headers) s :=
    ⟨rfl, ho, fun hb => (by cases hb), fun _ => hs, fun h => h⟩
  have hend : ∀ (t : State) (result : Except Thrown Unit), Owned id t →
      t.answers.lookup id = none →
      (system id (calmReplies id)).wp (pure result : Fiber (Except Thrown Unit)) Q t :=
    fun t result hot hnone => wp_doneOwned hot fun u hou hu => hQ u result hou (hu.gone hnone)
  refine System.wp_bind (wp_run response.producer hbound hgrpc fun t b thrown ht hthrown => ?_)
  refine System.wp_bind (wp_streamUnbind ht fun u b' hu htail => ?_)
  cases thrown with
  | none =>
      -- the producer returned, so the request is not a gRPC call
      exact wp_endStream hu.owned hu.started
        (fun hb => ⟨htail hb, hu.fresh hb, fun h => hthrown (hu.grpc h) rfl⟩) hQ
  | some e =>
      dsimp only
      split_ifs with hempty
      · refine System.wp_bind (wp_respondTo_gone hu.owned (hu.fresh hempty.1) (fun _ => ?_) ?_)
        · decide
        · exact fun v _ hov hnone => hend v _ hov hnone
      · have hopen : b'.started = true := by
          cases hb : b'.started with
          | true => rfl
          | false => exact absurd ⟨hb, htail hb⟩ hempty
        refine wp_endStream hu.owned hu.started (fun hb => ?_) hQ
        rw [hopen] at hb
        cases hb

/-- From the end of the handler to `releaseRequest`. -/
lemma wp_finishRequest {frameBytes : ℕ} {response : StreamedResponse} (ho : Owned id s)
    (hs : s.answers.lookup id ≠ some .streaming)
    (hgrpc : s.answers.lookup id = some .grpc → response.producer.Throws) :
    (system id (calmReplies id)).wp (finishRequest frameBytes id (.streamed response))
      (fun _ t => t.answers.lookup id = none) s := by
  refine System.wp_bind (wp_produce ho hs hgrpc fun t result hot hnone => ?_)
  cases result with
  | ok _ => exact wp_doneOwned hot fun u _ hu => hu.gone hnone
  | error e =>
      refine System.wp_bind (wp_respondTo_gone hot (by simp [hnone]) (by simp [hnone]) ?_)
      exact fun u _ hou hnone' => wp_doneOwned hou fun v _ hv => hv.gone hnone'

end Ends

/-! ## Runs -/

/-- The step is not the one that goes wrong: a deadline that fires while the loop waits for the tail
of an open stream to be taken. -/
def calmTail {α : Type} (id : ℕ) (x : Config State Call Method Ret Question Reply α) :
    Caller.Action Reply Reactor.Action → Bool
  | .reply .deadlineExceeded =>
      match x.thread with
      | .running (.ask (.awaitOp true) _) => x.shared.answers.lookup id ≠ some .streaming
      | _ => true
  | _ => true

lemma calm_step {α : Type} {id : ℕ} {x x' : Config State Call Method Ret Question Reply α}
    {a : Caller.Action Reply Reactor.Action} (hcalm : calmTail id x a = true)
    (h : (system id (replies id)).step x a = some x') :
    (system id (calmReplies id)).step x a = some x' := by
  cases a with
  | env i => exact h
  | own => exact h
  | reply e =>
      obtain ⟨s, thread⟩ := x
      cases thread with
      | calling c k => exact h
      | running p =>
          cases p with
          | done a => exact h
          | call m k => exact h
          | ask q k =>
              simp only [System.step] at h ⊢
              split at h
              · rename_i hreply
                have hreply' : (system id (calmReplies id)).replies s q e = true := by
                  have hr : replies id s q e = true := hreply
                  show calmReplies id s q e = true
                  simp only [calmReplies, hr, Bool.true_and, Bool.not_eq_true']
                  by_contra hbad
                  simp only [Bool.not_eq_false, Bool.and_eq_true, decide_eq_true_eq] at hbad
                  obtain ⟨⟨rfl, rfl⟩, hstreaming⟩ := hbad
                  simp [calmTail, hstreaming] at hcalm
                rw [if_pos hreply']
                exact h
              · cases h

/-- **Every streamed response ends**, if no deadline fires while the loop waits for its tail to be
taken, and if it is not the answer to a gRPC call whose producer returns.  Whatever the producer
writes, however fast the client reads, and whenever it leaves: when the fiber gets to
`releaseRequest`, the map has no entry for the request. -/
theorem streamed_response_ends (frameBytes id : ℕ) (response : StreamedResponse) (s t : State)
    (as : List (Caller.Action Reply Reactor.Action)) (ho : Owned id s)
    (hs : s.answers.lookup id ≠ some .streaming)
    (hgrpc : s.answers.lookup id = some .grpc → response.producer.Throws)
    (hcalm : StepSystem.Along (system id (replies id)).step (fun x a => calmTail id x a = true)
      ⟨s, .running (finishRequest frameBytes id (.streamed response))⟩ as)
    (hrun : StepSystem.runFrom (system id (replies id)).step
      ⟨s, .running (finishRequest frameBytes id (.streamed response))⟩ as
        = some ⟨t, .running (.done ())⟩) :
    t.answers.lookup id = none := by
  have hrun' : StepSystem.runFrom (system id (calmReplies id)).step
      ⟨s, .running (finishRequest frameBytes id (.streamed response))⟩ as
        = some ⟨t, .running (.done ())⟩ :=
    StepSystem.runFrom_of_along _ (fun _ _ _ => calm_step) hcalm hrun
  exact System.wp_sound (Q := fun _ u => u.answers.lookup id = none)
    (wp_finishRequest ho hs hgrpc) hrun'

/-- The calls that deliver one HTTP request. -/
def deliverHttp : List Reactor.Action :=
  [.call (.deliverRequestWithId ⟨bytes "GET", bytes "/", [], []⟩), .advance 0, .advance 0,
    .advance 0, .advance 0]

def httpDelivered : State :=
  (StepSystem.runFrom Reactor.step (Reactor.init 0) deliverHttp).getD (Reactor.init 0)

/-- Two chunks fill the queue, and a third is left over for the loop to send. -/
def twoChunksAndTail : Producer :=
  .write (bytes "a") fun _ => .write (bytes "b") fun _ => .echo (bytes "c") .returns

/-- The fiber alone, with a client that does not read, and an end of the wait for the tail. -/
def tailRun (e : Reply) : List (Caller.Action Reply Reactor.Action) :=
  List.replicate 6 Caller.Action.own
    ++ Caller.Action.reply Reply.fits :: List.replicate 3 Caller.Action.own
    ++ Caller.Action.reply Reply.fits :: List.replicate 3 Caller.Action.own
    ++ Caller.Action.reply Reply.full :: List.replicate 3 Caller.Action.own
    ++ Caller.Action.reply Reply.full :: List.replicate 5 Caller.Action.own
    ++ Caller.Action.reply e :: List.replicate 4 Caller.Action.own

/-- The tail is taken in the end, and the body is closed. -/
theorem streamed_response_ends_with_tail :
    StepSystem.runFrom Reactor.step (Reactor.init 0) deliverHttp = some httpDelivered
      ∧ ∃ t, StepSystem.runFrom (system 1 (replies 1)).step
          ⟨httpDelivered, .running (finishRequest 8192 1
            (.streamed (.new twoChunksAndTail 200 [])))⟩
          (tailRun .completed) = some ⟨t, .running (.done ())⟩
        ∧ t.answers.lookup 1 = none := by
  refine ⟨rfl, _, rfl, ?_⟩
  refine streamed_response_ends 8192 1 (.new twoChunksAndTail 200 []) httpDelivered _
    (tailRun .completed) ⟨?_, ?_⟩ ?_ (fun h => absurd h ?_) ?_ rfl
  all_goals decide

/-- A deadline fires while the loop waits for the tail to be taken: the 500 is refused, because the
headers are out, and nothing closes the body.  And a gRPC call answered by a stream whose producer
writes nothing: the 204 is refused. -/
theorem streamed_response_stays :
    (∃ s t, StepSystem.runFrom Reactor.step (Reactor.init 0) deliverHttp = some s
      ∧ StepSystem.runFrom (system 1 (replies 1)).step
          ⟨s, .running (finishRequest 8192 1 (.streamed (.new twoChunksAndTail 200 [])))⟩
          (tailRun .deadlineExceeded) = some ⟨t, .running (.done ())⟩
      ∧ t.answers.lookup 1 = some .streaming)
    ∧ ∃ s t, StepSystem.runFrom Reactor.step (Reactor.init 0) deliverGrpc = some s
      ∧ StepSystem.runFrom (system 1 (replies 1)).step
          ⟨s, .running (finishRequest 8192 1 (.streamed (.new .returns 200 [])))⟩
          (List.replicate 4 .own) = some ⟨t, .running (.done ())⟩
      ∧ t.answers.lookup 1 = some .grpc :=
  ⟨⟨_, _, rfl, rfl, rfl⟩, ⟨_, _, rfl, rfl, rfl⟩⟩

end Ignis.Answering
