import Ignis.Loop.Frames

/-!
# A streamed body arrives as it was written

The bytes of a streamed response wait in the binding of the fiber, are offered to a bounded queue
that may hand them back, are offered again, and wait in an op of their own if the queue is still
full.  The order holds because each of these stations is empty again before the next byte enters it:
what was handed back goes first the next time, and an op is awaited before anything else is sent.

`Pipe` is the way of the bytes to the client: the bounded queue of `respond_start`, the ops that
wait for room in it, and what the client's side has taken out.  `Sound` says that it loses and
repeats nothing by itself, and `Ready` ties the binding to it.
Every function of `Frames` keeps the two in step (`twp_push` and what follows).  From the end of the
production, which is always within reach, `streamed_body_arrives` looks back on the whole run.
-/

namespace Ignis.Frames

open Caller Reactor Answering

/-! ## The pipe -/

/-- The way of the bytes of one response. -/
structure Pipe where
  id : ℕ
  /-- The entry of the request in the reactor's map; `none` once it has been taken. -/
  entry : Option Answer
  /-- `IGNIS_STREAM_CHUNKS`. -/
  cap : ℕ
  queue : List PhpString
  /-- The ops that wait for room, in the order of their submission, with their chunks. -/
  sending : List (ℕ × PhpString)
  completed : List ℕ
  /-- The last id the reactor has given out. -/
  lastId : ℕ
  received : List PhpString
  /-- Ghost: everything the pipe has accepted. -/
  handed : PhpString
  /-- Ghost: what that was when the entry was taken. -/
  closed : Option PhpString
  deriving DecidableEq, Repr

/-- `mpsc::channel(cap.max(1))`. -/
def Pipe.capacity (p : Pipe) : ℕ := max p.cap 1

/-- A request that has been delivered and not been answered. -/
def Pipe.delivered (id cap lastId : ℕ) : Pipe :=
  ⟨id, some .whole, cap, [], [], [], lastId, [], [], none⟩

/-- The client has all of the body: the senders are gone and the queue is empty. -/
def Pipe.ended (p : Pipe) : Bool := p.entry.isNone && p.queue.isEmpty && p.sending.isEmpty

/-- The calls.  Room in the queue goes to those who already wait for it. -/
def perform (p : Pipe) : Call → Pipe × Result
  | .respondStart id _ _ =>
      if id = p.id ∧ p.entry = some .whole then
        ({ p with entry := some .streaming }, .ret (.bool true))
      else (p, .ret (.bool false))
  | .respond id _ =>
      if id = p.id ∧ p.entry = some .whole then
        ({ p with entry := none, closed := some p.handed }, .ret (.bool true))
      else (p, .ret (.bool false))
  | .respondEnd id =>
      if id = p.id ∧ p.entry = some .streaming then
        ({ p with entry := none, closed := some p.handed }, .ret (.bool true))
      else (p, .ret (.bool false))
  | .trySend id frame =>
      if id = p.id ∧ p.entry = some .streaming then
        if p.sending = [] ∧ p.queue.length < p.capacity then
          ({ p with queue := p.queue ++ [frame], handed := p.handed ++ frame }, .sent .fits)
        else (p, .sent .full)
      else (p, .sent .closed)
  | .submitSend _ chunk =>
      ({ p with
          sending := p.sending ++ [(p.lastId + 1, chunk)]
          lastId := p.lastId + 1
          handed := p.handed ++ chunk }, .ret (.id (p.lastId + 1)))

/-- What goes on outside the fiber: the client's side takes a frame, the first of the waiting ops
finds room, another op of the thread is given an id. -/
inductive Outside where
  | receive
  | room
  | otherOp
  deriving DecidableEq, Repr

def outside (p : Pipe) : Outside → Option Pipe
  | .receive =>
      match p.queue with
      | [] => none
      | frame :: queue => some { p with queue := queue, received := p.received ++ [frame] }
  | .room =>
      match p.sending with
      | [] => none
      | (op, chunk) :: sending =>
          if p.queue.length < p.capacity then
            some { p with
              queue := p.queue ++ [chunk], sending := sending, completed := op :: p.completed }
          else none
  | .otherOp => some { p with lastId := p.lastId + 1 }

/-- An await ends when its op has completed: no deadline passes and the client stays. -/
def replies (p : Pipe) : Await → Reply → Bool
  | .awaitOp op _, .completed => decide (op ∈ p.completed)
  | _, _ => false

abbrev pipeline : System Pipe (Call ⊕ Result) Call Result Await Reply Outside :=
  atomicSystem perform outside replies

/-! ## What the pipe keeps -/

/-- The bytes in the pipe, from the client's end to the fiber's. -/
def Pipe.bytes (p : Pipe) : PhpString :=
  p.received.flatten ++ p.queue.flatten ++ (p.sending.map Prod.snd).flatten

/-- The environment moves frames within the pipe. -/
lemma outside_fields {p t : Pipe} {i : Outside} (hstep : outside p i = some t) :
    t.id = p.id ∧ t.entry = p.entry ∧ t.handed = p.handed ∧ t.closed = p.closed := by
  cases i with
  | receive =>
      simp only [outside] at hstep
      split at hstep
      · cases hstep
      · obtain rfl := Option.some.inj hstep
        exact ⟨rfl, rfl, rfl, rfl⟩
  | room =>
      simp only [outside] at hstep
      split at hstep
      · cases hstep
      · split_ifs at hstep
        obtain rfl := Option.some.inj hstep
        exact ⟨rfl, rfl, rfl, rfl⟩
  | otherOp =>
      obtain rfl := Option.some.inj hstep
      exact ⟨rfl, rfl, rfl, rfl⟩

/-- It takes the ops that wait one by one, and completes them. -/
lemma outside_sending {p t : Pipe} {i : Outside} (hstep : outside p i = some t) :
    t.sending = p.sending ∧ t.completed = p.completed ∨
      ∃ n chunk, p.sending = (n, chunk) :: t.sending ∧ t.completed = n :: p.completed := by
  cases i with
  | receive =>
      simp only [outside] at hstep
      split at hstep
      · cases hstep
      · obtain rfl := Option.some.inj hstep
        exact .inl ⟨rfl, rfl⟩
  | room =>
      simp only [outside] at hstep
      split at hstep
      · cases hstep
      · rename_i n chunk sending hsending
        split_ifs at hstep
        obtain rfl := Option.some.inj hstep
        exact .inr ⟨n, chunk, hsending, rfl⟩
  | otherOp =>
      obtain rfl := Option.some.inj hstep
      exact .inl ⟨rfl, rfl⟩

lemma outside_bytes {p t : Pipe} {i : Outside} (hstep : outside p i = some t) :
    t.bytes = p.bytes := by
  cases i with
  | receive =>
      simp only [outside] at hstep
      split at hstep
      · cases hstep
      · rename_i frame queue hqueue
        obtain rfl := Option.some.inj hstep
        simp [Pipe.bytes, hqueue]
  | room =>
      simp only [outside] at hstep
      split at hstep
      · cases hstep
      · rename_i op chunk sending hsending
        split_ifs at hstep
        obtain rfl := Option.some.inj hstep
        simp [Pipe.bytes, hsending]
  | otherOp =>
      obtain rfl := Option.some.inj hstep
      rfl

/-- The pipe neither loses nor repeats a byte, and it completes an op once. -/
structure Sound (p : Pipe) : Prop where
  bytes : p.bytes = p.handed
  bounded : p.queue.length ≤ p.capacity
  completed : ∀ op ∈ p.completed, op ≤ p.lastId
  sending : ∀ s ∈ p.sending, s.1 ≤ p.lastId ∧ s.1 ∉ p.completed
  distinct : (p.sending.map Prod.fst).Nodup

lemma sound_delivered (id cap lastId : ℕ) : Sound (Pipe.delivered id cap lastId) := by
  refine ⟨rfl, Nat.zero_le _, ?_, ?_, List.nodup_nil⟩ <;> simp [Pipe.delivered]

lemma Sound.outside {p p' : Pipe} (h : Sound p) {i : Outside}
    (hstep : Frames.outside p i = some p') : Sound p' := by
  have hbytes : p'.bytes = p'.handed := by
    rw [outside_bytes hstep, (outside_fields hstep).2.2.1, h.bytes]
  cases i with
  | receive =>
      simp only [Frames.outside] at hstep
      split at hstep
      · cases hstep
      · rename_i frame queue hqueue
        obtain rfl := Option.some.inj hstep
        have hbound := h.bounded
        rw [hqueue, List.length_cons] at hbound
        exact { h with bytes := hbytes, bounded := Nat.le_of_succ_le hbound }
  | room =>
      simp only [Frames.outside] at hstep
      split at hstep
      · cases hstep
      · rename_i op chunk sending hsending
        split_ifs at hstep with hroom
        obtain rfl := Option.some.inj hstep
        have hhead := h.sending (op, chunk) (by simp [hsending])
        have hdistinct := h.distinct
        rw [hsending, List.map_cons, List.nodup_cons] at hdistinct
        refine ⟨hbytes, ?_, ?_, ?_, hdistinct.2⟩
        · show (p.queue ++ [chunk]).length ≤ p.capacity
          rw [List.length_append]
          exact hroom
        · intro n hn
          rcases List.mem_cons.mp hn with rfl | hn
          · exact hhead.1
          · exact h.completed n hn
        · intro s hs
          have hold := h.sending s (by simp [hsending, show s ∈ sending from hs])
          refine ⟨hold.1, fun hmem => ?_⟩
          rcases List.mem_cons.mp hmem with heq | hmem
          · exact hdistinct.1 (List.mem_map.mpr ⟨s, hs, heq⟩)
          · exact hold.2 hmem
  | otherOp =>
      obtain rfl := Option.some.inj hstep
      exact { h with
        completed := fun n hn => Nat.le_succ_of_le (h.completed n hn)
        sending := fun s hs => ⟨Nat.le_succ_of_le (h.sending s hs).1, (h.sending s hs).2⟩ }

/-- The pipe is at rest, has been handed `h`, and its entry is what the binding takes it for. -/
structure Ready (b : Bound) (h : PhpString) (p : Pipe) : Prop where
  sound : Sound p
  id_eq : b.id = p.id
  handed : p.handed = h
  idle : p.sending = []
  entry : p.entry = some (if b.started then .streaming else .whole)
  unopened : b.started = false → h = []

/-- The pipe has been handed `h`, the last of it in the op that is waited for. -/
structure Waiting (b : Bound) (op : ℕ) (h : PhpString) (p : Pipe) : Prop where
  sound : Sound p
  id_eq : b.id = p.id
  handed : p.handed = h
  entry : p.entry = some .streaming
  op : (∃ chunk, p.sending = [(op, chunk)]) ∨ p.sending = [] ∧ op ∈ p.completed

section Stations

variable {b b' : Bound} {h : PhpString} {p t : Pipe} {op : ℕ}

lemma Ready.outside (hp : Ready b h p) {i : Outside} (hstep : Frames.outside p i = some t) :
    Ready b h t := by
  obtain ⟨hid, hentry, hhanded, -⟩ := outside_fields hstep
  refine ⟨hp.sound.outside hstep, hp.id_eq.trans hid.symm, hhanded.trans hp.handed, ?_,
    hentry.trans hp.entry, hp.unopened⟩
  rcases outside_sending hstep with ⟨hsending, -⟩ | ⟨n, chunk, hsending, -⟩
  · exact hsending.trans hp.idle
  · rw [hp.idle] at hsending
    cases hsending

lemma Ready.drift (hp : Ready b h p) (hd : pipeline.Drift p t) : Ready b h t := by
  induction hd with
  | refl => exact hp
  | env _ hstep ih => exact ih.outside hstep

/-- What is in the binding besides its state does not matter. -/
lemma Ready.of_eq (hp : Ready b h p) (hid : b'.id = b.id) (hstarted : b'.started = b.started) :
    Ready b' h p :=
  ⟨hp.sound, hid.trans hp.id_eq, hp.handed, hp.idle, by rw [hstarted]; exact hp.entry,
    fun hb => hp.unopened (hstarted ▸ hb)⟩

lemma Waiting.outside (hp : Waiting b op h p) {i : Outside}
    (hstep : Frames.outside p i = some t) : Waiting b op h t := by
  obtain ⟨hid, hentry, hhanded, -⟩ := outside_fields hstep
  refine ⟨hp.sound.outside hstep, hp.id_eq.trans hid.symm, hhanded.trans hp.handed,
    hentry.trans hp.entry, ?_⟩
  rcases outside_sending hstep with ⟨hsending, hcompleted⟩ | ⟨n, chunk, hsending, hcompleted⟩
  · rw [hsending, hcompleted]
    exact hp.op
  · rcases hp.op with ⟨chunk', hop⟩ | ⟨hidle, -⟩
    · rw [hop] at hsending
      obtain ⟨hhead, htail⟩ := List.cons.inj hsending
      obtain ⟨rfl, -⟩ := Prod.mk.inj hhead
      exact .inr ⟨htail.symm, by rw [hcompleted]; exact List.mem_cons_self⟩
    · rw [hidle] at hsending
      cases hsending

lemma Waiting.drift (hp : Waiting b op h p) (hd : pipeline.Drift p t) : Waiting b op h t := by
  induction hd with
  | refl => exact hp
  | env _ hstep ih => exact ih.outside hstep

/-- The op that is waited for completes, if only the client goes on taking frames. -/
lemma Waiting.completes (hp : Waiting b op h p) : ∃ u, pipeline.Drift p u ∧ op ∈ u.completed := by
  rcases hp.op with ⟨chunk, hsending⟩ | ⟨-, hdone⟩
  · -- there is room already, or there is once a frame has been taken
    have hroom : ∀ q : Pipe, q.sending = [(op, chunk)] → q.queue.length < q.capacity →
        ∃ u, Frames.outside q .room = some u ∧ op ∈ u.completed := by
      intro q hq hlt
      exact ⟨_, by simp only [Frames.outside, hq, if_pos hlt]; rfl, List.mem_cons_self⟩
    by_cases hlt : p.queue.length < p.capacity
    · obtain ⟨u, hu, hmem⟩ := hroom p hsending hlt
      exact ⟨u, .env (i := .room) (.refl p) hu, hmem⟩
    · cases hqueue : p.queue with
      | nil =>
          rw [hqueue] at hlt
          exact absurd (Nat.lt_of_lt_of_le Nat.one_pos (Nat.le_max_right p.cap 1)) hlt
      | cons frame queue =>
          have hbound := hp.sound.bounded
          rw [hqueue, List.length_cons] at hbound
          obtain ⟨u, hu, hmem⟩ := hroom
            { p with queue := queue, received := p.received ++ [frame] } hsending hbound
          refine ⟨u, .env (i := .room) (.env (i := .receive) (.refl p) ?_) hu, hmem⟩
          show Frames.outside p .receive = _
          simp only [Frames.outside, hqueue]
  · exact ⟨p, .refl p, hdone⟩

/-- Once it has, the pipe is at rest again. -/
lemma Waiting.ready (hp : Waiting b op h p) (hstarted : b.started = true)
    (hdone : op ∈ p.completed) : Ready b h p := by
  refine ⟨hp.sound, hp.id_eq, hp.handed, ?_, by rw [hstarted]; exact hp.entry,
    fun hb => absurd (hstarted.symm.trans hb) (by decide)⟩
  rcases hp.op with ⟨chunk, hsending⟩ | ⟨hidle, -⟩
  · exact absurd hdone (hp.sound.sending (op, chunk) (by simp [hsending])).2
  · exact hidle

end Stations

/-! ## Every function keeps the pipe in step -/

section Functions

variable {b : Bound} {h : PhpString} {p : Pipe}

lemma twp_done {α : Type} {a : α} {Q : α → Pipe → Prop} (hp : Ready b h p)
    (hQ : ∀ t, Ready b h t → Q a t) : pipeline.twp (.done a) Q p :=
  fun t ht => hQ t (hp.drift ht)

/-- The pipe takes all of a frame or nothing of it. -/
lemma Ready.trySend (hp : Ready b h p) (hstarted : b.started = true) (frame : PhpString) :
    ((perform p (.trySend b.id frame)).2 = .sent .fits ∧
        Ready b (h ++ frame) (perform p (.trySend b.id frame)).1) ∨
      ((perform p (.trySend b.id frame)).2 = .sent .full ∧
        Ready b h (perform p (.trySend b.id frame)).1) := by
  have hopen : b.id = p.id ∧ p.entry = some .streaming :=
    ⟨hp.id_eq, by rw [hp.entry, if_pos hstarted]⟩
  by_cases hroom : p.sending = [] ∧ p.queue.length < p.capacity
  · have hperform : perform p (.trySend b.id frame)
        = ({ p with queue := p.queue ++ [frame], handed := p.handed ++ frame }, .sent .fits) := by
      simp only [perform, if_pos hopen, if_pos hroom]
    rw [hperform]
    refine .inl ⟨rfl, ⟨{ hp.sound with bytes := ?_, bounded := ?_ }, hp.id_eq, ?_, hp.idle,
      hp.entry, fun hb => absurd (hstarted.symm.trans hb) (by decide)⟩⟩
    · show p.received.flatten ++ (p.queue ++ [frame]).flatten ++ (p.sending.map Prod.snd).flatten
        = p.handed ++ frame
      rw [← hp.sound.bytes, Pipe.bytes, hp.idle]
      simp
    · show (p.queue ++ [frame]).length ≤ p.capacity
      rw [List.length_append]
      exact hroom.2
    · show p.handed ++ frame = h ++ frame
      rw [hp.handed]
  · have hperform : perform p (.trySend b.id frame) = (p, .sent .full) := by
      simp only [perform, if_pos hopen, if_neg hroom]
    rw [hperform]
    exact .inr ⟨rfl, hp⟩

lemma twp_trySend {frame : PhpString} {Q : Bound × PhpString → Pipe → Prop} (hp : Ready b h p)
    (hstarted : b.started = true)
    (hQ : ∀ t h' back, Ready b h' t → h' ++ back = h ++ frame → Q (b, back) t) :
    pipeline.twp (trySend b frame) Q p := by
  refine twp_atomic fun t ht => ?_
  rcases (hp.drift ht).trySend hstarted frame with ⟨hret, hready⟩ | ⟨hret, hready⟩
  · rw [hret]
    exact twp_done hready fun u hu => hQ u _ [] hu (List.append_nil _)
  · rw [hret]
    exact twp_done hready fun u hu => hQ u _ frame hu rfl

/-- **`push`.**  The response is open afterwards, and what was not handed over comes back. -/
lemma twp_push {frame : PhpString} {Q : Bound × PhpString → Pipe → Prop} (hp : Ready b h p)
    (hQ : ∀ t b' h' back, Ready b' h' t → b'.started = true → b'.id = b.id →
      h' ++ back = h ++ frame → Q (b', back) t) :
    pipeline.twp (push b frame) Q p := by
  unfold push
  split_ifs with hstarted
  · exact twp_trySend hp hstarted fun t h' back ht hback => hQ t b h' back ht hstarted rfl hback
  · refine twp_atomic fun t ht => ?_
    have hready := hp.drift ht
    have hwhole : b.id = t.id ∧ t.entry = some .whole :=
      ⟨hready.id_eq, by rw [hready.entry, if_neg hstarted]⟩
    have hperform : perform t (.respondStart b.id b.status b.headers)
        = ({ t with entry := some .streaming }, .ret (.bool true)) := by
      simp only [perform, if_pos hwhole]
    rw [hperform]
    have hopen : Ready { b with headers := [], started := true } h
        { t with entry := some .streaming } :=
      ⟨{ hready.sound with }, hready.id_eq, hready.handed, hready.idle, rfl, by simp⟩
    exact twp_trySend hopen rfl fun u h' back hu hback => hQ u _ h' back hu rfl rfl hback

lemma twp_pushPending {Q : Bound → Pipe → Prop} (hp : Ready b h p)
    (hQ : ∀ t b' h', Ready b' h' t → b'.started = true → b'.id = b.id →
      h' ++ b'.pending = h ++ b.pending → Q b' t) :
    pipeline.twp (pushPending b) Q p := by
  have hempty : Ready { b with pending := [] } h p := hp.of_eq rfl rfl
  refine System.twp_bind (twp_push hempty fun t b' h' back ht hstarted hid hback => ?_)
  have hback' : Ready { b' with pending := back } h' t := ht.of_eq rfl rfl
  exact twp_done hback' fun u hu => hQ u _ h' hu hstarted hid hback

lemma twp_ubWrite {frameBytes : ℕ} {str : PhpString} {Q : Bound → Pipe → Prop} (hp : Ready b h p)
    (hQ : ∀ t b' h', Ready b' h' t → b'.id = b.id →
      h' ++ b'.pending = h ++ b.pending ++ str → Q b' t) :
    pipeline.twp (ubWrite frameBytes b str) Q p := by
  have hlonger : Ready { b with pending := b.pending ++ str } h p := hp.of_eq rfl rfl
  unfold ubWrite
  split_ifs with hempty
  · exact twp_done hp fun t ht => hQ t b h ht rfl (by rw [hempty, List.append_nil])
  · dsimp only
    split_ifs
    · exact twp_pushPending hlonger fun t b' h' ht _ hid hbytes =>
        hQ t b' h' ht hid (by rw [hbytes, List.append_assoc])
    · exact twp_done hlonger fun t ht => hQ t _ h ht rfl (by rw [List.append_assoc])

lemma twp_flush {Q : Bound → Pipe → Prop} (hp : Ready b h p)
    (hQ : ∀ t b' h', Ready b' h' t → b'.id = b.id →
      h' ++ b'.pending = h ++ b.pending → Q b' t) :
    pipeline.twp (flush b) Q p := by
  unfold flush
  split_ifs
  · exact twp_done hp fun t ht => hQ t b h ht rfl rfl
  · exact twp_pushPending hp fun t b' h' ht _ hid hbytes => hQ t b' h' ht hid hbytes

/-- The op of a chunk that found no room. -/
lemma Ready.submitSend (hp : Ready b h p) (hstarted : b.started = true) (chunk : PhpString) :
    Waiting b (p.lastId + 1) (h ++ chunk) (perform p (.submitSend b.id chunk)).1 := by
  refine ⟨⟨?_, hp.sound.bounded, ?_, ?_, ?_⟩, hp.id_eq, ?_, ?_, .inl ⟨chunk, ?_⟩⟩
  · show p.received.flatten ++ p.queue.flatten
        ++ ((p.sending ++ [(p.lastId + 1, chunk)]).map Prod.snd).flatten = p.handed ++ chunk
    rw [← hp.sound.bytes, Pipe.bytes, hp.idle]
    simp
  · exact fun op hop => Nat.le_succ_of_le (hp.sound.completed op hop)
  · intro s hs
    replace hs : s ∈ p.sending ++ [(p.lastId + 1, chunk)] := hs
    rw [hp.idle, List.nil_append, List.mem_singleton] at hs
    subst hs
    exact ⟨Nat.le_refl _, fun hdone => Nat.not_succ_le_self _ (hp.sound.completed _ hdone)⟩
  · show ((p.sending ++ [(p.lastId + 1, chunk)]).map Prod.fst).Nodup
    rw [hp.idle]
    simp
  · show p.handed ++ chunk = h ++ chunk
    rw [hp.handed]
  · show p.entry = some .streaming
    rw [hp.entry, if_pos hstarted]
  · show p.sending ++ [(p.lastId + 1, chunk)] = _
    rw [hp.idle]
    rfl

/-- **`send_chunk`.**  The chunk has been handed over, and is taken or waits in an op. -/
lemma twp_sendChunk {chunk : PhpString} {Q : ℤ → Pipe → Prop} (hp : Ready b h p)
    (hstarted : b.started = true)
    (htaken : ∀ t, Ready b (h ++ chunk) t → Q 0 t)
    (hwaits : ∀ t n, Waiting b (n + 1) (h ++ chunk) t → Q ((n + 1 : ℕ) : ℤ) t) :
    pipeline.twp (sendChunk b.id chunk) Q p := by
  refine twp_atomic fun t ht => ?_
  rcases (hp.drift ht).trySend hstarted chunk with ⟨hret, hready⟩ | ⟨hret, hready⟩
  · rw [hret]
    exact twp_done hready htaken
  · rw [hret]
    refine twp_atomic fun u hu => ?_
    have hwaiting := (hready.drift hu).submitSend hstarted chunk
    exact fun v hv => hwaits v _ (hwaiting.drift hv)

lemma twp_awaitOp {op : ℕ} {tail : Bool} {Q : Option Thrown → Pipe → Prop}
    (hp : Waiting b op h p) (hstarted : b.started = true) (hQ : ∀ t, Ready b h t → Q none t) :
    pipeline.twp (awaitOp op tail) Q p := by
  refine ⟨fun t ht => ?_, fun t e ht he => ?_⟩
  · obtain ⟨u, hu, hdone⟩ := (hp.drift ht).completes
    exact ⟨u, .completed, hu, decide_eq_true hdone⟩
  · cases e with
    | completed =>
        exact twp_done ((hp.drift ht).ready hstarted (of_decide_eq_true he)) hQ
    | deadlineExceeded | cancelled | fits | full | closed => cases he

/-- `ignis_stream_write`: everything has left the binding, and is taken or waits in an op. -/
lemma twp_streamWrite {str : PhpString} {Q : Bound × ℤ → Pipe → Prop} (hp : Ready b h p)
    (htaken : ∀ t b', Ready b' (h ++ b.pending ++ str) t → b'.id = b.id → b'.pending = [] →
      Q (b', 0) t)
    (hwaits : ∀ t b' n, Waiting b' (n + 1) (h ++ b.pending ++ str) t → b'.started = true →
      b'.id = b.id → b'.pending = [] → Q (b', ((n + 1 : ℕ) : ℤ)) t) :
    pipeline.twp (streamWrite b str) Q p := by
  have hempty : Ready { b with pending := [] } h p := hp.of_eq rfl rfl
  refine System.twp_bind (twp_push hempty fun t b' h' back ht hstarted hid hback => ?_)
  have hleft : Ready { b' with pending := [] } h' t := ht.of_eq rfl rfl
  replace hback : h' ++ back = h ++ b.pending ++ str := by rw [hback, List.append_assoc]
  dsimp only
  split_ifs with hnone
  · rw [hnone, List.append_nil] at hback
    subst hback
    exact twp_done hleft fun u hu => htaken u _ hu hid rfl
  · rw [← hid]
    refine System.twp_bind
      (twp_sendChunk (b := { b' with pending := [] }) hleft hstarted (fun u hu => ?_)
        fun u n hu => ?_)
    · rw [hback] at hu
      exact twp_done hu fun v hv => htaken v _ hv hid rfl
    · rw [hback] at hu
      exact fun v hv => hwaits v _ n (hu.drift hv) hstarted hid rfl

/-- **`Ignis\write`.**  When it returns, everything before it has left the binding. -/
lemma twp_write {str : PhpString} {Q : Bound × Option Thrown → Pipe → Prop} (hp : Ready b h p)
    (hQ : ∀ t b' h', Ready b' h' t → b'.id = b.id →
      h' ++ b'.pending = h ++ b.pending ++ str → Q (b', none) t) :
    pipeline.twp (write b str) Q p := by
  unfold write
  split_ifs with hempty
  · exact twp_done hp fun t ht => hQ t b h ht rfl (by rw [hempty, List.append_nil])
  · refine System.twp_bind (twp_streamWrite hp (fun t b' ht hid hpending => ?_)
      fun t b' n ht hstarted hid hpending => ?_)
    · exact twp_done ht fun u hu => hQ u b' _ hu hid (by rw [hpending, List.append_nil])
    · have hpositive : ¬ ((n + 1 : ℕ) : ℤ) = 0 ∧ ¬ ((n + 1 : ℕ) : ℤ) < 0 := by omega
      simp only [hpositive.1, hpositive.2, if_false]
      refine System.twp_bind (twp_awaitOp ht hstarted fun u hu => ?_)
      exact twp_done hu fun v hv => hQ v b' _ hv hid (by rw [hpending, List.append_nil])

/-! ## Production -/

/-- The bytes of a write. -/
def Write.bytes : Write → PhpString
  | .echo str | .write str => str
  | .flush => []

/-- The bytes a producer writes, in order. -/
def written (ws : List Write) : PhpString := ws.flatMap Write.bytes

lemma twp_run {frameBytes : ℕ} {Q : Bound × Option Thrown → Pipe → Prop} (w : Write)
    (hp : Ready b h p)
    (hQ : ∀ t b' h', Ready b' h' t → b'.id = b.id →
      h' ++ b'.pending = h ++ b.pending ++ w.bytes → Q (b', none) t) :
    pipeline.twp (w.run frameBytes b) Q p := by
  cases w with
  | echo str =>
      refine System.twp_bind (twp_ubWrite hp fun t b' h' ht hid hbytes => ?_)
      exact twp_done ht fun u hu => hQ u b' h' hu hid hbytes
  | flush =>
      refine System.twp_bind (twp_flush hp fun t b' h' ht hid hbytes => ?_)
      exact twp_done ht fun u hu => hQ u b' h' hu hid (hbytes.trans (List.append_nil _).symm)
  | write str => exact twp_write hp hQ

/-- **Production.**  All the writes are made, and what is not in the pipe is in the binding. -/
lemma twp_runWrites {frameBytes : ℕ} {ending : Option Thrown}
    {Q : Bound × Option Thrown → Pipe → Prop} (ws : List Write) (hp : Ready b h p)
    (hQ : ∀ t b' h', Ready b' h' t → b'.id = b.id →
      h' ++ b'.pending = h ++ b.pending ++ written ws → Q (b', ending) t) :
    pipeline.twp (runWrites frameBytes ending ws b) Q p := by
  induction ws generalizing b h p with
  | nil =>
      exact twp_done hp fun t ht => hQ t b h ht rfl (List.append_nil _).symm
  | cons w ws ih =>
      refine System.twp_bind (twp_run w hp fun t b' h' ht hid hbytes => ?_)
      refine ih ht fun u b'' h'' hu hid' hbytes' => hQ u b'' h'' hu (hid'.trans hid) ?_
      rw [hbytes', hbytes, List.append_assoc]
      rfl

/-- `ignis_stream_unbind`: the tail is what did not fit. -/
lemma twp_streamUnbind {Q : PhpString × Bool → Pipe → Prop} (hp : Ready b h p)
    (hQ : ∀ t b' h', Ready b' h' t → b'.id = b.id → h' ++ b'.pending = h ++ b.pending →
      (b'.started = false → b'.pending = []) → Q (b'.pending, b'.started) t) :
    pipeline.twp (streamUnbind b) Q p := by
  unfold streamUnbind
  dsimp only
  split_ifs with hpending
  · exact twp_done hp fun t ht => hQ t b h ht rfl rfl fun _ => hpending
  · refine System.twp_bind (twp_pushPending hp fun t b' h' ht hstarted hid hbytes => ?_)
    exact twp_done ht fun u hu => hQ u b' h' hu hid hbytes fun hb =>
      absurd (hstarted.symm.trans hb) (by decide)

/-- The response is over: the entry is gone, and everything the producer wrote is in the pipe. -/
structure Finished (w : PhpString) (p : Pipe) : Prop where
  idle : p.sending = []
  entry : p.entry = none
  handed : p.handed = w
  closed : p.closed = some w

lemma Finished.drift {w : PhpString} {t : Pipe} (hp : Finished w p) (hd : pipeline.Drift p t) :
    Finished w t := by
  induction hd with
  | refl => exact hp
  | env _ hstep ih =>
      obtain ⟨-, hentry, hhanded, hclosed⟩ := outside_fields hstep
      refine ⟨?_, hentry.trans ih.entry, hhanded.trans ih.handed, hclosed.trans ih.closed⟩
      rcases outside_sending hstep with ⟨hsending, -⟩ | ⟨n, chunk, hsending, -⟩
      · exact hsending.trans ih.idle
      · rw [ih.idle] at hsending
        cases hsending

lemma twp_finished {α : Type} {a : α} {w : PhpString} {Q : α → Pipe → Prop} (hp : Finished w p)
    (hQ : ∀ t, Finished w t → Q a t) : pipeline.twp (.done a) Q p :=
  fun t ht => hQ t (hp.drift ht)

lemma twp_respondEnd {Q : Bool → Pipe → Prop} (hp : Ready b h p) (hstarted : b.started = true)
    (hQ : ∀ t ended, Finished h t → Q ended t) : pipeline.twp (respondEnd b.id) Q p := by
  refine twp_atomic fun t ht => ?_
  have hready := hp.drift ht
  have hopen : b.id = t.id ∧ t.entry = some .streaming :=
    ⟨hready.id_eq, by rw [hready.entry, if_pos hstarted]⟩
  have hperform : perform t (.respondEnd b.id)
      = ({ t with entry := none, closed := some t.handed }, .ret (.bool true)) := by
    simp only [perform, if_pos hopen]
  rw [hperform]
  have hfinished : Finished h { t with entry := none, closed := some t.handed } :=
    ⟨hready.idle, rfl, hready.handed, congrArg some hready.handed⟩
  exact twp_finished hfinished fun u hu => hQ u true hu

/-- A whole answer, with nothing written before it. -/
lemma twp_respondTo {status : ℤ} {headers : PhpHeaders} {body : PhpString}
    {Q : Bool → Pipe → Prop} (hp : Ready b h p) (hstarted : b.started = false)
    (hQ : ∀ t accepted, Finished h t → Q accepted t) :
    pipeline.twp (respondTo b.id status headers body) Q p := by
  refine twp_atomic fun t ht => ?_
  have hready := hp.drift ht
  have hwhole : b.id = t.id ∧ t.entry = some .whole :=
    ⟨hready.id_eq, by rw [hready.entry, hstarted]; rfl⟩
  have hperform : perform t (.respond b.id ⟨clampStatus status, headerPairs headers, body⟩)
      = ({ t with entry := none, closed := some t.handed }, .ret (.bool true)) := by
    simp only [perform, if_pos hwhole]
  rw [hperform]
  have hfinished : Finished h { t with entry := none, closed := some t.handed } :=
    ⟨hready.idle, rfl, hready.handed, congrArg some hready.handed⟩
  exact twp_finished hfinished fun u hu => hQ u true hu

/-- **`endStream`.**  The tail goes out, and the body ends. -/
lemma twp_endStream {tail : PhpString} (hp : Ready b h p)
    (htail : b.started = false → tail = []) :
    pipeline.twp (endStream b.id tail b.started) (fun _ t => Finished (h ++ tail) t) p := by
  unfold endStream
  by_cases hnothing : b.started = false ∧ tail = []
  · rw [if_pos hnothing, hnothing.2, List.append_nil]
    refine System.twp_bind (twp_respondTo hp hnothing.1 fun t _ ht => ?_)
    exact twp_finished ht fun u hu => hu
  · have hstarted : b.started = true := by
      cases hb : b.started with
      | true => rfl
      | false => exact absurd ⟨hb, htail hb⟩ hnothing
    have hend : ∀ {t : Pipe}, Ready b (h ++ tail) t →
        pipeline.twp (respondEnd b.id >>= fun _ => pure (.ok ()) : Fiber (Except Thrown Unit))
          (fun _ u => Finished (h ++ tail) u) t := fun ht =>
      System.twp_bind (twp_respondEnd ht hstarted fun u _ hu => twp_finished hu fun v hv => hv)
    rw [if_neg hnothing]
    dsimp only
    split_ifs with hempty
    · refine hend ?_
      rw [hempty, List.append_nil]
      exact hp
    · refine System.twp_bind (twp_sendChunk hp hstarted (fun t ht => ?_) fun t n ht => ?_)
      · exact hend ht
      · have hpositive : 0 < ((n + 1 : ℕ) : ℤ) := by omega
        simp only [if_pos hpositive]
        exact System.twp_bind (twp_awaitOp ht hstarted fun u hu => hend hu)

end Functions

/-- **The whole production.** -/
theorem twp_produce (frameBytes id cap lastId : ℕ) (status : ℤ) (headers : PhpHeaders)
    (ws : List Write) (ending : Option Thrown) (hwrote : ending = none ∨ written ws ≠ []) :
    pipeline.twp (produce frameBytes id status headers ws ending)
      (fun _ t => Finished (written ws) t) (.delivered id cap lastId) := by
  have hstart : Ready (streamBind id status headers) [] (.delivered id cap lastId) :=
    ⟨sound_delivered id cap lastId, rfl, rfl, rfl, rfl, fun _ => rfl⟩
  refine System.twp_bind (twp_runWrites ws hstart fun t b h ht hid hbytes => ?_)
  refine System.twp_bind (twp_streamUnbind ht fun u b' h' hu hid' hbytes' htail => ?_)
  replace hbytes : h' ++ b'.pending = written ws := hbytes'.trans hbytes
  have hid : b'.id = id := hid'.trans hid
  have hend := twp_endStream hu htail
  rw [hid, hbytes] at hend
  cases ending with
  | none => exact hend
  | some e =>
      dsimp only
      split_ifs with hnothing
      · -- nothing was written at all
        rw [hu.unopened hnothing.1, hnothing.2] at hbytes
        exact absurd hbytes.symm (hwrote.resolve_left (by simp))
      · exact hend

/-! ## The whole run -/

/-- What holds of the pipe whatever is called on it: the bytes in it are those it was handed, and it
remembers what these were when the entry was taken. -/
structure Flows (p : Pipe) : Prop where
  bytes : p.bytes = p.handed
  unclosed : p.entry ≠ none → p.closed = none
  closed : p.entry = none → ∃ v, p.closed = some v ∧ v <+: p.handed

/-- The pipe only ever gets more. -/
structure Grows (p q : Pipe) : Prop where
  handed : p.handed <+: q.handed
  closed : ∀ v, p.closed = some v → q.closed = some v

lemma Grows.refl (p : Pipe) : Grows p p := ⟨List.prefix_rfl, fun _ h => h⟩

lemma Grows.trans {p q r : Pipe} (h : Grows p q) (h' : Grows q r) : Grows p r :=
  ⟨h.handed.trans h'.handed, fun v hv => h'.closed v (h.closed v hv)⟩

/-- Handing over a frame. -/
lemma Flows.append {p q : Pipe} (hp : Flows p) (frame : PhpString)
    (hbytes : q.bytes = p.bytes ++ frame) (hhanded : q.handed = p.handed ++ frame)
    (hentry : q.entry = p.entry) (hclosed : q.closed = p.closed) : Flows q ∧ Grows p q := by
  have hprefix : p.handed <+: q.handed := hhanded ▸ List.prefix_append _ _
  refine ⟨⟨?_, ?_, ?_⟩, hprefix, fun v hv => hclosed.trans hv⟩
  · rw [hbytes, hhanded, hp.bytes]
  · rw [hentry, hclosed]
    exact hp.unclosed
  · rw [hentry, hclosed]
    intro hgone
    obtain ⟨v, hv, hle⟩ := hp.closed hgone
    exact ⟨v, hv, hle.trans hprefix⟩

/-- Taking the entry. -/
lemma Flows.take {p : Pipe} (hp : Flows p) (hopen : p.entry ≠ none) :
    Flows { p with entry := none, closed := some p.handed } ∧
      Grows p { p with entry := none, closed := some p.handed } := by
  refine ⟨⟨hp.bytes, fun h => absurd rfl h, fun _ => ⟨_, rfl, List.prefix_rfl⟩⟩,
    List.prefix_rfl, fun v hv => ?_⟩
  rw [hp.unclosed hopen] at hv
  cases hv

lemma Flows.perform {p : Pipe} (hp : Flows p) (c : Call) :
    Flows (Frames.perform p c).1 ∧ Grows p (Frames.perform p c).1 := by
  have hsame : Flows p ∧ Grows p p := ⟨hp, .refl p⟩
  cases c with
  | respondStart id status headers =>
      simp only [Frames.perform]
      split_ifs with hwhole
      · have hopen : p.entry ≠ none := by simp [hwhole.2]
        exact ⟨⟨hp.bytes, fun _ => hp.unclosed hopen, fun h => by cases h⟩, List.prefix_rfl,
          fun _ h => h⟩
      · exact hsame
  | respond id resp =>
      simp only [Frames.perform]
      split_ifs with hwhole
      · exact hp.take (by simp [hwhole.2])
      · exact hsame
  | respondEnd id =>
      simp only [Frames.perform]
      split_ifs with hstreaming
      · exact hp.take (by simp [hstreaming.2])
      · exact hsame
  | trySend id frame =>
      simp only [Frames.perform]
      split_ifs with hstreaming hroom
      · exact hp.append frame (by simp [Pipe.bytes, hroom.1]) rfl rfl rfl
      · exact hsame
      · exact hsame
  | submitSend id chunk =>
      exact hp.append chunk (by simp [Frames.perform, Pipe.bytes]) rfl rfl rfl

lemma Flows.outside {p q : Pipe} (hp : Flows p) {i : Outside}
    (hstep : Frames.outside p i = some q) : Flows q ∧ Grows p q := by
  obtain ⟨-, hentry, hhanded, hclosed⟩ := outside_fields hstep
  refine hp.append [] ?_ (hhanded.trans (List.append_nil _).symm) hentry hclosed
  rw [List.append_nil, outside_bytes hstep]

lemma flows_delivered (id cap lastId : ℕ) : Flows (Pipe.delivered id cap lastId) :=
  ⟨rfl, fun _ => rfl, fun h => by cases h⟩

section Runs

variable {α : Type} {x y : Config Pipe (Call ⊕ Result) Call Result Await Reply α}
  {as : List (Action Reply Outside)}

lemma flows_run (hx : Flows x.shared) (hrun : StepSystem.runFrom pipeline.step x as = some y) :
    Flows y.shared ∧ Grows x.shared y.shared := by
  refine StepSystem.invariant_of_run pipeline.step
    (I := fun y => Flows y.shared ∧ Grows x.shared y.shared) (fun y a y' hI hy => ?_)
    ⟨hx, .refl _⟩ hrun
  rcases atomicSystem_shared hy with hsame | ⟨i, henv⟩ | ⟨c, hcall⟩
  · rw [hsame]
    exact hI
  · obtain ⟨hflows, hgrows⟩ := hI.1.outside henv
    exact ⟨hflows, hI.2.trans hgrows⟩
  · rw [hcall]
    obtain ⟨hflows, hgrows⟩ := hI.1.perform c
    exact ⟨hflows, hI.2.trans hgrows⟩

end Runs

/-- The client takes what is left in the queue. -/
lemma Finished.drains {w : PhpString} {p : Pipe} (hp : Finished w p) :
    ∃ u, pipeline.Drift p u ∧ u.ended = true := by
  induction hq : p.queue generalizing p with
  | nil => exact ⟨p, .refl p, by simp [Pipe.ended, hp.entry, hp.idle, hq]⟩
  | cons frame queue ih =>
      have hstep : outside p .receive
          = some { p with queue := queue, received := p.received ++ [frame] } := by
        simp only [outside, hq]
      have hp' : Finished w { p with queue := queue, received := p.received ++ [frame] } :=
        ⟨hp.idle, hp.entry, hp.handed, hp.closed⟩
      obtain ⟨u, hu, hended⟩ := ih hp' rfl
      exact ⟨u, System.Drift.head (i := .receive) hstep hu, hended⟩

/-- **A streamed body arrives as it was written.**  A producer makes any writes and then returns, or
throws once it has written a byte.  Whatever the capacity of the queue, the frame threshold and the
pace of the client: what the client has received is at any time the beginning of what was written;
when its body ends it is all of it; and from wherever the response stands, its end can be
reached. -/
theorem streamed_body_arrives (frameBytes id cap lastId : ℕ) (status : ℤ) (headers : PhpHeaders)
    (ws : List Write) (ending : Option Thrown) (hwrote : ending = none ∨ written ws ≠ [])
    {x : Config Pipe (Call ⊕ Result) Call Result Await Reply (Except Thrown Unit)}
    {as : List (Action Reply Outside)}
    (hrun : StepSystem.runFrom pipeline.step
      ⟨.delivered id cap lastId, .running (produce frameBytes id status headers ws ending)⟩ as
        = some x) :
    x.shared.received.flatten <+: written ws ∧
      (x.shared.ended = true → x.shared.received.flatten = written ws) ∧
      ∃ bs y, StepSystem.runFrom pipeline.step x bs = some y ∧ y.shared.ended = true := by
  have hleft := StepSystem.invariant_of_run pipeline.step
    (fun _ _ _ => (pipeline.closed_twp _).step)
    (show pipeline.Left _ ⟨_, .running _⟩ from
      twp_produce frameBytes id cap lastId status headers ws ending hwrote) hrun
  obtain ⟨hflows, -⟩ := flows_run (flows_delivered id cap lastId) hrun
  -- from here the production can come to its end, and that tells what has happened so far
  obtain ⟨bs, t, a, hrest, hfinished⟩ := System.finishes atomicSystem_returns hleft
  obtain ⟨-, hgrows⟩ := flows_run hflows hrest
  have hhanded : x.shared.handed <+: written ws := hfinished.handed ▸ hgrows.handed
  have hbytes : x.shared.received.flatten <+: x.shared.handed := by
    rw [← hflows.bytes, Pipe.bytes, List.append_assoc]
    exact List.prefix_append _ _
  refine ⟨hbytes.trans hhanded, fun hended => ?_, ?_⟩
  · simp only [Pipe.ended, Bool.and_eq_true, Option.isNone_iff_eq_none, List.isEmpty_iff] at hended
    obtain ⟨⟨hgone, hqueue⟩, hsending⟩ := hended
    obtain ⟨v, hv, hle⟩ := hflows.closed hgone
    have hv' : v = written ws :=
      Option.some.inj ((hgrows.closed v hv).symm.trans hfinished.closed)
    have hall : x.shared.handed = written ws :=
      hhanded.eq_of_length_le (hv' ▸ hle).length_le
    rw [← hall, ← hflows.bytes, Pipe.bytes, hqueue, hsending]
    simp
  · obtain ⟨u, hdrift, hended⟩ := hfinished.drains
    obtain ⟨cs, hcs⟩ := System.runFrom_drift hdrift (.running (.done a))
    exact ⟨bs ++ cs, _, StepSystem.runFrom_append pipeline.step hrest hcs, hended⟩

/-- The fiber alone until a chunk has to wait in an op, then a client that takes its time. -/
def slowly : List (Caller.Action Reply Outside) :=
  List.flatten [List.replicate 15 .own,
    [.env .receive, .env .room, .reply .completed, .env .receive], List.replicate 6 .own,
    [.env .receive]]

/-- With room for one frame, a chunk waits in an op, and the producer ends with a byte still in its
binding. -/
theorem streamed_body_arrives_slowly : ∃ x, StepSystem.runFrom pipeline.step
    ⟨.delivered 1 1 0, .running (produce 2 1 200 []
      [.echo [1], .write [2, 3], .write [4], .flush, .echo [5]] none)⟩ slowly = some x ∧
    x.shared.received.length = 3 ∧ x.shared.received.flatten = [1, 2, 3, 4, 5] := by
  have hrun : ∃ x, StepSystem.runFrom pipeline.step
      ⟨.delivered 1 1 0, .running (produce 2 1 200 []
        [.echo [1], .write [2, 3], .write [4], .flush, .echo [5]] none)⟩ slowly = some x ∧
      x.shared.ended = true ∧ x.shared.received.length = 3 := ⟨_, rfl, rfl, rfl⟩
  obtain ⟨x, hrun, hended, hframes⟩ := hrun
  refine ⟨x, hrun, hframes, ?_⟩
  exact (streamed_body_arrives 2 1 1 0 200 [] _ none (.inl rfl) hrun).2.1 hended

end Ignis.Frames
