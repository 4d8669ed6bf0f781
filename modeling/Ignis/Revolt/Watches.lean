import Ignis.Revolt.Driver

/-!
# Watches stay armed

What the driver writes down of its watches (`Books`) is right in every run: `pendingWatch` and
`watchOf` are inverse to each other and speak of enabled callbacks only, and a watch that is not
pending any more has enqueued its callback, once, or was called off.

What it believes of the reactor is right only as long as every completion of a pending watch comes
back (`Live`).  An error does not: `ignis_poll` keeps it for a fiber that is parked on the op, and
there is none.  The watch stays pending, and its callback is never armed again (`watch_lost`).
-/

namespace Ignis

namespace Revolt

open StepSystem Fallible

/-! ## Two arrays that are inverse to each other -/

lemma of_get?_unset {κ α : Type} [DecidableEq κ] {m : OrdMap κ α} {k k' : κ} {v : α}
    (h : (m.unset k).get? k' = some v) : k' ≠ k ∧ m.get? k' = some v := by
  rw [OrdMap.get?_unset] at h
  split_ifs at h with heq
  exact ⟨heq, h⟩

section Inverse

variable {κ α : Type} [DecidableEq κ] [DecidableEq α] {f : OrdMap κ α} {g : OrdMap α κ}

lemma inverse_set (h : ∀ k a, f.get? k = some a ↔ g.get? a = some k) {k : κ} {a : α}
    (hk : f.get? k = none) (ha : g.get? a = none) (k' : κ) (a' : α) :
    (f.set k a).get? k' = some a' ↔ (g.set a k).get? a' = some k' := by
  rw [OrdMap.get?_set, OrdMap.get?_set]
  by_cases hkk : k' = k
  · by_cases haa : a' = a
    · simp [hkk, haa]
    · have hnot : g.get? a' ≠ some k := fun hg => by
        rw [(h k a').mpr hg] at hk
        cases hk
      simp [hkk, haa, hnot, Ne.symm haa]
  · by_cases haa : a' = a
    · have hnot : f.get? k' ≠ some a := fun hf => by
        rw [(h k' a).mp hf] at ha
        cases ha
      simp [hkk, haa, hnot, Ne.symm hkk]
    · simp only [hkk, haa, if_false]
      exact h k' a'

lemma inverse_unset (h : ∀ k a, f.get? k = some a ↔ g.get? a = some k) {k : κ} {a : α}
    (hka : f.get? k = some a) (k' : κ) (a' : α) :
    (f.unset k).get? k' = some a' ↔ (g.unset a).get? a' = some k' := by
  have hak := (h k a).mp hka
  rw [OrdMap.get?_unset, OrdMap.get?_unset]
  by_cases hkk : k' = k
  · by_cases haa : a' = a
    · simp [hkk, haa]
    · have hnot : g.get? a' ≠ some k := fun hg => by
        have hf := (h k a').mpr hg
        rw [hka] at hf
        exact haa (Option.some.inj hf).symm
      simp [hkk, haa, hnot]
  · by_cases haa : a' = a
    · have hnot : f.get? k' ≠ some a := fun hf => by
        have hg := (h k' a).mp hf
        rw [hak] at hg
        exact hkk (Option.some.inj hg).symm
      simp [hkk, haa, hnot]
    · simp only [hkk, haa, if_false]
      exact h k' a'

end Inverse

/-! ## The books of the driver -/

/-- The ids somebody has taken and the driver's thread may come by. -/
def State.known (s : State) : List ℕ :=
  s.armed.map Prod.fst ++ s.parked ++ s.reserved
    ++ (s.channel ++ s.pc.todo ++ s.delivered).map Completion.id

/-- A pending watch counts once, as an enqueued callback and one that was called off do. -/
def State.fates (s : State) (op : ℕ) : ℕ :=
  (s.pendingWatch.has op).toNat + (s.enqueued.map Prod.fst).count op
    + s.calledOff.count op

structure Books (s : State) : Prop where
  disp : Dispatcher.Inv s.disp
  inverse : ∀ op id, s.pendingWatch.get? op = some id ↔ s.watchOf.get? id = some op
  enabled : ∀ op id, s.pendingWatch.get? op = some id → s.streamCallbacks.has id = true
  keyed : s.Keyed
  known_lt : ∀ id ∈ s.known, id < s.disp.nextId
  parked : ∀ id ∈ s.parked, id ∉ s.armed.map Prod.fst
  armed_nodup : (s.armed.map Prod.fst).Nodup
  fates : ∀ op, s.fates op = (s.armed.map Prod.fst).count op
  pending_armed : ∀ op id, s.pendingWatch.get? op = some id → (op, id) ∈ s.armed
  own : ∀ op c, (op, c) ∈ s.enqueued → (op, c.id) ∈ s.armed
  heard : ∀ c ∈ s.delivered, c.outcome = .ready → s.pendingWatch.has c.id = true →
    s.pc.events.has c.id = true

lemma books_init : Books init where
  disp := Dispatcher.inv_init
  inverse := by simp [init]
  enabled := by simp [init]
  keyed := by simp [init, State.Keyed]
  known_lt := by simp [init, State.known, Pc.todo]
  parked := by simp [init]
  armed_nodup := by simp [init]
  fates := by simp [init, State.fates]
  pending_armed := by simp [init]
  own := by simp [init]
  heard := by simp [init]

/-- A step of the reactor, or of others that use it. -/
lemma Books.reactor {s : State} (h : Books s) {d : Dispatcher.State} {channel : List Completion}
    {reserved parked : List ℕ} (hd : Dispatcher.Inv d) (hle : s.disp.nextId ≤ d.nextId)
    (hchannel : ∀ c ∈ channel, c ∈ s.channel ∨ c.id < d.nextId)
    (hreserved : ∀ id ∈ reserved, id ∈ s.reserved ∨ id < d.nextId)
    (hparked : ∀ id ∈ parked, id ∈ s.parked ∨ id < d.nextId ∧ id ∉ s.armed.map Prod.fst) :
    Books { s with disp := d, channel := channel, reserved := reserved, parked := parked } := by
  refine { h with disp := hd, known_lt := fun id hid => ?_, parked := fun id hid => ?_ }
  · have hlt : ∀ {i}, i ∈ s.known → i < d.nextId := fun hi => (h.known_lt _ hi).trans_le hle
    simp only [State.known, List.mem_append, List.map_append] at hid hlt
    rcases hid with ((hid | hid) | hid) | ((hid | hid) | hid)
    · exact hlt (.inl (.inl (.inl hid)))
    · rcases hparked id hid with hold | hnew
      · exact hlt (.inl (.inl (.inr hold)))
      · exact hnew.1
    · rcases hreserved id hid with hold | hnew
      · exact hlt (.inl (.inr hold))
      · exact hnew
    · obtain ⟨c, hc, rfl⟩ := List.mem_map.mp hid
      rcases hchannel c hc with hold | hnew
      · exact hlt (.inr (.inl (.inl (List.mem_map_of_mem hold))))
      · exact hnew
    · exact hlt (.inr (.inl (.inr hid)))
    · exact hlt (.inr (.inr hid))
  · rcases hparked id hid with hold | hnew
    · exact h.parked id hold
    · exact hnew.2

/-- A watch of an op that nobody has heard of. -/
lemma Books.watched {s : State} (h : Books s) {op : ℕ} {c : StreamCallback}
    (hlt : op < s.disp.nextId) (harmed : op ∉ s.armed.map Prod.fst) (hparked : op ∉ s.parked)
    (hdelivered : ∀ d ∈ s.delivered, d.id ≠ op) (hno : s.watchOf.get? c.id = none)
    (hon : s.streamCallbacks.has c.id = true) : Books (s.watched op c) := by
  have hfresh : s.pendingWatch.get? op = none := by
    cases hget : s.pendingWatch.get? op with
    | none => rfl
    | some id => exact absurd (List.mem_map_of_mem (h.pending_armed op id hget)) harmed
  have hmem : ∀ i, i ∈ (s.watched op c).armed.map Prod.fst ↔ i ∈ s.armed.map Prod.fst ∨ i = op := by
    intro i
    simp [State.watched]
  refine { h with
    inverse := ?_, enabled := ?_, known_lt := ?_, parked := ?_, armed_nodup := ?_, fates := ?_,
    pending_armed := ?_, own := ?_, heard := ?_ }
  · exact inverse_set h.inverse hfresh hno
  · intro i id hget
    rw [State.watched, OrdMap.get?_set] at hget
    split_ifs at hget with heq
    · obtain rfl := Option.some.inj hget
      exact hon
    · exact h.enabled i id hget
  · intro i hi
    simp only [State.known, List.mem_append] at hi
    rw [hmem] at hi
    have hknown := h.known_lt i
    simp only [State.known, List.mem_append] at hknown
    rcases hi with (((hi | rfl) | hi) | hi) | hi
    · exact hknown (.inl (.inl (.inl hi)))
    · exact hlt
    · exact hknown (.inl (.inl (.inr hi)))
    · exact hknown (.inl (.inr hi))
    · exact hknown (.inr hi)
  · intro i hi hm
    rcases (hmem i).mp hm with hm | rfl
    · exact h.parked i hi hm
    · exact hparked hi
  · have hnodup := h.armed_nodup
    simp only [State.watched, List.map_append, List.map_cons, List.map_nil]
    exact List.nodup_append'.mpr ⟨hnodup, List.nodup_singleton _, by simpa using harmed⟩
  · intro i
    have hf := h.fates i
    simp only [State.fates, State.watched, List.map_append, List.map_cons, List.map_nil,
      List.count_append, OrdMap.has, OrdMap.get?_set] at hf ⊢
    by_cases heq : i = op
    · subst heq
      simp only [hfresh] at hf
      simp at hf ⊢
      omega
    · simp only [heq, if_false, List.count_singleton, beq_iff_eq, Ne.symm heq]
      exact hf
  · intro i id hget
    rw [State.watched, OrdMap.get?_set] at hget
    split_ifs at hget with heq
    · obtain rfl := Option.some.inj hget
      exact List.mem_append_right _ (heq ▸ List.mem_singleton_self _)
    · exact List.mem_append_left _ (h.pending_armed i id hget)
  · exact fun i c' hc' => List.mem_append_left _ (h.own i c' hc')
  · intro d hd hready hpending
    have hne := hdelivered d hd
    rw [State.watched, OrdMap.has, OrdMap.get?_set, if_neg hne] at hpending
    exact h.heard d hd hready hpending

/-- A watch that is no longer pending: it has enqueued its callback, or was called off. -/
lemma Books.ended {s s' : State} (h : Books s) {op : ℕ} {id : CallbackId}
    (hop : s.pendingWatch.get? op = some id)
    (hpending : s'.pendingWatch = s.pendingWatch.unset op)
    (hwatch : s'.watchOf = s.watchOf.unset id)
    (hcallbacks : s'.streamCallbacks = s.streamCallbacks
      ∨ s'.streamCallbacks = s.streamCallbacks.unset id)
    (hdisp : s'.disp = s.disp) (hknown : s'.known = s.known) (hparked : s'.parked = s.parked)
    (harmed : s'.armed = s.armed) (hdelivered : s'.delivered = s.delivered) (hpc : s'.pc = s.pc)
    (hfates : ∀ i, (s'.enqueued.map Prod.fst).count i + s'.calledOff.count i
      = (s.enqueued.map Prod.fst).count i + s.calledOff.count i + if i = op then 1 else 0)
    (hown : ∀ i c, (i, c) ∈ s'.enqueued → (i, c) ∈ s.enqueued ∨ i = op ∧ c.id = id) :
    Books s' := by
  have hget : ∀ i id', s'.pendingWatch.get? i = some id' →
      i ≠ op ∧ s.pendingWatch.get? i = some id' := by
    intro i id' hi
    rw [hpending] at hi
    exact of_get?_unset hi
  have hwatched := (h.inverse op id).mp hop
  refine {
    disp := hdisp ▸ h.disp
    inverse := ?_, enabled := ?_, keyed := ?_
    known_lt := by rw [hknown, hdisp]; exact h.known_lt
    parked := by rw [hparked, harmed]; exact h.parked
    armed_nodup := harmed ▸ h.armed_nodup
    fates := ?_, pending_armed := ?_, own := ?_, heard := ?_ }
  · rw [hpending, hwatch]
    exact inverse_unset h.inverse hop
  · intro i id' hi
    obtain ⟨hne, hold⟩ := hget i id' hi
    have hid : id' ≠ id := by
      rintro rfl
      exact hne (Option.some.inj (((h.inverse i id').mp hold).symm.trans hwatched))
    have hon := h.enabled i id' hold
    rcases hcallbacks with hc | hc
    · rw [hc]
      exact hon
    · rw [hc]
      exact OrdMap.has_unset.mpr ⟨hid, hon⟩
  · intro id' c hc
    rcases hcallbacks with hcs | hcs
    · exact h.keyed id' c (hcs ▸ hc)
    · rw [hcs] at hc
      exact h.keyed id' c (of_get?_unset hc).2
  · intro i
    have hf := h.fates i
    have hf' := hfates i
    simp only [State.fates, harmed, hpending, OrdMap.has, OrdMap.get?_unset] at hf hf' ⊢
    by_cases heq : i = op
    · subst heq
      simp only [hop, if_true, Option.isSome_some, Option.isSome_none, Bool.toNat_true,
        Bool.toNat_false] at hf hf' ⊢
      omega
    · simp only [heq, if_false] at hf hf' ⊢
      omega
  · intro i id' hi
    rw [harmed]
    exact h.pending_armed i id' (hget i id' hi).2
  · intro i c hc
    rw [harmed]
    rcases hown i c hc with hold | ⟨rfl, rfl⟩
    · exact h.own i c hold
    · exact h.pending_armed i c.id hop
  · intro c hc hready hhas
    rw [hdelivered] at hc
    rw [hpc]
    obtain ⟨id', hi⟩ := OrdMap.has_iff.mp hhas
    exact h.heard c hc hready (OrdMap.has_iff.mpr ⟨id', (hget c.id id' hi).2⟩)

lemma mem_known {s : State} {id : ℕ} :
    id ∈ s.known ↔ id ∈ s.armed.map Prod.fst ∨ id ∈ s.parked ∨ id ∈ s.reserved
      ∨ ∃ c, (c ∈ s.channel ∨ c ∈ s.pc.todo ∨ c ∈ s.delivered) ∧ c.id = id := by
  simp [State.known, or_and_right, exists_or]

/-- The next id is nobody's. -/
lemma Books.fresh {s : State} (h : Books s) :
    s.disp.nextId ∉ s.armed.map Prod.fst ∧ s.disp.nextId ∉ s.parked
      ∧ ∀ c ∈ s.delivered, c.id ≠ s.disp.nextId := by
  have hnot : s.disp.nextId ∉ s.known := fun hm => Nat.lt_irrefl _ (h.known_lt _ hm)
  rw [mem_known] at hnot
  refine ⟨fun hm => hnot (.inl hm), fun hm => hnot (.inr (.inl hm)), fun c hc heq => ?_⟩
  exact hnot (.inr (.inr (.inr ⟨c, .inr (.inr hc), heq⟩)))

/-- The thread goes on; what it has taken of the channel it has in hand. -/
lemma Books.thread {s : State} (h : Books s) {pc : Pc} {channel : List Completion}
    (hknown : ∀ c, c ∈ channel ∨ c ∈ pc.todo → c ∈ s.channel ∨ c ∈ s.pc.todo)
    (hevents : ∀ op, s.pendingWatch.has op = true → s.pc.events.has op = true →
      pc.events.has op = true) :
    Books { s with pc := pc, channel := channel } := by
  refine { h with
    known_lt := fun id hid => h.known_lt id (mem_known.mpr ?_)
    heard := fun c hc hready hpending => hevents c.id hpending (h.heard c hc hready hpending) }
  rcases mem_known.mp hid with hid | hid | hid | ⟨c, hc, hid⟩
  · exact .inl hid
  · exact .inr (.inl hid)
  · exact .inr (.inr (.inl hid))
  · refine .inr (.inr (.inr ⟨c, ?_, hid⟩))
    rcases hc with hc | hc | hc
    · exact (hknown c (.inl hc)).imp_right .inl
    · exact (hknown c (.inr hc)).imp_right .inl
    · exact .inr (.inr hc)

lemma inv_submit {s : State} (h : Dispatcher.Inv s.disp) (op : Op) :
    Dispatcher.Inv (s.submit op).disp := by
  rw [State.submit]
  dsimp only
  split_ifs
  · exact Dispatcher.inv_reserve h
  · exact Dispatcher.inv_submit h op

lemma nextId_submit (s : State) (op : Op) : (s.submit op).disp.nextId = s.disp.nextId + 1 := by
  rw [State.submit]
  dsimp only
  split_ifs <;> rfl

lemma books_submit {s : State} (h : Books s) (op : Op) : Books (s.submit op) :=
  h.reactor (inv_submit h.disp op) (nextId_submit s op ▸ Nat.le_succ _) (fun _ hc => .inl hc)
    (fun _ hid => .inl hid) fun _ hid => .inl hid

lemma books_completeNew {s : State} (h : Books s) (outcome : Outcome) :
    Books (s.completeNew outcome) := by
  refine h.reactor (Dispatcher.inv_reserve h.disp) (Nat.le_succ _) (fun c hc => ?_)
    (fun _ hid => .inl hid) fun _ hid => .inl hid
  rcases List.mem_append.mp hc with hc | hc
  · exact .inl hc
  · obtain rfl := List.mem_singleton.mp hc
    exact .inr (Nat.lt_succ_self _)

theorem books_move {s s' : State} (h : Books s) (hmove : Move s s') : Books s' := by
  obtain ⟨harmed, hparked, hdelivered⟩ := h.fresh
  cases hmove with
  | enable c =>
      refine { h with enabled := fun op id hop => ?_, keyed := fun id c' hc' => ?_ }
      · exact OrdMap.has_set.mpr (.inr (h.enabled op id hop))
      · rw [OrdMap.get?_set] at hc'
        split_ifs at hc' with heq
        · obtain rfl := Option.some.inj hc'
          exact heq.symm
        · exact h.keyed id c' hc'
  | disable c hno =>
      refine { h with enabled := fun op id hop => ?_, keyed := fun id c' hc' => ?_ }
      · refine OrdMap.has_unset.mpr ⟨?_, h.enabled op id hop⟩
        rintro rfl
        exact absurd (hno.symm.trans ((h.inverse op c.id).mp hop)) (by simp)
      · exact h.keyed id c' (of_get?_unset hc').2
  | watchReady c hno hon =>
      exact (books_completeNew h .ready).watched (Nat.lt_succ_self _) harmed hparked hdelivered hno
        hon
  | watch c op hno hon =>
      exact (books_submit h op).watched (nextId_submit s op ▸ Nat.lt_succ_self _) harmed hparked
        hdelivered hno hon
  | @callOff op c hop =>
      refine h.ended ((h.inverse op c.id).mpr hop) rfl rfl (.inr rfl) rfl rfl rfl rfl rfl rfl
        (fun i => ?_) fun i c' hc' => .inl hc'
      rw [List.count_append, List.count_singleton]
      by_cases heq : i = op
      · simp [heq]
        omega
      · simp [heq, Ne.symm heq]
  | @enqueue op id c hop hc =>
      refine h.ended hop rfl rfl (.inl rfl) rfl rfl rfl rfl rfl rfl (fun i => ?_)
        fun i c' hc' => ?_
      · simp only [List.map_append, List.map_cons, List.map_nil, List.count_append,
          List.count_singleton]
        by_cases heq : i = op
        · simp [heq]
          omega
        · simp [heq, Ne.symm heq]
      · rcases List.mem_append.mp hc' with hold | hnew
        · exact .inl hold
        · obtain ⟨rfl, rfl⟩ := Prod.mk.injEq .. ▸ List.mem_singleton.mp hnew
          exact .inr ⟨rfl, h.keyed id c' hc⟩
  | @release op id hop hoff =>
      have hon := h.enabled op id hop
      rw [OrdMap.has, hoff] at hon
      cases hon
  | block hpc =>
      refine h.thread (fun c hc => ?_) fun op _ hev => ?_
      · rw [hpc]
        exact hc
      · rw [hpc] at hev
        exact hev
  | poll n hpc =>
      refine h.thread (fun c hc => .inl ?_) fun op _ hev => ?_
      · rcases hc with hc | hc
        · exact List.mem_of_mem_drop hc
        · exact List.mem_of_mem_take hc
      · rw [hpc] at hev
        exact hev
  | finish hpc hdone =>
      refine h.thread (fun c hc => ?_) fun op hpending hev => ?_
      · exact hc.imp_right fun hc => absurd hc List.not_mem_nil
      · rw [hpc] at hev
        rw [OrdMap.has, hdone op hev] at hpending
        cases hpending
  | submit op => exact books_submit h op
  | reserve =>
      refine h.reactor (Dispatcher.inv_reserve h.disp) (Nat.le_succ _) (fun _ hc => .inl hc)
        (fun id hid => ?_) fun _ hid => .inl hid
      rcases List.mem_append.mp hid with hid | hid
      · exact .inl hid
      · obtain rfl := List.mem_singleton.mp hid
        exact .inr (Nat.lt_succ_self _)
  | complete c hid =>
      refine h.reactor h.disp le_rfl (fun c' hc' => ?_)
        (fun i hi => .inl (List.mem_filter.mp hi).1) fun _ hi => .inl hi
      rcases List.mem_append.mp hc' with hc' | hc'
      · exact .inl hc'
      · obtain rfl := List.mem_singleton.mp hc'
        exact .inr (h.known_lt _ (mem_known.mpr (.inr (.inr (.inl hid)))))
  | park id hlt hid =>
      refine h.reactor h.disp le_rfl (fun _ hc => .inl hc) (fun _ hi => .inl hi) fun i hi => ?_
      rcases List.mem_append.mp hi with hi | hi
      · exact .inl hi
      · obtain rfl := List.mem_singleton.mp hi
        exact .inr ⟨hlt, hid⟩
  | tokio ha hd =>
      obtain ⟨hnext, -, -⟩ := Dispatcher.tokio_frame ha hd
      have hinv := Dispatcher.inv_step h.disp hd
      refine h.reactor hinv hnext.ge (fun c hc => ?_) (fun _ hi => .inl hi) fun _ hi => .inl hi
      rcases List.mem_append.mp hc with hc | hc
      · exact .inl hc
      · exact .inr (hinv.submitted_lt _
          (Reactor.mem_submitted_of_sent hinv (List.mem_of_mem_drop hc)))

/-- What the poll makes of a completion: part of its array, or nothing. -/
lemma hear_cases (s : State) (c : Completion) (todo : List Completion)
    (events : OrdMap ℕ Outcome) :
    hear s c todo events = { s with
        delivered := s.delivered ++ [c]
        pc := .delivering todo (events.set c.id c.outcome) }
      ∨ ((∃ message, c.outcome = .error message) ∨ c.id ∈ s.parked)
        ∧ hear s c todo events = { s with
            delivered := s.delivered ++ [c]
            parked := s.parked.filter fun id => id ≠ c.id
            pc := .delivering todo events } := by
  rw [hear]
  cases hout : c.outcome with
  | error message => exact .inr ⟨.inl ⟨message, rfl⟩, rfl⟩
  | slept _ | ready =>
      by_cases hparked : c.id ∈ s.parked
      · exact .inr ⟨.inr hparked, if_pos hparked⟩
      · exact .inl (if_neg hparked)
  | _ => exact .inl rfl

lemma books_hear {s : State} (h : Books s) {c : Completion} {todo : List Completion}
    {events : OrdMap ℕ Outcome} (hpc : s.pc = .delivering (c :: todo) events) :
    Books (hear s c todo events) := by
  have hknown : ∀ id, (∃ d, (d ∈ s.channel ∨ d ∈ todo ∨ d ∈ s.delivered ++ [c]) ∧ d.id = id) →
      ∃ d, (d ∈ s.channel ∨ d ∈ s.pc.todo ∨ d ∈ s.delivered) ∧ d.id = id := by
    rintro id ⟨d, hd, rfl⟩
    refine ⟨d, ?_, rfl⟩
    rw [hpc]
    rcases hd with hd | hd | hd
    · exact .inl hd
    · exact .inr (.inl (List.mem_cons_of_mem c hd))
    · rcases List.mem_append.mp hd with hd | hd
      · exact .inr (.inr hd)
      · exact .inr (.inl (List.mem_singleton.mp hd ▸ List.mem_cons_self))
  have hevents : ∀ d ∈ s.delivered, d.outcome = .ready → s.pendingWatch.has d.id = true →
      events.has d.id = true := by
    intro d hd hready hpending
    have hev := h.heard d hd hready hpending
    rw [hpc] at hev
    exact hev
  rcases hear_cases s c todo events with heq | ⟨hgone, heq⟩
  · rw [heq]
    refine { h with known_lt := fun id hid => ?_, heard := fun d hd hready hpending => ?_ }
    · refine h.known_lt id (mem_known.mpr ?_)
      exact (mem_known.mp hid).imp_right (Or.imp_right (Or.imp_right (hknown id)))
    · rcases List.mem_append.mp hd with hd | hd
      · exact OrdMap.has_set.mpr (.inr (hevents d hd hready hpending))
      · exact OrdMap.has_set.mpr (.inl (by rw [List.mem_singleton.mp hd]))
  · rw [heq]
    refine { h with
      known_lt := fun id hid => ?_
      parked := fun id hid => h.parked id (List.mem_filter.mp hid).1
      heard := fun d hd hready hpending => ?_ }
    · refine h.known_lt id (mem_known.mpr ?_)
      refine (mem_known.mp hid).imp_right (Or.imp (fun hid => (List.mem_filter.mp hid).1) ?_)
      exact Or.imp_right (hknown id)
    · rcases List.mem_append.mp hd with hd | hd
      · exact hevents d hd hready hpending
      · -- No fiber parks on a watch of the driver, and an error is no readiness.
        obtain rfl := List.mem_singleton.mp hd
        obtain ⟨id, hop⟩ := OrdMap.has_iff.mp hpending
        rcases hgone with ⟨message, hmessage⟩ | hparked
        · rw [hready] at hmessage
          cases hmessage
        · exact absurd (List.mem_map_of_mem (h.pending_armed d.id id hop)) (h.parked d.id hparked)

lemma books_moves {s s' : State} (h : Books s) (hmoves : Moves s s') : Books s' := by
  induction hmoves with
  | refl => exact h
  | tail _ hmove ih => exact books_move ih hmove

lemma books_step {s s' : State} {a : Action} (h : Books s) (hs : step s a = some s') :
    Books s' := by
  rcases step_cases h.keyed hs with hmoves | ⟨c, todo, events, -, hpc, rfl⟩ | ⟨-, rfl⟩
  · exact books_moves h hmoves
  · exact books_hear h hpc
  · exact { h with }

theorem books_run {s : State} {as : List Action} (h : runFrom step init as = some s) : Books s :=
  invariant_of_run step (fun _ _ _ => books_step) books_init h

/-! ## Each readiness enqueues once -/

structure EnqueuedOnce (s : State) : Prop where
  atMostOnce : ∀ op, (s.enqueued.map Prod.fst).count op ≤ 1
  own : ∀ op c, (op, c) ∈ s.enqueued → (op, c.id) ∈ s.armed
  /-- A readiness that the poll has returned, of a watch that was not called off before. -/
  ready : ∀ op id, (op, id) ∈ s.armed → ⟨op, .ready⟩ ∈ s.delivered → s.pc.events.has op = false →
    op ∉ s.calledOff → op ∈ s.enqueued.map Prod.fst
  late : ∀ op ∈ s.calledOff, op ∉ s.enqueued.map Prod.fst

lemma Books.fates_le {s : State} (h : Books s) (op : ℕ) : s.fates op ≤ 1 := by
  rw [h.fates op]
  exact List.nodup_iff_count_le_one.mp h.armed_nodup op

lemma enqueuedOnce_of_books {s : State} (h : Books s) : EnqueuedOnce s where
  atMostOnce := fun op => by
    have hle := h.fates_le op
    unfold State.fates at hle
    omega
  own := h.own
  ready := fun op id harmed hready hevents hoff => by
    have hfates := h.fates op
    have hcount := List.count_eq_one_of_mem h.armed_nodup (List.mem_map_of_mem harmed)
    have hpending : s.pendingWatch.has op = false := by
      by_contra hnot
      have hev := h.heard _ hready rfl (Bool.not_eq_false _ ▸ hnot)
      exact absurd (hevents.symm.trans hev) (by decide)
    rw [hcount, State.fates, hpending, List.count_eq_zero_of_not_mem hoff,
      Bool.toNat_false] at hfates
    exact List.count_pos_iff.mp (by omega)
  late := fun op hoff hmem => by
    have hle := h.fates_le op
    have hoff' := List.count_pos_iff.mpr hoff
    have hmem' := List.count_pos_iff.mpr hmem
    unfold State.fates at hle
    omega

/-! ## Each pending watch is under way -/

/-- The completion of an op has not come to the driver yet. -/
def State.Underway (s : State) (op : ℕ) : Prop :=
  Dispatcher.owed s.disp op = 1 ∨ (∃ c, (c ∈ s.channel ∨ c ∈ s.pc.todo) ∧ c.id = op)
    ∨ s.pc.events.has op = true

/-- What a pending watch says to the driver. -/
structure Live (s : State) : Prop where
  running : s.gone = false
  underway : ∀ op id, s.pendingWatch.get? op = some id → s.Underway op

lemma owed_submit_of_ne {d : Dispatcher.State} {id : ℕ} (op : Op) (hne : id ≠ d.nextId) :
    Dispatcher.owed (d.submit op) id = Dispatcher.owed d id := by
  simp only [Dispatcher.owed, Dispatcher.State.submit, List.map_append, List.map_cons, List.map_nil,
    List.count_append, List.count_singleton, beq_iff_eq, hne.symm, if_false, Nat.add_zero]

lemma owed_submit_self {d : Dispatcher.State} (h : Dispatcher.Inv d) (op : Op) :
    Dispatcher.owed (d.submit op) d.nextId = 1 := by
  have hinv : Dispatcher.Inv (d.submit op) := Dispatcher.inv_submit h op
  have hunsent : Dispatcher.sentCount (d.submit op) d.nextId = 0 := by
    refine List.count_eq_zero.mpr fun hm => ?_
    obtain ⟨c, hc, hid⟩ := List.mem_map.mp hm
    exact absurd (h.submitted_lt _ (Reactor.mem_submitted_of_sent h hc)) (hid ▸ Nat.lt_irrefl _)
  have hmem : d.nextId ∈ (d.submit op).submitted :=
    List.mem_append_right _ (List.mem_singleton_self _)
  have hcons := hinv.conserved d.nextId
  rw [hunsent, if_pos hmem] at hcons
  omega

/-- A completion that was owed and is not any more has been sent. -/
lemma owed_or_sent {d d' : Dispatcher.State} {a : Dispatcher.Action} (h : Dispatcher.Inv d)
    (ha : a.isTokio = true) (hd : Dispatcher.step d a = some d') {op : ℕ}
    (hop : Dispatcher.owed d op = 1) :
    Dispatcher.owed d' op = 1 ∨ ∃ c ∈ d'.sent.drop d.sent.length, c.id = op := by
  obtain ⟨-, hsub, hsent⟩ := Dispatcher.tokio_frame ha hd
  have hcons := h.conserved op
  have hcons' := (Dispatcher.inv_step h hd).conserved op
  rw [hsub] at hcons'
  rcases hsent with hsent | ⟨c, hsent⟩
  · refine .inl ?_
    simp only [Dispatcher.sentCount, hsent] at hcons hcons'
    omega
  · by_cases hid : c.id = op
    · refine .inr ⟨c, ?_, hid⟩
      rw [hsent, List.drop_left]
      exact List.mem_singleton_self c
    · refine .inl ?_
      simp only [Dispatcher.sentCount, hsent, List.map_append, List.map_cons, List.map_nil,
        List.count_append, List.count_singleton, beq_iff_eq, hid, if_false] at hcons hcons'
      omega

/-- The thread goes on, and loses nothing of what it has in hand. -/
lemma Live.thread {s : State} (h : Live s) {pc : Pc} {channel : List Completion}
    (hkept : ∀ c, c ∈ s.channel ∨ c ∈ s.pc.todo → c ∈ channel ∨ c ∈ pc.todo)
    (hevents : ∀ op id, s.pendingWatch.get? op = some id → s.pc.events.has op = true →
      pc.events.has op = true) :
    Live { s with pc := pc, channel := channel } := by
  refine ⟨h.running, fun op id hop => ?_⟩
  rcases h.underway op id hop with howed | ⟨c, hc, hid⟩ | hev
  · exact .inl howed
  · exact .inr (.inl ⟨c, hkept c hc, hid⟩)
  · exact .inr (.inr (hevents op id hop hev))

/-- Fewer watches are pending. -/
lemma Live.fewer {s s' : State} (h : Live s) (hgone : s'.gone = s.gone)
    (hpending : ∀ op id, s'.pendingWatch.get? op = some id → s.pendingWatch.get? op = some id)
    (hdisp : s'.disp = s.disp) (hchannel : s'.channel = s.channel) (hpc : s'.pc = s.pc) :
    Live s' := by
  refine ⟨hgone.trans h.running, fun op id hop => ?_⟩
  have hunderway := h.underway op id (hpending op id hop)
  unfold State.Underway at hunderway ⊢
  rwa [hdisp, hchannel, hpc]

lemma live_submit {s : State} (hbooks : Books s) (h : Live s) (op : Op) : Live (s.submit op) := by
  refine ⟨h.running, fun i id hi => ?_⟩
  have hne : i ≠ s.disp.nextId := by
    rintro rfl
    exact hbooks.fresh.1 (List.mem_map_of_mem (hbooks.pending_armed _ id hi))
  refine (h.underway i id hi).imp_left fun howed => ?_
  rw [State.submit, h.running]
  exact (owed_submit_of_ne op hne).trans howed

lemma live_completeNew {s : State} (h : Live s) (outcome : Outcome) :
    Live (s.completeNew outcome) := by
  refine ⟨h.running, fun i id hi => (h.underway i id hi).imp_right (Or.imp_left ?_)⟩
  rintro ⟨c, hc, hid⟩
  exact ⟨c, hc.imp_left (List.mem_append_left _), hid⟩

lemma Live.watched {s : State} (h : Live s) {op : ℕ} (c : StreamCallback) (hop : s.Underway op) :
    Live (s.watched op c) := by
  refine ⟨h.running, fun i id hi => ?_⟩
  rw [State.watched, OrdMap.get?_set] at hi
  split_ifs at hi with heq
  · exact heq ▸ hop
  · exact h.underway i id hi

theorem live_move {s s' : State} (hbooks : Books s) (h : Live s) (hmove : Move s s') : Live s' := by
  cases hmove with
  | enable c => exact h.fewer rfl (fun _ _ hi => hi) rfl rfl rfl
  | disable c hno => exact h.fewer rfl (fun _ _ hi => hi) rfl rfl rfl
  | watchReady c hno hon =>
      refine (live_completeNew h .ready).watched c
        (.inr (.inl ⟨⟨s.disp.nextId, .ready⟩, .inl ?_, rfl⟩))
      exact List.mem_append_right _ (List.mem_singleton_self _)
  | watch c op hno hon =>
      refine (live_submit hbooks h op).watched c (.inl ?_)
      rw [State.submit, h.running]
      exact owed_submit_self hbooks.disp op
  | callOff c hop => exact h.fewer rfl (fun _ _ hi => (of_get?_unset hi).2) rfl rfl rfl
  | enqueue hop hc => exact h.fewer rfl (fun _ _ hi => (of_get?_unset hi).2) rfl rfl rfl
  | release hop hoff => exact h.fewer rfl (fun _ _ hi => (of_get?_unset hi).2) rfl rfl rfl
  | block hpc =>
      refine h.thread (fun c hc => ?_) fun op id _ hev => ?_
      · rw [hpc] at hc
        exact hc
      · rw [hpc] at hev
        exact hev
  | poll n hpc =>
      refine h.thread (fun c hc => ?_) fun op id _ hev => ?_
      · rw [hpc] at hc
        have hsplit : c ∈ s.channel.take n ++ s.channel.drop n := by
          rw [List.take_append_drop]
          exact hc.resolve_right List.not_mem_nil
        exact (List.mem_append.mp hsplit).symm
      · rw [hpc] at hev
        exact hev
  | finish hpc hdone =>
      refine h.thread (fun c hc => ?_) fun op id hop hev => ?_
      · rw [hpc] at hc
        exact hc
      · rw [hpc] at hev
        rw [hdone op hev] at hop
        cases hop
  | submit op => exact live_submit hbooks h op
  | reserve => exact ⟨h.running, h.underway⟩
  | complete c hid =>
      refine ⟨h.running, fun i id hi => (h.underway i id hi).imp_right (Or.imp_left ?_)⟩
      rintro ⟨d, hd, hid⟩
      exact ⟨d, hd.imp_left (List.mem_append_left _), hid⟩
  | park id hlt hid => exact ⟨h.running, h.underway⟩
  | tokio ha hd =>
      refine ⟨h.running, fun i id hi => ?_⟩
      rcases h.underway i id hi with howed | ⟨c, hc, hid⟩ | hev
      · refine (owed_or_sent hbooks.disp ha hd howed).imp_right fun ⟨c, hc, hid⟩ => ?_
        exact .inl ⟨c, .inl (List.mem_append_right _ hc), hid⟩
      · exact .inr (.inl ⟨c, hc.imp_left (List.mem_append_left _), hid⟩)
      · exact .inr (.inr hev)

lemma live_moves {s s' : State} (hbooks : Books s) (h : Live s) (hmoves : Moves s s') :
    Live s' := by
  induction hmoves with
  | refl => exact h
  | tail hmoves hmove ih => exact live_move (books_moves hbooks hmoves) ih hmove

/-- No error of a watch that the driver has pending is consumed, and the runtime runs. -/
def Heard (s : State) : Action → Prop
  | .hear =>
      match s.pc.todo with
      | ⟨op, .error _⟩ :: _ => s.pendingWatch.get? op = none
      | _ => True
  | .shutDown => False
  | _ => True

instance (s : State) (a : Action) : Decidable (Heard s a) := by
  unfold Heard
  split
  · split <;> infer_instance
  · infer_instance
  · infer_instance

lemma live_hear {s : State} (hbooks : Books s) (h : Live s) {c : Completion}
    {todo : List Completion} {events : OrdMap ℕ Outcome}
    (hpc : s.pc = .delivering (c :: todo) events)
    (hheard : ∀ message, c.outcome = .error message → s.pendingWatch.get? c.id = none) :
    Live (hear s c todo events) := by
  have hunderway : ∀ op id, s.pendingWatch.get? op = some id → Dispatcher.owed s.disp op = 1
      ∨ (∃ d, (d ∈ s.channel ∨ d ∈ todo) ∧ d.id = op) ∨ c.id = op ∨ events.has op = true := by
    intro op id hop
    have hold := h.underway op id hop
    unfold State.Underway at hold
    rw [hpc] at hold
    rcases hold with howed | ⟨d, hd | hd, hid⟩ | hev
    · exact .inl howed
    · exact .inr (.inl ⟨d, .inl hd, hid⟩)
    · rcases List.mem_cons.mp hd with rfl | hd
      · exact .inr (.inr (.inl hid))
      · exact .inr (.inl ⟨d, .inr hd, hid⟩)
    · exact .inr (.inr (.inr hev))
  rcases hear_cases s c todo events with heq | ⟨hgone, heq⟩
  · rw [heq]
    refine ⟨h.running, fun op id hop => (hunderway op id hop).imp_right (Or.imp_right ?_)⟩
    exact fun hev => OrdMap.has_set.mpr (hev.imp_left Eq.symm)
  · rw [heq]
    refine ⟨h.running, fun op id hop => (hunderway op id hop).imp_right (Or.imp_right ?_)⟩
    rintro (rfl | hev)
    · -- The completion is for a fiber, or is an error.
      rcases hgone with ⟨message, hmessage⟩ | hparked
      · exact absurd ((hheard message hmessage).symm.trans hop) (by simp)
      · exact absurd (List.mem_map_of_mem (hbooks.pending_armed c.id id hop))
          (hbooks.parked c.id hparked)
    · exact hev

lemma live_step {s s' : State} {a : Action} (h : Books s ∧ Live s) (hok : Heard s a)
    (hs : step s a = some s') : Books s' ∧ Live s' := by
  obtain ⟨hbooks, hlive⟩ := h
  refine ⟨books_step hbooks hs, ?_⟩
  rcases step_cases hbooks.keyed hs with hmoves | ⟨c, todo, events, rfl, hpc, rfl⟩ | ⟨rfl, -⟩
  · exact live_moves hbooks hlive hmoves
  · refine live_hear hbooks hlive hpc fun message hmessage => ?_
    obtain ⟨op, outcome⟩ := c
    obtain rfl : outcome = .error message := hmessage
    simp only [Heard, hpc, Pc.todo] at hok
    exact hok
  · exact hok.elim

/-! ## Before the driver blocks -/

/-- Every enabled callback whose stream is open has a watch whose completion is still to come, or
has been sent and not been received. -/
def InFlight (look : StreamCallback → Look) (s : State) : Prop :=
  ∀ id c, s.streamCallbacks.get? id = some c → look c ≠ .closed →
    ∃ op, s.watchOf.get? id = some op
      ∧ (Dispatcher.owed s.disp op = 1 ∨ op ∈ s.channel.map Completion.id)

lemma watched_of_arm {look : StreamCallback → Look} {s : State} {c : StreamCallback}
    {out : List ℕ} (h : (arm look s c).2 = .ok out) (hopen : look c ≠ .closed) :
    (arm look s c).1.watchOf.has c.id = true := by
  rw [arm] at h ⊢
  by_cases hwatch : s.watchOf.has c.id = true
  · rw [if_pos hwatch]
    exact hwatch
  · rw [if_neg hwatch] at h ⊢
    cases hlook : look c with
    | closed => exact absurd hlook hopen
    | noDescriptor =>
        rw [hlook] at h
        cases h
    | ready => exact OrdMap.has_set.mpr (.inl rfl)
    | notReady fd => exact OrdMap.has_set.mpr (.inl rfl)

lemma watchOf_arm {look : StreamCallback → Look} {s : State} {c : StreamCallback}
    {id : CallbackId} (h : s.watchOf.has id = true) :
    (arm look s c).1.watchOf.has id = true := by
  rw [arm]
  split_ifs
  · exact h
  · cases look c with
    | closed => exact h
    | noDescriptor => exact h
    | ready => exact OrdMap.has_set.mpr (.inr h)
    | notReady fd => exact OrdMap.has_set.mpr (.inr h)

/-- A loop over the callbacks that ends leaves none of them without a watch. -/
lemma watched_of_forEach_arm {look : StreamCallback → Look} {cs : List StreamCallback} {s : State}
    {out : List ℕ} (h : (forEach (arm look) s cs).2 = .ok out) :
    ∀ c ∈ cs, look c ≠ .closed → (forEach (arm look) s cs).1.watchOf.has c.id = true := by
  induction cs generalizing s out with
  | nil => exact fun c hc => absurd hc List.not_mem_nil
  | cons c cs ih =>
      obtain ⟨first, rest, hfirst, hrest, -⟩ := of_forEach_cons_eq_ok h
      rw [forEach_cons_ok hfirst]
      intro c' hc' hopen
      rcases List.mem_cons.mp hc' with rfl | hc'
      · exact forEach_invariant (I := fun t : State => t.watchOf.has c'.id = true)
          (fun t _ _ ht => watchOf_arm ht) (watched_of_arm hfirst hopen)
      · exact ih hrest c' hc' hopen

lemma inFlight_of_live {s s' : State} {look : StreamCallback → Look} {timeoutMs : ℤ}
    (h : Books s ∧ Live s) (hs : step s (.dispatch look timeoutMs) = some s')
    (hblocked : s'.pc = .blocked) : InFlight look s' := by
  obtain ⟨hbooks, hlive⟩ := live_step (a := .dispatch look timeoutMs) h trivial hs
  obtain ⟨hpc, rfl | ⟨out, hout, rfl⟩⟩ := dispatch_cases hs
  · exact absurd ((frame_armAll look s).2.symm.trans hblocked) (by simp [hpc])
  · intro id c hc hopen
    have hc' : s.streamCallbacks.get? id = some c := (frame_armAll look s).1 ▸ hc
    have hlisted : c ∈ s.streamCallbacks.entries.map Prod.snd :=
      List.mem_map_of_mem (OrdMap.mem_entries_iff.mpr hc')
    obtain ⟨op, hop⟩ := OrdMap.has_iff.mp (watched_of_forEach_arm hout c hlisted hopen)
    rw [h.1.keyed id c hc'] at hop
    refine ⟨op, hop, ?_⟩
    rcases hlive.underway op id ((hbooks.inverse op id).mpr hop) with howed | ⟨d, hd, hid⟩ | hev
    · exact .inl howed
    · exact .inr (List.mem_map.mpr ⟨d, hd.resolve_right List.not_mem_nil, hid⟩)
    · cases hev

/-- In every run the two arrays of the driver are inverse to each other and speak of enabled
callbacks only, and each readiness enqueues its callback once.  In a run in which no poll consumes
an error of a pending watch, and the runtime does not shut down, every enabled callback with an open
stream has a watch in flight when `dispatch` goes into `ignis_poll`. -/
theorem watches_stay_armed {s : State} {as : List Action}
    (hrun : runFrom step init as = some s) :
    (∀ op id, s.pendingWatch.get? op = some id ↔ s.watchOf.get? id = some op)
      ∧ (∀ op id, s.pendingWatch.get? op = some id → s.streamCallbacks.has id = true)
      ∧ EnqueuedOnce s
      ∧ (Along step Heard init as → ∀ look timeoutMs s',
          step s (.dispatch look timeoutMs) = some s' → s'.pc = .blocked → InFlight look s') := by
  have hbooks := books_run hrun
  refine ⟨hbooks.inverse, hbooks.enabled, enqueuedOnce_of_books hbooks, ?_⟩
  intro hheard look timeoutMs s' hs hblocked
  have hinit : Live init := ⟨rfl, fun op id hop => by simp [init] at hop⟩
  exact inFlight_of_live (invariant_of_step step (fun _ _ _ => live_step) ⟨books_init, hinit⟩
    hheard hrun) hs hblocked

/-- A readable callback of a stream with nothing to read yet. -/
def reader : StreamCallback := ⟨bytes "a", 0, false⟩

/-- The callback is enabled and its watch ends; the driver blocks, and hears of it if anybody. -/
def watchEnds (outcome : Outcome) : List Action :=
  [.activate (fun _ => .notReady 5) [.stream reader], .tokio .dispatch, .tokio .dispatch,
    .tokio (.wake 1 outcome), .tokio (.proceed 1), .tokio (.proceed 1), .tokio (.proceed 1),
    .dispatch (fun _ => .notReady 5) (-1), .poll 1, .hear, .finish]

/-- A readable stream enqueues its callback, and the next watch is in flight. -/
theorem watches_stay_armed_ready :
    ∃ s, runFrom step init (watchEnds .ready) = some s ∧ s.enqueued = [(1, reader)]
      ∧ EnqueuedOnce s
      ∧ ∀ look timeoutMs s', step s (.dispatch look timeoutMs) = some s' → s'.pc = .blocked →
        InFlight look s' := by
  have hqueue : (runFrom step init (watchEnds .ready)).map State.enqueued = some [(1, reader)] := by
    decide +kernel
  have hheard : Along step Heard init (watchEnds .ready) := by decide +kernel
  obtain ⟨s, hrun, henqueued⟩ := Option.map_eq_some_iff.mp hqueue
  obtain ⟨-, -, honce, hblock⟩ := watches_stay_armed hrun
  exact ⟨s, hrun, henqueued, honce, hblock hheard⟩

/-- There is no descriptor left for the watch: the error ends in `ignis_poll`, and the callback is
never armed again. -/
theorem watch_lost :
    ∃ s s', runFrom step init (watchEnds (.error (bytes "dup(5) failed"))) = some s
      ∧ step s (.dispatch (fun _ => .notReady 5) (-1)) = some s' ∧ s'.pc = .blocked
      ∧ s'.streamCallbacks.get? reader.id = some reader
      ∧ ¬ InFlight (fun _ => .notReady 5) s' := by
  have hran : ((runFrom step init (watchEnds (.error (bytes "dup(5) failed")))).bind fun s =>
        (step s (.dispatch (fun _ => .notReady 5) (-1))).map fun s' =>
          (s'.pc.runs, s'.streamCallbacks.get? reader.id, s'.watchOf.get? reader.id,
            Dispatcher.owed s'.disp 1, s'.channel.map Completion.id))
      = some (false, some reader, some 1, 0, []) := by
    decide +kernel
  obtain ⟨s, hrun, hran⟩ := Option.bind_eq_some_iff.mp hran
  obtain ⟨s', hs, heq⟩ := Option.map_eq_some_iff.mp hran
  simp only [Prod.mk.injEq] at heq
  obtain ⟨hruns, hon, hwatch, howed, hchannel⟩ := heq
  have hblocked : s'.pc = .blocked := by
    cases hpc : s'.pc with
    | blocked => rfl
    | outside =>
        rw [hpc] at hruns
        cases hruns
    | delivering todo events =>
        rw [hpc] at hruns
        cases hruns
  refine ⟨s, s', hrun, hs, hblocked, hon, fun hflight => ?_⟩
  obtain ⟨op, hop, hthere⟩ := hflight reader.id reader hon (by decide)
  obtain rfl := Option.some.inj (hwatch.symm.trans hop)
  rw [howed, hchannel] at hthere
  rcases hthere with h | h
  · exact absurd h (by decide)
  · exact absurd h List.not_mem_nil

end Revolt

end Ignis
