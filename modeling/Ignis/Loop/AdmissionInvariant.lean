import Ignis.Loop.Admission

/-!
# The invariant of admission control

Every property of the queue is part of one invariant, `Admission.Inv`, which the three things that
happen to the queue keep: a request arrives (`inv_dispatchRequest`), a cancel is dispatched
(`inv_dispatchCancel`), a slot is released (`inv_releaseSlot`).

`drainQueue` is called with a slot just released, so the clause that the queue only waits when the
budget is used up fails on entry; `Admission.Core` is the rest, which the loop of `drainQueue`
keeps, and the clause is what its exit condition gives back.
-/

namespace Ignis

namespace Admission

/-- The ids waiting in the queue, head first. -/
def live (a : Admission) : List ℕ := (a.requestQueue.drop a.queueHead).map Prod.fst

/-- The requests that arrived without an exemption, in order of arrival. -/
def ordinaryArrivals (a : Admission) : List ℕ :=
  (a.arrivals.filter fun r => !r.exempt).map Arrival.id

/-- The requests admitted without an exemption, in order of admission. -/
def ordinaryAdmissions (a : Admission) : List ℕ :=
  (a.admissions.filter fun r => !r.exempt).map Admitted.id

/-- Everything but the clause that the queue waits for a reason. -/
structure Core (a : Admission) : Prop where
  head_le : a.queueHead ≤ a.requestQueue.length
  queued_iff : ∀ id, a.queued.has id = true ↔ id ∈ a.live
  cancelled_live : ∀ id, a.queueCancelled.has id = true → id ∈ a.live
  inflight_eq : a.inflightRequests = (a.admissions.length : ℤ) - a.released.length
  arrivals_nodup : (a.arrivals.map Arrival.id).Nodup
  order : (a.ordinaryAdmissions ++ a.live).Sublist a.ordinaryArrivals
  fates : ∀ id, (a.admissions.map Admitted.id).count id + (a.refusals.map Refused.id).count id
    + a.live.count id + a.dropped.count id = (a.arrivals.map Arrival.id).count id
  room : ∀ r ∈ a.admissions, r.exempt = false → 0 < a.fiberBudget → r.inflight < a.fiberBudget
  refused : ∀ r ∈ a.refusals, 0 < a.queueDepth ∧ a.queueDepth ≤ r.queued
  cancelled_iff : ∀ id, id ∈ a.cancelledQueued ↔ id ∈ a.dropped ∨ a.queueCancelled.has id = true

/-- The queue is empty unless the budget is used up. -/
def Full (a : Admission) : Prop :=
  a.live ≠ [] → 0 < a.fiberBudget ∧ a.fiberBudget ≤ a.inflightRequests

structure Inv (a : Admission) : Prop extends Core a where
  full : Full a

theorem inv_boot (fiberBudget queueDepth : ℤ) (budgetExempt : List PhpString) :
    Inv (boot fiberBudget queueDepth budgetExempt) where
  head_le := le_refl _
  queued_iff := by simp [boot, live]
  cancelled_live := by simp [boot]
  inflight_eq := by simp [boot]
  arrivals_nodup := by simp [boot]
  order := by simp [boot, live, ordinaryAdmissions, ordinaryArrivals]
  fates := by simp [boot, live]
  room := by simp [boot]
  refused := by simp [boot]
  cancelled_iff := by simp [boot]
  full := by simp [boot, Full, live]

/-! ## Reading the queue -/

lemma live_takeHead {a : Admission} {id : ℕ} {raw : IgnisRequest}
    (h : a.requestQueue[a.queueHead]? = some (id, raw)) : a.live = id :: (a.takeHead id).live := by
  obtain ⟨hlt, hget⟩ := List.getElem?_eq_some_iff.mp h
  have hdrop : (a.requestQueue.set a.queueHead (id, blankRequest)).drop (a.queueHead + 1)
      = a.requestQueue.drop (a.queueHead + 1) := by
    rw [List.drop_set, if_pos (Nat.lt_succ_self _)]
  simp only [live, takeHead, hdrop]
  rw [List.drop_eq_getElem_cons hlt, List.map_cons, hget]

lemma live_eq_nil_iff {a : Admission} (h : a.queueHead ≤ a.requestQueue.length) :
    a.live = [] ↔ a.queueHead = a.requestQueue.length := by
  simp only [live, List.map_eq_nil_iff, List.drop_eq_nil_iff]
  omega

/-- An id is in at most one place, so the queue holds it at most once. -/
lemma Core.live_nodup {a : Admission} (h : Core a) : a.live.Nodup := by
  rw [List.nodup_iff_count_le_one]
  intro id
  have hf := h.fates id
  have hn := List.nodup_iff_count_le_one.mp h.arrivals_nodup id
  omega

/-- The queue's tables after the head has been read. -/
lemma Core.takeHead_tables {a : Admission} {id : ℕ} {raw : IgnisRequest} (h : Core a)
    (hget : a.requestQueue[a.queueHead]? = some (id, raw)) :
    (a.takeHead id).queueHead ≤ (a.takeHead id).requestQueue.length
      ∧ id ∉ (a.takeHead id).live
      ∧ (∀ j, (a.takeHead id).queued.has j = true ↔ j ∈ (a.takeHead id).live)
      ∧ ∀ j, a.queueCancelled.has j = true → j = id ∨ j ∈ (a.takeHead id).live := by
  have hlive := live_takeHead hget
  have hnd := h.live_nodup
  rw [hlive, List.nodup_cons] at hnd
  obtain ⟨hlt, -⟩ := List.getElem?_eq_some_iff.mp hget
  refine ⟨by simp only [takeHead, List.length_set]; omega, hnd.1, ?_, ?_⟩
  · intro j
    have hq := h.queued_iff j
    rw [hlive, List.mem_cons] at hq
    simp only [takeHead, OrdMap.has_unset, hq]
    constructor
    · rintro ⟨hne, hj⟩
      exact hj.resolve_left hne
    · exact fun hj => ⟨fun e => hnd.1 (e ▸ hj), Or.inr hj⟩
  · intro j hj
    have := h.cancelled_live j hj
    rwa [hlive, List.mem_cons] at this

/-- A cancelled request at the head is dropped. -/
lemma core_drop {a : Admission} {id : ℕ} {raw : IgnisRequest} (h : Core a)
    (hget : a.requestQueue[a.queueHead]? = some (id, raw)) (hc : a.queueCancelled.has id = true) :
    Core { a.takeHead id with
      queueCancelled := a.queueCancelled.unset id
      dropped := a.dropped ++ [id] } := by
  obtain ⟨hle, -, hq, hcan⟩ := h.takeHead_tables hget
  have hlive := live_takeHead hget
  refine
    { head_le := hle
      queued_iff := hq
      cancelled_live := ?_
      inflight_eq := h.inflight_eq
      arrivals_nodup := h.arrivals_nodup
      order := ?_
      fates := ?_
      room := h.room
      refused := h.refused
      cancelled_iff := ?_ }
  · intro j hj
    obtain ⟨hne, hj⟩ := OrdMap.has_unset.mp hj
    exact (hcan j hj).resolve_left hne
  · have ho := h.order
    rw [hlive] at ho
    exact ((List.Sublist.refl _).append (List.sublist_cons_self _ _)).trans ho
  · intro j
    have hf := h.fates j
    rw [hlive, List.count_cons] at hf
    simp only [List.count_append, List.count_cons, List.count_nil]
    change _ + _ + (a.takeHead id).live.count j + _ = _
    simp only [takeHead] at hf ⊢
    omega
  · intro j
    have hi := h.cancelled_iff j
    simp only [takeHead, List.mem_append, List.mem_singleton, OrdMap.has_unset, hi]
    by_cases e : j = id
    · subst e
      simp [hc]
    · simp [e]

/-- The request at the head gets the slot. -/
lemma core_admitHead {a : Admission} {id : ℕ} {raw : IgnisRequest} (h : Core a)
    (hget : a.requestQueue[a.queueHead]? = some (id, raw)) (hc : ¬ a.queueCancelled.has id = true)
    (hroom : a.hasRoom = true) :
    Core (admitRequest
      { a.takeHead id with admittedAfterQueue := a.admittedAfterQueue + 1 } id false) := by
  obtain ⟨hle, -, hq, hcan⟩ := h.takeHead_tables hget
  have hlive := live_takeHead hget
  refine
    { head_le := hle
      queued_iff := hq
      cancelled_live := ?_
      inflight_eq := ?_
      arrivals_nodup := h.arrivals_nodup
      order := ?_
      fates := ?_
      room := ?_
      refused := h.refused
      cancelled_iff := h.cancelled_iff }
  · intro j hj
    exact (hcan j hj).resolve_left fun e => hc (e ▸ hj)
  · have hi := h.inflight_eq
    simp only [admitRequest, takeHead, List.length_append, List.length_cons, List.length_nil]
    omega
  · have ho := h.order
    rw [hlive] at ho
    simpa [ordinaryAdmissions, ordinaryArrivals, admitRequest, takeHead, live] using ho
  · intro j
    have hf := h.fates j
    rw [hlive, List.count_cons] at hf
    simp only [admitRequest, takeHead, List.map_append, List.map_cons, List.map_nil,
      List.count_append, List.count_cons, List.count_nil, live] at hf ⊢
    omega
  · intro r hr hex hb
    simp only [admitRequest, takeHead, List.mem_append, List.mem_singleton] at hr
    rcases hr with hr | rfl
    · exact h.room r hr hex hb
    · simp only [hasRoom, Bool.or_eq_true, decide_eq_true_eq] at hroom
      simp only [admitRequest, takeHead] at hb ⊢
      omega

/-! ## `drainQueue` -/

/-- **The rule for the loop.**  What dropping the head keeps, and what admitting it keeps, the loop
keeps. -/
lemma drainLoop_induction {P : Admission → Prop}
    (hdrop : ∀ a id raw, a.requestQueue[a.queueHead]? = some (id, raw) →
      a.queueCancelled.has id = true → P a →
      P { a.takeHead id with
        queueCancelled := a.queueCancelled.unset id
        dropped := a.dropped ++ [id] })
    (htake : ∀ a id raw, a.requestQueue[a.queueHead]? = some (id, raw) →
      ¬ a.queueCancelled.has id = true → a.hasRoom = true → P a →
      P (admitRequest
        { a.takeHead id with admittedAfterQueue := a.admittedAfterQueue + 1 } id false))
    (turns : ℕ) {a : Admission} (h : P a) : P (drainLoop turns a).1 := by
  induction turns generalizing a with
  | zero => exact h
  | succ turns ih =>
      rw [drainLoop]
      split
      · exact h
      · rename_i id raw hget
        split
        · rename_i hroom
          split
          · rename_i hc
            exact ih (hdrop a id raw hget hc h)
          · rename_i hc
            exact ih (htake a id raw hget hc hroom h)
        · exact h

lemma core_drainLoop {turns : ℕ} {a : Admission} (h : Core a) : Core (drainLoop turns a).1 :=
  drainLoop_induction (fun _ _ _ hget hc h => core_drop h hget hc)
    (fun _ _ _ hget hc hroom h => core_admitHead h hget hc hroom) turns h

/-- With a turn for every unread slot the loop ends by its own test: the queue is empty or there is
no room. -/
lemma drainLoop_exit {turns : ℕ} {a : Admission} (h : Core a)
    (hturns : a.requestQueue.length - a.queueHead ≤ turns) :
    (drainLoop turns a).1.live ≠ [] → (drainLoop turns a).1.hasRoom = false := by
  induction turns generalizing a with
  | zero =>
      intro hne
      refine absurd ((live_eq_nil_iff h.head_le).mpr ?_) hne
      have := h.head_le
      omega
  | succ turns ih =>
      rw [drainLoop]
      split
      · rename_i hget
        intro hne
        have hlen := List.getElem?_eq_none_iff.mp hget
        exact absurd ((live_eq_nil_iff h.head_le).mpr (by have := h.head_le; omega)) hne
      · rename_i id raw hget
        split
        · rename_i hroom
          split
          · rename_i hc
            refine ih (core_drop h hget hc) ?_
            simp only [takeHead, List.length_set]
            omega
          · rename_i hc
            refine ih (core_admitHead h hget hc hroom) ?_
            simp only [admitRequest, takeHead, List.length_set]
            omega
        · rename_i hroom
          exact fun _ => by simpa using hroom

@[simp] lemma live_compact (a : Admission) : a.compact.live = a.live := by
  unfold compact
  split_ifs with h
  · simp [live, h.2]
  · rfl

lemma core_compact {a : Admission} (h : Core a) : Core a.compact := by
  have hlive := live_compact a
  unfold compact at hlive ⊢
  split_ifs at hlive ⊢ with hc
  · exact
      { head_le := le_refl _
        queued_iff := fun id => by rw [hlive]; exact h.queued_iff id
        cancelled_live := fun id hid => by rw [hlive]; exact h.cancelled_live id hid
        inflight_eq := h.inflight_eq
        arrivals_nodup := h.arrivals_nodup
        order := by rw [hlive]; exact h.order
        fates := fun id => by rw [hlive]; exact h.fates id
        room := h.room
        refused := h.refused
        cancelled_iff := h.cancelled_iff }
  · exact h

lemma full_of_no_room {a : Admission} (h : a.live ≠ [] → a.hasRoom = false) : Full a := by
  intro hne
  have hr := h hne
  simp only [hasRoom, Bool.or_eq_false_iff, decide_eq_false_iff_not] at hr
  omega

lemma full_compact {a : Admission} (h : Full a) : Full a.compact := by
  intro hne
  rw [live_compact] at hne
  have := h hne
  unfold compact
  split_ifs <;> exact this

/-- `drainQueue` brings the whole invariant back. -/
theorem inv_drainQueue {a : Admission} (h : Core a) : Inv a.drainQueue.1 :=
  { toCore := core_compact (core_drainLoop h)
    full := full_compact (full_of_no_room (drainLoop_exit h le_rfl)) }

/-- The requests `drainQueue` hands to `spawn()` are the ones it admits. -/
lemma drainLoop_admissions (turns : ℕ) (a : Admission) :
    (drainLoop turns a).1.admissions.map Admitted.id
      = a.admissions.map Admitted.id ++ (drainLoop turns a).2.map Prod.fst := by
  induction turns generalizing a with
  | zero => simp [drainLoop]
  | succ turns ih =>
      rw [drainLoop]
      split
      · simp
      · split
        · split
          · exact ih _
          · simp [ih, admitRequest, takeHead]
        · simp

lemma drainQueue_admissions (a : Admission) :
    a.drainQueue.1.admissions.map Admitted.id
      = a.admissions.map Admitted.id ++ a.drainQueue.2.map Prod.fst := by
  have h := drainLoop_admissions (a.requestQueue.length - a.queueHead) a
  simp only [drainQueue, compact]
  split_ifs <;> exact h

/-- No request is admitted twice. -/
lemma Core.admissions_nodup {a : Admission} (h : Core a) :
    (a.admissions.map Admitted.id).Nodup := by
  rw [List.nodup_iff_count_le_one]
  intro id
  have hf := h.fates id
  have hn := List.nodup_iff_count_le_one.mp h.arrivals_nodup id
  omega

/-! ## The three things that happen to the queue -/

lemma core_releaseSlot {a : Admission} (h : Core a) (id : ℕ) : Core (a.releaseSlot id) := by
  refine { h with inflight_eq := ?_ }
  have := h.inflight_eq
  simp only [releaseSlot, List.length_append, List.length_cons, List.length_nil]
  omega

theorem inv_releaseSlot {a : Admission} (h : Inv a) (id : ℕ) :
    Inv (a.releaseSlot id).drainQueue.1 :=
  inv_drainQueue (core_releaseSlot h.toCore id)

theorem inv_dispatchCancel {a : Admission} (h : Inv a) (id : ℕ) : Inv (a.dispatchCancel id) := by
  rw [dispatchCancel_eq]
  split_ifs with hq
  · refine { h with cancelled_live := ?_, cancelled_iff := ?_ }
    · intro j hj
      rcases OrdMap.has_set.mp hj with rfl | hj
      · exact (h.queued_iff j).mp hq
      · exact h.cancelled_live j hj
    · intro j
      simp only [List.mem_append, List.mem_singleton, OrdMap.has_set, h.cancelled_iff j]
      tauto
  · exact h

lemma live_enqueue {a : Admission} (h : a.queueHead ≤ a.requestQueue.length) (id : ℕ)
    (raw : IgnisRequest) :
    ((a.requestQueue ++ [(id, raw)]).drop a.queueHead).map Prod.fst = a.live ++ [id] := by
  rw [List.drop_append_of_le_length h, List.map_append]
  rfl

/-- The request is on record; nothing is decided yet. -/
def arrive (a : Admission) (id : ℕ) (exempt : Bool) : Admission :=
  { a with arrivals := a.arrivals ++ [⟨id, exempt⟩] }

lemma Core.arrive_nodup {a : Admission} (h : Core a) {id : ℕ} (exempt : Bool)
    (hnew : id ∉ a.arrivals.map Arrival.id) :
    ((a.arrive id exempt).arrivals.map Arrival.id).Nodup := by
  simp only [arrive, List.map_append]
  exact List.Nodup.append h.arrivals_nodup (by simp) (by simpa using hnew)

/-- No room and no exemption: the request is queued or shed. -/
lemma inv_queueRequest {a : Admission} (h : Inv a) {id : ℕ} (raw : IgnisRequest)
    (hnew : id ∉ a.arrivals.map Arrival.id) (hb : 0 < a.fiberBudget)
    (hfull : a.fiberBudget ≤ a.inflightRequests) :
    Inv ((a.arrive id false).queueRequest id raw) := by
  have hnd := h.arrive_nodup false hnew
  have harrivals : (a.arrive id false).ordinaryArrivals = a.ordinaryArrivals ++ [id] := by
    simp [arrive, ordinaryArrivals]
  unfold queueRequest
  split_ifs with hdepth
  · refine { h with arrivals_nodup := hnd, order := ?_, fates := ?_, refused := ?_ }
    · exact h.order.trans (harrivals ▸ List.sublist_append_left _ _)
    · intro j
      have hf := h.fates j
      simp only [arrive, List.map_append, List.map_cons, List.map_nil, List.count_append,
        List.count_cons, List.count_nil, live] at hf ⊢
      omega
    · intro r hr
      rcases List.mem_append.mp hr with hr | hr
      · exact h.refused r hr
      · rw [List.mem_singleton.mp hr]
        exact hdepth
  · have hlive := live_enqueue h.head_le id raw
    refine
      { h with
        head_le := ?_
        queued_iff := ?_
        cancelled_live := ?_
        arrivals_nodup := hnd
        order := ?_
        fates := ?_
        full := fun _ => ⟨hb, hfull⟩ }
    · simp only [arrive, List.length_append, List.length_cons]
      have := h.head_le
      omega
    · intro j
      simp only [live, arrive, hlive, OrdMap.has_set, h.queued_iff j, List.mem_append,
        List.mem_singleton]
      tauto
    · intro j hj
      simp only [live, arrive, hlive, List.mem_append]
      exact Or.inl (h.cancelled_live j hj)
    · simp only [live, arrive, hlive]
      rw [← List.append_assoc]
      exact harrivals ▸ h.order.append (List.Sublist.refl [id])
    · intro j
      have hf := h.fates j
      simp only [live, arrive, hlive, List.map_append, List.map_cons, List.map_nil,
        List.count_append, List.count_cons, List.count_nil] at hf ⊢
      omega

/-- Room, or an exemption: the request is admitted at once. -/
lemma inv_admitRequest {a : Admission} (h : Inv a) {id : ℕ} {exempt : Bool}
    (hnew : id ∉ a.arrivals.map Arrival.id)
    (hroom : 0 < a.fiberBudget ∧ a.fiberBudget ≤ a.inflightRequests → exempt = true) :
    Inv ((a.arrive id exempt).admitRequest id exempt) := by
  refine
    { h with
      inflight_eq := ?_
      arrivals_nodup := h.arrive_nodup exempt hnew
      order := ?_
      fates := ?_
      room := ?_
      full := ?_ }
  · have := h.inflight_eq
    simp only [admitRequest, arrive, List.length_append, List.length_cons, List.length_nil]
    omega
  · cases exempt with
    | true => simpa [ordinaryAdmissions, ordinaryArrivals, admitRequest, arrive, live] using h.order
    | false =>
        -- not exempt and not made to wait: there is room, so nobody is queued
        have hempty : a.live = [] := by
          by_contra hne
          exact absurd (hroom (h.full hne)) (by simp)
        have ho := h.order
        rw [hempty, List.append_nil] at ho
        change (((a.admissions ++ [(⟨id, false, a.inflightRequests⟩ : Admitted)]).filter
          fun r => !r.exempt).map Admitted.id ++ a.live).Sublist _
        rw [hempty, List.append_nil]
        simpa [ordinaryAdmissions, ordinaryArrivals, admitRequest, arrive] using ho
  · intro j
    have hf := h.fates j
    simp only [admitRequest, arrive, List.map_append, List.map_cons, List.map_nil,
      List.count_append, List.count_cons, List.count_nil, live] at hf ⊢
    omega
  · intro r hr hex hb
    simp only [admitRequest, arrive] at hr hb ⊢
    rcases List.mem_append.mp hr with hr | hr
    · exact h.room r hr hex hb
    · rw [List.mem_singleton.mp hr] at hex ⊢
      simp only at hex ⊢
      by_contra hge
      exact absurd (hroom ⟨hb, by omega⟩) (by simp [hex])
  · intro hne
    obtain ⟨hb, hf⟩ := h.full hne
    exact ⟨hb, by simp only [admitRequest, arrive]; omega⟩

theorem inv_dispatchRequest {a : Admission} (h : Inv a) {id : ℕ} {raw : IgnisRequest}
    (hnew : id ∉ a.arrivals.map Arrival.id) : Inv (a.dispatchRequest id raw) := by
  unfold dispatchRequest
  dsimp only
  split_ifs with hw
  · simp only [mustWait, Bool.and_eq_true, decide_eq_true_eq, Bool.not_eq_true'] at hw
    obtain ⟨⟨hb, hfull⟩, hex⟩ := hw
    rw [hex]
    exact inv_queueRequest h raw hnew hb hfull
  · refine inv_admitRequest h hnew fun hfull => ?_
    by_contra hex
    exact hw (by simp [mustWait, hfull.1, hfull.2, hex])

/-! ## The settings are fixed -/

/-- The settings, the releases and the requests turned away. -/
lemma drainQueue_settings (a : Admission) :
    a.drainQueue.1.fiberBudget = a.fiberBudget ∧ a.drainQueue.1.queueDepth = a.queueDepth
      ∧ a.drainQueue.1.handled = a.handled ∧ a.drainQueue.1.released = a.released
      ∧ a.drainQueue.1.refusals = a.refusals
      ∧ a.drainQueue.1.cancelledQueued = a.cancelledQueued := by
  have h := drainLoop_induction (a := a)
    (P := fun b => b.fiberBudget = a.fiberBudget ∧ b.queueDepth = a.queueDepth
      ∧ b.handled = a.handled ∧ b.released = a.released ∧ b.refusals = a.refusals
      ∧ b.cancelledQueued = a.cancelledQueued)
    (fun _ _ _ _ _ h => h) (fun _ _ _ _ _ _ h => h) (a.requestQueue.length - a.queueHead)
    ⟨rfl, rfl, rfl, rfl, rfl, rfl⟩
  simp only [drainQueue, compact]
  split_ifs <;> exact h

lemma dispatchRequest_settings (a : Admission) (id : ℕ) (raw : IgnisRequest) :
    (a.dispatchRequest id raw).fiberBudget = a.fiberBudget
      ∧ (a.dispatchRequest id raw).queueDepth = a.queueDepth
      ∧ (a.dispatchRequest id raw).handled = a.handled
      ∧ (a.dispatchRequest id raw).released = a.released := by
  simp only [dispatchRequest, queueRequest, admitRequest]
  split_ifs <;> exact ⟨rfl, rfl, rfl, rfl⟩

lemma dispatchCancel_settings (a : Admission) (id : ℕ) :
    (a.dispatchCancel id).fiberBudget = a.fiberBudget ∧
      (a.dispatchCancel id).queueDepth = a.queueDepth
      ∧ (a.dispatchCancel id).handled = a.handled ∧ (a.dispatchCancel id).released = a.released
      ∧ (a.dispatchCancel id).admissions = a.admissions := by
  simp only [dispatchCancel_eq]
  split_ifs <;> exact ⟨rfl, rfl, rfl, rfl, rfl⟩

/-- Who was admitted stays admitted. -/
lemma admissions_dispatchRequest (a : Admission) (id : ℕ) (raw : IgnisRequest) :
    ∀ r ∈ a.admissions.map Admitted.id,
      r ∈ (a.dispatchRequest id raw).admissions.map Admitted.id := by
  intro r hr
  simp only [dispatchRequest, queueRequest, admitRequest]
  split_ifs
  · exact hr
  · exact hr
  · rw [List.map_append]
    exact List.mem_append_left _ hr

/-! ## Requests that are turned away -/

/-- The request was answered `503`, or cancelled while it was queued. -/
def TurnedAway (a : Admission) (id : ℕ) : Prop :=
  id ∈ a.refusals.map Refused.id ∨ id ∈ a.cancelledQueued

lemma TurnedAway.not_admitted {a : Admission} {id : ℕ} (hid : a.TurnedAway id) (h : Core a) :
    id ∉ a.admissions.map Admitted.id := by
  intro hmem
  have hf := h.fates id
  have hn := List.nodup_iff_count_le_one.mp h.arrivals_nodup id
  have hadm := List.count_pos_iff.mpr hmem
  rcases hid with hid | hid
  · have := List.count_pos_iff.mpr hid
    omega
  · rcases (h.cancelled_iff id).mp hid with hd | hc
    · have := List.count_pos_iff.mpr hd
      omega
    · have := List.count_pos_iff.mpr (h.cancelled_live id hc)
      omega

lemma TurnedAway.dispatchRequest {a : Admission} {id : ℕ} (h : a.TurnedAway id) (i : ℕ)
    (raw : IgnisRequest) : (a.dispatchRequest i raw).TurnedAway id := by
  simp only [TurnedAway, Admission.dispatchRequest, queueRequest, admitRequest] at h ⊢
  split_ifs
  · exact h.imp_left fun hid => by simp only [List.map_append, List.mem_append]; exact Or.inl hid
  · exact h
  · exact h

lemma TurnedAway.dispatchCancel {a : Admission} {id : ℕ} (h : a.TurnedAway id) (i : ℕ) :
    (a.dispatchCancel i).TurnedAway id := by
  simp only [TurnedAway, Admission.dispatchCancel_eq] at h ⊢
  split_ifs
  · exact h.imp_right (List.mem_append_left _)
  · exact h

lemma TurnedAway.drainQueue {a : Admission} {id : ℕ} (h : a.TurnedAway id) :
    a.drainQueue.1.TurnedAway id := by
  obtain ⟨-, -, -, -, h₁, h₂⟩ := a.drainQueue_settings
  unfold TurnedAway
  rw [h₁, h₂]
  exact h

/-- A request that is cancelled after it arrived is turned away, unless it was admitted. -/
lemma turnedAway_of_dispatchCancel {a : Admission} {id : ℕ} (h : Core a)
    (harrived : id ∈ a.arrivals.map Arrival.id) (hadm : id ∉ a.admissions.map Admitted.id) :
    (a.dispatchCancel id).TurnedAway id := by
  have hf := h.fates id
  rw [List.count_eq_zero.mpr hadm] at hf
  have hpos := List.count_pos_iff.mpr harrived
  by_cases hq : a.queued.has id = true
  · refine Or.inr ?_
    rw [Admission.dispatchCancel_eq, if_pos hq]
    exact List.mem_append_right _ (List.mem_singleton.mpr rfl)
  · have hlive := List.count_eq_zero.mpr fun hl => hq ((h.queued_iff id).mpr hl)
    rw [Admission.dispatchCancel_eq, if_neg hq]
    by_cases hr : id ∈ a.refusals.map Refused.id
    · exact Or.inl hr
    · rw [List.count_eq_zero.mpr hr, hlive] at hf
      exact Or.inr ((h.cancelled_iff id).mpr (Or.inl (List.count_pos_iff.mp (by omega))))

end Admission

end Ignis
