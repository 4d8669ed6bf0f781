import Ignis.Scoped.Isolation

/-!
# References of scoped objects

Two steps put the ledger out of balance.  `on_switch` saves the outgoing row with an `insert` whose
result it does not look at; that is right for a fiber, which has no row while it runs, but `seal`
puts a row into row zero also while `{main}` runs, and the values of that row are owned by nobody
once `{main}` is left (`owed_step`).  And `rows_clear` resets the slots of objects that its own
releases have freed: what they held is given back a second time, and what is put there is lost.
-/

namespace Ignis.Scoped

open StepSystem

variable {α : Type} [DecidableEq α]

/-- Nothing refcounted was put into, or given back from, the slots of a freed object. -/
def Clean (s : State α) : Prop := ∀ p ∈ s.stale, counted p.1 = false ∧ counted p.2 = false

/-- As many references were taken and not given back as there are occurrences, and none were for the
slots of an object that was freed. -/
structure Conserved (s : State α) : Prop where
  balance : ∀ value, value.refcounted = true →
    refs value s.taken = refs value s.released
      + s.live.total (refs value) + s.tables.total (refs value)
  once : Clean s

lemma conserved_iff {s : State α} :
    Conserved s ↔ (∀ value, value.refcounted = true → owed value s = 0) ∧ Clean s := by
  have hbalance : ∀ value, owed value s = 0 ↔ refs value s.taken = refs value s.released
      + s.live.total (refs value) + s.tables.total (refs value) := by
    intro value
    unfold owed
    omega
  refine ⟨fun h => ⟨fun value hv => (hbalance value).mpr (h.balance value hv), h.once⟩,
    fun h => ⟨fun value hv => (hbalance value).mp (h.1 value hv), h.2⟩⟩

/-! ## What is lost -/

/-- What a step loses: the rows that `{main}` sealed while it ran and that its own row displaces
when it is left. -/
def lost (value : Value α) (s : State α) : Action α → ℕ
  | .switch scope =>
      if s.current = rowZero ∧ scope ≠ rowZero then
        (s.live.keys.map (displaced value rowZero s)).sum
      else 0
  | _ => 0

/-- The objects have a past they fit. -/
def Tidy (s : State α) : Prop := ∃ past, Good ⟨s, past⟩

lemma Tidy.step {s s' : State α} {a : Action α} (hs : Tidy s) (h : Scoped.step s a = some s') :
    Tidy s' := by
  obtain ⟨past, hgood⟩ := hs
  have htraced : tracedStep ⟨s, past⟩ a = some ⟨s', record s s' past a⟩ := by
    simp [tracedStep, h]
  exact ⟨_, hgood.step htraced⟩

/-- A fiber has no row while it runs, so saving its slots displaces nothing. -/
lemma displaced_fiber (value : Value α) {s : State α} (hs : Tidy s) (hfiber : s.current ≠ rowZero)
    (handle : ℕ) : displaced value s.current s handle = 0 := by
  obtain ⟨past, hgood⟩ := hs
  unfold displaced
  cases hlive : (s.held handle).slots with
  | none => rfl
  | some slots => simp [(hgood.of_held hlive).vacant hfiber]

/-- What `rows_clear` does to the balance, where it does not touch freed slots. -/
lemma owed_rowsClear_of_clearsLive {value : Value α} (hv : value.refcounted = true) {s : State α}
    {order : List ℕ} (hok : ClearsLive s (.rowsClear order)) :
    owed value (rowsClear s order) = owed value s := by
  by_cases hmain : s.current = rowZero
  · rw [rowsClear, if_pos hmain]
  rw [owed_rowsClear value order hmain]
  exact foldl_of_along (I := fun t => owed value t = owed value s)
    (fun t handle ht hvisit => visit_keeps
      (fun u index hu hindex hlive => (owed_clearSlot hv hindex hlive).trans hu) ht hvisit)
    rfl (hok hmain)

/-- **Only leaving `{main}` loses references.** -/
theorem owed_step {value : Value α} (hv : value.refcounted = true) {s s' : State α} (hs : Tidy s)
    {a : Action α} (hok : ClearsLive s a) (h : step s a = some s') :
    owed value s' = owed value s + lost value s a := by
  obtain ⟨hpossible, rfl⟩ := step_eq h
  cases a with
  | allocate handle defaults =>
      simpa [lost, perform] using owed_allocate value (possible_allocate hpossible).1 defaults
  | assign handle index v =>
      obtain ⟨slots, hslots, hindex⟩ := (possible_assign hpossible).1
      simpa [lost, perform, assign, hslots] using owed_replace value hslots hindex v
  | sealObject handle =>
      obtain ⟨kept, hkept⟩ := OrdMap.has_iff.mp hpossible
      simpa [lost, perform] using owed_sealObject value hkept
  | switch scope =>
      show owed value (onSwitch s scope) = _
      by_cases hne : s.current = scope
      · simp [onSwitch, lost, hne]
      · rw [owed_onSwitch value hne]
        by_cases hmain : s.current = rowZero
        · have hscope : scope ≠ rowZero := fun e => hne (hmain.trans e.symm)
          simp [lost, hmain, hscope]
        · have hnone : s.live.keys.map (displaced value s.current s)
              = s.live.keys.map fun _ => 0 :=
            List.map_congr_left fun handle _ => displaced_fiber value hs hmain handle
          simp [lost, hmain, hnone]
  | rowsClear order => simpa [lost, perform] using owed_rowsClear_of_clearsLive hv hok
  | take v => simp [lost, perform, owed]
  | drop v =>
      rw [perform, owed_collect]
      simp [lost, owed]
  | fill address values =>
      rw [perform, owed_collect]
      simp [lost, owed]

/-- If `{main}` is left for a fiber, no live object has a sealed row that holds a refcounted
value. -/
def NothingDisplaced (s : State α) : Action α → Prop
  | .switch scope => s.current = rowZero → scope ≠ rowZero →
      ∀ handle ∈ s.live.keys, ∀ value ∈ (s.tables.get? (rowZero, handle)).getD [],
        counted value = false
  | _ => True

instance (s : State α) : (a : Action α) → Decidable (NothingDisplaced s a)
  | .switch _ => inferInstanceAs (Decidable (_ → _ → ∀ handle ∈ s.live.keys, _))
  | .allocate _ _ => isTrue trivial
  | .assign _ _ _ => isTrue trivial
  | .sealObject _ => isTrue trivial
  | .rowsClear _ => isTrue trivial
  | .take _ => isTrue trivial
  | .drop _ => isTrue trivial
  | .fill _ _ => isTrue trivial

omit [DecidableEq α] in
lemma counted_eq_true_iff {value : Option (Value α)} :
    counted value = true ↔ ∃ v, value = some v ∧ v.refcounted = true := by
  simp [counted, Option.any_eq_true]

lemma displaced_eq {s : State α} {handle : ℕ} (hlive : handle ∈ s.live.keys) (value : Value α) :
    displaced value rowZero s handle = refs value ((s.tables.get? (rowZero, handle)).getD []) := by
  obtain ⟨slots, hslots⟩ := OrdMap.mem_keys_iff.mp hlive
  simp [displaced, State.held, hslots, refs_getD]

lemma lost_eq_zero_iff (s : State α) (a : Action α) :
    (∀ value, value.refcounted = true → lost value s a = 0) ↔ NothingDisplaced s a := by
  cases a with
  | switch scope =>
      simp only [lost, NothingDisplaced]
      by_cases hmain : s.current = rowZero ∧ scope ≠ rowZero
      · simp only [if_pos hmain, List.sum_eq_zero_iff_forall_eq_nat, List.forall_mem_map]
        simp only [hmain, ne_eq, not_false_eq_true, true_implies]
        constructor
        · intro h handle hlive value hmem
          refine Bool.eq_false_iff.mpr fun hcounted => ?_
          obtain ⟨v, rfl, hv⟩ := counted_eq_true_iff.mp hcounted
          have hzero := h v hv handle hlive
          rw [displaced_eq hlive] at hzero
          exact absurd hmem (List.count_eq_zero.mp hzero)
        · intro h value hv handle hlive
          rw [displaced_eq hlive]
          refine List.count_eq_zero.mpr fun hmem => ?_
          exact counted_eq_false (h handle hlive _ hmem) hv rfl
      · simp only [if_neg hmain, implies_true, true_iff]
        intro hzero hscope
        exact absurd ⟨hzero, hscope⟩ hmain
  | _ => simp [lost, NothingDisplaced]

/-! ## What is given back twice -/

lemma stale_collect (fuel : ℕ) (s : State α) (row : Row (Value α)) :
    (collect fuel s row).stale = s.stale :=
  frame_collect (f := State.stale) (fun _ _ _ _ _ _ => rfl) fuel s row

lemma stale_giveBack (s : State α) (row : Row (Value α)) : (giveBack s row).stale = s.stale :=
  frame_giveBack (f := State.stale) (fun _ _ _ _ _ _ => rfl) s row

/-- A slot leaves a trace where it is that of a freed object. -/
lemma clean_clearSlot_iff (defaults : Option (Row (Value α))) (handle : ℕ) (s : State α)
    (index : ℕ) :
    Clean (clearSlot defaults handle s index) ↔ Clean s ∧ SlotLive defaults handle s index := by
  cases hs : s.live.get? handle with
  | some slots =>
      have hhas : s.live.has handle = true := OrdMap.has_iff.mpr ⟨slots, hs⟩
      simp only [Clean, clearSlot, hs, stale_giveBack, SlotLive, hhas, true_or, and_true]
  | none =>
      have hhas : s.live.has handle = false := by simp [OrdMap.has, hs]
      simp only [Clean, clearSlot, hs, stale_giveBack, SlotLive, hhas, Bool.false_eq_true,
        false_or, List.forall_mem_append, List.forall_mem_singleton]

lemma clean_clearObject_iff (s : State α) (handle : ℕ) :
    Clean (clearObject s handle) ↔ Clean s ∧ VisitLive s handle :=
  foldl_iff_along (clean_clearSlot_iff _ handle) s _

/-- **Only `rows_clear` touches what was freed.** -/
theorem clean_step_iff {s s' : State α} {a : Action α} (h : step s a = some s') :
    Clean s' ↔ Clean s ∧ ClearsLive s a := by
  obtain ⟨hpossible, rfl⟩ := step_eq h
  have hsame : ∀ t : State α, t.stale = s.stale → (Clean t ↔ Clean s ∧ True) := by
    intro t ht
    rw [Clean, ht, and_true]
    rfl
  cases a with
  | allocate handle defaults => exact hsame _ rfl
  | assign handle index value =>
      obtain ⟨slots, hslots, -⟩ := (possible_assign hpossible).1
      refine hsame _ ?_
      simp only [perform, assign, hslots, stale_giveBack]
  | sealObject handle =>
      obtain ⟨kept, hkept⟩ := OrdMap.has_iff.mp hpossible
      refine hsame _ ?_
      simp only [perform, sealObject, hkept, stale_giveBack]
  | switch scope =>
      exact hsame _ (frame_onSwitch State.stale (fun _ _ _ _ => rfl) (fun _ _ => rfl) s scope)
  | rowsClear order =>
      by_cases hmain : s.current = rowZero
      · simp [perform, rowsClear, hmain, ClearsLive]
      · have hloop := foldl_iff_along (P := Clean) clean_clearObject_iff s order
        have hend : Clean (rowsClear s order) ↔ Clean (order.foldl clearObject s) := by
          rw [rowsClear, if_neg hmain, Clean, stale_giveBack]
          rfl
        simp only [perform, ClearsLive, hmain, ne_eq, not_false_eq_true, true_implies]
        exact hend.trans hloop
  | take value => exact hsame _ rfl
  | drop value => exact hsame _ (stale_collect _ _ _)
  | fill address values => exact hsame _ (stale_collect _ _ _)

/-! ## What a run keeps -/

/-- The steps that keep the balance. -/
def Balanced (s : State α) (a : Action α) : Prop := NothingDisplaced s a ∧ ClearsLive s a

instance (s : State α) (a : Action α) : Decidable (Balanced s a) :=
  inferInstanceAs (Decidable (_ ∧ _))

lemma conserved_step_iff {s s' : State α} {a : Action α} (hs : Tidy s) (hconserved : Conserved s)
    (h : step s a = some s') : Conserved s' ↔ Balanced s a := by
  obtain ⟨howed, hclean⟩ := conserved_iff.mp hconserved
  rw [conserved_iff, clean_step_iff h, Balanced, ← lost_eq_zero_iff]
  constructor
  · rintro ⟨howed', -, hok⟩
    refine ⟨fun value hv => ?_, hok⟩
    have hstep := owed_step hv hs hok h
    rw [howed value hv, howed' value hv] at hstep
    omega
  · rintro ⟨hlost, hok⟩
    refine ⟨fun value hv => ?_, hclean, hok⟩
    rw [owed_step hv hs hok h, howed value hv, hlost value hv]
    rfl

/-- `{main}` builds an object whose one property holds a refcounted value and seals it. -/
def sealedOnMain : List (Action ℕ) :=
  [.allocate 1 [none], .take (.counted 7), .assign 1 0 (some (.counted 7)), .drop (.counted 7),
    .sealObject 1]

/-- A fiber builds and seals it instead, `{main}` is left before and after, and another fiber runs
and clears. -/
def sealedOnFiber : List (Action ℕ) :=
  .switch 5 :: sealedOnMain ++ [.switch 0, .switch 6, .rowsClear [1]]

end Ignis.Scoped
