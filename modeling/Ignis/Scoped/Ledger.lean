import Ignis.Scoped.Effects

/-!
# The ledger of references

A value of a refcounted type is owned once for each slot and each row that holds it.  The module
takes a reference where it copies a value, gives one back where it drops one, and moves the rest.
`owed` is the difference between what was taken and not given back and what there is: an owner too
many is a leak, one too few a value that can be freed while it is still in use.

The functions keep the balance or leak, with one exception.  `rows_clear` goes by pointers that it
has copied before it gives anything back, so it may come to the slots of an object that a release of
its own has freed.  `ClearsLive` says that it does not, or that there is nothing refcounted in them;
`Sound.step` that with it no value is freed that a slot or a row still holds.
-/

namespace Ignis.Scoped

open StepSystem

variable {α : Type} [DecidableEq α]

/-- The references taken and not given back, less the occurrences in slots and in rows. -/
def owed (value : Value α) (s : State α) : ℤ :=
  refs value s.taken - refs value s.released
    - s.live.total (refs value) - s.tables.total (refs value)

lemma refs_append (value : Value α) (row row' : Row (Value α)) :
    refs value (row ++ row') = refs value row + refs value row' :=
  List.count_append

@[simp] lemma refs_nil (value : Value α) : refs value [] = 0 := rfl

lemma refs_getD (value : Value α) (row : Option (Row (Value α))) :
    refs value (row.getD []) = row.elim 0 (refs value) := by
  cases row <;> rfl

lemma refs_dropped (value : Value α) (tables : OrdMap (ℕ × ℕ) (Row (Value α)))
    (p : ℕ × ℕ → Bool) :
    refs value (dropped tables p) = (tables.filterKeys p).total (refs value) := by
  simp [refs, dropped, OrdMap.total, OrdMap.sumList, List.count_flatten, Function.comp_def]

lemma refs_pos_iff {value : Value α} {row : Row (Value α)} :
    0 < refs value row ↔ some value ∈ row :=
  List.count_pos_iff

/-! ## What each function owes -/

/-- What is freed has its references in order. -/
lemma owed_free (value : Value α) (s : State α) (gone : Value α) :
    owed value (free s gone).1 = owed value s := by
  cases gone with
  | scalar a => rfl
  | counted address =>
      cases hc : s.contents.get? address <;> simp [free, hc, owed]
  | object handle =>
      cases hs : s.live.get? handle with
      | none => simp [free, hs]
      | some slots =>
          have hlive := s.live.total_unset (refs value) handle
          have hdrop := s.tables.total_filterKeys (refs value) fun k => k.2 == handle
          rw [hs, Option.elim_some] at hlive
          simp only [free, hs, owed, freeObj, holdings, refs_append, refs_dropped]
          omega

lemma owed_collect (value : Value α) (fuel : ℕ) (s : State α) (row : Row (Value α)) :
    owed value (collect fuel s row) = owed value s :=
  collect_induction (P := fun t => owed value t = owed value s)
    (fun t gone ht _ => (owed_free value t gone).trans ht) rfl fuel row

lemma owed_giveBack (value : Value α) (s : State α) (row : Row (Value α)) :
    owed value (giveBack s row) = owed value s - refs value row := by
  rw [giveBack, owed_collect]
  simp only [owed, refs_append]
  omega

lemma owed_allocate (value : Value α) {s : State α} {handle : ℕ}
    (hdead : s.live.get? handle = none) (defaults : Row (Value α)) :
    owed value (allocate s handle defaults) = owed value s := by
  have hlive := s.live.total_set (refs value) handle defaults
  rw [hdead] at hlive
  simp only [owed, allocate, refs_append, Option.elim_none] at hlive ⊢
  omega

lemma refs_set (value : Value α) {slots : Row (Value α)} {index : ℕ}
    (hindex : index < slots.length) (v : Option (Value α)) :
    refs value (slots.set index v) + refs value [slots.getD index none]
      = refs value slots + refs value [v] := by
  have hget : slots.getD index none = slots[index] := by simp [hindex]
  have hmem : refs value [slots[index]] ≤ refs value slots :=
    List.Sublist.count_le _ (List.singleton_sublist.mpr (List.getElem_mem hindex))
  rw [hget]
  simp only [refs, List.count_set hindex, List.count_singleton] at hmem ⊢
  omega

/-- A value takes the place of another, which is given back. -/
lemma owed_replace (value : Value α) {s : State α} {handle index : ℕ} {slots : Row (Value α)}
    (hslots : s.live.get? handle = some slots) (hindex : index < slots.length)
    (v : Option (Value α)) :
    owed value (giveBack
        { s with live := s.live.set handle (slots.set index v), taken := s.taken ++ [v] }
        [slots.getD index none])
      = owed value s := by
  have hlive := s.live.total_set (refs value) handle (slots.set index v)
  have hset := refs_set value hindex v
  rw [hslots, Option.elim_some] at hlive
  rw [owed_giveBack]
  simp only [owed, refs_append]
  omega

lemma owed_sealObject (value : Value α) {s : State α} {handle : ℕ} {kept : Row (Value α)}
    (hkept : s.live.get? handle = some kept) :
    owed value (sealObject s handle) = owed value s := by
  have htables := s.tables.total_set (refs value) (rowZero, handle) kept
  simp only [sealObject, hkept, owed_giveBack, refs_getD]
  simp only [owed, refs_append]
  omega

/-- The row that saving the slots of an object displaces. -/
def displaced (value : Value α) (leaving : ℕ) (s : State α) (handle : ℕ) : ℕ :=
  match (s.held handle).slots with
  | none => 0
  | some _ => ((s.held handle).rows leaving).elim 0 (refs value)

/-- An object that is switched owes the row its insertion displaces. -/
lemma owed_switchObject (value : Value α) (leaving entering : ℕ) (s : State α) (handle : ℕ) :
    owed value (switchObject leaving entering s handle)
      = owed value s + displaced value leaving s handle := by
  cases hlive : s.live.get? handle with
  | none => simp [switchObject, displaced, State.held, hlive]
  | some outgoing =>
      have hdisplaced : displaced value leaving s handle
          = (s.tables.get? (leaving, handle)).elim 0 (refs value) := by
        simp [displaced, State.held, hlive]
      have hsave := s.tables.total_set (refs value) (leaving, handle) outgoing
      rw [hdisplaced]
      cases hrow : (s.tables.set (leaving, handle) outgoing).get? (entering, handle) with
      | some values =>
          have hfill := s.live.total_set (refs value) handle values
          have htake := (s.tables.set (leaving, handle) outgoing).total_unset (refs value)
            (entering, handle)
          rw [hlive, Option.elim_some] at hfill
          rw [hrow, Option.elim_some] at htake
          simp only [owed, switchObject, hlive, hrow]
          omega
      | none =>
          have hfill := s.live.total_set (refs value) handle
            (((s.tables.set (leaving, handle) outgoing).get? (rowZero, handle)).getD
              (List.replicate outgoing.length none))
          rw [hlive, Option.elim_some] at hfill
          simp only [owed, switchObject, hlive, hrow, refs_append]
          omega

lemma owed_onSwitch (value : Value α) {s : State α} {entering : ℕ} (hne : s.current ≠ entering) :
    owed value (onSwitch s entering)
      = owed value s + (s.live.keys.map (displaced value s.current s)).sum := by
  have hloop := OrdMap.foldl_sum (owed value) (owed_switchObject value s.current entering)
    (fun t k k' e => by simp only [displaced, held_switchObject_of_ne t e]) s.live.nodup s
  rw [onSwitch, if_neg hne]
  exact hloop

/-! ## The slots of a freed object -/

/-- A value, or nothing, for which there is a counter. -/
def counted (value : Option (Value α)) : Bool := value.any Value.refcounted

/-- The slot is that of a live object, or there is no counter to be touched. -/
def SlotLive (defaults : Option (Row (Value α))) (handle : ℕ) (s : State α) (index : ℕ) : Prop :=
  s.live.has handle = true ∨
    counted ((defaults.getD []).getD index none) = false ∧
    counted (((s.remains.get? handle).getD []).getD index none) = false

/-- The object is not freed before `rows_clear` comes to it, nor while it is at it, or not with
anything refcounted in the slots that are left. -/
def VisitLive (s : State α) (handle : ℕ) : Prop :=
  let defaults := s.tables.get? (rowZero, handle)
  Along (fun s index => some (clearSlot defaults handle s index)) (SlotLive defaults handle) s
    (List.range (slotCount s handle))

/-- No `rows_clear` gives back, or takes, a reference for the slots of an object that was freed. -/
def ClearsLive (s : State α) : Action α → Prop
  | .rowsClear order =>
      s.current ≠ rowZero → Along (fun s handle => some (clearObject s handle)) VisitLive s order
  | _ => True

instance (defaults : Option (Row (Value α))) (handle : ℕ) (s : State α) (index : ℕ) :
    Decidable (SlotLive defaults handle s index) :=
  inferInstanceAs (Decidable (_ ∨ _))

instance (s : State α) (handle : ℕ) : Decidable (VisitLive s handle) :=
  Along.decidable _ _ _ _

instance (s : State α) : (a : Action α) → Decidable (ClearsLive s a)
  | .rowsClear _ => inferInstanceAs (Decidable (_ → _))
  | .allocate _ _ => isTrue trivial
  | .assign _ _ _ => isTrue trivial
  | .sealObject _ => isTrue trivial
  | .switch _ => isTrue trivial
  | .take _ => isTrue trivial
  | .drop _ => isTrue trivial
  | .fill _ _ => isTrue trivial

omit [DecidableEq α] in
lemma counted_eq_false {value : Option (Value α)} (h : counted value = false) {v : Value α}
    (hv : v.refcounted = true) : value ≠ some v := by
  rintro rfl
  simp [counted, hv] at h

lemma refs_singleton_eq_zero {value : Option (Value α)} (h : counted value = false) {v : Value α}
    (hv : v.refcounted = true) : refs v [value] = 0 := by
  simpa [refs, List.count_eq_zero] using (counted_eq_false h hv).symm

/-- Of a live object one slot is exchanged; of a freed one a value is lost and another given back a
second time. -/
lemma owed_clearSlot {value : Value α} (hv : value.refcounted = true)
    {defaults : Option (Row (Value α))} {handle : ℕ} {s : State α} {index : ℕ}
    (hindex : index < slotCount s handle) (hok : SlotLive defaults handle s index) :
    owed value (clearSlot defaults handle s index) = owed value s := by
  cases hs : s.live.get? handle with
  | some slots =>
      have hlength : index < slots.length := by simpa [slotCount, hs] using hindex
      simp only [clearSlot, hs]
      exact owed_replace value hs hlength _
  | none =>
      rcases hok with hlive | ⟨htaken, hreleased⟩
      · simp [OrdMap.has, hs] at hlive
      · simp only [clearSlot, hs, owed_giveBack, refs_singleton_eq_zero hreleased hv]
        simp only [owed, refs_append, refs_singleton_eq_zero htaken hv]
        omega

omit [DecidableEq α] in
/-- An object that is freed leaves as many slots as it had. -/
lemma slotCount_free (s : State α) (value : Value α) (handle : ℕ) :
    slotCount (free s value).1 handle = slotCount s handle := by
  cases value with
  | scalar a => rfl
  | counted address => cases hc : s.contents.get? address <;> simp [free, hc, slotCount]
  | object other =>
      cases hs : s.live.get? other with
      | none => simp [free, hs]
      | some slots =>
          by_cases he : handle = other
          · subst he
            simp [free, hs, freeObj, slotCount]
          · simp [free, hs, freeObj, slotCount, OrdMap.get?_unset, OrdMap.get?_set, he]

lemma slotCount_giveBack (s : State α) (row : Row (Value α)) (handle : ℕ) :
    slotCount (giveBack s row) handle = slotCount s handle :=
  collect_induction (P := fun t => slotCount t handle = slotCount s handle)
    (fun t value ht _ => (slotCount_free t value handle).trans ht)
    (s := { s with released := s.released ++ row }) rfl _ row

lemma slotCount_clearSlot (defaults : Option (Row (Value α))) (handle : ℕ) (s : State α)
    (index : ℕ) : slotCount (clearSlot defaults handle s index) handle = slotCount s handle := by
  cases hs : s.live.get? handle with
  | some slots =>
      simp only [clearSlot, hs, slotCount_giveBack]
      simp [slotCount, hs]
  | none =>
      simp only [clearSlot, hs, slotCount_giveBack]
      cases hr : s.remains.get? handle <;> simp [slotCount, hs, hr]

/-- **The rule for a visit.**  What it keeps is what the reset of a slot keeps, of those the object
has. -/
theorem visit_keeps {I : State α → Prop} {s : State α} {handle : ℕ}
    (hstep : ∀ t index, I t → index < slotCount t handle →
      SlotLive (s.tables.get? (rowZero, handle)) handle t index →
      I (clearSlot (s.tables.get? (rowZero, handle)) handle t index))
    (hs : I s) (hok : VisitLive s handle) : I (clearObject s handle) := by
  have hrange := along_of_forall
    (fun t index => some (clearSlot (s.tables.get? (rowZero, handle)) handle t index))
    (P := fun index => index < slotCount s handle) (fun _ h => List.mem_range.mp h) s
  have hend := foldl_of_along (I := fun t => I t ∧ slotCount t handle = slotCount s handle)
    (fun t index ht hindex => ⟨hstep t index ht.1 (ht.2 ▸ hindex.2) hindex.1,
      (slotCount_clearSlot _ handle t index).trans ht.2⟩)
    ⟨hs, rfl⟩ (along_and _ hok hrange)
  exact hend.1

/-- An object is there for its whole visit, if what the visit keeps says so. -/
lemma visitLive_of_invariant {I : State α → Prop} {s : State α} {handle : ℕ}
    (hstep : ∀ t index, I t → index < slotCount t handle →
      SlotLive (s.tables.get? (rowZero, handle)) handle t index →
      I (clearSlot (s.tables.get? (rowZero, handle)) handle t index))
    (hlive : ∀ t, I t → t.live.has handle = true) (hs : I s) : VisitLive s handle := by
  have hrange := along_of_forall
    (fun t index => some (clearSlot (s.tables.get? (rowZero, handle)) handle t index))
    (P := fun index => index < slotCount s handle) (fun _ h => List.mem_range.mp h) s
  refine along_of_invariant _ (I := fun t => I t ∧ slotCount t handle = slotCount s handle)
    (fun t index t' ht hindex h => ?_) (fun t index ht _ => .inl (hlive t ht.1)) ⟨hs, rfl⟩ hrange
  obtain rfl := Option.some.inj h
  exact ⟨hstep t index ht.1 (ht.2 ▸ hindex) (.inl (hlive t ht.1)),
    (slotCount_clearSlot _ handle t index).trans ht.2⟩

/-! ## What is still held is not freed -/

/-- A scoped object to which there is a reference is there. -/
def Rooted (s : State α) : Prop :=
  ∀ handle, 0 < s.refcount (.object handle) → s.live.has handle = true

/-- What is held is paid for, and what is paid for is there. -/
structure Sound (s : State α) : Prop where
  backed : ∀ value, value.refcounted = true → 0 ≤ owed value s
  rooted : Rooted s

/-- A value that is in a slot or in a row. -/
def State.Holds (s : State α) (value : Value α) : Prop :=
  (∃ handle slots, s.live.get? handle = some slots ∧ some value ∈ slots) ∨
    ∃ key row, s.tables.get? key = some row ∧ some value ∈ row

lemma sound_init : Sound (init : State α) :=
  ⟨fun value _ => by simp [owed, init], fun handle h => by simp [State.refcount, init] at h⟩

/-- **A value that a slot or a row holds has not been freed.** -/
lemma Sound.refcount_pos {s : State α} (hs : Sound s) {value : Value α} (hheld : s.Holds value)
    (hv : value.refcounted = true) : 0 < s.refcount value := by
  have hbacked := hs.backed value hv
  have hsome : 0 < s.live.total (refs value) + s.tables.total (refs value) := by
    rcases hheld with ⟨handle, slots, hslots, hmem⟩ | ⟨key, row, hrow, hmem⟩
    · have hle := OrdMap.le_total (refs value) hslots
      have hpos := refs_pos_iff.mpr hmem
      omega
    · have hle := OrdMap.le_total (refs value) hrow
      have hpos := refs_pos_iff.mpr hmem
      omega
  unfold owed at hbacked
  unfold State.refcount
  omega

lemma Sound.has {s : State α} (hs : Sound s) {value : Value α} (hheld : s.Holds value) :
    s.has value = true := by
  cases value with
  | object handle => exact hs.rooted handle (hs.refcount_pos hheld rfl)
  | _ => rfl

/-- An object that PHP code has in a variable is there. -/
lemma Sound.live_of_local {s : State α} (hs : Sound s) {handle : ℕ}
    (h : Value.object handle ∈ s.locals) : s.live.has handle = true := by
  have hbacked := hs.backed (.object handle) rfl
  have hpos := List.count_pos_iff.mpr h
  refine hs.rooted handle ?_
  unfold owed at hbacked
  unfold State.refcount
  omega

lemma Rooted.of_step {s t : State α} (hs : Rooted s)
    (hlive : ∀ handle, s.live.has handle = true → t.live.has handle = true)
    (hcount : ∀ handle, 0 < t.refcount (.object handle) →
      0 < s.refcount (.object handle) ∨ s.live.has handle = true) : Rooted t :=
  fun handle h => hlive handle ((hcount handle h).elim (hs handle) id)

/-- References are taken to the values of a row, all of which are there. -/
lemma Rooted.of_taken {s t : State α} (hs : Rooted s)
    (hlive : ∀ handle, s.live.has handle = true → t.live.has handle = true)
    (row : Row (Value α)) (hrow : ∀ value, some value ∈ row → s.has value = true)
    (htaken : t.taken = s.taken ++ row) (hlocals : t.locals = s.locals)
    (hcontents : t.contents = s.contents) (hreleased : t.released = s.released) : Rooted t := by
  refine hs.of_step hlive fun handle h => ?_
  by_cases hmem : some (.object handle) ∈ row
  · exact .inr (hrow _ hmem)
  · have hzero : refs (.object handle) row = 0 := List.count_eq_zero.mpr hmem
    rw [State.refcount, htaken, hlocals, hcontents, hreleased, refs_append, hzero] at h
    exact .inl h

lemma refcount_free_le (s : State α) (value v : Value α) :
    (free s value).1.refcount v ≤ s.refcount v := by
  cases value with
  | scalar a => exact Nat.le_refl _
  | counted address =>
      have htotal := s.contents.total_unset (List.count v) address
      cases hc : s.contents.get? address with
      | none => simp [free, hc]
      | some values =>
          simp only [free, hc, State.refcount]
          omega
  | object handle =>
      cases hs : s.live.get? handle with
      | none => simp [free, hs]
      | some slots =>
          simp only [free, hs, State.refcount, freeObj, refs_append]
          omega

/-- Only what has no reference is freed. -/
lemma Rooted.free {s : State α} (hs : Rooted s) {value : Value α} (hzero : s.refcount value = 0) :
    Rooted (Scoped.free s value).1 := by
  intro handle h
  have hbefore := Nat.lt_of_lt_of_le h (refcount_free_le s value (.object handle))
  have hlive := hs handle hbefore
  have hne : Value.object handle ≠ value := by
    rintro rfl
    omega
  cases value with
  | scalar a => exact hlive
  | counted address => cases hc : s.contents.get? address <;> simpa [Scoped.free, hc] using hlive
  | object other =>
      have hne' : handle ≠ other := fun e => hne (e ▸ rfl)
      cases hs : s.live.get? other with
      | none => simpa [Scoped.free, hs] using hlive
      | some slots => simpa [Scoped.free, hs, freeObj, OrdMap.has_unset, hne'] using hlive

lemma Rooted.collect {s : State α} (hs : Rooted s) (fuel : ℕ) (row : Row (Value α)) :
    Rooted (Scoped.collect fuel s row) :=
  collect_induction (fun _ _ ht hzero => ht.free hzero) hs fuel row

lemma Rooted.giveBack {s : State α} (hs : Rooted s) (row : Row (Value α)) :
    Rooted (Scoped.giveBack s row) := by
  refine Rooted.collect (s := { s with released := s.released ++ row })
    (hs.of_step (fun _ h => h) fun handle h => .inl (Nat.lt_of_lt_of_le h ?_)) _ row
  simp only [State.refcount, refs_append]
  omega

omit [DecidableEq α] in
lemma has_set_of_has {m : OrdMap ℕ (Row (Value α))} (handle : ℕ) (slots : Row (Value α)) (h : ℕ)
    (hm : m.has h = true) : (m.set handle slots).has h = true :=
  OrdMap.has_set.mpr (.inr hm)

lemma Sound.allocate {s : State α} (hs : Sound s) {handle : ℕ} {defaults : Row (Value α)}
    (hdead : s.live.get? handle = none)
    (hdefaults : ∀ value, some value ∈ defaults → s.has value = true) :
    Sound (Scoped.allocate s handle defaults) := by
  refine ⟨fun value hv => ?_, fun h hpos => ?_⟩
  · rw [owed_allocate value hdead]
    exact hs.backed value hv
  · by_cases he : h = handle
    · exact OrdMap.has_set.mpr (.inl he)
    · refine OrdMap.has_set.mpr (.inr ?_)
      by_cases hmem : some (.object h) ∈ defaults
      · exact hdefaults _ hmem
      · have hzero : refs (.object h) defaults = 0 := List.count_eq_zero.mpr hmem
        refine hs.rooted h ?_
        simpa [State.refcount, Scoped.allocate, refs_append, hzero, Ne.symm he] using hpos

/-- A slot of a live object is given a value that is there. -/
lemma Sound.replace {s : State α} (hs : Sound s) {handle index : ℕ} {slots : Row (Value α)}
    (hslots : s.live.get? handle = some slots) (hindex : index < slots.length)
    {v : Option (Value α)} (hv : ∀ value, v = some value → s.has value = true) :
    Sound (Scoped.giveBack
      { s with live := s.live.set handle (slots.set index v), taken := s.taken ++ [v] }
      [slots.getD index none]) := by
  refine ⟨fun value hcounted => ?_, Rooted.giveBack ?_ _⟩
  · rw [owed_replace value hslots hindex]
    exact hs.backed value hcounted
  · refine hs.rooted.of_taken (has_set_of_has handle _) [v] (fun value hmem => ?_) rfl rfl rfl rfl
    exact hv value (List.mem_singleton.mp hmem).symm

lemma Sound.sealObject {s : State α} (hs : Sound s) {handle : ℕ} {kept : Row (Value α)}
    (hkept : s.live.get? handle = some kept) : Sound (Scoped.sealObject s handle) := by
  refine ⟨fun value hv => ?_, ?_⟩
  · rw [owed_sealObject value hkept]
    exact hs.backed value hv
  · simp only [Scoped.sealObject, hkept]
    refine Rooted.giveBack ?_ _
    refine hs.rooted.of_taken (fun _ h => h) kept (fun value hmem => ?_) rfl rfl rfl rfl
    exact hs.has (.inl ⟨handle, kept, hkept, hmem⟩)

lemma Sound.switchObject {s : State α} (hs : Sound s) (leaving entering handle : ℕ) :
    Sound (Scoped.switchObject leaving entering s handle) := by
  refine ⟨fun value hv => ?_, ?_⟩
  · rw [owed_switchObject]
    have hbacked := hs.backed value hv
    omega
  · cases hlive : s.live.get? handle with
    | none => simpa [Scoped.switchObject, hlive] using hs.rooted
    | some outgoing =>
        cases hrow : (s.tables.set (leaving, handle) outgoing).get? (entering, handle) with
        | some values =>
            simp only [Scoped.switchObject, hlive, hrow]
            exact hs.rooted.of_step (has_set_of_has handle _) fun _ h => .inl h
        | none =>
            simp only [Scoped.switchObject, hlive, hrow]
            refine hs.rooted.of_taken (has_set_of_has handle _) _ (fun value hmem => hs.has ?_)
              rfl rfl rfl rfl
            -- what is inherited is in row zero, which the outgoing slots may just have become
            cases hzero : (s.tables.set (leaving, handle) outgoing).get? (rowZero, handle) with
            | none => simp [hzero] at hmem
            | some row =>
                rw [hzero, Option.getD_some] at hmem
                rw [OrdMap.get?_set] at hzero
                split_ifs at hzero
                · obtain rfl := Option.some.inj hzero
                  exact .inl ⟨handle, outgoing, hlive, hmem⟩
                · exact .inr ⟨_, row, hzero, hmem⟩

lemma Sound.onSwitch {s : State α} (hs : Sound s) (entering : ℕ) :
    Sound (Scoped.onSwitch s entering) := by
  unfold Scoped.onSwitch
  split_ifs
  · exact hs
  · obtain ⟨hbacked, hrooted⟩ := List.foldlRecOn (motive := Sound) s.live.keys
      (Scoped.switchObject s.current entering) hs fun t ht handle _ => ht.switchObject _ _ handle
    exact ⟨hbacked, hrooted⟩

/-- A slot is reset.  As long as the object is there, the copy of row zero is its row zero, so what
it holds is there. -/
lemma Sound.clearSlot {s : State α} (hs : Sound s) {defaults : Option (Row (Value α))}
    {handle index : ℕ}
    (hdefaults : s.live.has handle = true → s.tables.get? (rowZero, handle) = defaults)
    (hindex : index < slotCount s handle) (hok : SlotLive defaults handle s index) :
    Sound (Scoped.clearSlot defaults handle s index) := by
  cases hlive : s.live.get? handle with
  | some slots =>
      have hlength : index < slots.length := by simpa [slotCount, hlive] using hindex
      simp only [Scoped.clearSlot, hlive]
      refine hs.replace hlive hlength fun value hvalue => hs.has (.inr ?_)
      have hrow := hdefaults (OrdMap.has_iff.mpr ⟨slots, hlive⟩)
      cases defaults with
      | none => simp at hvalue
      | some row =>
          have hmem : some value ∈ row := by
            cases hget : row[index]? with
            | none => simp [hget] at hvalue
            | some v =>
                obtain rfl : v = some value := by simpa [hget] using hvalue
                exact List.mem_of_getElem? hget
          exact ⟨_, row, hrow, hmem⟩
  | none =>
      refine ⟨fun value hv => ?_, ?_⟩
      · rw [owed_clearSlot hv hindex hok]
        exact hs.backed value hv
      · have hnone : counted ((defaults.getD []).getD index none) = false := by
          rcases hok with hhas | ⟨hnone, -⟩
          · simp [OrdMap.has, hlive] at hhas
          · exact hnone
        simp only [Scoped.clearSlot, hlive]
        refine Rooted.giveBack ?_ _
        refine hs.rooted.of_taken (fun _ h => h) _ (fun value hmem => ?_) rfl rfl rfl rfl
        rw [List.mem_singleton] at hmem
        cases value with
        | scalar a => rfl
        | counted address => rw [← hmem] at hnone; cases hnone
        | object other => rw [← hmem] at hnone; cases hnone

/-- As long as the object is there its rows are as they were. -/
lemma defaults_clearSlot {defaults : Option (Row (Value α))} {handle : ℕ} {s : State α} (index : ℕ)
    (hdefaults : s.live.has handle = true → s.tables.get? (rowZero, handle) = defaults)
    (hlive : (clearSlot defaults handle s index).live.has handle = true) :
    (clearSlot defaults handle s index).tables.get? (rowZero, handle) = defaults := by
  have hheld := held_clearSlot defaults handle s index handle
  rw [if_pos rfl] at hheld
  rw [State.has_eq] at hlive
  rcases hheld with heq | hdead
  · rw [heq, Held.isSome_write] at hlive
    exact (congrArg (fun o => o.rows rowZero) heq).trans (hdefaults hlive)
  · rw [hdead] at hlive
    cases hlive

/-- A visit has the defaults of the object as long as it is there. -/
lemma Sound.visit {defaults : Option (Row (Value α))} {handle : ℕ} {t : State α}
    {index : ℕ}
    (ht : Sound t ∧ (t.live.has handle = true → t.tables.get? (rowZero, handle) = defaults))
    (hindex : index < slotCount t handle) (hok : SlotLive defaults handle t index) :
    Sound (Scoped.clearSlot defaults handle t index) ∧
      ((Scoped.clearSlot defaults handle t index).live.has handle = true →
        (Scoped.clearSlot defaults handle t index).tables.get? (rowZero, handle) = defaults) :=
  ⟨ht.1.clearSlot ht.2 hindex hok, defaults_clearSlot index ht.2⟩

lemma Sound.clearObject {s : State α} (hs : Sound s) {handle : ℕ} (hok : VisitLive s handle) :
    Sound (Scoped.clearObject s handle) :=
  (visit_keeps (fun _ _ => Sound.visit) ⟨hs, fun _ => rfl⟩ hok).1

lemma owed_rowsClear (value : Value α) {s : State α} (order : List ℕ)
    (hfiber : s.current ≠ rowZero) :
    owed value (rowsClear s order) = owed value (order.foldl clearObject s) := by
  have hdrop := (order.foldl clearObject s).tables.total_filterKeys (refs value)
    fun k => k.1 == (order.foldl clearObject s).current
  rw [rowsClear, if_neg hfiber, owed_giveBack, refs_dropped]
  simp only [owed] at hdrop ⊢
  omega

lemma Sound.rowsClear {s : State α} (hs : Sound s) {order : List ℕ}
    (hok : ClearsLive s (.rowsClear order)) : Sound (Scoped.rowsClear s order) := by
  by_cases hmain : s.current = rowZero
  · rwa [Scoped.rowsClear, if_pos hmain]
  have hloop : Sound (order.foldl Scoped.clearObject s) :=
    foldl_of_along (fun t handle ht => ht.clearObject) hs (hok hmain)
  refine ⟨fun value hv => ?_, ?_⟩
  · rw [owed_rowsClear value order hmain]
    exact hloop.backed value hv
  · rw [Scoped.rowsClear, if_neg hmain]
    refine Rooted.giveBack ?_ _
    exact hloop.rooted.of_step (fun _ h => h) fun _ h => .inl h

/-- **What is held stays.**  Every step keeps to it in which no `rows_clear` touches the slots of an
object that it has freed. -/
theorem Sound.step {s s' : State α} {a : Action α} (hs : Sound s) (hok : ClearsLive s a)
    (h : Scoped.step s a = some s') : Sound s' := by
  obtain ⟨hpossible, rfl⟩ := step_eq h
  cases a with
  | allocate handle defaults =>
      obtain ⟨hdead, hdefaults⟩ := possible_allocate hpossible
      exact hs.allocate hdead hdefaults
  | assign handle index value =>
      obtain ⟨⟨slots, hslots, hindex⟩, hvalue⟩ := possible_assign hpossible
      simp only [perform, assign, hslots]
      exact hs.replace hslots hindex hvalue
  | sealObject handle =>
      obtain ⟨kept, hkept⟩ := OrdMap.has_iff.mp hpossible
      exact hs.sealObject hkept
  | switch scope => exact hs.onSwitch scope
  | rowsClear order => exact hs.rowsClear hok
  | take value =>
      refine ⟨hs.backed, hs.rooted.of_step (fun _ h => h) fun handle h => ?_⟩
      by_cases he : value = .object handle
      · subst he
        exact .inr hpossible
      · exact .inl (by simpa [State.refcount, perform, he] using h)
  | drop value =>
      refine ⟨fun v hv => ?_, Rooted.collect ?_ _ _⟩
      · rw [perform, owed_collect]
        exact hs.backed v hv
      · refine hs.rooted.of_step (fun _ h => h) fun handle h => .inl (Nat.lt_of_lt_of_le h ?_)
        have hle :
            (s.locals.erase value).count (.object handle) ≤ s.locals.count (.object handle) :=
          List.erase_sublist.count_le _
        simp only [State.refcount]
        omega
  | fill address values =>
      refine ⟨fun v hv => ?_, Rooted.collect ?_ _ _⟩
      · rw [perform, owed_collect]
        exact hs.backed v hv
      · refine hs.rooted.of_step (fun _ h => h) fun handle h => ?_
        simp only [possible, Bool.and_eq_true, List.all_eq_true] at hpossible
        by_cases hmem : Value.object handle ∈ values
        · exact .inr (hpossible.2 _ hmem)
        · have htotal := s.contents.total_set (List.count (.object handle)) address values
          have hzero := List.count_eq_zero.mpr hmem
          simp only [State.refcount] at h ⊢
          omega

/-! ## Where every object is held by PHP code -/

lemma locals_collect (fuel : ℕ) (s : State α) (row : Row (Value α)) :
    (collect fuel s row).locals = s.locals :=
  frame_collect (f := State.locals) (fun _ _ _ _ _ _ => rfl) fuel s row

lemma locals_giveBack (s : State α) (row : Row (Value α)) : (giveBack s row).locals = s.locals :=
  frame_giveBack (f := State.locals) (fun _ _ _ _ _ _ => rfl) s row

lemma locals_clearSlot (defaults : Option (Row (Value α))) (handle : ℕ) (s : State α) (index : ℕ) :
    (clearSlot defaults handle s index).locals = s.locals := by
  cases hs : s.live.get? handle <;> simp only [clearSlot, hs, locals_giveBack]

lemma visitLive_of_local {s : State α} (hs : Sound s) {handle : ℕ}
    (hlocal : Value.object handle ∈ s.locals) : VisitLive s handle :=
  visitLive_of_invariant (I := fun t => (Sound t ∧ (t.live.has handle = true →
      t.tables.get? (rowZero, handle) = s.tables.get? (rowZero, handle))) ∧ t.locals = s.locals)
    (fun t index ht hindex hok =>
      ⟨Sound.visit ht.1 hindex hok, (locals_clearSlot _ handle t index).trans ht.2⟩)
    (fun _ ht => ht.1.1.live_of_local (ht.2 ▸ hlocal)) ⟨⟨hs, fun _ => rfl⟩, rfl⟩

lemma locals_clearObject (s : State α) (handle : ℕ) :
    (clearObject s handle).locals = s.locals :=
  List.foldlRecOn (motive := fun t => t.locals = s.locals) _ _ rfl fun t ht index _ =>
    (locals_clearSlot _ handle t index).trans ht

/-- **Services are cleared in order.**  Where PHP code has every scoped object in a variable, as a
container has its services, no release of `rows_clear` frees one. -/
theorem clearsLive_of_locals {s : State α} (hs : Sound s) {order : List ℕ}
    (horder : order.Perm s.live.keys)
    (hlocals : ∀ handle, s.live.has handle = true → Value.object handle ∈ s.locals) :
    ClearsLive s (.rowsClear order) := by
  intro _
  have hmem := along_of_forall (fun t handle => some (clearObject t handle))
    (P := fun handle => Value.object handle ∈ s.locals)
    (fun handle h => hlocals handle
      (OrdMap.has_iff.mpr (OrdMap.mem_keys_iff.mp (horder.mem_iff.mp h)))) s
  refine along_of_invariant _ (I := fun t => Sound t ∧ t.locals = s.locals)
    (fun t handle t' ht hhandle h => ?_) (fun t handle ht hhandle => ?_) ⟨hs, rfl⟩ hmem
  · obtain rfl := Option.some.inj h
    exact ⟨ht.1.clearObject (visitLive_of_local ht.1 (ht.2 ▸ hhandle)),
      (locals_clearObject t handle).trans ht.2⟩
  · exact visitLive_of_local ht.1 (ht.2 ▸ hhandle)

omit [DecidableEq α] in
/-- What `on_switch` leaves alone. -/
lemma frame_onSwitch {β : Type} (f : State α → β)
    (hf : ∀ (t : State α) live tables taken,
      f { t with live := live, tables := tables, taken := taken } = f t)
    (hcurrent : ∀ (t : State α) scope, f { t with current := scope } = f t) (s : State α)
    (entering : ℕ) : f (onSwitch s entering) = f s := by
  have hswitch : ∀ (t : State α) handle, f (switchObject s.current entering t handle) = f t := by
    intro t handle
    unfold switchObject
    split
    · rfl
    · dsimp only
      split
      · exact hf t _ _ t.taken
      · exact hf t _ _ _
  have hfold := List.foldlRecOn (motive := fun t => f t = f s) s.live.keys
    (switchObject s.current entering) rfl fun t ht handle _ => (hswitch t handle).trans ht
  unfold onSwitch
  split_ifs
  · rfl
  · exact (hcurrent _ entering).trans hfold

lemma locals_rowsClear (s : State α) (order : List ℕ) :
    (rowsClear s order).locals = s.locals := by
  have hfold := List.foldlRecOn (motive := fun t => t.locals = s.locals) order clearObject rfl
    fun t ht handle _ => (locals_clearObject t handle).trans ht
  unfold rowsClear
  split_ifs
  · rfl
  · exact (locals_giveBack _ _).trans hfold

/-- The references PHP code has after an action: the module has no part in them. -/
lemma locals_of_step {s s' : State α} {a : Action α} (h : step s a = some s') :
    s'.locals = match a with
      | .allocate handle _ => .object handle :: s.locals
      | .take value => value :: s.locals
      | .drop value => s.locals.erase value
      | _ => s.locals := by
  obtain ⟨hpossible, rfl⟩ := step_eq h
  cases a with
  | allocate handle defaults => rfl
  | assign handle index value =>
      obtain ⟨slots, hslots, -⟩ := (possible_assign hpossible).1
      simp only [perform, assign, hslots]
      exact locals_giveBack _ _
  | sealObject handle =>
      obtain ⟨kept, hkept⟩ := OrdMap.has_iff.mp hpossible
      simp only [perform, sealObject, hkept]
      exact locals_giveBack _ _
  | switch scope => exact frame_onSwitch State.locals (fun _ _ _ _ => rfl) (fun _ _ => rfl) s scope
  | rowsClear order => exact locals_rowsClear s order
  | take value => rfl
  | drop value => exact locals_collect _ _ _
  | fill address values => exact locals_collect _ _ _

end Ignis.Scoped
