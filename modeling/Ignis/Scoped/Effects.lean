import Mathlib.Logic.Function.Basic
import Ignis.Scoped.Objects

/-!
# One object at a time

The loops of `scoped.rs` treat each live object by itself, but for one thing: a value that is given
back may be the last reference to another object, which is freed then.  `Held` is what there is of
one object, and `Fades` says that it is as it should be or gone.  `effect_of_step` puts it together:
after every action each object is what the action makes of it, or it was freed.
-/

namespace Ignis.Scoped

/-- What there is of one object: its slots, if it is live, and its rows in `TABLES`. -/
@[ext] structure Held (ν : Type) where
  slots : Option (Row ν)
  rows : ℕ → Option (Row ν)

namespace Held

variable {ν : Type}

/-- There is nothing of an object that was freed. -/
def dead : Held ν := ⟨none, fun _ => none⟩

def write (index : ℕ) (value : Option ν) (o : Held ν) : Held ν :=
  { o with slots := o.slots.map fun slots => slots.set index value }

/-- What `seal` does to the object. -/
def promote (o : Held ν) : Held ν :=
  match o.slots with
  | none => o
  | some kept => ⟨some kept, Function.update o.rows rowZero (some kept)⟩

/-- What `on_switch` does to one object. -/
def switch (leaving entering : ℕ) (o : Held ν) : Held ν :=
  match o.slots with
  | none => o
  | some outgoing =>
      let rows := Function.update o.rows leaving (some outgoing)
      let defaults := (rows rowZero).getD (List.replicate outgoing.length none)
      ⟨some ((rows entering).getD defaults), Function.update rows entering none⟩

/-- The value of row zero, uninitialised if there is none. -/
def default (o : Held ν) (index : ℕ) : Option ν := ((o.rows rowZero).getD []).getD index none

/-- The slots of a live object go back to row zero. -/
def reset (o : Held ν) : Held ν :=
  { o with slots := o.slots.map fun previous => (List.range previous.length).map o.default }

/-- What `rows_clear` does to one object. -/
def clear (scope : ℕ) (o : Held ν) : Held ν :=
  { o.reset with rows := Function.update o.rows scope none }

/-- The object is as it should be, or it was freed. -/
def Fades (o o' : Held ν) : Prop := o' = o ∨ o' = dead

lemma Fades.refl (o : Held ν) : Fades o o := .inl rfl

lemma Fades.trans {o o' o'' : Held ν} (h : Fades o o') (h' : Fades o' o'') : Fades o o'' := by
  rcases h' with rfl | rfl
  · exact h
  · exact .inr rfl

/-- What is done to an object that is gone does not bring it back. -/
lemma Fades.map {f : Held ν → Held ν} (hf : f dead = dead) {o o' : Held ν} (h : Fades o o') :
    Fades (f o) (f o') := by
  rcases h with rfl | rfl
  · exact .refl _
  · exact .inr hf

lemma write_dead (index : ℕ) (value : Option ν) : write index value dead = dead := rfl

lemma switch_of_dead {leaving entering : ℕ} {o : Held ν} (ho : o.slots = none) :
    o.switch leaving entering = o := by
  simp [switch, ho]

lemma reset_of_dead {o : Held ν} (ho : o.slots = none) : o.reset = o :=
  Held.ext (by simp [reset, ho]) rfl

@[simp] lemma isSome_switch (scope entering : ℕ) (o : Held ν) :
    (o.switch scope entering).slots.isSome = o.slots.isSome := by
  obtain ⟨slots, rows⟩ := o
  cases slots <;> rfl

@[simp] lemma isSome_clear (scope : ℕ) (o : Held ν) :
    (o.clear scope).slots.isSome = o.slots.isSome :=
  Option.isSome_map

@[simp] lemma isSome_write (index : ℕ) (value : Option ν) (o : Held ν) :
    (o.write index value).slots.isSome = o.slots.isSome :=
  Option.isSome_map

@[simp] lemma isSome_promote (o : Held ν) : o.promote.slots.isSome = o.slots.isSome := by
  obtain ⟨slots, rows⟩ := o
  cases slots <;> rfl

/-- Slot by slot. -/
def resetSlots (o : Held ν) (indices : List ℕ) : Held ν :=
  { o with slots := o.slots.map fun slots =>
      indices.foldl (fun slots index => slots.set index (o.default index)) slots }

lemma resetSlots_cons (o : Held ν) (index : ℕ) (indices : List ℕ) :
    o.resetSlots (index :: indices) = (o.write index (o.default index)).resetSlots indices := by
  obtain ⟨slots, rows⟩ := o
  cases slots <;> rfl

lemma foldl_set_range (f : ℕ → Option ν) (slots : Row ν) {n : ℕ} (hn : n ≤ slots.length) :
    (List.range n).foldl (fun slots index => slots.set index (f index)) slots
      = (List.range n).map f ++ slots.drop n := by
  induction n with
  | zero => simp
  | succ n ih =>
      rw [List.range_succ, List.foldl_append, ih (by omega), List.map_append, List.foldl_cons,
        List.foldl_nil, List.set_append_right _ _ (by simp)]
      have hdrop : slots.drop n = slots[n] :: slots.drop (n + 1) := List.drop_eq_getElem_cons hn
      rw [hdrop, List.length_map, List.length_range, Nat.sub_self, List.set_cons_zero]
      simp

/-- All the slots are what there is to reset. -/
lemma resetSlots_range {o : Held ν} {slots : Row ν} (ho : o.slots = some slots) :
    o.resetSlots (List.range slots.length) = o.reset := by
  refine Held.ext ?_ rfl
  simp [resetSlots, reset, ho, foldl_set_range]

end Held

open Held

variable {α : Type}

def State.held (s : State α) (handle : ℕ) : Held (Value α) :=
  ⟨s.live.get? handle, fun scope => s.tables.get? (scope, handle)⟩

lemma State.has_eq (s : State α) (h : ℕ) : s.live.has h = (s.held h).slots.isSome := rfl

lemma State.held_of_notMem {s : State α} {h : ℕ} (hmem : h ∉ s.live.keys) :
    (s.held h).slots = none := by
  cases hs : s.live.get? h with
  | none => exact hs
  | some slots => exact absurd (OrdMap.mem_keys_iff.mpr ⟨slots, hs⟩) hmem

/-! ## What is freed -/

lemma held_freeObj (s : State α) (handle : ℕ) (slots : Row (Value α)) (h : ℕ) :
    (freeObj s handle slots).held h = if h = handle then dead else s.held h := by
  by_cases e : h = handle
  · subst e
    simp [State.held, freeObj, OrdMap.get?_filterKeys, dead]
  · simp [State.held, freeObj, OrdMap.get?_filterKeys, OrdMap.get?_unset, e]

lemma held_free (s : State α) (value : Value α) (h : ℕ) :
    Fades (s.held h) ((free s value).1.held h) := by
  cases value with
  | scalar a => exact .refl _
  | counted address =>
      cases hc : s.contents.get? address with
      | none =>
          rw [free, hc]
          exact .refl _
      | some values =>
          rw [free, hc]
          exact .refl _
  | object handle =>
      cases hs : s.live.get? handle with
      | none =>
          rw [free, hs]
          exact .refl _
      | some slots =>
          rw [free, hs]
          show Fades _ ((freeObj s handle slots).held h)
          rw [held_freeObj]
          split_ifs
          · exact .inr rfl
          · exact .refl _

/-- A part of the state that does not depend on what the freeing of a value changes. -/
def Unfreed {β : Type} (f : State α → β) : Prop :=
  ∀ (s : State α) live tables remains contents released,
    f { s with
      live := live
      tables := tables
      remains := remains
      contents := contents
      released := released } = f s

lemma frame_free {β : Type} {f : State α → β} (hf : Unfreed f) (s : State α) (value : Value α) :
    f (free s value).1 = f s := by
  cases value with
  | scalar a => rfl
  | counted address =>
      cases hc : s.contents.get? address with
      | none =>
          rw [free, hc]
      | some values =>
          rw [free, hc]
          exact hf s _ _ _ _ _
  | object handle =>
      cases hs : s.live.get? handle with
      | none =>
          rw [free, hs]
      | some slots =>
          rw [free, hs]
          exact hf s _ _ _ _ _

variable [DecidableEq α]

/-- **The rule for releases.**  What a release of values keeps is what the freeing of one keeps to
which there is no reference. -/
theorem collect_induction {P : State α → Prop}
    (hfree : ∀ s value, P s → s.refcount value = 0 → P (free s value).1) {s : State α} (hs : P s)
    (fuel : ℕ) (row : Row (Value α)) : P (collect fuel s row) := by
  fun_induction collect fuel s row with
  | case1 => exact hs
  | case2 => exact hs
  | case3 fuel s row ih => exact ih hs
  | case4 fuel s value row hzero ih => exact ih (hfree s value hs hzero)
  | case5 fuel s value row hzero ih => exact ih hs

lemma held_collect (fuel : ℕ) (s : State α) (row : Row (Value α)) (h : ℕ) :
    Fades (s.held h) ((collect fuel s row).held h) :=
  collect_induction (P := fun t => Fades (s.held h) (t.held h))
    (fun t value ht _ => ht.trans (held_free t value h)) (.refl _) fuel row

lemma frame_collect {β : Type} {f : State α → β} (hf : Unfreed f) (fuel : ℕ) (s : State α)
    (row : Row (Value α)) : f (collect fuel s row) = f s :=
  collect_induction (P := fun t => f t = f s)
    (fun t value ht _ => (frame_free hf t value).trans ht) rfl fuel row

lemma frame_giveBack {β : Type} {f : State α → β} (hf : Unfreed f) (s : State α)
    (row : Row (Value α)) : f (giveBack s row) = f s :=
  (frame_collect hf _ _ row).trans (hf s s.live s.tables s.remains s.contents _)

@[simp] lemma current_collect (fuel : ℕ) (s : State α) (row : Row (Value α)) :
    (collect fuel s row).current = s.current :=
  frame_collect (f := State.current) (fun _ _ _ _ _ _ => rfl) fuel s row

lemma held_giveBack (s : State α) (row : Row (Value α)) (h : ℕ) :
    Fades (s.held h) ((giveBack s row).held h) :=
  held_collect _ { s with released := s.released ++ row } row h

@[simp] lemma current_giveBack (s : State α) (row : Row (Value α)) :
    (giveBack s row).current = s.current :=
  frame_giveBack (f := State.current) (fun _ _ _ _ _ _ => rfl) s row

/-! ## What the functions do to an object -/

omit [DecidableEq α] in
lemma held_allocate (s : State α) (h h' : ℕ) (defaults : Row (Value α)) :
    (allocate s h defaults).held h'
      = if h' = h then { s.held h' with slots := some defaults } else s.held h' := by
  by_cases e : h' = h
  · subst e
    simp [State.held, allocate]
  · simp [State.held, allocate, OrdMap.get?_set, e]

omit [DecidableEq α] in
/-- A value is stored in a slot, whatever else changes. -/
lemma held_set_live {s t : State α} {h index : ℕ} {slots : Row (Value α)}
    {value : Option (Value α)} (hs : s.live.get? h = some slots)
    (hlive : t.live = s.live.set h (slots.set index value)) (htables : t.tables = s.tables)
    (h' : ℕ) : t.held h' = if h' = h then (s.held h').write index value else s.held h' := by
  by_cases e : h' = h
  · subst e
    simp [State.held, write, hlive, htables, hs]
  · simp [State.held, hlive, htables, OrdMap.get?_set, e]

lemma held_assign {s : State α} {h index : ℕ} {slots : Row (Value α)} {value : Option (Value α)}
    (hs : s.live.get? h = some slots) (h' : ℕ) :
    Fades (if h' = h then (s.held h').write index value else s.held h')
      ((assign s h index value).held h') := by
  rw [← held_set_live (t := { s with
    live := s.live.set h (slots.set index value), taken := s.taken ++ [value] }) hs rfl rfl]
  simp only [assign, hs]
  exact held_giveBack _ _ _

lemma held_sealObject {s : State α} {h : ℕ} {kept : Row (Value α)}
    (hs : s.live.get? h = some kept) (h' : ℕ) :
    Fades (if h' = h then (s.held h').promote else s.held h') ((sealObject s h).held h') := by
  have hset : { s with
      tables := s.tables.set (rowZero, h) kept, taken := s.taken ++ kept }.held h'
        = if h' = h then (s.held h').promote else s.held h' := by
    by_cases e : h' = h
    · subst e
      refine Held.ext (by simp [State.held, promote, hs]) (funext fun c => ?_)
      by_cases hc : c = rowZero
      · simp [State.held, promote, hs, hc]
      · simp [State.held, promote, hs, OrdMap.get?_set, hc]
    · simp [State.held, OrdMap.get?_set, e]
  rw [← hset]
  simp only [sealObject, hs]
  exact held_giveBack _ _ _

omit [DecidableEq α] in
lemma held_switchObject_self (leaving entering : ℕ) (s : State α) (h : ℕ) :
    (switchObject leaving entering s h).held h = (s.held h).switch leaving entering := by
  cases hs : s.live.get? h with
  | none => simp [switchObject, Held.switch, State.held, hs]
  | some outgoing =>
      -- the rows once the outgoing one is saved
      have hrows : ∀ c, Function.update (fun scope => s.tables.get? (scope, h)) leaving
          (some outgoing) c = (s.tables.set (leaving, h) outgoing).get? (c, h) := by
        intro c
        by_cases hc : c = leaving
        · simp [hc]
        · simp [OrdMap.get?_set, hc]
      cases hin : (s.tables.set (leaving, h) outgoing).get? (entering, h) with
      | some values =>
          refine Held.ext ?_ (funext fun c => ?_)
          · simp [switchObject, Held.switch, State.held, hs, hin, hrows]
          · by_cases hc : c = entering
            · simp [switchObject, Held.switch, State.held, hs, hin, hc]
            · simp [switchObject, Held.switch, State.held, hs, hin, hc, OrdMap.get?_unset, hrows]
      | none =>
          refine Held.ext ?_ (funext fun c => ?_)
          · simp [switchObject, Held.switch, State.held, hs, hin, hrows]
          · by_cases hc : c = entering
            · simp [switchObject, Held.switch, State.held, hs, hin, hc]
            · simp [switchObject, Held.switch, State.held, hs, hin, hc, hrows]

omit [DecidableEq α] in
lemma held_switchObject_of_ne {leaving entering : ℕ} (s : State α) {h h' : ℕ} (e : h' ≠ h) :
    (switchObject leaving entering s h).held h' = s.held h' := by
  unfold switchObject
  split
  · rfl
  · dsimp only
    split
    · refine Held.ext (by simp [State.held, OrdMap.get?_set, e]) (funext fun c => ?_)
      simp [State.held, OrdMap.get?_set, OrdMap.get?_unset, e]
    · refine Held.ext (by simp [State.held, OrdMap.get?_set, e]) (funext fun c => ?_)
      simp [State.held, OrdMap.get?_set, e]

omit [DecidableEq α] in
/-- **`on_switch`, object by object.** -/
theorem held_onSwitch {s : State α} {entering : ℕ} (hne : s.current ≠ entering) (h : ℕ) :
    (onSwitch s entering).held h = (s.held h).switch s.current entering := by
  have hfold := OrdMap.foldl_local State.held (held_switchObject_self s.current entering)
    (fun t k k' e => held_switchObject_of_ne t e) s.live.nodup s h
  have hheld : (onSwitch s entering).held h
      = (s.live.keys.foldl (switchObject s.current entering) s).held h := by
    rw [onSwitch, if_neg hne]
    rfl
  rw [hheld]
  refine hfold.trans ?_
  split_ifs with hmem
  · rfl
  · exact (switch_of_dead (State.held_of_notMem hmem)).symm

/-! ## `rows_clear` -/

/-- One slot is reset, of an object that is still there. -/
lemma held_clearSlot (defaults : Option (Row (Value α))) (handle : ℕ) (s : State α) (index h : ℕ) :
    Fades (if h = handle then (s.held h).write index ((defaults.getD []).getD index none)
      else s.held h) ((clearSlot defaults handle s index).held h) := by
  cases hs : s.live.get? handle with
  | some slots =>
      rw [← held_set_live (t := { s with
        live := s.live.set handle (slots.set index ((defaults.getD []).getD index none))
        taken := s.taken ++ [(defaults.getD []).getD index none] }) hs rfl rfl]
      simp only [clearSlot, hs]
      exact held_giveBack _ _ _
  | none =>
      have hsame : (if h = handle then (s.held h).write index ((defaults.getD []).getD index none)
          else s.held h) = s.held h := by
        split_ifs with e
        · subst e
          exact Held.ext (by simp [State.held, write, hs]) rfl
        · rfl
      rw [hsame]
      simp only [clearSlot, hs]
      exact held_giveBack _ _ _

@[simp] lemma current_clearSlot (defaults : Option (Row (Value α))) (handle : ℕ) (s : State α)
    (index : ℕ) : (clearSlot defaults handle s index).current = s.current := by
  unfold clearSlot
  dsimp only
  split <;> simp

/-- The object that is visited, with the defaults that were copied before the loop. -/
lemma held_foldl_clearSlot_self {defaults : Option (Row (Value α))} {handle : ℕ} {s : State α}
    (hdefaults : s.tables.get? (rowZero, handle) = defaults) (indices : List ℕ) :
    Fades ((s.held handle).resetSlots indices)
      ((indices.foldl (clearSlot defaults handle) s).held handle) := by
  -- the defaults are those of the object as long as it is there
  have hstep : ∀ (indices : List ℕ) (o : Held (Value α)) (t : State α),
      o.rows rowZero = defaults → Fades o (t.held handle) →
      Fades (o.resetSlots indices)
        ((indices.foldl (clearSlot defaults handle) t).held handle) := by
    intro indices
    induction indices with
    | nil =>
        intro o t _ ht
        obtain ⟨slots, rows⟩ := o
        cases slots <;> exact ht
    | cons index indices ih =>
        intro o t ho ht
        rw [resetSlots_cons, List.foldl_cons]
        refine ih (o.write index (o.default index)) _ ho ?_
        have hslot := held_clearSlot defaults handle t index handle
        rw [if_pos rfl] at hslot
        rw [Held.default, ho]
        exact (ht.map (write_dead _ _)).trans hslot
  exact hstep indices _ s hdefaults (.refl _)

lemma held_foldl_clearSlot_of_ne (defaults : Option (Row (Value α))) {handle h : ℕ}
    (e : h ≠ handle) (s : State α) (indices : List ℕ) :
    Fades (s.held h) ((indices.foldl (clearSlot defaults handle) s).held h) := by
  induction indices generalizing s with
  | nil => exact .refl _
  | cons index indices ih =>
      have hslot := held_clearSlot defaults handle s index h
      rw [if_neg e] at hslot
      exact hslot.trans (ih _)

lemma held_clearObject_self (s : State α) (h : ℕ) :
    Fades (s.held h).reset ((clearObject s h).held h) := by
  have hfold := held_foldl_clearSlot_self (rfl : s.tables.get? (rowZero, h) = _)
    (List.range (slotCount s h))
  cases hs : s.live.get? h with
  | some slots =>
      have hcount : slotCount s h = slots.length := by simp [slotCount, hs]
      rw [hcount, resetSlots_range (show (s.held h).slots = some slots from hs)] at hfold
      rw [clearObject, hcount]
      exact hfold
  | none =>
      have hdead : (s.held h).slots = none := hs
      rw [reset_of_dead hdead]
      have hnone : (s.held h).resetSlots (List.range (slotCount s h)) = s.held h :=
        Held.ext (by simp [resetSlots, hdead]) rfl
      rwa [hnone] at hfold

lemma held_clearObject_of_ne (s : State α) {h h' : ℕ} (e : h' ≠ h) :
    Fades (s.held h') ((clearObject s h).held h') :=
  held_foldl_clearSlot_of_ne _ e s _

@[simp] lemma current_clearObject (s : State α) (h : ℕ) :
    (clearObject s h).current = s.current :=
  List.foldlRecOn (motive := fun t : State α => t.current = s.current) _ _ rfl
    fun t ht index _ => (current_clearSlot _ h t index).trans ht

lemma current_foldl_clearObject (s : State α) (hs : List ℕ) :
    (hs.foldl clearObject s).current = s.current :=
  List.foldlRecOn (motive := fun t : State α => t.current = s.current) _ _ rfl
    fun t ht h _ => (current_clearObject t h).trans ht

/-- An object is visited once, and the visits of others at most free it. -/
lemma held_foldl_clearObject {order : List ℕ} (horder : order.Nodup) (s : State α) (h : ℕ) :
    Fades (if h ∈ order then (s.held h).reset else s.held h)
      ((order.foldl clearObject s).held h) := by
  induction order generalizing s with
  | nil => exact .refl _
  | cons k order ih =>
      rw [List.nodup_cons] at horder
      have hrest := ih horder.2 (clearObject s k)
      by_cases e : h = k
      · subst e
        rw [if_neg horder.1] at hrest
        rw [if_pos List.mem_cons_self]
        exact (held_clearObject_self s h).trans hrest
      · have hvisit := held_clearObject_of_ne s e
        simp only [List.mem_cons, e, false_or]
        split_ifs at hrest ⊢
        · exact (hvisit.map rfl).trans hrest
        · exact hvisit.trans hrest

/-- **`rows_clear`, object by object.** -/
theorem held_rowsClear {s : State α} {order : List ℕ} (horder : order.Perm s.live.keys)
    (hne : s.current ≠ rowZero) (h : ℕ) :
    Fades ((s.held h).clear s.current) ((rowsClear s order).held h) := by
  have hloop : Fades (s.held h).reset ((order.foldl clearObject s).held h) := by
    have hfold := held_foldl_clearObject (horder.nodup_iff.mpr s.live.nodup) s h
    split_ifs at hfold with hmem
    · exact hfold
    · have hdead := State.held_of_notMem fun hkey => hmem (horder.mem_iff.mpr hkey)
      rwa [reset_of_dead hdead]
  rw [rowsClear, if_neg hne]
  -- the rows of the scope go last
  refine Fades.trans ?_ (held_giveBack _ _ _)
  set t := order.foldl clearObject s with ht
  have hdrop : { t with tables := t.tables.filterKeys fun k => !(k.1 == t.current) }.held h
      = { t.held h with rows := Function.update (t.held h).rows t.current none } := by
    refine Held.ext rfl (funext fun c => ?_)
    by_cases hc : c = t.current
    · simp [State.held, OrdMap.get?_filterKeys, hc]
    · simp [State.held, OrdMap.get?_filterKeys, hc]
  rw [hdrop, ht, current_foldl_clearObject]
  refine hloop.map (f := fun o => { o with rows := Function.update o.rows s.current none }) ?_
  exact Held.ext rfl (Function.update_eq_self _ _)

/-! ## Steps -/

/-- The scope that runs after an action. -/
def Action.scope (current : ℕ) : Action α → ℕ
  | .switch scope => scope
  | _ => current

/-- What an action makes of the object `handle`. -/
def Action.onHeld (current handle : ℕ) (o : Held (Value α)) : Action α → Held (Value α)
  | .allocate other defaults => if handle = other then { o with slots := some defaults } else o
  | .assign other index value => if handle = other then o.write index value else o
  | .sealObject other => if handle = other then o.promote else o
  | .switch scope => if current = scope then o else o.switch current scope
  | .rowsClear _ => if current = rowZero then o else o.clear current
  | _ => o

omit [DecidableEq α] in
/-- Only `allocate` makes an object of nothing. -/
lemma Action.isSome_onHeld {a : Action α} {handle : ℕ}
    (ha : ∀ defaults, a ≠ .allocate handle defaults) (current : ℕ) (o : Held (Value α)) :
    (a.onHeld current handle o).slots.isSome = o.slots.isSome := by
  cases a with
  | allocate other defaults =>
      have hne : handle ≠ other := fun e => ha defaults (e ▸ rfl)
      rw [Action.onHeld, if_neg hne]
  | assign other index value =>
      simp only [Action.onHeld]
      split_ifs <;> simp
  | sealObject other =>
      simp only [Action.onHeld]
      split_ifs <;> simp
  | switch scope =>
      simp only [Action.onHeld]
      split_ifs <;> simp
  | rowsClear order =>
      simp only [Action.onHeld]
      split_ifs <;> simp
  | take value => rfl
  | drop value => rfl
  | fill address values => rfl

omit [DecidableEq α] in
lemma Action.onHeld_dead {a : Action α} {handle : ℕ}
    (ha : ∀ defaults, a ≠ .allocate handle defaults) (current : ℕ) :
    a.onHeld current handle .dead = .dead := by
  have hclear : Held.clear current (.dead : Held (Value α)) = .dead :=
    Held.ext rfl (Function.update_eq_self _ _)
  cases a with
  | allocate other defaults =>
      have hne : handle ≠ other := fun e => ha defaults (e ▸ rfl)
      rw [Action.onHeld, if_neg hne]
  | assign other index value => exact ite_self _
  | sealObject other => exact ite_self _
  | switch scope => exact ite_self _
  | rowsClear order =>
      rw [Action.onHeld, hclear]
      exact ite_self _
  | take value => rfl
  | drop value => rfl
  | fill address values => rfl

/-- **The step function, object by object.** -/
theorem effect_of_step {s s' : State α} {a : Action α} (h : step s a = some s') :
    s'.current = a.scope s.current ∧
      ∀ handle, Fades (a.onHeld s.current handle (s.held handle)) (s'.held handle) := by
  obtain ⟨hpossible, rfl⟩ := step_eq h
  cases a with
  | allocate handle defaults =>
      exact ⟨rfl, fun k => .inl (held_allocate s handle k defaults)⟩
  | assign handle index value =>
      obtain ⟨slots, hslots, -⟩ := (possible_assign hpossible).1
      exact ⟨by simp [perform, assign, hslots, Action.scope], held_assign hslots⟩
  | sealObject handle =>
      obtain ⟨kept, hkept⟩ := OrdMap.has_iff.mp hpossible
      exact ⟨by simp [perform, sealObject, hkept, Action.scope], held_sealObject hkept⟩
  | switch scope =>
      by_cases he : s.current = scope
      · simp [perform, onSwitch, he, Action.scope, Action.onHeld, Fades.refl]
      · refine ⟨by simp [perform, onSwitch, he, Action.scope], fun k => .inl ?_⟩
        rw [Action.onHeld, if_neg he]
        exact held_onSwitch he k
  | rowsClear order =>
      by_cases he : s.current = rowZero
      · simp [perform, rowsClear, he, Action.scope, Action.onHeld, Fades.refl]
      · refine ⟨by simp [perform, rowsClear, he, Action.scope, current_foldl_clearObject],
          fun k => ?_⟩
        rw [Action.onHeld, if_neg he]
        exact held_rowsClear (List.isPerm_iff.mp hpossible) he k
  | take value => exact ⟨rfl, fun k => .refl _⟩
  | drop value => exact ⟨current_collect _ _ _, held_collect _ _ _⟩
  | fill address values => exact ⟨current_collect _ _ _, held_collect _ _ _⟩

end Ignis.Scoped
