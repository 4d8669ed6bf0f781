import Mathlib.Data.List.GetD
import Ignis.Scoped.Ledger

/-!
# What a scope reads

A read of a declared property is a read of the object's own slot, so what a scope reads is what the
switches have put there.  `Past` is the history of one object in the terms of its users: what each
scope has written, what it has inherited, and what row zero has been made.  It is kept beside the
machine and never read by it; `Fits` says that the slots and the rows of an object are what its past
says they should be, and every step keeps it.

Two results follow.  A scope reads what it wrote or what it inherited, and the value is still there
if no `rows_clear` has touched the slots of an object that it had freed (`scoped_reads`; what comes
of such a clear is `scoped_reads_freed`).  And a scope inherits when it first runs, not when it
first reads, so a later seal passes it by (`seal_seen_iff`).
-/

namespace Ignis.Scoped

open StepSystem

variable {α ν : Type}

/-! ## The past of an object -/

structure Past (ν : Type) where
  /-- What a scope last wrote to a property since its last `rows_clear`. -/
  wrote : ℕ → ℕ → Option (Option ν)
  /-- What row zero held when the scope first ran after the object existed, or at its last
  `rows_clear` if that was later. -/
  inherited : ℕ → Option (ℕ → Option ν)
  /-- Row zero: what `{main}` last wrote or the last seal promoted; uninitialised at first. -/
  zero : ℕ → Option ν

namespace Past

def blank : Past ν := ⟨fun _ _ => none, fun _ => none, fun _ => none⟩

/-- What a fiber is to read. -/
def expects (x : Past ν) (scope index : ℕ) : Option ν :=
  (x.wrote scope index).getD ((x.inherited scope).elim none fun row => row index)

/-- What a scope is to read. -/
def reads (x : Past ν) (scope index : ℕ) : Option ν :=
  if scope = rowZero then x.zero index else x.expects scope index

/-- The allocating scope writes the defaults of the class. -/
def allocated (scope : ℕ) (defaults : Row ν) : Past ν :=
  if scope = rowZero then { blank with zero := fun index => defaults.getD index none }
  else { blank with
    wrote := Function.update (fun _ _ => none) scope fun index => some (defaults.getD index none) }

def assign (x : Past ν) (scope index : ℕ) (value : Option ν) : Past ν :=
  if scope = rowZero then { x with zero := Function.update x.zero index value }
  else { x with
    wrote := Function.update x.wrote scope (Function.update (x.wrote scope) index (some value)) }

/-- A seal promotes what the sealing scope reads. -/
def promote (x : Past ν) (scope : ℕ) : Past ν := { x with zero := x.reads scope }

/-- A fiber runs, for the first time or again. -/
def enter (x : Past ν) (scope : ℕ) : Past ν :=
  if scope = rowZero ∨ (x.inherited scope).isSome then x
  else { x with inherited := Function.update x.inherited scope (some x.zero) }

def clear (x : Past ν) (scope : ℕ) : Past ν :=
  { x with
    wrote := Function.update x.wrote scope fun _ => none
    inherited := Function.update x.inherited scope (some x.zero) }

lemma reads_main (x : Past ν) (index : ℕ) : x.reads rowZero index = x.zero index := by
  simp [reads]

lemma reads_fiber (x : Past ν) {scope : ℕ} (h : scope ≠ rowZero) (index : ℕ) :
    x.reads scope index = x.expects scope index := by
  simp [reads, h]

@[simp] lemma enter_zero (x : Past ν) (scope : ℕ) : (x.enter scope).zero = x.zero := by
  unfold enter
  split_ifs <;> rfl

@[simp] lemma enter_wrote (x : Past ν) (scope : ℕ) : (x.enter scope).wrote = x.wrote := by
  unfold enter
  split_ifs <;> rfl

lemma enter_inherited (x : Past ν) {scope : ℕ} (h : scope ≠ rowZero) :
    (x.enter scope).inherited scope = some ((x.inherited scope).getD x.zero) := by
  unfold enter
  cases hi : x.inherited scope with
  | none => simp [h]
  | some row => simp [hi]

lemma enter_inherited_of_ne (x : Past ν) {scope other : ℕ} (h : other ≠ scope) :
    (x.enter scope).inherited other = x.inherited other := by
  unfold enter
  split_ifs
  · rfl
  · simp [h]

lemma enter_expects_of_ne (x : Past ν) {scope other : ℕ} (h : other ≠ scope) (index : ℕ) :
    (x.enter scope).expects other index = x.expects other index := by
  simp [expects, enter_inherited_of_ne x h]

lemma enter_expects (x : Past ν) {scope : ℕ} (h : scope ≠ rowZero) (index : ℕ) :
    (x.enter scope).expects scope index
      = (x.wrote scope index).getD ((x.inherited scope).getD x.zero index) := by
  simp [expects, enter_inherited x h]

end Past

/-! ## Histories -/

/-- The machine, and the past of each object. -/
structure Traced (α : Type) where
  state : State α
  past : ℕ → Past (Value α)

def start : Traced α := ⟨init, fun _ => .blank⟩

/-- What an action in the scope `current` adds to the past of the object `handle`. -/
def Action.onPast (current handle : ℕ) (x : Past (Value α)) : Action α → Past (Value α)
  | .allocate other defaults => if handle = other then .allocated current defaults else x
  | .assign other index value => if handle = other then x.assign current index value else x
  | .sealObject other => if handle = other then x.promote current else x
  | .switch scope => if current = scope then x else x.enter scope
  | .rowsClear _ => if current = rowZero then x else x.clear current
  | _ => x

/-- The past of the objects after an action.  One that is not there any more has none. -/
def record (s s' : State α) (past : ℕ → Past (Value α)) (a : Action α) : ℕ → Past (Value α) :=
  fun handle => if s'.live.has handle then a.onPast s.current handle (past handle) else .blank

def tracedStep [DecidableEq α] (t : Traced α) (a : Action α) : Option (Traced α) :=
  (step t.state a).map fun s => ⟨s, record t.state s t.past a⟩

/-! ## Slots and rows as the past has them -/

/-- While `scope` runs, the slots and the rows of a live object are those of its past. -/
structure Fits (scope : ℕ) (slots : Row ν) (rows : ℕ → Option (Row ν)) (x : Past ν) : Prop where
  length : ∀ c row, rows c = some row → row.length = slots.length
  running : ∀ p, slots.getD p none = x.reads scope p
  vacant : scope ≠ rowZero → rows scope = none
  zero : scope ≠ rowZero → ∀ p, ((rows rowZero).getD []).getD p none = x.zero p
  parked : ∀ c row, c ≠ rowZero → c ≠ scope → rows c = some row →
    ∀ p, row.getD p none = x.expects c p
  absent : ∀ c, c ≠ rowZero → c ≠ scope → rows c = none →
    x.inherited c = none ∧ ∀ p, x.wrote c p = none
  settled : ∀ c, c ≠ rowZero → c = scope ∨ rows c ≠ none →
    ∀ p, x.wrote c p = none → x.inherited c ≠ none

/-- A live object fits its past, and there is no row of a dead one. -/
def Held.Fits (scope : ℕ) (o : Held ν) (x : Past ν) : Prop :=
  match o.slots with
  | none => ∀ c, o.rows c = none
  | some slots => Scoped.Fits scope slots o.rows x

lemma getD_set {slots : Row ν} {index : ℕ} (h : index < slots.length) (value : Option ν) (p : ℕ) :
    (slots.set index value).getD p none = if p = index then value else slots.getD p none := by
  by_cases e : p = index
  · simp [e, h]
  · simp [List.getElem?_set_ne (Ne.symm e), e]

lemma getD_replicate (n p : ℕ) : (List.replicate n (none : Option ν)).getD p none = none := by
  by_cases h : p < n <;> simp [h]

/-- What a scope without a row of its own is given. -/
lemma getD_defaults (row : Option (Row ν)) (n p : ℕ) :
    (row.getD (List.replicate n none)).getD p none = (row.getD []).getD p none := by
  cases row with
  | none => exact getD_replicate n p
  | some row => rfl

section Fits

variable {scope : ℕ} {slots : Row ν} {rows : ℕ → Option (Row ν)} {x : Past ν}

lemma fits_allocated (scope : ℕ) (defaults : Row ν) :
    Fits scope defaults (fun _ => none) (.allocated scope defaults) := by
  by_cases hmain : scope = rowZero
  · subst hmain
    refine ⟨by simp, fun p => by simp [Past.reads, Past.allocated], by simp, by simp, by simp,
      fun c _ _ _ => by simp [Past.allocated, Past.blank], fun c hc hor => ?_⟩
    rcases hor with rfl | hrow
    · exact absurd rfl hc
    · exact absurd rfl hrow
  · refine ⟨by simp, fun p => ?_, by simp, fun _ p => ?_, by simp, fun c _ hne _ => ?_,
      fun c hc hor p hp => ?_⟩
    · simp [Past.reads, Past.expects, Past.allocated, hmain]
    · simp [Past.allocated, hmain, Past.blank]
    · simp [Past.allocated, hmain, Past.blank, hne]
    · rcases hor with rfl | hrow
      · simp [Past.allocated, hmain] at hp
      · exact absurd rfl hrow

lemma Fits.assign (h : Fits scope slots rows x) {index : ℕ} (hindex : index < slots.length)
    (value : Option ν) :
    Fits scope (slots.set index value) rows (x.assign scope index value) := by
  by_cases hmain : scope = rowZero
  · subst hmain
    have hx : x.assign rowZero index value
        = { x with zero := Function.update x.zero index value } := by simp [Past.assign]
    rw [hx]
    refine { h with
      length := by simpa using h.length, running := fun p => ?_, zero := fun hne => ?_ }
    · rw [getD_set hindex, h.running, Past.reads_main, Past.reads_main]
      exact (Function.update_apply _ _ _ _).symm
    · exact absurd rfl hne
  · have hx : x.assign scope index value = { x with
        wrote := Function.update x.wrote scope
          (Function.update (x.wrote scope) index (some value)) } := by simp [Past.assign, hmain]
    have hother : ∀ c, c ≠ scope → Function.update x.wrote scope
        (Function.update (x.wrote scope) index (some value)) c = x.wrote c :=
      fun c hne => Function.update_of_ne hne _ _
    rw [hx]
    refine { h with
      length := by simpa using h.length, running := fun p => ?_, parked := ?_, absent := ?_,
      settled := ?_ }
    · rw [getD_set hindex, h.running, Past.reads_fiber _ hmain, Past.reads_fiber _ hmain]
      by_cases e : p = index
      · simp [Past.expects, e]
      · simp [Past.expects, e]
    · intro c row hc hne hrow p
      simpa [Past.expects, hother c hne] using h.parked c row hc hne hrow p
    · intro c hc hne hrow
      simpa [hother c hne] using h.absent c hc hne hrow
    · intro c hc hor p hp
      by_cases e : c = scope
      · subst e
        by_cases hi : p = index
        · simp [hi] at hp
        · exact h.settled c hc hor p (by simpa [hi] using hp)
      · exact h.settled c hc hor p (by simpa [hother c e] using hp)

lemma Fits.promote (h : Fits scope slots rows x) :
    Fits scope slots (Function.update rows rowZero (some slots)) (x.promote scope) := by
  have hrows : ∀ c, c ≠ rowZero → Function.update rows rowZero (some slots) c = rows c :=
    fun c hc => Function.update_of_ne hc _ _
  refine ⟨?_, fun p => ?_, fun hne => ?_, fun _ p => ?_, ?_, ?_, ?_⟩
  · intro c row hrow
    by_cases hc : c = rowZero
    · subst hc
      rw [Function.update_self] at hrow
      rw [Option.some.inj hrow]
    · rw [hrows c hc] at hrow
      exact h.length c row hrow
  · rw [h.running]
    by_cases hmain : scope = rowZero
    · simp [hmain, Past.reads, Past.promote]
    · rw [Past.reads_fiber _ hmain, Past.reads_fiber _ hmain]
      rfl
  · rw [hrows scope hne]
    exact h.vacant hne
  · rw [Function.update_self]
    exact h.running p
  · intro c row hc hne hrow p
    rw [hrows c hc] at hrow
    exact h.parked c row hc hne hrow p
  · intro c hc hne hrow
    rw [hrows c hc] at hrow
    exact h.absent c hc hne hrow
  · intro c hc hor p hp
    rw [hrows c hc] at hor
    exact h.settled c hc hor p hp

/-- What a slot is reset to. -/
lemma Fits.getD_default (h : Fits scope slots rows x) (hfiber : scope ≠ rowZero) (p : ℕ) :
    ((List.range slots.length).map (Held.default ⟨some slots, rows⟩)).getD p none = x.zero p := by
  rw [← h.zero hfiber]
  by_cases hp : p < slots.length
  · simp [Held.default, hp]
  · have hlength : ((rows rowZero).getD []).length ≤ p := by
      cases hrow : rows rowZero with
      | none => exact Nat.zero_le p
      | some row => exact (h.length _ _ hrow).trans_le (Nat.le_of_not_lt hp)
    rw [List.getD_eq_default _ _ hlength, List.getD_eq_default]
    simpa using hp

lemma Fits.clear (h : Fits scope slots rows x) (hfiber : scope ≠ rowZero) :
    Fits scope ((List.range slots.length).map (Held.default ⟨some slots, rows⟩))
      (Function.update rows scope none) (x.clear scope) := by
  -- the scope has no row while it runs, so nothing is dropped for a live object
  have hrows : Function.update rows scope none = rows := by
    rw [← h.vacant hfiber, Function.update_eq_self]
  rw [hrows]
  refine ⟨fun c row hrow => ?_, fun p => ?_, h.vacant, h.zero, ?_, ?_, ?_⟩
  · rw [List.length_map, List.length_range]
    exact h.length c row hrow
  · rw [h.getD_default hfiber, Past.reads_fiber _ hfiber]
    simp [Past.expects, Past.clear]
  · intro c row hc hne hrow p
    simpa [Past.expects, Past.clear, hne] using h.parked c row hc hne hrow p
  · intro c hc hne hrow
    simpa [Past.clear, hne] using h.absent c hc hne hrow
  · intro c hc hor p hp
    by_cases e : c = scope
    · simp [Past.clear, e]
    · simp only [Past.clear, Function.update_of_ne e] at hp ⊢
      exact h.settled c hc hor p hp

/-- Between two scopes: all rows of the object are in `TABLES`, that of `{main}` as row zero. -/
structure Parked (n : ℕ) (rows : ℕ → Option (Row ν)) (x : Past ν) : Prop where
  length : ∀ c row, rows c = some row → row.length = n
  zero : ∀ p, ((rows rowZero).getD []).getD p none = x.zero p
  parked : ∀ c row, c ≠ rowZero → rows c = some row → ∀ p, row.getD p none = x.expects c p
  absent : ∀ c, c ≠ rowZero → rows c = none → x.inherited c = none ∧ ∀ p, x.wrote c p = none
  settled : ∀ c, c ≠ rowZero → rows c ≠ none → ∀ p, x.wrote c p = none → x.inherited c ≠ none

/-- The scope that is left has its slots saved. -/
lemma Fits.parked_save (h : Fits scope slots rows x) :
    Parked slots.length (Function.update rows scope (some slots)) x := by
  have hsaved : ∀ c, c ≠ scope → Function.update rows scope (some slots) c = rows c :=
    fun c hc => Function.update_of_ne hc _ _
  have hsome : ∀ c row, Function.update rows scope (some slots) c = some row →
      c = scope ∧ row = slots ∨ c ≠ scope ∧ rows c = some row := by
    intro c row hrow
    by_cases hc : c = scope
    · subst hc
      rw [Function.update_self] at hrow
      exact .inl ⟨rfl, (Option.some.inj hrow).symm⟩
    · exact .inr ⟨hc, by rwa [hsaved c hc] at hrow⟩
  refine ⟨?_, ?_, ?_, ?_, ?_⟩
  · intro c row hrow
    rcases hsome c row hrow with ⟨-, rfl⟩ | ⟨-, hrow⟩
    · rfl
    · exact h.length c row hrow
  · intro p
    by_cases hmain : scope = rowZero
    · subst hmain
      rw [Function.update_self]
      exact (h.running p).trans (x.reads_main p)
    · rw [hsaved rowZero (Ne.symm hmain)]
      exact h.zero hmain p
  · intro c row hc hrow p
    rcases hsome c row hrow with ⟨rfl, rfl⟩ | ⟨hne, hrow⟩
    · exact (h.running p).trans (x.reads_fiber hc p)
    · exact h.parked c row hc hne hrow p
  · intro c hc hrow
    by_cases hne : c = scope
    · simp [hne] at hrow
    · exact h.absent c hc hne (by rwa [hsaved c hne] at hrow)
  · intro c hc hrow p hp
    by_cases hne : c = scope
    · exact h.settled c hc (.inl hne) p hp
    · exact h.settled c hc (.inr (by rwa [hsaved c hne] at hrow)) p hp

/-- What a scope is given when it is entered: its own row, or a copy of row zero. -/
def entered (n : ℕ) (rows : ℕ → Option (Row ν)) (scope : ℕ) : Row ν :=
  (rows scope).getD ((rows rowZero).getD (List.replicate n none))

lemma Parked.length_entered {n : ℕ} (h : Parked n rows x) (scope : ℕ) :
    (entered n rows scope).length = n := by
  unfold entered
  cases hrow : rows scope with
  | some row => exact h.length _ _ hrow
  | none =>
      cases hzero : rows rowZero with
      | some row => exact h.length _ _ hzero
      | none => exact List.length_replicate

/-- A scope that has run before finds its row; one that has not inherits row zero. -/
lemma Parked.reads_entered {n : ℕ} (h : Parked n rows x) (scope p : ℕ) :
    (entered n rows scope).getD p none = (x.enter scope).reads scope p := by
  have hdefaults : ((rows rowZero).getD (List.replicate n none)).getD p none = x.zero p :=
    (getD_defaults _ _ p).trans (h.zero p)
  unfold entered
  by_cases hmain : scope = rowZero
  · subst hmain
    rw [Past.reads_main, Past.enter_zero, ← hdefaults]
    cases rows rowZero <;> rfl
  rw [Past.reads_fiber _ hmain, x.enter_expects hmain]
  cases hrow : rows scope with
  | none =>
      obtain ⟨hinherited, hwrote⟩ := h.absent scope hmain hrow
      rw [hinherited, hwrote]
      exact hdefaults
  | some row =>
      rw [Option.getD_some, h.parked scope row hmain hrow p]
      cases hw : x.wrote scope p with
      | some value => simp [Past.expects, hw]
      | none =>
          have hi := h.settled scope hmain (by simp [hrow]) p hw
          obtain ⟨zero, hzero⟩ := Option.ne_none_iff_exists'.mp hi
          simp [Past.expects, hw, hzero]

/-- Entering a scope takes its row out of `TABLES`. -/
lemma Parked.fits_enter {n : ℕ} (h : Parked n rows x) (scope : ℕ) :
    Fits scope (entered n rows scope) (Function.update rows scope none) (x.enter scope) := by
  have hrows : ∀ c, c ≠ scope → Function.update rows scope none c = rows c :=
    fun c hc => Function.update_of_ne hc _ _
  refine ⟨?_, h.reads_entered scope, fun _ => Function.update_self _ _ _, ?_, ?_, ?_, ?_⟩
  · intro c row hrow
    by_cases hc : c = scope
    · simp [hc] at hrow
    · rw [hrows c hc] at hrow
      rw [h.length_entered, h.length c row hrow]
  · intro hfiber p
    rw [hrows _ (Ne.symm hfiber), Past.enter_zero]
    exact h.zero p
  · intro c row hc hne hrow p
    rw [hrows c hne] at hrow
    rw [x.enter_expects_of_ne hne]
    exact h.parked c row hc hrow p
  · intro c hc hne hrow
    rw [hrows c hne] at hrow
    rw [x.enter_inherited_of_ne hne, x.enter_wrote]
    exact h.absent c hc hrow
  · intro c hc hor p hp
    rw [x.enter_wrote] at hp
    by_cases hne : c = scope
    · subst hne
      simp [x.enter_inherited hc]
    · rw [x.enter_inherited_of_ne hne]
      refine h.settled c hc ?_ p hp
      rcases hor with e | hrow
      · exact absurd e hne
      · rwa [hrows c hne] at hrow

end Fits

/-! ## Every step keeps to the past -/

lemma Held.fits_switch {scope : ℕ} {o : Held ν} {x : Past ν} (entering : ℕ) (h : o.Fits scope x)
    (ho : o.slots.isSome) : (o.switch scope entering).Fits entering (x.enter entering) := by
  obtain ⟨slots, rows⟩ := o
  cases slots with
  | none => cases ho
  | some slots => exact (Scoped.Fits.parked_save h).fits_enter entering

lemma Held.fits_clear {scope : ℕ} {o : Held ν} {x : Past ν} (h : o.Fits scope x)
    (hfiber : scope ≠ rowZero) (ho : o.slots.isSome) :
    (o.clear scope).Fits scope (x.clear scope) := by
  obtain ⟨slots, rows⟩ := o
  cases slots with
  | none => cases ho
  | some slots => exact Scoped.Fits.clear h hfiber

lemma Held.fits_promote {scope : ℕ} {o : Held ν} {x : Past ν} (h : o.Fits scope x)
    (ho : o.slots.isSome) : o.promote.Fits scope (x.promote scope) := by
  obtain ⟨slots, rows⟩ := o
  cases slots with
  | none => cases ho
  | some slots => exact Scoped.Fits.promote h

/-- The slots and rows of every object are those of its past. -/
def Good (t : Traced α) : Prop := ∀ h, (t.state.held h).Fits t.state.current (t.past h)

lemma good_start : Good (start : Traced α) := fun _ _ => rfl

lemma Good.of_held {t : Traced α} (hgood : Good t) {h : ℕ} {slots : Row (Value α)}
    (hs : t.state.live.get? h = some slots) :
    Scoped.Fits t.state.current slots (t.state.held h).rows (t.past h) := by
  have hfits := hgood h
  simp only [Held.Fits, State.held, hs] at hfits
  exact hfits

lemma Good.rows_of_dead {t : Traced α} (hgood : Good t) {h : ℕ}
    (hs : t.state.live.get? h = none) : t.state.held h = .dead := by
  have hfits := hgood h
  simp only [Held.Fits, State.held, hs] at hfits
  exact Held.ext hs (funext hfits)

section Traced

variable [DecidableEq α]

lemma tracedStep_eq {t t' : Traced α} {a : Action α} (h : tracedStep t a = some t') :
    step t.state a = some t'.state ∧ t'.past = record t.state t'.state t.past a := by
  obtain ⟨s, hs, rfl⟩ := Option.map_eq_some_iff.mp h
  exact ⟨hs, rfl⟩

/-- The past of an object that is there after the step. -/
lemma past_of_step {t t' : Traced α} {a : Action α} {handle : ℕ} (h : tracedStep t a = some t')
    (hlive : t'.state.live.has handle) :
    t'.past handle = a.onPast t.state.current handle (t.past handle) := by
  rw [(tracedStep_eq h).2, record, if_pos hlive]

lemma current_of_step {t t' : Traced α} {a : Action α} (h : tracedStep t a = some t') :
    t'.state.current = a.scope t.state.current :=
  (effect_of_step (tracedStep_eq h).1).1

/-- Where an object that is there after the step comes from. -/
lemma held_of_step {t t' : Traced α} {a : Action α} {handle : ℕ} (h : tracedStep t a = some t')
    (hlive : t'.state.live.has handle) :
    t'.state.held handle = a.onHeld t.state.current handle (t.state.held handle) := by
  rcases (effect_of_step (tracedStep_eq h).1).2 handle with heq | hdead
  · exact heq
  · rw [State.has_eq, hdead] at hlive
    cases hlive

/-- Only `allocate` makes an object. -/
lemma live_of_step {t t' : Traced α} {a : Action α} {handle : ℕ} (h : tracedStep t a = some t')
    (hlive : t'.state.live.has handle) (ha : ∀ defaults, a ≠ .allocate handle defaults) :
    t.state.live.has handle := by
  rwa [State.has_eq, held_of_step h hlive, Action.isSome_onHeld ha] at hlive

/-- A handle that is given out is not in use. -/
lemma ne_of_allocate {t t' : Traced α} {handle other : ℕ} {defaults : Row (Value α)}
    (hlive : t.state.live.has handle) (h : tracedStep t (.allocate other defaults) = some t') :
    handle ≠ other := by
  rintro rfl
  obtain ⟨hdead, -⟩ := possible_allocate (step_eq (tracedStep_eq h).1).1
  simp [OrdMap.has, hdead] at hlive

/-- **Every step keeps each object to its past.** -/
theorem Good.step {t t' : Traced α} {a : Action α} (hgood : Good t)
    (h : tracedStep t a = some t') : Good t' := by
  intro handle
  have hpossible := (step_eq (tracedStep_eq h).1).1
  cases hslots' : t'.state.live.get? handle with
  | none =>
      -- of an object that is not there nothing is left
      have hdead' : t'.state.held handle = .dead := by
        rcases (effect_of_step (tracedStep_eq h).1).2 handle with heq | hdead
        · have hnone := congrArg (fun o => o.slots.isSome) heq
          simp only [State.held, hslots', Option.isSome_none] at hnone
          have ha : ∀ defaults, a ≠ .allocate handle defaults := by
            rintro defaults rfl
            simp [Action.onHeld] at hnone
          have hslots : t.state.live.get? handle = none := by
            simpa [Action.isSome_onHeld ha] using hnone.symm
          rw [heq, hgood.rows_of_dead hslots, Action.onHeld_dead ha]
        · exact hdead
      rw [hdead']
      exact fun c => rfl
  | some slots' =>
      have hlive : t'.state.live.has handle = true := OrdMap.has_iff.mpr ⟨slots', hslots'⟩
      rw [held_of_step h hlive, past_of_step h hlive, current_of_step h]
      have hfits := hgood handle
      have hbefore := live_of_step h hlive
      cases a with
      | allocate other defaults =>
          simp only [Action.onHeld, Action.onPast, Action.scope]
          split_ifs with he
          · subst he
            rw [hgood.rows_of_dead (possible_allocate hpossible).1]
            exact fits_allocated _ _
          · exact hfits
      | assign other index value =>
          simp only [Action.onHeld, Action.onPast, Action.scope]
          split_ifs with he
          · subst he
            obtain ⟨slots, hslots, hindex⟩ := (possible_assign hpossible).1
            have hassign := (hgood.of_held hslots).assign hindex value
            simpa [Held.Fits, Held.write, State.held, hslots] using hassign
          · exact hfits
      | sealObject other =>
          simp only [Action.onHeld, Action.onPast, Action.scope]
          split_ifs
          · exact Held.fits_promote hfits (hbefore (by simp))
          · exact hfits
      | switch scope =>
          simp only [Action.onHeld, Action.onPast, Action.scope]
          split_ifs with he
          · rw [← he]
            exact hfits
          · exact Held.fits_switch scope hfits (hbefore (by simp))
      | rowsClear order =>
          simp only [Action.onHeld, Action.onPast, Action.scope]
          split_ifs with he
          · exact hfits
          · exact Held.fits_clear hfits he (hbefore (by simp))
      | take value => exact hfits
      | drop value => exact hfits
      | fill address values => exact hfits

/-- **Every run keeps each object to its past.** -/
theorem good_of_run {as : List (Action α)} {t : Traced α}
    (h : runFrom tracedStep start as = some t) : Good t :=
  invariant_of_run tracedStep (fun _ _ _ hI hs => hI.step hs) good_start h

/-! ## A scope reads its own writes, or what it has inherited -/

/-- What a slot or a row holds stays, in a run whose clears are in order. -/
lemma sound_of_run {as : List (Action α)} {t : Traced α}
    (hclears : Along tracedStep (fun t => ClearsLive t.state) start as)
    (h : runFrom tracedStep start as = some t) : Sound t.state :=
  invariant_of_step tracedStep (I := fun t => Sound t.state)
    (fun _ _ _ hs hok hstep => hs.step hok (tracedStep_eq hstep).1) sound_init hclears h

/-- An object of two properties is built and sealed on fiber 5, which then writes to it and clears;
fiber 6 reads what was sealed. -/
def sealedThenWritten : List (Action ℕ) :=
  [.switch 5, .allocate 1 [some (.scalar 10), none], .take (.counted 7),
    .assign 1 1 (some (.counted 7)), .drop (.counted 7), .sealObject 1,
    .assign 1 0 (some (.scalar 12)), .assign 1 1 none, .rowsClear [1], .switch 6]

/-- Fibers 5 and 6 store the same array, fiber 6 in a property of the service 3 and fiber 5 in one
of the scoped object 2, which only the service 1 refers to. -/
def sharedArray : List (Action ℕ) :=
  [.switch 6, .allocate 3 [none], .sealObject 3, .take (.counted 7), .fill 7 [.scalar 1],
    .assign 3 0 (some (.counted 7)), .switch 5, .allocate 1 [none], .sealObject 1,
    .allocate 2 [none, none], .sealObject 2, .assign 2 0 (some (.counted 7)),
    .drop (.counted 7), .assign 1 0 (some (.object 2)), .drop (.object 2)]

/-- Nobody but a scope itself, when it is entered or cleared, changes what it has inherited. -/
lemma inherited_frame {t t' : Traced α} {a : Action α} {handle scope : ℕ}
    (hlive : t.state.live.has handle) (hlive' : t'.state.live.has handle)
    (hparked : t.state.current ≠ scope) (ha : a ≠ .switch scope)
    (h : tracedStep t a = some t') :
    t'.state.current ≠ scope ∧
      (t'.past handle).inherited scope = (t.past handle).inherited scope := by
  rw [current_of_step h, past_of_step h hlive']
  cases a with
  | allocate other defaults =>
      rw [Action.onPast, if_neg (ne_of_allocate hlive h)]
      exact ⟨hparked, rfl⟩
  | assign other index value =>
      refine ⟨hparked, ?_⟩
      simp only [Action.onPast, Past.assign]
      split_ifs <;> rfl
  | sealObject other =>
      refine ⟨hparked, ?_⟩
      simp only [Action.onPast, Past.promote]
      split_ifs <;> rfl
  | switch other =>
      have hne : other ≠ scope := fun e => ha (by rw [e])
      refine ⟨hne, ?_⟩
      simp only [Action.onPast]
      split_ifs
      · rfl
      · exact Past.enter_inherited_of_ne _ hne.symm
  | rowsClear order =>
      refine ⟨hparked, ?_⟩
      simp only [Action.onPast]
      split_ifs
      · rfl
      · simp [Past.clear, Ne.symm hparked]
  | take value => exact ⟨hparked, rfl⟩
  | drop value => exact ⟨hparked, rfl⟩
  | fill address values => exact ⟨hparked, rfl⟩

/-- What a fiber that has written nothing reads when it next runs. -/
lemma reads_unwritten {t t' : Traced α} (hgood : Good t) {handle scope index : ℕ}
    {slots : Row (Value α)} (hfiber : scope ≠ rowZero) (hparked : t.state.current ≠ scope)
    (h : tracedStep t (.switch scope) = some t')
    (hslots : t'.state.live.get? handle = some slots)
    (hwrote : (t'.past handle).wrote scope index = none) :
    slots.getD index none
      = ((t.past handle).inherited scope).getD (t.past handle).zero index := by
  have hfits := (hgood.step h).of_held hslots
  have hx : t'.past handle = (t.past handle).enter scope := by
    rw [past_of_step h (OrdMap.has_iff.mpr ⟨slots, hslots⟩)]
    exact if_neg hparked
  rw [hx, Past.enter_wrote] at hwrote
  rw [hfits.running, current_of_step h, hx, Action.scope, Past.reads_fiber _ hfiber,
    Past.enter_expects _ hfiber, hwrote]
  rfl

/-- **Who sees a seal.**  An object is sealed and stays, other scopes run, and then for the first
time since the seal the fiber `scope`, which has not written the property.  It reads the sealed
value if and only if it has never inherited and row zero still holds that value, or the value it has
inherited before the seal happens to be the same. -/
theorem seal_seen_iff {as bs : List (Action α)} {t t₁ t₂ t₃ : Traced α} {handle scope index : ℕ}
    {kept slots : Row (Value α)} (hrun : runFrom tracedStep start as = some t)
    (hkept : t.state.live.get? handle = some kept)
    (hseal : tracedStep t (.sealObject handle) = some t₁)
    (hfiber : scope ≠ rowZero) (hother : t.state.current ≠ scope)
    (hbs : ∀ b ∈ bs, b ≠ .switch scope)
    (hstays : Always tracedStep (fun u => u.state.live.has handle) t₁ bs)
    (hbetween : runFrom tracedStep t₁ bs = some t₂)
    (hnext : tracedStep t₂ (.switch scope) = some t₃)
    (hslots : t₃.state.live.get? handle = some slots)
    (hwrote : (t₃.past handle).wrote scope index = none) :
    slots.getD index none = kept.getD index none ↔
      match (t.past handle).inherited scope with
      | none => (t₂.past handle).zero index = kept.getD index none
      | some row => row index = kept.getD index none := by
  have hlive : t.state.live.has handle := OrdMap.has_iff.mpr ⟨kept, hkept⟩
  have hlive₁ := hstays [] t₁ List.nil_prefix rfl
  have hframe₁ := inherited_frame hlive hlive₁ hother (by simp) hseal
  have hframe₂ : t₂.state.current ≠ scope ∧
      (t₂.past handle).inherited scope = (t.past handle).inherited scope := by
    clear hnext hslots hwrote hkept hseal
    induction bs generalizing t₁ with
    | nil =>
        obtain rfl := Option.some.inj hbetween
        exact hframe₁
    | cons b bs ih =>
        obtain ⟨u, hu, hrest⟩ := (runFrom_cons tracedStep).mp hbetween
        obtain ⟨-, hstays'⟩ := (always_cons_of_step tracedStep hu).mp hstays
        have hlive' := hstays' [] u List.nil_prefix rfl
        obtain ⟨h₁, h₂⟩ := inherited_frame hlive₁ hlive' hframe₁.1 (hbs b List.mem_cons_self) hu
        exact ih (fun b' hb' => hbs b' (List.mem_cons_of_mem b hb')) hstays' hrest hlive'
          ⟨h₁, h₂.trans hframe₁.2⟩
  obtain ⟨hparked₂, hinherited⟩ := hframe₂
  have hgood₂ : Good t₂ :=
    invariant_of_run tracedStep (fun _ _ _ hI hs => hI.step hs) ((good_of_run hrun).step hseal)
      hbetween
  rw [reads_unwritten hgood₂ hfiber hparked₂ hnext hslots hwrote, hinherited]
  cases (t.past handle).inherited scope with
  | none => rfl
  | some row => rfl

/-- Fiber 6 builds an object and configures it after the constructor; fiber 5, if `early`, has run
once in between. -/
def configured (early : Bool) : List (Action ℕ) :=
  List.flatten [[.switch 6, .allocate 1 [none], .assign 1 0 (some (.scalar 1)), .sealObject 1],
    if early then [.switch 5, .switch 6] else [], [.assign 1 0 (some (.scalar 2))]]

theorem seal_seen_by_newcomer : ∃ t t₁ t₂ t₃ slots,
    runFrom tracedStep start (configured false) = some t ∧
    tracedStep t (.sealObject 1) = some t₁ ∧
    runFrom tracedStep t₁ [.switch 7, .assign 1 0 (some (.scalar 3))] = some t₂ ∧
    tracedStep t₂ (.switch 5) = some t₃ ∧ t₃.state.live.get? 1 = some slots ∧
    slots.getD 0 none = some (.scalar 2) := by
  have hruns : ∃ t t₁ u t₂ t₃, runFrom tracedStep start (configured false) = some t ∧
      tracedStep t (.sealObject 1) = some t₁ ∧ t₁.state.live.has 1 ∧
      tracedStep t₁ (.switch 7) = some u ∧ u.state.live.has 1 ∧
      tracedStep u (.assign 1 0 (some (.scalar 3))) = some t₂ ∧ t₂.state.live.has 1 ∧
      runFrom tracedStep t₁ [.switch 7, .assign 1 0 (some (.scalar 3))] = some t₂ ∧
      tracedStep t₂ (.switch 5) = some t₃ ∧ t.state.live.get? 1 = some [some (.scalar 2)] ∧
      t.state.current ≠ 5 ∧ t₃.state.live.get? 1 = some [some (.scalar 2)] ∧
      (t₃.past 1).wrote 5 0 = none ∧ (t.past 1).inherited 5 = none ∧
      (t₂.past 1).zero 0 = some (.scalar 2) :=
    ⟨_, _, _, _, _, rfl, rfl, by decide, rfl, by decide, rfl, by decide, rfl, rfl, by decide,
      by decide, by decide, rfl, rfl, rfl⟩
  obtain ⟨t, t₁, u, t₂, t₃, hrun, hseal, hlive₁, hu, hlive, ht₂, hlive₂, hbetween, hnext, hkept,
    hother, hslots, hwrote, hinherited, hzero⟩ := hruns
  have hstays : Always tracedStep (fun u => u.state.live.has 1) t₁
      [.switch 7, .assign 1 0 (some (.scalar 3))] := by
    rw [always_cons_of_step tracedStep hu, always_cons_of_step tracedStep ht₂]
    refine ⟨hlive₁, hlive, fun bs v hbs hv => ?_⟩
    obtain rfl := List.prefix_nil.mp hbs
    exact Option.some.inj hv ▸ hlive₂
  refine ⟨t, t₁, t₂, t₃, _, hrun, hseal, hbetween, hnext, hslots, ?_⟩
  refine (seal_seen_iff hrun hkept hseal (by decide) hother (by decide) hstays hbetween hnext hslots
    hwrote).mpr ?_
  rw [hinherited]
  exact hzero

/-- Fiber 5 has merely run before the second seal, and keeps reading what the first one promoted. -/
theorem seal_missed : ∃ t t₁ t₃, runFrom tracedStep start (configured true) = some t ∧
    t.state.live.get? 1 = some [some (.scalar 2)] ∧ t.state.current = 6 ∧
    tracedStep t (.sealObject 1) = some t₁ ∧ tracedStep t₁ (.switch 5) = some t₃ ∧
    (∀ index, (t₃.past 1).wrote 5 index = none) ∧
    t₃.state.live.get? 1 = some [some (.scalar 1)] :=
  ⟨_, _, _, rfl, by decide, rfl, rfl, rfl, fun _ => rfl, by decide⟩

end Traced

end Ignis.Scoped
