import Mathlib.Data.List.GetD
import Ignis.Scoped.Isolation

/-!
# A sealed object is one object for each scope

What users want of a scoped object says nothing of rows and switches: every scope has a copy of what
was built, changes its own, and is given a new one at `rows_clear`.  `Copies` is that, and
`Follows.step` says that an object that was sealed once and for all behaves so, as long as PHP code
has it in a variable and `{main}` does not write to it.  The exceptions are the scopes that ran
while the object was being built: these inherited what there was then, until they clear.

The past of an object says what a scope reads while it runs.  What a parked scope is going to read,
`Past.upcoming`, does not change when it is entered, so it is what the argument is about.
-/

namespace Ignis.Scoped

open StepSystem

variable {α ν : Type}

/-! ## What a scope is going to read -/

/-- What a scope reads when it next runs: of what it has neither written nor inherited, row zero. -/
def Past.upcoming (x : Past ν) (scope index : ℕ) : Option ν :=
  if scope = rowZero then x.zero index
  else (x.wrote scope index).getD ((x.inherited scope).getD x.zero index)

namespace Past

lemma upcoming_main (x : Past ν) (index : ℕ) : x.upcoming rowZero index = x.zero index := by
  simp [upcoming]

lemma upcoming_fiber (x : Past ν) {scope : ℕ} (h : scope ≠ rowZero) (index : ℕ) :
    x.upcoming scope index
      = (x.wrote scope index).getD ((x.inherited scope).getD x.zero index) := by
  simp [upcoming, h]

lemma upcoming_enter (x : Past ν) (entering scope index : ℕ) :
    (x.enter entering).upcoming scope index = x.upcoming scope index := by
  by_cases hmain : scope = rowZero
  · simp [hmain, upcoming_main]
  rw [upcoming_fiber _ hmain, upcoming_fiber _ hmain, enter_wrote, enter_zero]
  by_cases he : scope = entering
  · subst he
    rw [x.enter_inherited hmain, Option.getD_some]
  · rw [x.enter_inherited_of_ne he]

lemma upcoming_assign_self (x : Past ν) (scope index : ℕ) (value : Option ν) (p : ℕ) :
    (x.assign scope index value).upcoming scope p
      = if p = index then value else x.upcoming scope p := by
  by_cases hmain : scope = rowZero
  · subst hmain
    rw [upcoming_main, upcoming_main]
    simp [assign, Function.update_apply]
  · rw [upcoming_fiber _ hmain, upcoming_fiber _ hmain]
    by_cases hp : p = index
    · simp [assign, hmain, hp]
    · simp [assign, hmain, hp]

lemma upcoming_assign_of_ne (x : Past ν) {writer scope : ℕ} (index : ℕ) (value : Option ν)
    (hwriter : writer ≠ rowZero) (hne : scope ≠ writer) (p : ℕ) :
    (x.assign writer index value).upcoming scope p = x.upcoming scope p := by
  simp [upcoming, assign, hwriter, hne]

lemma assign_zero (x : Past ν) {writer : ℕ} (index : ℕ) (value : Option ν)
    (hwriter : writer ≠ rowZero) : (x.assign writer index value).zero = x.zero := by
  simp [assign, hwriter]

lemma upcoming_clear_self (x : Past ν) {scope : ℕ} (h : scope ≠ rowZero) (p : ℕ) :
    (x.clear scope).upcoming scope p = x.zero p := by
  simp [upcoming, clear, h]

lemma upcoming_clear_of_ne (x : Past ν) {cleared scope : ℕ} (hne : scope ≠ cleared) (p : ℕ) :
    (x.clear cleared).upcoming scope p = x.upcoming scope p := by
  simp [upcoming, clear, hne]

end Past

/-- The scope that runs reads what it was going to. -/
lemma Fits.reads_upcoming {scope : ℕ} {slots : Row ν} {rows : ℕ → Option (Row ν)} {x : Past ν}
    (h : Fits scope slots rows x) (p : ℕ) : slots.getD p none = x.upcoming scope p := by
  rw [h.running]
  by_cases hmain : scope = rowZero
  · rw [hmain, x.reads_main, x.upcoming_main]
  rw [x.reads_fiber hmain, x.upcoming_fiber hmain, Past.expects]
  cases hw : x.wrote scope p with
  | some value => rfl
  | none =>
      obtain ⟨row, hrow⟩ := Option.ne_none_iff_exists'.mp (h.settled scope hmain (.inl rfl) p hw)
      rw [hrow]
      rfl

lemma Good.slots_upcoming {t : Traced α} (hgood : Good t) {handle : ℕ} {slots : Row (Value α)}
    (hs : t.state.live.get? handle = some slots) (p : ℕ) :
    slots.getD p none = (t.past handle).upcoming t.state.current p :=
  (hgood.of_held hs).reads_upcoming p

/-- There is nothing beyond the declared properties, for any scope. -/
lemma Good.upcoming_eq_none {t : Traced α} (hgood : Good t) {handle : ℕ} {slots : Row (Value α)}
    (hs : t.state.live.get? handle = some slots) {p : ℕ} (hp : slots.length ≤ p) (scope : ℕ) :
    (t.past handle).upcoming scope p = none := by
  have hfits := hgood.of_held hs
  have hbeyond : ∀ row : Row (Value α), row.length = slots.length → row.getD p none = none := by
    intro row hlength
    exact List.getD_eq_default _ _ (hlength ▸ hp)
  have hzero : (t.past handle).zero p = none := by
    by_cases hmain : t.state.current = rowZero
    · rw [← Past.upcoming_main, ← hmain, ← hgood.slots_upcoming hs]
      exact hbeyond slots rfl
    · rw [← hfits.zero hmain]
      cases hrow : (t.state.held handle).rows rowZero with
      | none => rfl
      | some row => exact hbeyond row (hfits.length _ _ hrow)
  by_cases hmain : scope = rowZero
  · rw [hmain, Past.upcoming_main, hzero]
  by_cases hcurrent : scope = t.state.current
  · rw [hcurrent, ← hgood.slots_upcoming hs]
    exact hbeyond slots rfl
  rw [Past.upcoming_fiber _ hmain]
  cases hrow : (t.state.held handle).rows scope with
  | none =>
      obtain ⟨hinherited, hwrote⟩ := hfits.absent scope hmain hcurrent hrow
      rw [hinherited, hwrote p]
      exact hzero
  | some row =>
      have hexpects := hfits.parked scope row hmain hcurrent hrow p
      rw [hbeyond row (hfits.length _ _ hrow), Past.expects] at hexpects
      cases hw : (t.past handle).wrote scope p with
      | some value => simpa [hw] using hexpects.symm
      | none =>
          have hsettled := hfits.settled scope hmain (.inr (by simp [hrow])) p hw
          obtain ⟨inherited, hi⟩ := Option.ne_none_iff_exists'.mp hsettled
          simpa [hw, hi] using hexpects.symm

/-! ## What an action does to one object -/

/-- The object is live and has `n` declared properties. -/
def Shaped (n handle : ℕ) (s : State α) : Prop :=
  ∃ slots, s.live.get? handle = some slots ∧ slots.length = n

lemma Shaped.live {n handle : ℕ} {s : State α} (h : Shaped n handle s) :
    s.live.has handle = true := by
  obtain ⟨slots, hslots, -⟩ := h
  exact OrdMap.has_iff.mpr ⟨slots, hslots⟩

lemma Held.length_switch {scope n : ℕ} {o : Held ν} {x : Past ν} (entering : ℕ)
    (h : o.Fits scope x) (hn : ∃ slots, o.slots = some slots ∧ slots.length = n) :
    ∃ slots, (o.switch scope entering).slots = some slots ∧ slots.length = n := by
  obtain ⟨slots, rows⟩ := o
  obtain ⟨slots, rfl, rfl⟩ := hn
  exact ⟨_, rfl, (Scoped.Fits.parked_save h).length_entered entering⟩

lemma Held.length_clear {n : ℕ} (scope : ℕ) {o : Held ν}
    (hn : ∃ slots, o.slots = some slots ∧ slots.length = n) :
    ∃ slots, (o.clear scope).slots = some slots ∧ slots.length = n := by
  obtain ⟨slots, rows⟩ := o
  obtain ⟨slots, rfl, rfl⟩ := hn
  exact ⟨_, rfl, by simp⟩

section Traced

variable [DecidableEq α]

/-- An object that is not freed keeps its properties. -/
lemma Shaped.step {t t' : Traced α} {a : Action α} {n handle : ℕ} (hgood : Good t)
    (hshaped : Shaped n handle t.state) (h : tracedStep t a = some t')
    (hlive : t'.state.live.has handle = true) : Shaped n handle t'.state := by
  have hheld : ∃ slots, (t.state.held handle).slots = some slots ∧ slots.length = n := hshaped
  show ∃ slots, (t'.state.held handle).slots = some slots ∧ slots.length = n
  rw [held_of_step h hlive]
  cases a with
  | allocate other defaults =>
      rw [Action.onHeld, if_neg (ne_of_allocate hshaped.live h)]
      exact hheld
  | assign other index value =>
      simp only [Action.onHeld]
      split_ifs
      · obtain ⟨slots, hslots, rfl⟩ := hheld
        exact ⟨slots.set index value, by simp [Held.write, hslots], List.length_set⟩
      · exact hheld
  | sealObject other =>
      simp only [Action.onHeld]
      split_ifs
      · obtain ⟨slots, hslots, rfl⟩ := hheld
        exact ⟨slots, by simp [Held.promote, hslots], rfl⟩
      · exact hheld
  | switch scope =>
      simp only [Action.onHeld]
      split_ifs
      · exact hheld
      · exact Held.length_switch scope (hgood handle) hheld
  | rowsClear order =>
      simp only [Action.onHeld]
      split_ifs
      · exact hheld
      · exact Held.length_clear _ hheld
  | take value => exact hheld
  | drop value => exact hheld
  | fill address values => exact hheld

/-- PHP code has a reference to the object, and what it has stays. -/
structure Kept (handle : ℕ) (s : State α) : Prop where
  sound : Sound s
  has : Value.object handle ∈ s.locals

lemma Kept.live {handle : ℕ} {s : State α} (h : Kept handle s) : s.live.has handle = true :=
  h.sound.live_of_local h.has

/-- Nobody gives the last of these references back, and no `rows_clear` touches freed slots. -/
def Keeps (handle : ℕ) (s : State α) : Action α → Prop
  | .drop value => value = .object handle → 1 < s.locals.count value
  | a => ClearsLive s a

instance (handle : ℕ) (s : State α) : (a : Action α) → Decidable (Keeps handle s a)
  | .drop _ => inferInstanceAs (Decidable (_ → _))
  | .rowsClear order => inferInstanceAs (Decidable (ClearsLive s (.rowsClear order)))
  | .allocate _ _ => isTrue trivial
  | .assign _ _ _ => isTrue trivial
  | .sealObject _ => isTrue trivial
  | .switch _ => isTrue trivial
  | .take _ => isTrue trivial
  | .fill _ _ => isTrue trivial

lemma Keeps.clearsLive {handle : ℕ} {s : State α} {a : Action α} (h : Keeps handle s a) :
    ClearsLive s a := by
  cases a <;> first | exact trivial | exact h

lemma Kept.step {handle : ℕ} {s s' : State α} {a : Action α} (hs : Kept handle s)
    (hkeeps : Keeps handle s a) (h : Scoped.step s a = some s') : Kept handle s' := by
  refine ⟨hs.sound.step hkeeps.clearsLive h, ?_⟩
  rw [locals_of_step h]
  cases a with
  | allocate other defaults => exact List.mem_cons_of_mem _ hs.has
  | take value => exact List.mem_cons_of_mem _ hs.has
  | drop value =>
      by_cases he : value = .object handle
      · subst he
        refine List.count_pos_iff.mp ?_
        rw [List.count_erase_self]
        exact Nat.sub_pos_of_lt (hkeeps rfl)
      · exact (List.mem_erase_of_ne (Ne.symm he)).mpr hs.has
  | assign other index value => exact hs.has
  | sealObject other => exact hs.has
  | switch scope => exact hs.has
  | rowsClear order => exact hs.has
  | fill address values => exact hs.has

end Traced

/-! ## The copies -/

/-- An object as its users are to think of it, once it is built. -/
structure Copies (ν : Type) where
  /-- What was built. -/
  built : Row ν
  /-- The scope that runs. -/
  current : ℕ
  /-- The copies of the scopes that have changed theirs. -/
  own : ℕ → Option (Row ν) := fun _ => none
  /-- The scopes of which nothing is said: they ran while the object was being built, and have not
  cleared since. -/
  stale : List ℕ := []

namespace Copies

def reads (m : Copies ν) (scope : ℕ) : Row ν := (m.own scope).getD m.built

/-- What an action means for the copies of the object `handle`. -/
def perform (handle : ℕ) (m : Copies (Value α)) : Action α → Copies (Value α)
  | .assign other index value =>
      if other = handle then
        { m with
          own := Function.update m.own m.current (some ((m.reads m.current).set index value)) }
      else m
  | .switch scope => { m with current := scope }
  | .rowsClear _ =>
      if m.current = rowZero then m
      else { m with
        own := Function.update m.own m.current none
        stale := m.stale.filter (· ≠ m.current) }
  | _ => m

end Copies

section Traced

variable [DecidableEq α]

/-- A built object is used, not built again: nobody seals it or gives up the last reference to it,
and `{main}` does not write to it. -/
def Used (handle : ℕ) (s : State α) : Action α → Prop
  | .assign other _ _ => other = handle → s.current ≠ rowZero
  | .sealObject other => other ≠ handle
  | a => Keeps handle s a

instance (handle : ℕ) (s : State α) (a : Action α) : Decidable (Used handle s a) :=
  match a with
  | .assign other _ _ => inferInstanceAs (Decidable (other = handle → s.current ≠ rowZero))
  | .sealObject other => inferInstanceAs (Decidable (other ≠ handle))
  | .allocate _ _ => isTrue trivial
  | .switch _ => isTrue trivial
  | .rowsClear order => inferInstanceAs (Decidable (Keeps handle s (.rowsClear order)))
  | .take _ => isTrue trivial
  | .drop value => inferInstanceAs (Decidable (Keeps handle s (.drop value)))
  | .fill _ _ => isTrue trivial

lemma Used.keeps {handle : ℕ} {s : State α} {a : Action α} (h : Used handle s a) :
    Keeps handle s a := by
  cases a <;> first | exact trivial | exact h

/-- The object `handle` of the machine is as its copies say. -/
structure Follows (handle : ℕ) (m : Copies (Value α)) (t : Traced α) : Prop where
  good : Good t
  kept : Kept handle t.state
  shaped : Shaped m.built.length handle t.state
  current : m.current = t.state.current
  zero : ∀ p, (t.past handle).zero p = m.built.getD p none
  length : ∀ scope, (m.reads scope).length = m.built.length
  upcoming : ∀ scope, scope ∉ m.stale →
    ∀ p, (t.past handle).upcoming scope p = (m.reads scope).getD p none

/-- An action that neither switches nor clears nor writes to the object. -/
lemma Follows.of_same {handle : ℕ} {m : Copies (Value α)} {t t' : Traced α}
    (h : Follows handle m t) (hgood : Good t') (hkept : Kept handle t'.state)
    (hshaped : Shaped m.built.length handle t'.state)
    (hcurrent : t'.state.current = t.state.current) (hpast : t'.past handle = t.past handle) :
    Follows handle m t' :=
  { h with
    good := hgood
    kept := hkept
    shaped := hshaped
    current := h.current.trans hcurrent.symm
    zero := by rw [hpast]; exact h.zero
    upcoming := by rw [hpast]; exact h.upcoming }

/-- **Every use of a built object is one of its copies.** -/
theorem Follows.step {handle : ℕ} {m : Copies (Value α)} {t t' : Traced α} {a : Action α}
    (h : Follows handle m t) (hused : Used handle t.state a) (hstep : tracedStep t a = some t') :
    Follows handle (m.perform handle a) t' := by
  have hgood := h.good.step hstep
  have hkept := h.kept.step hused.keeps (tracedStep_eq hstep).1
  have hshaped := h.shaped.step h.good hstep hkept.live
  have hcurrent := current_of_step hstep
  have hpast := past_of_step hstep hkept.live
  cases a with
  | allocate other defaults =>
      refine h.of_same hgood hkept hshaped hcurrent (hpast.trans ?_)
      exact if_neg (ne_of_allocate h.kept.live hstep)
  | assign other index value =>
      by_cases he : handle = other
      · subst he
        have hfiber : t.state.current ≠ rowZero := hused rfl
        obtain ⟨slots, hslots, hindex⟩ := (possible_assign (step_eq (tracedStep_eq hstep).1).1).1
        obtain ⟨slots', hs', hlength⟩ := h.shaped
        obtain rfl : slots = slots' := Option.some.inj (hslots.symm.trans hs')
        have hx : t'.past handle = (t.past handle).assign t.state.current index value :=
          hpast.trans (if_pos rfl)
        have hperform : m.perform handle (.assign handle index value) = { m with
            own := Function.update m.own m.current (some ((m.reads m.current).set index value)) } :=
          if_pos rfl
        rw [hperform]
        refine ⟨hgood, hkept, hshaped, h.current.trans hcurrent.symm, fun p => ?_,
          fun scope => ?_, fun scope hscope p => ?_⟩
        · rw [hx, Past.assign_zero _ _ _ hfiber]
          exact h.zero p
        · by_cases hs : scope = m.current
          · subst hs
            simp only [Copies.reads, Function.update_self, Option.getD_some, List.length_set]
            exact h.length m.current
          · simp only [Copies.reads, Function.update_of_ne hs]
            exact h.length scope
        · rw [hx]
          by_cases hs : scope = m.current
          · subst hs
            rw [h.current, Past.upcoming_assign_self, ← h.current]
            simp only [Copies.reads, Function.update_self, Option.getD_some]
            rw [getD_set]
            · rw [h.upcoming m.current hscope p]
              rfl
            · exact (hlength.trans (h.length m.current).symm) ▸ hindex
          · rw [Past.upcoming_assign_of_ne _ _ _ hfiber (h.current ▸ hs)]
            simp only [Copies.reads, Function.update_of_ne hs]
            exact h.upcoming scope hscope p
      · have hperform : m.perform handle (.assign other index value) = m := if_neg (Ne.symm he)
        rw [hperform]
        exact h.of_same hgood hkept hshaped hcurrent (hpast.trans (if_neg he))
  | sealObject other =>
      have hne : handle ≠ other := Ne.symm hused
      exact h.of_same hgood hkept hshaped hcurrent (hpast.trans (if_neg hne))
  | switch scope =>
      have hx : ∀ c p, (t'.past handle).upcoming c p = (t.past handle).upcoming c p ∧
          (t'.past handle).zero p = (t.past handle).zero p := by
        intro c p
        rw [hpast]
        simp only [Action.onPast]
        split_ifs
        · exact ⟨rfl, rfl⟩
        · exact ⟨Past.upcoming_enter _ _ _ _, by rw [Past.enter_zero]⟩
      exact ⟨hgood, hkept, hshaped, hcurrent.symm, fun p => (hx 0 p).2.trans (h.zero p), h.length,
        fun c hc p => (hx c p).1.trans (h.upcoming c hc p)⟩
  | rowsClear order =>
      by_cases hmain : t.state.current = rowZero
      · have hperform : m.perform handle (.rowsClear order) = m := if_pos (h.current.trans hmain)
        rw [hperform]
        exact h.of_same hgood hkept hshaped hcurrent (hpast.trans (if_pos hmain))
      · have hx : t'.past handle = (t.past handle).clear t.state.current :=
          hpast.trans (if_neg hmain)
        have hperform : m.perform handle (.rowsClear order) = { m with
            own := Function.update m.own m.current none
            stale := m.stale.filter (· ≠ m.current) } := if_neg (h.current ▸ hmain)
        rw [hperform]
        refine ⟨hgood, hkept, hshaped, h.current.trans hcurrent.symm, fun p => ?_,
          fun scope => ?_, fun scope hscope p => ?_⟩
        · rw [hx]
          exact h.zero p
        · by_cases hs : scope = m.current
          · simp [Copies.reads, hs]
          · simp only [Copies.reads, Function.update_of_ne hs]
            exact h.length scope
        · rw [hx]
          by_cases hs : scope = m.current
          · subst hs
            rw [h.current, Past.upcoming_clear_self _ hmain, ← h.current]
            simp only [Copies.reads, Function.update_self, Option.getD_none]
            exact h.zero p
          · have hscope' : scope ∉ m.stale := fun hmem => hscope (by simp [hmem, hs])
            rw [Past.upcoming_clear_of_ne _ (h.current ▸ hs)]
            simp only [Copies.reads, Function.update_of_ne hs]
            exact h.upcoming scope hscope' p
  | take value => exact h.of_same hgood hkept hshaped hcurrent hpast
  | drop value => exact h.of_same hgood hkept hshaped hcurrent hpast
  | fill address values => exact h.of_same hgood hkept hshaped hcurrent hpast

/-- **A whole run of uses.** -/
theorem Follows.run {handle : ℕ} {as : List (Action α)} {m : Copies (Value α)} {t t' : Traced α}
    (h : Follows handle m t) (hused : Along tracedStep (fun t => Used handle t.state) t as)
    (hrun : runFrom tracedStep t as = some t') :
    Follows handle (as.foldl (Copies.perform handle) m) t' := by
  induction as generalizing m t with
  | nil =>
      obtain rfl := Option.some.inj hrun
      exact h
  | cons a as ih =>
      obtain ⟨u, hu, hrest⟩ := (runFrom_cons tracedStep).mp hrun
      exact ih (h.step hused.1 hu) (hused.2 u hu) hrest

/-- The scope that runs finds its copy in the slots. -/
lemma Follows.slots {handle : ℕ} {m : Copies (Value α)} {t : Traced α} (h : Follows handle m t)
    (hscope : m.current ∉ m.stale) :
    t.state.live.get? handle = some (m.reads m.current) := by
  obtain ⟨slots, hslots, hlength⟩ := h.shaped
  rw [hslots]
  refine congrArg some (List.ext_getElem (hlength.trans (h.length _).symm) fun p hp hp' => ?_)
  have hread := h.good.slots_upcoming hslots p
  rw [← h.current, h.upcoming _ hscope] at hread
  simpa [hp, hp'] using hread

end Traced

end Ignis.Scoped
