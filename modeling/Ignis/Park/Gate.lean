import Ignis.Lib.StepSystem
import Ignis.Park.Blocking

/-!
# The gate of an interposed call

One byte per thread says whether a call may park: `0` on `{main}`, `1` in a fiber, `2` while a
handler runs.  The switch observer sets it to `0` or `1`, `may_park` to `2`, and the guard that
`may_park` hands out sets it back to `1` when the handler is done.

The observer does not know what the fiber that comes in was doing.  A handler that parks suspends
its fiber with the guard alive, and when the fiber is resumed the gate is `1` in the middle of the
handler.  What the gate is meant to say (`Faithful`) holds throughout a run exactly when no switch
goes to a fiber that is suspended in a handler.
-/

namespace Ignis

namespace Park

/-- A fiber, or `{main}`. -/
abbrev Context := Option ℕ

/-- A PHP thread, as far as the gate is concerned. -/
structure Thread where
  /-- `PARK`. -/
  gate : ℕ
  running : Context
  /-- How many handlers on the stack of a context hold a guard. -/
  guards : Context → ℕ

namespace Thread

def boot : Thread := ⟨0, none, fun _ => 0⟩

inductive Action where
  | switchTo (c : Context)
  /-- An interposed call, and what the policy says about its call site. -/
  | call (row : Bool)
  /-- A handler that holds a guard returns, or is unwound. -/
  | leave
  deriving DecidableEq, Repr

/-- `on_switch`. -/
def onSwitch (t : Thread) (c : Context) : Thread :=
  { t with gate := if c = none then 0 else 1, running := c }

/-- `InHandler::drop`. -/
def dropGuard (t : Thread) : Thread :=
  { t with gate := 1, guards := Function.update t.guards t.running (t.guards t.running - 1) }

/-- `may_park`: the guard is made before the policy is asked, and dropped when it says no. -/
def mayPark (t : Thread) (row : Bool) : Thread :=
  if t.gate ≠ 1 then t
  else
    let t' := { t with
      gate := 2, guards := Function.update t.guards t.running (t.guards t.running + 1) }
    if row then t' else t'.dropGuard

/-- A context is not switched to while it runs, and what is left has been entered. -/
def step (t : Thread) : Action → Option Thread
  | .switchTo c => if c = t.running then none else some (t.onSwitch c)
  | .call row => some (t.mayPark row)
  | .leave => if t.guards t.running = 0 then none else some t.dropGuard

/-- A handler is entered exactly when `Park.mayPark` says so. -/
lemma guards_mayPark (t : Thread) (rows : String → Bool) (sym : String) :
    (t.mayPark (rows sym)).guards t.running
      = t.guards t.running + if Park.mayPark ⟨t.gate, rows⟩ sym then 1 else 0 := by
  unfold mayPark Park.mayPark
  by_cases hgate : t.gate = 1
  · by_cases hrow : rows sym = true <;> simp [hgate, hrow, dropGuard]
  · simp [hgate]

/-- What the gate is meant to say; and no handler is entered from a handler of the same fiber. -/
structure Faithful (t : Thread) : Prop where
  main : t.gate = 0 ↔ t.running = none
  handler : t.gate = 2 ↔ 0 < t.guards t.running
  fiber : t.gate = 1 ↔ t.running ≠ none ∧ t.guards t.running = 0
  once : ∀ c, t.guards c ≤ 1

/-- What holds in any case. -/
structure Inv (t : Thread) : Prop where
  main : t.gate = 0 ↔ t.running = none
  range : t.gate ≤ 2
  unguarded : t.guards none = 0

/-- No switch to a fiber that is suspended in a handler. -/
def Fresh (t : Thread) : Action → Prop
  | .switchTo c => t.guards c = 0
  | .call _ => True
  | .leave => True

instance (t : Thread) : ∀ a, Decidable (Fresh t a)
  | .switchTo c => inferInstanceAs (Decidable (t.guards c = 0))
  | .call _ => isTrue trivial
  | .leave => isTrue trivial

lemma inv_boot : Inv boot := ⟨by simp [boot], by simp [boot], rfl⟩

lemma Inv.running_ne {t : Thread} (h : Inv t) (hgate : t.gate ≠ 0) : t.running ≠ none :=
  fun hmain => hgate (h.main.mpr hmain)

lemma inv_dropGuard {t : Thread} (h : Inv t) (hrunning : t.running ≠ none) : Inv t.dropGuard where
  main := by simp [dropGuard, hrunning]
  range := by simp [dropGuard]
  unguarded := by
    simp only [dropGuard, Function.update_of_ne (Ne.symm hrunning)]
    exact h.unguarded

/-- A call that is let in. -/
lemma mayPark_of_row {t : Thread} (hgate : t.gate = 1) :
    t.mayPark true = { t with
      gate := 2, guards := Function.update t.guards t.running (t.guards t.running + 1) } := by
  simp [mayPark, hgate]

/-- A call that is forwarded leaves everything as it was. -/
lemma mayPark_of_forward {t : Thread} {row : Bool} (h : t.gate ≠ 1 ∨ row = false) :
    t.mayPark row = t := by
  by_cases hgate : t.gate = 1
  · obtain rfl := h.resolve_left (not_not.mpr hgate)
    obtain ⟨gate, running, guards⟩ := t
    obtain rfl : gate = 1 := hgate
    simp [mayPark, dropGuard]
  · simp [mayPark, hgate]

theorem inv_step {t t' : Thread} {a : Action} (h : Inv t) (hstep : t.step a = some t') :
    Inv t' := by
  cases a with
  | switchTo c =>
      obtain ⟨-, hsome⟩ := Option.ite_none_left_eq_some.mp hstep
      obtain rfl := Option.some.inj hsome
      refine ⟨?_, ?_, h.unguarded⟩
      · by_cases hc : c = none <;> simp [onSwitch, hc]
      · by_cases hc : c = none <;> simp [onSwitch, hc]
  | call row =>
      obtain rfl := Option.some.inj hstep
      by_cases hforward : t.gate ≠ 1 ∨ row = false
      · rwa [mayPark_of_forward hforward]
      · simp only [not_or, not_not, Bool.not_eq_false] at hforward
        obtain ⟨hgate, rfl⟩ := hforward
        have hrunning := h.running_ne (by omega)
        rw [mayPark_of_row hgate]
        refine ⟨by simp [hrunning], le_rfl, ?_⟩
        simp only [Function.update_of_ne (Ne.symm hrunning)]
        exact h.unguarded
  | leave =>
      obtain ⟨hguards, hsome⟩ := Option.ite_none_left_eq_some.mp hstep
      obtain rfl := Option.some.inj hsome
      refine inv_dropGuard h fun hmain => hguards ?_
      rw [hmain]
      exact h.unguarded

lemma faithful_boot : Faithful boot :=
  ⟨by simp [boot], by simp [boot], by simp [boot], by simp [boot]⟩

/-- From a faithful state a step leads to another exactly when it is no switch into a handler. -/
lemma faithful_step_iff {t t' : Thread} {a : Action} (hi : Inv t) (h : Faithful t)
    (hstep : t.step a = some t') : Faithful t' ↔ Fresh t a := by
  cases a with
  | switchTo c =>
      obtain ⟨-, hsome⟩ := Option.ite_none_left_eq_some.mp hstep
      obtain rfl := Option.some.inj hsome
      constructor
      · intro h'
        by_contra hguards
        have hgate : (t.onSwitch c).gate = 2 := h'.handler.mpr (Nat.pos_of_ne_zero hguards)
        simp only [onSwitch] at hgate
        split_ifs at hgate
        all_goals omega
      · intro hguards
        have hguards : t.guards c = 0 := hguards
        by_cases hc : c = none
        · exact ⟨by simp [onSwitch, hc], by simp [onSwitch, hc, hi.unguarded],
            by simp [onSwitch, hc], h.once⟩
        · exact ⟨by simp [onSwitch, hc], by simp [onSwitch, hc, hguards],
            by simp [onSwitch, hc, hguards], h.once⟩
  | call row =>
      obtain rfl := Option.some.inj hstep
      refine iff_of_true ?_ trivial
      by_cases hforward : t.gate ≠ 1 ∨ row = false
      · rwa [mayPark_of_forward hforward]
      · simp only [not_or, not_not, Bool.not_eq_false] at hforward
        obtain ⟨hgate, rfl⟩ := hforward
        obtain ⟨hrunning, hguards⟩ := h.fiber.mp hgate
        rw [mayPark_of_row hgate]
        refine ⟨by simp [hrunning], by simp, by simp, fun c => ?_⟩
        by_cases hc : c = t.running
        · simp [hc, hguards]
        · simp only [Function.update_of_ne hc]
          exact h.once c
  | leave =>
      obtain ⟨hguards, hsome⟩ := Option.ite_none_left_eq_some.mp hstep
      obtain rfl := Option.some.inj hsome
      have hgate : t.gate = 2 := h.handler.mpr (Nat.pos_of_ne_zero hguards)
      have hrunning := hi.running_ne (by omega)
      have hone : t.guards t.running - 1 = 0 := Nat.sub_eq_zero_of_le (h.once t.running)
      refine iff_of_true ⟨by simp [dropGuard, hrunning], by simp [dropGuard, hone],
        by simp [dropGuard, hrunning, hone], fun c => ?_⟩ trivial
      by_cases hc : c = t.running
      · simp [dropGuard, hc, hone]
      · simp only [dropGuard, Function.update_of_ne hc]
        exact h.once c

/-- **The gate says where the thread is, until a handler is resumed.**  A run is faithful throughout
exactly when none of its switches goes to a fiber that is suspended in a handler. -/
theorem gate_faithful_iff {as : List Action} {t : Thread}
    (hrun : StepSystem.runFrom step boot as = some t) :
    StepSystem.Always step Faithful boot as ↔ StepSystem.Along step Fresh boot as :=
  StepSystem.always_iff_along step (fun _ _ _ h => inv_step h)
    (fun _ _ _ hi h hstep => faithful_step_iff hi h hstep) inv_boot faithful_boot hrun

/-- A fiber runs one handler to its end, and another fiber one of its own. -/
def oneByOne : List Action :=
  [.switchTo (some 0), .call true, .leave, .switchTo none, .switchTo (some 1), .call false,
    .call true, .call true, .leave]

theorem gate_faithful_iff_oneByOne : StepSystem.Always step Faithful boot oneByOne := by
  have hrun : ∃ t, StepSystem.runFrom step boot oneByOne = some t := ⟨_, rfl⟩
  obtain ⟨t, hrun⟩ := hrun
  exact (gate_faithful_iff hrun).mpr (by decide)

/-- A handler parks and is resumed: the gate is open inside it, and a second handler of the same
fiber is entered. -/
theorem handler_reentered : ∃ t t',
    StepSystem.runFrom step boot
        [.switchTo (some 0), .call true, .switchTo none, .switchTo (some 0)] = some t
      ∧ t.gate = 1 ∧ t.guards t.running = 1 ∧ ¬ Faithful t
      ∧ t.step (.call true) = some t' ∧ t'.guards t'.running = 2 :=
  ⟨_, _, rfl, rfl, rfl, fun h => absurd (h.fiber.mp rfl).2 (by decide), rfl, rfl⟩

end Thread

end Park

end Ignis
