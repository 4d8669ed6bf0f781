import Mathlib.Algebra.GroupWithZero.Nat
import Mathlib.Algebra.Order.BigOperators.Group.List
import Mathlib.Algebra.Order.Group.Nat
import Mathlib.Data.List.Basic

/-!
# One place of a list

A system of parties kept in a list moves by changing one place of it.  These are the facts an
argument about such a move needs: who stays where it was, and how the number of parties with a
property changes.
-/

namespace Places

variable {α : Type*} {l : List α} {i j : ℕ} {x y : α}

/-- Whoever is not at `i` stays where it is when that place changes. -/
lemma mem_set_of_ne (hj : l[j]? = some x) (hij : i ≠ j) : x ∈ l.set i y :=
  List.mem_of_getElem? ((List.getElem?_set_ne hij).trans hj)

lemma mem_set_self (hi : l[i]? = some x) (y : α) : y ∈ l.set i y :=
  List.mem_set (List.getElem?_eq_some_iff.mp hi).1 y

/-- What is found at a place once `i` has changed. -/
lemma getElem?_set_cases (h : (l.set i y)[j]? = some x) :
    (j = i ∧ x = y) ∨ (j ≠ i ∧ l[j]? = some x) := by
  by_cases hij : j = i
  · subst hij
    have hlt : j < l.length := by simpa using (List.getElem?_eq_some_iff.mp h).1
    rw [List.getElem?_set_self hlt] at h
    exact .inl ⟨rfl, (Option.some.inj h).symm⟩
  · rw [List.getElem?_set_ne (Ne.symm hij)] at h
    exact .inr ⟨hij, h⟩

/-- What is found in a list that has got longer by one. -/
lemma getElem?_concat_cases (h : (l ++ [y])[j]? = some x) :
    (j = l.length ∧ x = y) ∨ l[j]? = some x := by
  rcases Nat.lt_or_ge j l.length with hj | hj
  · rw [List.getElem?_append_left hj] at h
    exact .inr h
  · rw [List.getElem?_append_right hj, List.getElem?_singleton] at h
    obtain ⟨hzero, hy⟩ := Option.ite_none_right_eq_some.mp h
    exact .inl ⟨by omega, (Option.some.inj hy).symm⟩

/-- The number of places with a property, before and after. -/
lemma countP_set (p : α → Bool) (y : α) (hi : l[i]? = some x) :
    (l.set i y).countP p + (p x).toNat = l.countP p + (p y).toNat := by
  obtain ⟨hlt, rfl⟩ := List.getElem?_eq_some_iff.mp hi
  have hle := List.boole_getElem_le_countP (p := p) hlt
  rw [List.countP_set hlt]
  cases hx : p l[i] with
  | true =>
      have hpos : 0 < l.countP p := by simpa [hx] using hle
      cases p y <;> simp <;> omega
  | false => cases p y <;> simp

/-- A sum over the places, before and after. -/
lemma sum_map_set (f : α → ℕ) (y : α) (hi : l[i]? = some x) :
    ((l.set i y).map f).sum + f x = (l.map f).sum + f y := by
  induction l generalizing i with
  | nil => simp at hi
  | cons z l ih =>
      cases i with
      | zero =>
          obtain rfl : z = x := by simpa using hi
          simp only [List.set_cons_zero, List.map_cons, List.sum_cons]
          omega
      | succ i =>
          have hrest := ih (i := i) (by simpa using hi)
          simp only [List.set_cons_succ, List.map_cons, List.sum_cons]
          omega

end Places
