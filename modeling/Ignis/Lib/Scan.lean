import Mathlib.Data.List.Infix
import Mathlib.Tactic.TypeStar

/-!
# Leftmost matches

A pattern is tried at one place after the other.  `cut` finds the leftmost place where it matches,
with the text before it and the text behind the match, and `splitAll` goes on from there.

To find a cut one shows that the pattern does not match further to the left (`cut_append`), or not
at all (`cut_eq_none`).
-/

namespace Scan

variable {α : Type*}

/-- A pattern that consumes something: at a place where it matches, the text behind the match. -/
structure Pattern (α : Type*) where
  run : List α → Option (List α)
  shorter : ∀ {s rest}, run s = some rest → rest.length < s.length

namespace Pattern

variable (m : Pattern α)

/-- The text before the leftmost match and the text behind it. -/
def cut : List α → Option (List α × List α)
  | [] => (m.run []).map fun rest => ([], rest)
  | b :: s =>
      match m.run (b :: s) with
      | some rest => some ([], rest)
      | none => (cut s).map fun p => (b :: p.1, p.2)

lemma cut_of_run {s rest : List α} (h : m.run s = some rest) : m.cut s = some ([], rest) := by
  cases s with
  | nil => rw [cut, h, Option.map_some]
  | cons b s => rw [cut, h]

lemma cut_cons {b : α} {s : List α} (h : m.run (b :: s) = none) :
    m.cut (b :: s) = (m.cut s).map fun p => (b :: p.1, p.2) := by
  rw [cut, h]

/-- The match that is found is one. -/
lemma run_of_cut {s front rest : List α} (h : m.cut s = some (front, rest)) :
    ∃ t, s = front ++ t ∧ m.run t = some rest := by
  induction s generalizing front with
  | nil =>
      obtain ⟨rest', hrun, heq⟩ := Option.map_eq_some_iff.mp h
      obtain ⟨rfl, rfl⟩ := Prod.mk.injEq .. ▸ heq
      exact ⟨[], rfl, hrun⟩
  | cons b s ih =>
      cases hrun : m.run (b :: s) with
      | some rest' =>
          rw [m.cut_of_run hrun] at h
          obtain ⟨rfl, rfl⟩ := Prod.mk.injEq .. ▸ Option.some.inj h
          exact ⟨b :: s, rfl, hrun⟩
      | none =>
          rw [m.cut_cons hrun] at h
          obtain ⟨⟨front', rest'⟩, hcut, heq⟩ := Option.map_eq_some_iff.mp h
          obtain ⟨rfl, rfl⟩ := Prod.mk.injEq .. ▸ heq
          obtain ⟨t, rfl, ht⟩ := ih hcut
          exact ⟨t, rfl, ht⟩

lemma length_of_cut {s front rest : List α} (h : m.cut s = some (front, rest)) :
    rest.length < s.length := by
  obtain ⟨t, rfl, ht⟩ := m.run_of_cut h
  have hshorter := m.shorter ht
  rw [List.length_append]
  omega

/-- The leftmost match is where nothing matches before. -/
lemma cut_append {front s rest : List α}
    (hfree : ∀ a b, front = a ++ b → b ≠ [] → m.run (b ++ s) = none)
    (hrun : m.run s = some rest) : m.cut (front ++ s) = some (front, rest) := by
  induction front with
  | nil => exact m.cut_of_run hrun
  | cons b front ih =>
      have hnone := hfree [] (b :: front) rfl (List.cons_ne_nil b front)
      have hcut := ih fun a c heq hne => hfree (b :: a) c (congrArg (b :: ·) heq) hne
      rw [List.cons_append] at hnone ⊢
      rw [m.cut_cons hnone, hcut, Option.map_some]

lemma cut_eq_none {s : List α} (hfree : ∀ a b, s = a ++ b → m.run b = none) : m.cut s = none := by
  induction s with
  | nil => rw [cut, hfree [] [] rfl, Option.map_none]
  | cons b s ih =>
      rw [m.cut_cons (hfree [] (b :: s) rfl),
        ih fun a c heq => hfree (b :: a) c (congrArg (b :: ·) heq), Option.map_none]

/-- The texts between the matches. -/
def splitAll (s : List α) : List (List α) :=
  match _ : m.cut s with
  | none => [s]
  | some (front, rest) => front :: splitAll rest
termination_by s.length
decreasing_by exact m.length_of_cut ‹m.cut s = _›

lemma splitAll_of_none {s : List α} (h : m.cut s = none) : m.splitAll s = [s] := by
  rw [splitAll]
  split
  · rfl
  · rename_i heq
    rw [h] at heq
    cases heq

lemma splitAll_of_cut {s front rest : List α} (h : m.cut s = some (front, rest)) :
    m.splitAll s = front :: m.splitAll rest := by
  rw [splitAll]
  split
  · rename_i heq
    rw [h] at heq
    cases heq
  · rename_i heq
    rw [h] at heq
    cases heq
    rfl

end Pattern

variable [DecidableEq α]

/-- One text, or else another. -/
def either (p q : List α) (hp : p ≠ []) (hq : q ≠ []) : Pattern α where
  run := fun s =>
    if p <+: s then some (s.drop p.length)
    else if q <+: s then some (s.drop q.length)
    else none
  shorter := by
    intro s rest h
    have hdrop : ∀ t : List α, t ≠ [] → t <+: s → (s.drop t.length).length < s.length := by
      intro t ht hts
      have hle := hts.length_le
      have hpos := List.length_pos_of_ne_nil ht
      rw [List.length_drop]
      omega
    split_ifs at h with hps hqs
    · exact Option.some.inj h ▸ hdrop p hp hps
    · exact Option.some.inj h ▸ hdrop q hq hqs

lemma either_run_left {p q : List α} (hp : p ≠ []) (hq : q ≠ []) (s : List α) :
    (either p q hp hq).run (p ++ s) = some s := by
  simp [either]

lemma either_run_eq_none_iff {p q s : List α} {hp : p ≠ []} {hq : q ≠ []} :
    (either p q hp hq).run s = none ↔ ¬ p <+: s ∧ ¬ q <+: s := by
  dsimp only [either]
  by_cases hps : p <+: s
  · simp [hps]
  · by_cases hqs : q <+: s
    · simp [hps, hqs]
    · simp [hps, hqs]

end Scan
