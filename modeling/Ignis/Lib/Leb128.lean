import Mathlib.Data.List.Basic
import Mathlib.Tactic.NormNum

/-!
# Numbers in groups of seven bits

A number is written as bytes of seven bits each, the lowest first, every byte but the last with its
high bit set.  `IsGroup` are the byte strings of that form and `value` is the number such a string
stands for; `encode` is the shortest string of a number.
-/

namespace Leb128

/-- The shortest group of a number. -/
def encode (n : ℕ) : List UInt8 :=
  if n < 128 then [UInt8.ofNat n] else UInt8.ofNat (n % 128 + 128) :: encode (n / 128)
termination_by n
decreasing_by omega

/-- The number that a string of bytes stands for. -/
def value : List UInt8 → ℕ
  | [] => 0
  | b :: bs => b.toNat % 128 + 128 * value bs

/-- Every byte but the last says that another follows. -/
inductive IsGroup : List UInt8 → Prop where
  | last {b : UInt8} (hb : b.toNat < 128) : IsGroup [b]
  | more {b : UInt8} {bs : List UInt8} (hb : 128 ≤ b.toNat) (hbs : IsGroup bs) : IsGroup (b :: bs)

lemma IsGroup.ne_nil {g : List UInt8} (h : IsGroup g) : g ≠ [] := by
  cases h <;> exact List.cons_ne_nil _ _

lemma toNat_ofNat {n : ℕ} (h : n < 256) : (UInt8.ofNat n).toNat = n := by
  rw [UInt8.toNat_ofNat']
  exact Nat.mod_eq_of_lt h

theorem isGroup_encode (n : ℕ) : IsGroup (encode n) := by
  induction n using Nat.strongRecOn with
  | ind n ih =>
      rw [encode]
      split_ifs with hn
      · exact .last (by rw [toNat_ofNat (by omega)]; exact hn)
      · exact .more (by rw [toNat_ofNat (by omega)]; omega) (ih (n / 128) (by omega))

theorem value_encode (n : ℕ) : value (encode n) = n := by
  induction n using Nat.strongRecOn with
  | ind n ih =>
      rw [encode]
      split_ifs with hn
      · simp only [value, toNat_ofNat (show n < 256 by omega)]
        omega
      · rw [value, ih (n / 128) (by omega), toNat_ofNat (by omega)]
        omega

theorem length_encode_le {k n : ℕ} (h : n < 128 ^ (k + 1)) : (encode n).length ≤ k + 1 := by
  induction k generalizing n with
  | zero =>
      rw [encode, if_pos (by simpa using h)]
      rfl
  | succ k ih =>
      rw [encode]
      split_ifs
      · simp
      · have hdiv : n / 128 < 128 ^ (k + 1) := by
          rw [Nat.div_lt_iff_lt_mul (by norm_num)]
          exact h
        rw [List.length_cons]
        exact Nat.succ_le_succ (ih hdiv)

end Leb128
