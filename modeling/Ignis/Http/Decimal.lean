import Ignis.Http.Zval

/-!
# Numbers written out and read back

Both sides of the runtime hand numbers over as text: an environment variable, a handle in a JSON
document, a status in an error message.  `digitsValue_bytes_repr` is that a reader of digits finds
the number that was written, and `takeWhile_isDigit_bytes_repr` where it stops reading.
-/

namespace Ignis

lemma bytes_repr (n : ℕ) :
    bytes n.repr = (Nat.toDigits 10 n).map fun c => UInt8.ofNat c.toNat := by
  rw [bytes, Nat.toList_repr]

/-- The code of a digit, as a byte. -/
lemma toNat_ofNat_of_isDigit {c : Char} (h : c.isDigit = true) :
    (UInt8.ofNat c.toNat).toNat = c.toNat ∧ 48 ≤ c.toNat ∧ c.toNat ≤ 57 := by
  have hc : 48 ≤ c.toNat ∧ c.toNat ≤ 57 := by
    simp only [Char.isDigit, Bool.and_eq_true, decide_eq_true_eq] at h
    exact ⟨UInt32.le_iff_toNat_le.mp h.1, UInt32.le_iff_toNat_le.mp h.2⟩
  refine ⟨?_, hc⟩
  rw [UInt8.toNat_ofNat']
  omega

lemma isDigit_of_mem_bytes_repr {n : ℕ} {b : UInt8} (hb : b ∈ bytes n.repr) : isDigit b = true := by
  rw [bytes_repr] at hb
  obtain ⟨c, hc, rfl⟩ := List.mem_map.mp hb
  obtain ⟨heq, hlow, hhigh⟩ := toNat_ofNat_of_isDigit
    (Nat.isDigit_of_mem_toDigits (by decide) (by decide) hc)
  simp only [isDigit, Bool.and_eq_true, decide_eq_true_eq, UInt8.le_iff_toNat_le, heq]
  exact ⟨hlow, hhigh⟩

lemma bytes_repr_ne_nil (n : ℕ) : bytes n.repr ≠ [] := by
  rw [bytes_repr]
  simp [Nat.toDigits_ne_nil]

/-- **The digits of a number spell it.** -/
theorem digitsValue_bytes_repr (n : ℕ) : digitsValue (bytes n.repr) = n := by
  have hfold : ∀ (l : List Char) (k : ℕ), (∀ c ∈ l, c.isDigit = true) →
      (l.map fun c => UInt8.ofNat c.toNat).foldl (fun n c => 10 * n + (c.toNat - 48)) k
        = Nat.ofDigitChars 10 l k := by
    intro l
    induction l with
    | nil => intro k _; simp
    | cons c l ih =>
        intro k h
        rw [List.map_cons, List.foldl_cons, ih _ fun d hd => h d (List.mem_cons_of_mem c hd),
          Nat.ofDigitChars_cons, (toNat_ofNat_of_isDigit (h c List.mem_cons_self)).1]
        rfl
  rw [bytes_repr, digitsValue, hfold _ _ fun c hc =>
    Nat.isDigit_of_mem_toDigits (by decide) (by decide) hc, Nat.ofDigitChars_ten_toDigits]

/-- A reader of digits stops where the number does. -/
lemma takeWhile_isDigit_bytes_repr (n : ℕ) {rest : PhpString}
    (h : ∀ b ∈ rest.head?, isDigit b = false) :
    (bytes n.repr ++ rest).takeWhile isDigit = bytes n.repr := by
  rw [List.takeWhile_append_of_pos fun b hb => isDigit_of_mem_bytes_repr hb]
  cases rest with
  | nil => simp
  | cons b rest => simp [h b rfl]

end Ignis
