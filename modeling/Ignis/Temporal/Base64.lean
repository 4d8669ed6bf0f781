import Ignis.Classic.Request
import Ignis.Temporal.Protojson

/-!
# Bytes in base64

The codec writes bytes with `base64_encode` and reads them with `base64_decode`, which skips what is
not of the alphabet; a reader of protojson takes base64 and nothing else.  Both readings give back
what was written (`base64DecodeLax_encode`, `base64Decode_encode`), whatever the bytes are.
-/

namespace Ignis

namespace Temporal

open Classic (base64Value base64Bytes base64Groups base64Decode)

/-- `base64_decode`, which is not strict: what is not of the alphabet is skipped. -/
def base64DecodeLax (s : PhpString) : PhpString := base64Bytes (s.filterMap base64Value)

/-- The groups of six bits that bytes are written as. -/
def sextets : PhpString → List ℕ
  | a :: b :: c :: rest =>
      let n := a.toNat * 65536 + b.toNat * 256 + c.toNat
      n / 262144 % 64 :: n / 4096 % 64 :: n / 64 % 64 :: n % 64 :: sextets rest
  | [a, b] =>
      let n := a.toNat * 65536 + b.toNat * 256
      [n / 262144 % 64, n / 4096 % 64, n / 64 % 64]
  | [a] =>
      let n := a.toNat * 65536
      [n / 262144 % 64, n / 4096 % 64]
  | [] => []

/-- The pads at the end. -/
def pads (s : PhpString) : ℕ := (3 - s.length % 3) % 3

/-! ## The alphabet -/

lemma base64Value_alphabet : ∀ i < 64, base64Value (base64Alphabet.getD i 0) = some i := by
  decide +kernel

@[simp] lemma base64Value_char (n : ℕ) : base64Value (base64Char n) = some (n % 64) :=
  base64Value_alphabet _ (Nat.mod_lt _ (by decide))

/-- A pad and white space have no value. -/
lemma base64Char_ne (n : ℕ) {b : UInt8} (hb : base64Value b = none) : base64Char n ≠ b := by
  rintro rfl
  rw [base64Value_char] at hb
  cases hb

@[simp] lemma base64Value_pad : base64Value 61 = none := rfl

/-! ## The groups and the bytes -/

lemma sextets_length (s : PhpString) : (sextets s).length + pads s = 4 * ((s.length + 2) / 3) := by
  induction s using sextets.induct with
  | case1 a b c rest ih =>
      simp only [sextets, pads, List.length_cons] at ih ⊢
      omega
  | case2 a b => simp [sextets, pads]
  | case3 a => simp [sextets, pads]
  | case4 => rfl

/-- The groups make the bytes again. -/
lemma base64Bytes_sextets (s : PhpString) : base64Bytes (sextets s) = s := by
  induction s using sextets.induct with
  | case1 a b c rest ih =>
      have ha := a.toNat_lt
      have hb := b.toNat_lt
      have hc := c.toNat_lt
      simp only [sextets, base64Bytes]
      generalize hn : a.toNat * 65536 + b.toNat * 256 + c.toNat = n
      have h₁ : 4 * (n / 262144 % 64) + n / 4096 % 64 / 16 = a.toNat := by omega
      have h₂ : 16 * (n / 4096 % 64 % 16) + n / 64 % 64 / 4 = b.toNat := by omega
      have h₃ : 64 * (n / 64 % 64 % 4) + n % 64 = c.toNat := by omega
      rw [ih, h₁, h₂, h₃, UInt8.ofNat_toNat, UInt8.ofNat_toNat, UInt8.ofNat_toNat]
  | case2 a b =>
      have ha := a.toNat_lt
      have hb := b.toNat_lt
      simp only [sextets, base64Bytes]
      generalize hn : a.toNat * 65536 + b.toNat * 256 = n
      have h₁ : 4 * (n / 262144 % 64) + n / 4096 % 64 / 16 = a.toNat := by omega
      have h₂ : 16 * (n / 4096 % 64 % 16) + n / 64 % 64 / 4 = b.toNat := by omega
      rw [h₁, h₂, UInt8.ofNat_toNat, UInt8.ofNat_toNat]
  | case3 a =>
      have ha := a.toNat_lt
      simp only [sextets, base64Bytes]
      generalize hn : a.toNat * 65536 = n
      have h₁ : 4 * (n / 262144 % 64) + n / 4096 % 64 / 16 = a.toNat := by omega
      rw [h₁, UInt8.ofNat_toNat]
  | case4 => rfl

/-! ## Reading what was written -/

/-- Reading skips the pads. -/
lemma filterMap_base64Encode (s : PhpString) :
    (base64Encode s).filterMap base64Value = sextets s := by
  induction s using sextets.induct with
  | case1 a b c rest ih => simp [base64Encode, sextets, ih]
  | case2 a b => simp [base64Encode, sextets]
  | case3 a => simp [base64Encode, sextets]
  | case4 => rfl

theorem base64DecodeLax_encode (s : PhpString) : base64DecodeLax (base64Encode s) = s := by
  rw [base64DecodeLax, filterMap_base64Encode, base64Bytes_sextets]

/-- A letter of the alphabet is one more group. -/
lemma base64Groups_cons_char (n : ℕ) {s : PhpString} {groups : List ℕ} {pads : ℕ}
    (h : base64Groups s = some (groups, pads)) :
    base64Groups (base64Char n :: s) = some (n % 64 :: groups, pads) := by
  have hpad : base64Char n ≠ 61 := base64Char_ne n rfl
  have hspace : (base64Char n = 32 || base64Char n = 10 || base64Char n = 13 ||
      base64Char n = 9) = false := by
    simp [base64Char_ne n (b := 32) rfl, base64Char_ne n (b := 10) rfl,
      base64Char_ne n (b := 13) rfl, base64Char_ne n (b := 9) rfl]
  simp [base64Groups, h, hpad, hspace]

lemma base64Groups_encode (s : PhpString) :
    base64Groups (base64Encode s) = some (sextets s, pads s) := by
  induction s using sextets.induct with
  | case1 a b c rest ih =>
      have hpads : pads (a :: b :: c :: rest) = pads rest := by
        simp only [pads, List.length_cons]
        omega
      rw [hpads, base64Encode, sextets]
      exact base64Groups_cons_char _ (base64Groups_cons_char _ (base64Groups_cons_char _
        (base64Groups_cons_char _ ih)))
  | case2 a b =>
      exact base64Groups_cons_char _ (base64Groups_cons_char _ (base64Groups_cons_char _ rfl))
  | case3 a => exact base64Groups_cons_char _ (base64Groups_cons_char _ rfl)
  | case4 => rfl

/-- The strict reading asks for the right number of groups and pads as well. -/
theorem base64Decode_encode (s : PhpString) : base64Decode (base64Encode s) = some s := by
  have hlength := sextets_length s
  have hpads : pads s < 3 := Nat.mod_lt _ (by decide)
  simp only [base64Decode, base64Groups_encode]
  rw [if_neg (by omega), if_neg (by omega), base64Bytes_sextets]

end Temporal

end Ignis
