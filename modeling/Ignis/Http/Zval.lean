import Mathlib.Data.Int.Notation
import Mathlib.Data.Nat.Notation
import Ignis.Lib.OrdMap

/-!
# PHP values on the completion channel

What `ignis_poll()` hands to the loop is a PHP array, so the keys of a map that comes from Rust are
not simply the strings Rust wrote: `add_assoc_stringl_ex` stores through
`zend_symtable_str_update`, which turns a key that spells a decimal integer into an integer key.
`handleNumericStr` is that test, and `ArrayKey.ofSymtable` the key a string ends up under.

Payloads nest two levels deep (a request array holding a header array), so the value types are
layered instead of recursive: `Scalar`, then `Zval`, then `Payload`.
-/

namespace Ignis

/-- A PHP string is a byte string; Rust's `String` and `Bytes` arrive as their bytes. -/
abbrev PhpString := List UInt8

/-- The bytes of an ASCII literal of the source. -/
def bytes (s : String) : PhpString := s.toList.map fun c => UInt8.ofNat c.toNat

/-- The classes of the exceptions the modelled code throws itself. -/
inductive ThrowableClass where
  | unexpectedValueException
  | logicException
  | typeError
  deriving DecidableEq, Repr

/-- An exception with its message. -/
structure Throwable where
  cls : ThrowableClass
  message : String
  deriving DecidableEq, Repr

/-- The key of a PHP array: an `int`, or a string that does not spell one. -/
inductive ArrayKey where
  | int (n : ℤ)
  | str (s : PhpString)
  deriving DecidableEq, Repr

/-- A PHP value that is not an array. -/
inductive Scalar where
  | null
  | long (n : ℤ)
  | string (s : PhpString)
  deriving DecidableEq, Repr

/-- A value inside a completion payload: a scalar, or an array of scalars (the header map). -/
inductive Zval where
  | scalar (v : Scalar)
  | array (a : OrdMap ArrayKey Scalar)
  deriving DecidableEq

/-- One completion as `ignis_poll()` returns it: a scalar, or an array. -/
inductive Payload where
  | scalar (v : Scalar)
  | array (a : OrdMap ArrayKey Zval)
  deriving DecidableEq

/-! ## Array keys -/

/-- `ZEND_LONG_MAX` of a 64-bit build. -/
def zendLongMax : ℕ := 9223372036854775807

/-- The number of digits `_zend_handle_numeric_str_ex` is willing to read
(`MAX_LENGTH_OF_LONG - 1`, where `-9223372036854775808` has length 20). -/
def maxDigits : ℕ := 19

/-- An ASCII digit. -/
def isDigit (c : UInt8) : Bool := 48 ≤ c && c ≤ 57

/-- The value of a string of ASCII digits. -/
def digitsValue (ds : PhpString) : ℕ := ds.foldl (fun n c => 10 * n + (c.toNat - 48)) 0

/-- `ZEND_HANDLE_NUMERIC_STR`: the integer a key spells, if it spells one canonically.  A sign is
only `-`, a leading zero makes the key a string (so `-0` and `07` are strings), and so does a
number outside the range of `zend_long`. -/
def handleNumericStr (key : PhpString) : Option ℤ :=
  let negative := key.head? = some 45
  let ds := if negative then key.tail else key
  if ds = [] ∨ ¬ ds.all isDigit then none
  else if ds.head? = some 48 ∧ 1 < key.length then none
  else if maxDigits < ds.length then none
  else if negative then
    if zendLongMax + 1 < digitsValue ds then none else some (-(digitsValue ds : ℤ))
  else
    if zendLongMax < digitsValue ds then none else some (digitsValue ds : ℤ)

/-- The key a string is stored under by `zend_symtable_str_update`. -/
def ArrayKey.ofSymtable (key : PhpString) : ArrayKey :=
  match handleNumericStr key with
  | some n => .int n
  | none => .str key

lemma ArrayKey.ofSymtable_eq_str_iff {key : PhpString} :
    ArrayKey.ofSymtable key = .str key ↔ handleNumericStr key = none := by
  unfold ArrayKey.ofSymtable
  cases handleNumericStr key <;> simp

/-- Normalisation keeps a string or makes it an integer; it never makes another string. -/
lemma ArrayKey.ofSymtable_eq_str {key s : PhpString} (h : ArrayKey.ofSymtable key = .str s) :
    s = key ∧ handleNumericStr key = none := by
  unfold ArrayKey.ofSymtable at h
  cases hn : handleNumericStr key with
  | some n => simp [hn] at h
  | none =>
      simp only [hn, ArrayKey.str.injEq] at h
      exact ⟨h.symm, rfl⟩

end Ignis
