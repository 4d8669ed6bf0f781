import Mathlib.Data.List.Induction
import Mathlib.Data.Nat.Bitwise
import Ignis.Http.Zval
import Ignis.Lib.Leb128

/-!
# The protobuf codec of the gRPC package

`Proto::encode` writes each value of a field behind a key, the field number shifted by three over
the wire type; `Proto::decode` reads keys and values until the message is over, and the last value
of a field wins.  An `int` of PHP has 64 bits: its `>>` copies the sign, which `varint` masks away,
and its `<<` shifts what does not fit out of the top.

A read that goes past the end of the message is an error of its own here (`Failure.pastEnd`), so
that it can be said that there is none: `readVarint` and `readBytes` look at the length before they
read.
-/

namespace Ignis

namespace Proto

/-! ## Values -/

/-- An `int` of a 64-bit build. -/
abbrev PhpInt := BitVec 64

inductive Item where
  | int (n : PhpInt)
  | bool (b : Bool)
  | string (s : PhpString)
  deriving DecidableEq, Repr

/-- A value of the array `encode` is given. -/
inductive FieldValue where
  | one (v : Item)
  | list (vs : List Item)
  deriving DecidableEq, Repr

/-- `\is_array($value) ? $value : [$value]`. -/
def FieldValue.items : FieldValue → List Item
  | .one v => [v]
  | .list vs => vs

/-- A value of the array `decode` returns. -/
inductive WireValue where
  | int (n : PhpInt)
  | string (s : PhpString)
  deriving DecidableEq, Repr

inductive Failure where
  | invalidArgument (message : String)
  /-- A byte was asked for that the message does not have. -/
  | pastEnd
  deriving DecidableEq, Repr

abbrev Result := Except Failure

/-- `\chr`, which reduces modulo 256. -/
def chr (n : PhpInt) : UInt8 := UInt8.ofNat n.toNat

def ord (b : UInt8) : PhpInt := BitVec.ofNat 64 b.toNat

def strlen (s : PhpString) : PhpInt := BitVec.ofNat 64 s.length

/-! ## The arithmetic of a septet -/

lemma toNat_septet (value : PhpInt) : (value &&& 0x7f#64).toNat = value.toNat % 128 := by
  rw [BitVec.toNat_and]
  exact Nat.and_two_pow_sub_one_eq_mod _ 7

lemma toNat_septet_or (value : PhpInt) :
    (value &&& 0x7f#64 ||| 0x80#64).toNat = value.toNat % 128 + 128 := by
  have hdisjoint : value &&& 0x7f#64 &&& 0x80#64 = 0#64 := by
    rw [BitVec.and_assoc]
    simp
  rw [← BitVec.add_eq_or_of_and_eq_zero _ _ hdisjoint, BitVec.toNat_add, toNat_septet,
    show (0x80#64).toNat = 128 from rfl]
  omega

lemma getElem_mask (i : ℕ) (hi : i < 64) : (0x01ffffffffffffff#64)[i] = decide (i < 57) := by
  have hmask : 0x01ffffffffffffff#64 = BitVec.ofNat 64 (2 ^ 57 - 1) := rfl
  rw [hmask, ← BitVec.getLsbD_eq_getElem, BitVec.getLsbD_ofNat, Nat.testBit_two_pow_sub_one]
  simp [hi]

/-- The mask takes the copies of the sign away: what is left is the logical shift. -/
lemma sshiftRight_and_mask (value : PhpInt) :
    value.sshiftRight 7 &&& 0x01ffffffffffffff#64 = value >>> 7 := by
  ext i hi
  rw [BitVec.getElem_and, getElem_mask i hi, BitVec.getElem_sshiftRight,
    BitVec.getElem_ushiftRight]
  by_cases h : i < 57
  · have hbit : 7 + i < 64 := by omega
    simp [h, hbit]
  · have hbit : 64 ≤ 7 + i := by omega
    simp [h, BitVec.getLsbD_of_ge _ _ hbit]

lemma toNat_shifted (value : PhpInt) :
    (value.sshiftRight 7 &&& 0x01ffffffffffffff#64).toNat = value.toNat / 128 := by
  rw [sshiftRight_and_mask, BitVec.toNat_ushiftRight, Nat.shiftRight_eq_div_pow]

/-! ## `encode` -/

/-- `varint`. -/
def varint (value : PhpInt) : PhpString :=
  let septet := value &&& 0x7f#64
  let shifted := value.sshiftRight 7 &&& 0x01ffffffffffffff#64
  if shifted ≠ 0#64 then chr (septet ||| 0x80#64) :: varint shifted else [chr septet]
termination_by value.toNat
decreasing_by
  rename_i hne
  have hpos : (value.sshiftRight 7 &&& 0x01ffffffffffffff#64).toNat ≠ 0 := fun h =>
    hne (BitVec.eq_of_toNat_eq h)
  rw [toNat_shifted] at hpos ⊢
  omega

def encodeItem (no : PhpInt) : Item → PhpString
  | .int n => varint (no <<< 3 ||| 0#64) ++ varint n
  | .bool b => varint (no <<< 3 ||| 0#64) ++ varint (if b then 1#64 else 0#64)
  | .string s => varint (no <<< 3 ||| 2#64) ++ varint (strlen s) ++ s

/-- `encode`. -/
def encode (fields : OrdMap PhpInt FieldValue) : PhpString :=
  fields.entries.flatMap fun e => e.2.items.flatMap (encodeItem e.1)

/-! ## `decode` -/

/-- The loop of `readVarint`. -/
def readVarintLoop (bytes : PhpString) (offset : ℕ) (value : PhpInt) (shift : ℕ) :
    Result (PhpInt × ℕ) :=
  if bytes.length ≤ offset then .error (.invalidArgument "truncated varint")
  else
    match bytes[offset]? with
    | none => .error .pastEnd
    | some byte =>
        let value' := value ||| (ord byte &&& 0x7f#64) <<< shift
        if ord byte &&& 0x80#64 ≠ 0#64 then readVarintLoop bytes (offset + 1) value' (shift + 7)
        else .ok (value', offset + 1)
termination_by bytes.length - offset

/-- `readVarint`: the number, and the offset behind it. -/
def readVarint (bytes : PhpString) (offset : ℕ) : Result (PhpInt × ℕ) :=
  readVarintLoop bytes offset 0#64 0

/-- A run of bytes, all of which have to be there. -/
def run (bytes : PhpString) (offset length : ℕ) : Result PhpString :=
  if offset + length ≤ bytes.length then .ok ((bytes.drop offset).take length)
  else .error .pastEnd

/-- `readBytes`.  A sum above `PHP_INT_MAX` is a float, and above every length as well. -/
def readBytes (bytes : PhpString) (offset : ℕ) (length : PhpInt) : Result (PhpString × ℕ) :=
  if length.toInt < 0 ∨ (bytes.length : ℤ) < offset + length.toInt then
    .error (.invalidArgument ("truncated length-delimited field: " ++ toString length.toInt
      ++ " bytes claimed, " ++ toString ((bytes.length : ℤ) - offset) ++ " left"))
  else (run bytes offset length.toNat).map fun value => (value, offset + length.toNat)

/-- One turn of the loop of `decode`: the field, and the offset behind it. -/
def decodeField (bytes : PhpString) (i : ℕ) : Result ((PhpInt × WireValue) × ℕ) := do
  let (key, i) ← readVarint bytes i
  let no := key.sshiftRight 3
  match (key &&& 7#64).toNat with
  | 0 =>
      let (value, i) ← readVarint bytes i
      pure ((no, .int value), i)
  | 2 =>
      let (length, i) ← readVarint bytes i
      let (value, i) ← readBytes bytes i length
      pure ((no, .string value), i)
  | 1 =>
      let (value, i) ← readBytes bytes i 8#64
      pure ((no, .string value), i)
  | 5 =>
      let (value, i) ← readBytes bytes i 4#64
      pure ((no, .string value), i)
  | wireType => .error (.invalidArgument ("unsupported wire type " ++ toString wireType))

/-! ## What a read does -/

/-- A read gets on: it ends behind `offset` at least, or is refused. -/
def Reads {α : Type} (offset : ℕ) : Result (α × ℕ) → Prop
  | .ok (_, offset') => offset ≤ offset'
  | .error (.invalidArgument _) => True
  | .error .pastEnd => False

lemma Reads.bind {α β : Type} {offset : ℕ} {read : Result (α × ℕ)} {next : α × ℕ → Result (β × ℕ)}
    (h : Reads offset read) (hnext : ∀ a i, offset ≤ i → Reads offset (next (a, i))) :
    Reads offset (read >>= next) := by
  match read, h with
  | .ok (a, i), hle => exact hnext a i hle
  | .error (.invalidArgument _), _ => trivial

lemma Reads.mono {α : Type} {offset offset' : ℕ} {read : Result (α × ℕ)} (hle : offset ≤ offset')
    (h : Reads offset' read) : Reads offset read := by
  match read, h with
  | .ok (_, _), h => exact hle.trans h
  | .error (.invalidArgument _), _ => trivial

lemma readVarintLoop_reads (bytes : PhpString) (offset : ℕ) (value : PhpInt) (shift : ℕ) :
    Reads (offset + 1) (readVarintLoop bytes offset value shift) := by
  induction offset, value, shift using readVarintLoop.induct bytes with
  | case1 offset value shift hend =>
      rw [readVarintLoop, if_pos hend]
      trivial
  | case2 offset value shift hend hnone =>
      exact absurd (List.getElem?_eq_none_iff.1 hnone) hend
  | case3 offset value shift hend byte hbyte value' hmore ih =>
      rw [readVarintLoop, if_neg hend, hbyte]
      dsimp only
      rw [if_pos hmore]
      exact ih.mono (Nat.le_succ _)
  | case4 offset value shift hend byte hbyte hlast =>
      rw [readVarintLoop, if_neg hend, hbyte]
      dsimp only
      rw [if_neg hlast]
      exact le_refl (offset + 1)

lemma readVarint_reads (bytes : PhpString) (offset : ℕ) :
    Reads (offset + 1) (readVarint bytes offset) :=
  readVarintLoop_reads bytes offset 0#64 0

lemma readBytes_reads (bytes : PhpString) (offset : ℕ) (length : PhpInt) :
    Reads offset (readBytes bytes offset length) := by
  rw [readBytes]
  split_ifs with hshort
  · trivial
  · have hnat : length.toInt = length.toNat := by
      rw [BitVec.toInt_eq_toNat_cond] at hshort ⊢
      split_ifs at hshort ⊢ <;> omega
    have hthere : offset + length.toNat ≤ bytes.length := by omega
    rw [run, if_pos hthere]
    exact Nat.le_add_right offset length.toNat

/-- A turn of the loop gets on by a byte at least, so `decode` ends. -/
lemma decodeField_reads (bytes : PhpString) (i : ℕ) : Reads (i + 1) (decodeField bytes i) := by
  refine (readVarint_reads bytes i).bind fun key j hj => ?_
  have hbytes : ∀ no : PhpInt, ∀ length j, i + 1 ≤ j → Reads (i + 1) (do
      let (value, j) ← readBytes bytes j length
      pure ((no, WireValue.string value), j)) := fun no length j hj =>
    ((readBytes_reads bytes j length).mono hj).bind fun value j' hj' => hj'
  have hvarint : Reads (i + 1) (readVarint bytes j) :=
    (readVarint_reads bytes j).mono (by omega)
  dsimp only
  split
  · exact hvarint.bind fun value j' hj' => hj'
  · exact hvarint.bind fun length j' hj' => hbytes _ length j' hj'
  · exact hbytes _ _ j hj
  · exact hbytes _ _ j hj
  · trivial

/-- The loop of `decode`. -/
def decodeLoop (bytes : PhpString) (i : ℕ) (out : OrdMap PhpInt WireValue) :
    Result (OrdMap PhpInt WireValue) :=
  if i < bytes.length then
    match _ : decodeField bytes i with
    | .ok ((no, value), i') => decodeLoop bytes i' (out.set no value)
    | .error e => .error e
  else .ok out
termination_by bytes.length - i
decreasing_by
  have hreads := decodeField_reads bytes i
  rw [‹decodeField bytes i = _›] at hreads
  have hle : i + 1 ≤ i' := hreads
  omega

/-- `decode`. -/
def decode (bytes : PhpString) : Result (OrdMap PhpInt WireValue) := decodeLoop bytes 0 ∅

/-! ## Varints -/

lemma varint_eq_encode (value : PhpInt) : varint value = Leb128.encode value.toNat := by
  induction value using varint.induct with
  | case1 value shifted hne ih =>
      have hpos : shifted.toNat ≠ 0 := fun h => hne (BitVec.eq_of_toNat_eq h)
      have hshifted : shifted.toNat = value.toNat / 128 := toNat_shifted value
      have hlarge : ¬ value.toNat < 128 := by omega
      rw [varint, if_pos hne, ih, hshifted, Leb128.encode.eq_def value.toNat, if_neg hlarge, chr,
        toNat_septet_or]
  | case2 value shifted hzero =>
      have hshifted : shifted.toNat = value.toNat / 128 := toNat_shifted value
      have hsmall : value.toNat < 128 := by
        rw [not_not.1 hzero] at hshifted
        simp only [BitVec.toNat_zero] at hshifted
        omega
      rw [varint, if_neg hzero, Leb128.encode, if_pos hsmall, chr, toNat_septet,
        Nat.mod_eq_of_lt hsmall]

lemma length_varint_le (value : PhpInt) : (varint value).length ≤ 10 := by
  rw [varint_eq_encode]
  exact Leb128.length_encode_le (value.isLt.trans (by norm_num))

lemma toNat_ord_septet (b : UInt8) : (ord b &&& 0x7f#64).toNat = b.toNat % 128 := by
  have hb : b.toNat < 2 ^ 64 := b.toNat_lt.trans (by norm_num)
  rw [toNat_septet, ord, BitVec.toNat_ofNat, Nat.mod_eq_of_lt hb]

lemma ord_and_high {b : UInt8} : ord b &&& 0x80#64 ≠ 0#64 ↔ 128 ≤ b.toNat := by
  have hb : b.toNat < 2 ^ 8 := b.toNat_lt
  have hand : (ord b &&& 0x80#64).toNat = (b.toNat.testBit 7).toNat * 128 := by
    rw [BitVec.toNat_and, ord, BitVec.toNat_ofNat, Nat.mod_eq_of_lt (by omega)]
    exact Nat.and_two_pow b.toNat 7
  have hbit : b.toNat.testBit 7 = decide (128 ≤ b.toNat) := by
    rw [Nat.testBit_eq_decide_div_mod_eq]
    exact decide_eq_decide.2 (by omega)
  rw [Ne, ← BitVec.toNat_inj, hand, hbit]
  by_cases h : 128 ≤ b.toNat <;> simp [h]

/-- Bits that come in above those that are there are added. -/
lemma or_shiftLeft {value x : PhpInt} {shift : ℕ} (h : value.toNat < 2 ^ shift) :
    value ||| x <<< shift = value + BitVec.ofNat 64 (2 ^ shift * x.toNat) := by
  have hshift : x <<< shift = BitVec.ofNat 64 (2 ^ shift * x.toNat) := by
    refine BitVec.eq_of_toNat_eq ?_
    rw [BitVec.toNat_shiftLeft, BitVec.toNat_ofNat, Nat.shiftLeft_eq, Nat.mul_comm]
  have hdisjoint : value &&& x <<< shift = 0#64 := by
    ext i hi
    rw [BitVec.getElem_and, BitVec.getElem_shiftLeft]
    by_cases hk : i < shift
    · simp [hk]
    · have hhigh : value[i] = false := by
        rw [← BitVec.getLsbD_eq_getElem, BitVec.getLsbD, Nat.testBit_lt_two_pow]
        exact h.trans_le (Nat.pow_le_pow_right (by omega) (by omega))
      simp [hhigh]
  rw [← hshift, BitVec.add_eq_or_of_and_eq_zero _ _ hdisjoint]

lemma toNat_add_septet_lt {value : PhpInt} {shift d : ℕ} (h : value.toNat < 2 ^ shift)
    (hd : d < 128) : (value + BitVec.ofNat 64 (2 ^ shift * d)).toNat < 2 ^ (shift + 7) := by
  have hle : (value + BitVec.ofNat 64 (2 ^ shift * d)).toNat ≤ value.toNat + 2 ^ shift * d := by
    rw [BitVec.toNat_add, BitVec.toNat_ofNat]
    exact (Nat.mod_le _ _).trans (Nat.add_le_add_left (Nat.mod_le _ _) _)
  have hmul : 2 ^ shift * d ≤ 2 ^ shift * 127 := Nat.mul_le_mul_left _ (by omega)
  rw [pow_add]
  omega

lemma getElem?_of_drop {bytes rest : PhpString} {offset : ℕ} {b : UInt8}
    (h : bytes.drop offset = b :: rest) :
    ¬ bytes.length ≤ offset ∧ bytes[offset]? = some b ∧ bytes.drop (offset + 1) = rest := by
  refine ⟨fun hle => ?_, ?_, ?_⟩
  · rw [List.drop_eq_nil_of_le hle] at h
    exact List.cons_ne_nil _ _ h.symm
  · rw [← List.head?_drop, h, List.head?_cons]
  · rw [← List.tail_drop, h, List.tail_cons]

/-- Where a group of septets stands, the loop reads it to its end and adds its value in. -/
lemma readVarintLoop_group {g : PhpString} (hg : Leb128.IsGroup g) {bytes rest : PhpString}
    (offset : ℕ) (value : PhpInt) (shift : ℕ) (hdrop : bytes.drop offset = g ++ rest)
    (hvalue : value.toNat < 2 ^ shift) :
    readVarintLoop bytes offset value shift
      = .ok (value + BitVec.ofNat 64 (2 ^ shift * Leb128.value g), offset + g.length) := by
  induction hg generalizing offset value shift with
  | @last b hb =>
      obtain ⟨hend, hget, -⟩ := getElem?_of_drop hdrop
      have hlow : ¬ (ord b &&& 0x80#64 ≠ 0#64) := fun h => absurd (ord_and_high.1 h) (by omega)
      rw [readVarintLoop, if_neg hend, hget]
      dsimp only
      rw [if_neg hlow, or_shiftLeft hvalue, toNat_ord_septet]
      rfl
  | @more b bs hb _ ih =>
      obtain ⟨hend, hget, hrest⟩ := getElem?_of_drop hdrop
      have hd : b.toNat % 128 < 128 := Nat.mod_lt _ (by norm_num)
      have hsum : 2 ^ shift * (b.toNat % 128) + 2 ^ (shift + 7) * Leb128.value bs
          = 2 ^ shift * Leb128.value (b :: bs) := by
        rw [Leb128.value, pow_add, Nat.mul_add, Nat.mul_assoc]
        rfl
      rw [readVarintLoop, if_neg hend, hget]
      dsimp only
      rw [if_pos (ord_and_high.2 hb), or_shiftLeft hvalue, toNat_ord_septet,
        ih (offset + 1) _ (shift + 7) hrest (toNat_add_septet_lt hvalue hd), BitVec.add_assoc,
        ← BitVec.ofNat_add, hsum, List.length_cons, Nat.add_assoc, Nat.add_comm 1]

lemma readVarint_varint {bytes rest : PhpString} {offset : ℕ} {value : PhpInt}
    (hdrop : bytes.drop offset = varint value ++ rest) :
    readVarint bytes offset = .ok (value, offset + (varint value).length) := by
  rw [varint_eq_encode] at hdrop ⊢
  rw [readVarint, readVarintLoop_group (Leb128.isGroup_encode _) offset 0#64 0 hdrop (by simp),
    Leb128.value_encode]
  simp

/-! ## Fields -/

lemma drop_add_length {bytes front rest : PhpString} {i : ℕ} (h : bytes.drop i = front ++ rest) :
    bytes.drop (i + front.length) = rest := by
  rw [← List.drop_drop, h, List.drop_left]

/-- A key gives back the number and the wire type it was made of. -/
lemma key_parts {no w : PhpInt} (hno : no.toNat < 2 ^ 29) (hw : w.toNat < 8) :
    (no <<< 3 ||| w).sshiftRight 3 = no ∧ ((no <<< 3 ||| w) &&& 7#64).toNat = w.toNat := by
  have hkey : (no <<< 3 ||| w).toNat = w.toNat + 8 * no.toNat := by
    have hshort : w.toNat < 2 ^ 3 := hw
    rw [BitVec.or_comm, or_shiftLeft hshort, BitVec.toNat_add, BitVec.toNat_ofNat]
    omega
  constructor
  · have hmsb : (no <<< 3 ||| w).msb = false := by
      rw [BitVec.msb_eq_decide, hkey]
      exact decide_eq_false (by omega)
    refine BitVec.eq_of_toNat_eq ?_
    rw [BitVec.sshiftRight_eq_of_msb_false hmsb, BitVec.toNat_ushiftRight, hkey,
      Nat.shiftRight_eq_div_pow]
    omega
  · have hand : ((no <<< 3 ||| w) &&& 7#64).toNat = (no <<< 3 ||| w).toNat % 8 := by
      rw [BitVec.toNat_and]
      exact Nat.and_two_pow_sub_one_eq_mod _ 3
    rw [hand, hkey]
    omega

/-- What `decode` makes of an item: the wire has no type for a boolean. -/
def Item.decoded : Item → WireValue
  | .int n => .int n
  | .bool b => .int (if b then 1#64 else 0#64)
  | .string s => .string s

lemma decodeField_varint {bytes rest : PhpString} {i : ℕ} {no n : PhpInt} (hno : no.toNat < 2 ^ 29)
    (hdrop : bytes.drop i = varint (no <<< 3 ||| 0#64) ++ varint n ++ rest) :
    decodeField bytes i
      = .ok ((no, .int n), i + (varint (no <<< 3 ||| 0#64) ++ varint n).length) := by
  obtain ⟨hnumber, htype⟩ := key_parts (w := 0#64) hno (by decide)
  rw [List.append_assoc] at hdrop
  have hvalue := readVarint_varint (drop_add_length hdrop)
  rw [decodeField, readVarint_varint hdrop]
  simp only [bind, Except.bind, hnumber, htype, BitVec.toNat_zero, hvalue, pure, Except.pure,
    List.length_append, Nat.add_assoc]

lemma varint_ne_nil (value : PhpInt) : varint value ≠ [] := by
  rw [varint_eq_encode]
  exact (Leb128.isGroup_encode _).ne_nil

/-- A string that `strlen` can measure is read back whole. -/
lemma readBytes_strlen {bytes rest s : PhpString} {i : ℕ} (hi : i ≤ bytes.length)
    (hs : s.length < 2 ^ 63) (hdrop : bytes.drop i = s ++ rest) :
    readBytes bytes i (strlen s) = .ok (s, i + s.length) := by
  have hnat : (strlen s).toNat = s.length := by
    rw [strlen, BitVec.toNat_ofNat]
    omega
  have hint : (strlen s).toInt = s.length := by
    rw [BitVec.toInt_eq_toNat_cond, hnat, if_pos (by omega)]
  have hthere : i + s.length ≤ bytes.length := by
    have hlength := congrArg List.length hdrop
    rw [List.length_drop, List.length_append] at hlength
    omega
  have hlong : ¬ ((strlen s).toInt < 0 ∨ (bytes.length : ℤ) < i + (strlen s).toInt) := by
    rw [hint]
    omega
  rw [readBytes, if_neg hlong, hnat, run, if_pos hthere, hdrop, List.take_left]
  rfl

lemma decodeField_string {bytes rest s : PhpString} {i : ℕ} {no : PhpInt} (hno : no.toNat < 2 ^ 29)
    (hs : s.length < 2 ^ 63)
    (hdrop : bytes.drop i = varint (no <<< 3 ||| 2#64) ++ varint (strlen s) ++ s ++ rest) :
    decodeField bytes i
      = .ok ((no, .string s),
          i + (varint (no <<< 3 ||| 2#64) ++ varint (strlen s) ++ s).length) := by
  obtain ⟨hnumber, htype⟩ := key_parts (w := 2#64) hno (by decide)
  simp only [List.append_assoc] at hdrop
  have hkey := drop_add_length hdrop
  have hstring := drop_add_length hkey
  have hnear : i + (varint (no <<< 3 ||| 2#64)).length < bytes.length := by
    refine Nat.lt_of_not_le fun hle => ?_
    rw [List.drop_eq_nil_of_le hle] at hkey
    exact varint_ne_nil (strlen s) (List.append_eq_nil_iff.1 hkey.symm).1
  have hi : i + (varint (no <<< 3 ||| 2#64)).length + (varint (strlen s)).length
      ≤ bytes.length := by
    have hlength := congrArg List.length hkey
    rw [List.length_drop, List.length_append] at hlength
    omega
  have htwo : (2#64).toNat = 2 := rfl
  rw [decodeField, readVarint_varint hdrop]
  simp only [bind, Except.bind, hnumber, htype, htwo, readVarint_varint hkey,
    readBytes_strlen hi hs hstring, pure, Except.pure]
  simp only [List.length_append, Nat.add_assoc]

/-- The strings of an item are no longer than a PHP string can be. -/
def Item.Measurable : Item → Prop
  | .string s => s.length < 2 ^ 63
  | _ => True

lemma decodeField_item {bytes rest : PhpString} {i : ℕ} {no : PhpInt} {item : Item}
    (hno : no.toNat < 2 ^ 29) (hitem : item.Measurable)
    (hdrop : bytes.drop i = encodeItem no item ++ rest) :
    decodeField bytes i = .ok ((no, item.decoded), i + (encodeItem no item).length) := by
  cases item with
  | int n => exact decodeField_varint hno hdrop
  | bool b => exact decodeField_varint hno hdrop
  | string s => exact decodeField_string hno hitem hdrop

/-! ## Messages -/

/-- The items of a message one after the other, each with the number of its field. -/
def numbered (fields : OrdMap PhpInt FieldValue) : List (PhpInt × Item) :=
  fields.entries.flatMap fun e => e.2.items.map fun item => (e.1, item)

lemma encode_eq_numbered (fields : OrdMap PhpInt FieldValue) :
    encode fields = (numbered fields).flatMap fun p => encodeItem p.1 p.2 := by
  rw [encode, numbered, List.flatMap_assoc]
  simp only [List.flatMap_map]

lemma decodeLoop_field {bytes : PhpString} {i i' : ℕ} {no : PhpInt} {value : WireValue}
    {out : OrdMap PhpInt WireValue} (hi : i < bytes.length)
    (hfield : decodeField bytes i = .ok ((no, value), i')) :
    decodeLoop bytes i out = decodeLoop bytes i' (out.set no value) := by
  rw [decodeLoop, if_pos hi]
  split
  · rename_i heq
    rw [hfield] at heq
    cases heq
    rfl
  · rename_i heq
    rw [hfield] at heq
    cases heq

lemma decodeLoop_error {bytes : PhpString} {i : ℕ} {e : Failure} (out : OrdMap PhpInt WireValue)
    (hi : i < bytes.length) (hfield : decodeField bytes i = .error e) :
    decodeLoop bytes i out = .error e := by
  rw [decodeLoop, if_pos hi]
  split
  · rename_i heq
    rw [hfield] at heq
    cases heq
  · rename_i heq
    rw [hfield] at heq
    cases heq
    rfl

lemma encodeItem_ne_nil (no : PhpInt) (item : Item) : encodeItem no item ≠ [] := by
  cases item <;> simp [encodeItem, varint_ne_nil]

/-- From where the encodings of `items` stand to the end, the loop writes them one by one. -/
lemma decodeLoop_items {bytes : PhpString} (items : List (PhpInt × Item))
    (hitems : ∀ p ∈ items, p.1.toNat < 2 ^ 29 ∧ p.2.Measurable) (i : ℕ)
    (out : OrdMap PhpInt WireValue)
    (hdrop : bytes.drop i = items.flatMap fun p => encodeItem p.1 p.2) :
    decodeLoop bytes i out = .ok (items.foldl (fun m p => m.set p.1 p.2.decoded) out) := by
  induction items generalizing i out with
  | nil =>
      have hend : ¬ i < bytes.length := by
        rw [List.flatMap_nil, List.drop_eq_nil_iff] at hdrop
        omega
      rw [decodeLoop, if_neg hend, List.foldl_nil]
  | cons p items ih =>
      rw [List.flatMap_cons] at hdrop
      have hi : i < bytes.length := by
        refine Nat.lt_of_not_le fun hle => ?_
        rw [List.drop_eq_nil_of_le hle] at hdrop
        exact encodeItem_ne_nil p.1 p.2 (List.append_eq_nil_iff.1 hdrop.symm).1
      obtain ⟨hno, hitem⟩ := hitems p List.mem_cons_self
      rw [decodeLoop_field hi (decodeField_item hno hitem hdrop), List.foldl_cons]
      exact ih (fun q hq => hitems q (List.mem_cons_of_mem p hq)) _ _ (drop_add_length hdrop)

/-- What is read back of a field: the last item, if there is one. -/
def FieldValue.decoded (v : FieldValue) : Option WireValue := v.items.getLast?.map Item.decoded

lemma foldl_items (no : PhpInt) (items : List Item) (out : OrdMap PhpInt WireValue) :
    (items.map fun item => (no, item)).foldl (fun m p => m.set p.1 p.2.decoded) out
      = match items.getLast? with
        | none => out
        | some item => out.set no item.decoded := by
  induction items using List.reverseRecOn with
  | nil => rfl
  | append_singleton items item ih =>
      rw [List.map_append, List.foldl_append, ih, List.getLast?_concat]
      cases items.getLast? with
      | none => rfl
      | some item' => exact OrdMap.set_set _ _ _ _

/-- The map that is read back: a boolean as an integer, of a list the last item, of an empty list
nothing. -/
def decodedFields (fields : OrdMap PhpInt FieldValue) : OrdMap PhpInt WireValue where
  entries := fields.entries.filterMap fun e => e.2.decoded.map fun v => (e.1, v)
  nodup := by
    refine fields.nodup.sublist ?_
    induction fields.entries with
    | nil => exact List.Sublist.refl _
    | cons e entries ih =>
        rw [List.filterMap_cons]
        cases e.2.decoded with
        | none => exact ih.cons _
        | some v => exact ih.cons_cons _

lemma foldl_numbered (entries : List (PhpInt × FieldValue)) (out : OrdMap PhpInt WireValue) :
    (entries.flatMap fun e => e.2.items.map fun item => (e.1, item)).foldl
        (fun m p => m.set p.1 p.2.decoded) out
      = (entries.filterMap fun e => e.2.decoded.map fun v => (e.1, v)).foldl
          (fun m e => m.set e.1 e.2) out := by
  induction entries generalizing out with
  | nil => rfl
  | cons e entries ih =>
      rw [List.flatMap_cons, List.foldl_append, foldl_items, ih, List.filterMap_cons,
        FieldValue.decoded]
      cases e.2.items.getLast? <;> rfl

/-- Field numbers within those of protobuf, and strings that PHP can hold. -/
structure Encodable (fields : OrdMap PhpInt FieldValue) : Prop where
  number : ∀ e ∈ fields.entries, e.1.toNat < 2 ^ 29
  measurable : ∀ e ∈ fields.entries, ∀ item ∈ e.2.items, item.Measurable

/-- The round trip. -/
lemma decode_encode_eq {fields : OrdMap PhpInt FieldValue} (h : Encodable fields) :
    decode (encode fields) = .ok (decodedFields fields) := by
  have hitems : ∀ p ∈ numbered fields, p.1.toNat < 2 ^ 29 ∧ p.2.Measurable := by
    intro p hp
    obtain ⟨e, he, hp⟩ := List.mem_flatMap.1 hp
    obtain ⟨item, hitem, rfl⟩ := List.mem_map.1 hp
    exact ⟨h.number e he, h.measurable e he item hitem⟩
  have hdrop : (encode fields).drop 0 = (numbered fields).flatMap fun p => encodeItem p.1 p.2 :=
    encode_eq_numbered fields
  rw [decode, decodeLoop_items (numbered fields) hitems 0 ∅ hdrop, numbered, foldl_numbered]
  exact congrArg Except.ok (OrdMap.ofList_entries (decodedFields fields))

/-! ## Any bytes at all -/

lemma decodeLoop_refuses (bytes : PhpString) (i : ℕ) (out : OrdMap PhpInt WireValue) :
    (∃ out', decodeLoop bytes i out = .ok out') ∨
      ∃ message, decodeLoop bytes i out = .error (.invalidArgument message) := by
  induction i, out using decodeLoop.induct bytes with
  | case1 i out hi no value i' hfield ih =>
      rwa [decodeLoop_field hi hfield]
  | case2 i out hi e hfield =>
      have hreads := decodeField_reads bytes i
      rw [hfield] at hreads
      rw [decodeLoop_error out hi hfield]
      cases e with
      | invalidArgument message => exact .inr ⟨message, rfl⟩
      | pastEnd => exact hreads.elim
  | case3 i out hend =>
      rw [decodeLoop, if_neg hend]
      exact .inl ⟨out, rfl⟩

/-- `decode` undoes `encode`, up to what the wire has no type for; a varint has ten bytes at most;
and any string of bytes is either read or refused, without a look past its end. -/
theorem decode_encode {fields : OrdMap PhpInt FieldValue} (h : Encodable fields) :
    decode (encode fields) = .ok (decodedFields fields) ∧
      (∀ value : PhpInt, (varint value).length ≤ 10) ∧
        ∀ bytes : PhpString,
          (∃ out, decode bytes = .ok out) ∨
            ∃ message, decode bytes = .error (.invalidArgument message) :=
  ⟨decode_encode_eq h, length_varint_le, fun bytes => decodeLoop_refuses bytes 0 ∅⟩

/-- A negative number, a boolean, a list of which the last item is read, and an empty one. -/
theorem decode_encode_mixed :
    decode (encode ⟨[(1#64, .one (.int (-1#64))), (2#64, .one (.bool true)),
        (3#64, .list [.int 300#64, .string [104, 105]]), (4#64, .list [])], by decide⟩)
      = .ok ⟨[(1#64, .int (-1#64)), (2#64, .int 1#64), (3#64, .string [104, 105])], by decide⟩ :=
  (decode_encode ⟨by decide, by
    simp only [List.forall_mem_cons, FieldValue.items, Item.Measurable]
    simp⟩).1

end Proto

end Ignis
