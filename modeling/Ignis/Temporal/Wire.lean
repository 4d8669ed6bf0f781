import Ignis.Temporal.Base64

/-!
# JSON by its values

`Val.json` says of a document whether its arrays are lists or objects.  For what a document denotes
the texts and the numbers count as well: `JsonValue` is JSON with its values, `JsonValue.decode` the
array that `json_decode` makes of it, and `Val.encode` what `json_encode` makes of an array.  The
way back is not the way there: an object's names become keys, and a name that spells an `int`
becomes one; an array that happens to be empty, or has the keys 0, 1, …, is a list.
-/

namespace Ignis

namespace Temporal

inductive JsonValue where
  | null
  | bool (b : Bool)
  | int (n : ℤ)
  | float (x : ℚ)
  | string (s : PhpString)
  | list (items : List JsonValue)
  | object (members : List (PhpString × JsonValue))
  deriving Inhabited

/-- A number that is too large for an `int` is a `float`. -/
def decodeInt (n : ℤ) : Val := if -2 ^ 63 ≤ n ∧ n < 2 ^ 63 then .int n else .float n

mutual

/-- `json_decode` with `$associative`. -/
def JsonValue.decode : JsonValue → Val
  | .null => .null
  | .bool b => .bool b
  | .int n => decodeInt n
  | .float x => .float x
  | .string s => .str s
  | .list items => .arr (decodeItems 0 items)
  | .object members => .arr (decodeMembers [] members)

def decodeItems (n : ℕ) : List JsonValue → List (ArrayKey × Val)
  | [] => []
  | json :: items => (.int n, json.decode) :: decodeItems (n + 1) items

/-- `zend_symtable_update`: a name that comes again replaces the value. -/
def decodeMembers (entries : List (ArrayKey × Val)) :
    List (PhpString × JsonValue) → List (ArrayKey × Val)
  | [] => entries
  | (name, json) :: members =>
      decodeMembers (OrdMap.insertList (.ofSymtable name) json.decode entries) members

end

mutual

/-- `json_encode`. -/
def Val.encode : Val → JsonValue
  | .null => .null
  | .bool b => .bool b
  | .int n => .int n
  | .float x => .float x
  | .str s => .string s
  | .arr entries =>
      if isList entries then .list (encodeItems entries) else .object (encodeMembers entries)
  | .stdClass => .object []

def encodeItems : List (ArrayKey × Val) → List JsonValue
  | [] => []
  | (_, v) :: entries => v.encode :: encodeItems entries

def encodeMembers : List (ArrayKey × Val) → List (PhpString × JsonValue)
  | [] => []
  | (k, v) :: entries => (ArrayKey.text k, v.encode) :: encodeMembers entries

end

mutual

/-- The structure of a document, less its values. -/
def JsonValue.shape : JsonValue → Json
  | .list items => .list (itemsShape items)
  | .object members => .object (membersShape members)
  | .null | .bool _ | .int _ | .float _ | .string _ => .scalar

def itemsShape : List JsonValue → List Json
  | [] => []
  | json :: items => json.shape :: itemsShape items

def membersShape : List (PhpString × JsonValue) → List (PhpString × Json)
  | [] => []
  | (name, json) :: members => (name, json.shape) :: membersShape members

end

/-! ## Reading and writing -/

mutual

/-- `Val.json` is the shape of what `json_encode` writes. -/
theorem shape_encode : (v : Val) → v.encode.shape = v.json
  | .arr entries => by
      rw [Val.encode, Val.json]
      split_ifs with hlist
      · rw [JsonValue.shape, shape_encodeItems entries]
      · rw [JsonValue.shape, shape_encodeMembers entries]
  | .null => rfl
  | .bool _ => rfl
  | .int _ => rfl
  | .float _ => rfl
  | .str _ => rfl
  | .stdClass => rfl

lemma shape_encodeItems : (entries : List (ArrayKey × Val)) →
    itemsShape (encodeItems entries) = itemsJson entries
  | [] => rfl
  | (_, v) :: entries => by
      rw [encodeItems, itemsShape, itemsJson, shape_encode v, shape_encodeItems entries]

lemma shape_encodeMembers : (entries : List (ArrayKey × Val)) →
    membersShape (encodeMembers entries) = membersJson entries
  | [] => rfl
  | (_, v) :: entries => by
      rw [encodeMembers, membersShape, membersJson, shape_encode v, shape_encodeMembers entries]

end

lemma encodeItems_eq (entries : List (ArrayKey × Val)) :
    encodeItems entries = entries.map fun e => e.2.encode := by
  induction entries with
  | nil => rfl
  | cons e entries ih => rw [encodeItems, ih, List.map_cons]

lemma encodeMembers_eq (entries : List (ArrayKey × Val)) :
    encodeMembers entries = entries.map fun e => (ArrayKey.text e.1, e.2.encode) := by
  induction entries with
  | nil => rfl
  | cons e entries ih => rw [encodeMembers, ih, List.map_cons]

lemma decodeItems_values (n : ℕ) (items : List JsonValue) :
    (decodeItems n items).map Prod.snd = items.map JsonValue.decode := by
  induction items generalizing n with
  | nil => rfl
  | cons json items ih => rw [decodeItems, List.map_cons, ih, List.map_cons]

/-- A list is written as one. -/
lemma encode_listVal (vs : List Val) : (listVal vs).encode = .list (vs.map Val.encode) := by
  rw [listVal, Val.encode, if_pos (c := isList _ = true) (isListFrom_zipIdx vs 0), encodeItems_eq,
    List.map_map]
  conv_rhs => rw [← List.zipIdx_map_fst 0 vs, List.map_map]
  rfl

/-- An array with a first name is written as an object. -/
lemma encode_assoc (e : String × Val) (members : List (String × Val)) :
    (assoc (e :: members)).encode
      = .object ((e :: members).map fun e => (bytes e.1, e.2.encode)) := by
  have hlist : isList ((key e.1, e.2) :: members.map fun m => (key m.1, m.2)) = false := rfl
  rw [assoc, List.map_cons, Val.encode, hlist, encodeMembers_eq, ← List.map_cons
    (f := fun m : String × Val => (key m.1, m.2)), List.map_map]
  rfl

/-- The keys of the array that is made of an object. -/
lemma mem_keys_decodeMembers {k : ArrayKey} (members : List (PhpString × JsonValue))
    (entries : List (ArrayKey × Val)) :
    k ∈ (decodeMembers entries members).map Prod.fst ↔
      k ∈ entries.map Prod.fst ∨ ∃ e ∈ members, .ofSymtable e.1 = k := by
  induction members generalizing entries with
  | nil => simp [decodeMembers]
  | cons e members ih =>
      obtain ⟨name, json⟩ := e
      rw [decodeMembers, ih, OrdMap.keys_insertList, List.exists_mem_cons_iff, ← or_assoc]
      refine or_congr_left ?_
      split_ifs with hmem
      · exact ⟨Or.inl, fun h => h.elim id fun heq => heq ▸ hmem⟩
      · rw [List.mem_append, List.mem_singleton, eq_comm (a := k)]

/-- Names that stay names, each once. -/
lemma decodeMembers_of_named {members : List (PhpString × JsonValue)}
    {entries : List (ArrayKey × Val)} (hnamed : ∀ e ∈ members, handleNumericStr e.1 = none)
    (hnodup : (entries.map Prod.fst ++ members.map fun e => ArrayKey.str e.1).Nodup) :
    decodeMembers entries members
      = entries ++ members.map fun e => (ArrayKey.str e.1, e.2.decode) := by
  induction members generalizing entries with
  | nil => simp [decodeMembers]
  | cons e members ih =>
      obtain ⟨name, json⟩ := e
      have hkey : ArrayKey.ofSymtable name = .str name :=
        ArrayKey.ofSymtable_eq_str_iff.2 (hnamed _ List.mem_cons_self)
      have hnotMem : ArrayKey.str name ∉ entries.map Prod.fst := fun hmem =>
        (List.nodup_append.1 hnodup).2.2 _ hmem _ List.mem_cons_self rfl
      rw [decodeMembers, hkey, OrdMap.insertList_of_notMem _ hnotMem,
        ih fun e he => hnamed e (List.mem_cons_of_mem _ he)]
      · simp
      · simpa using hnodup

lemma decode_object {members : List (PhpString × JsonValue)}
    (hnamed : ∀ e ∈ members, handleNumericStr e.1 = none) (hnodup : (members.map Prod.fst).Nodup) :
    (JsonValue.object members).decode
      = .arr (members.map fun e => (ArrayKey.str e.1, e.2.decode)) := by
  have hkeys : (members.map fun e => ArrayKey.str e.1).Nodup := by
    have hmap := hnodup.map (f := ArrayKey.str) fun _ _ => ArrayKey.str.inj
    rwa [List.map_map] at hmap
  rw [JsonValue.decode, decodeMembers_of_named hnamed (by simpa using hkeys), List.nil_append]

end Temporal

end Ignis
