import Mathlib.Data.Rat.Defs
import Ignis.Http.Zval

/-!
# The documents of the core transport

sdk-core's documents are protojson: `json_decode` makes PHP arrays of them, and `json_encode` makes
JSON of the arrays the codec builds.  A PHP array does not say whether it is a list or an object;
`json_encode` calls it a list if its keys are 0, 1, 2, … in order (`array_is_list`), so an empty
array is a list, and the codec writes a `stdClass` where it needs an empty object.

The readers are the ones the codec goes through for every field: each gives the value only if it is
of the type asked for, and only the payload readers throw.
-/

namespace Ignis

namespace Temporal

/-- A PHP value. -/
inductive Val where
  | null
  | bool (b : Bool)
  | int (n : ℤ)
  | float (x : ℚ)
  | str (s : PhpString)
  | arr (entries : List (ArrayKey × Val))
  /-- `new \stdClass()`, which is never given a member. -/
  | stdClass
  deriving Inhabited

/-- JSON, by its structure. -/
inductive Json where
  | scalar
  | list (items : List Json)
  | object (members : List (PhpString × Json))
  deriving Inhabited

/-- What the codec has from outside: its configuration, and what PHP makes of numbers and texts
(`is_numeric` with the cast to `int`; `sprintf('%.nf')` of a quotient, trimmed; `uniqid`). -/
structure Host where
  taskQueue : PhpString
  numeric : PhpString → Option ℤ
  decimal : (digits : ℕ) → (num den : ℤ) → PhpString
  uniqid : PhpString

/-! ## Reading -/

/-- A byte string in a message. -/
def text (s : PhpString) : String := String.ofList (s.map fun b => Char.ofNat b.toNat)

def key (name : String) : ArrayKey := .str (bytes name)

/-- `$source[$key] ?? null`. -/
def Val.get (source : Val) (name : String) : Val :=
  match source with
  | .arr entries => (OrdMap.lookup (key name) entries).getD .null
  | _ => .null

/-- `isset($source[$key])`. -/
def Val.isset (source : Val) (name : String) : Bool :=
  match source.get name with
  | .null => false
  | _ => true

/-- The cast to `bool`. -/
def Val.truthy : Val → Bool
  | .null => false
  | .bool b => b
  | .int n => n != 0
  | .float x => x != 0
  | .str s => s != [] && s != bytes "0"
  | .arr entries => !entries.isEmpty
  | .stdClass => true

/-- The cast of an `int` to a string. -/
def intText (n : ℤ) : PhpString := bytes (toString n)

def stringOrNull : Val → Option PhpString
  | .str s => some s
  | .int n => some (intText n)
  | _ => none

def intOrNull (host : Host) : Val → Option ℤ
  | .int n => some n
  | .str s => host.numeric s
  | _ => none

def stringField (source : Val) (name : String) : Option PhpString := stringOrNull (source.get name)

def intField (host : Host) (source : Val) (name : String) : Option ℤ :=
  intOrNull host (source.get name)

/-- The entries of an array, in order; of anything else none. -/
def Val.entries : Val → List (ArrayKey × Val)
  | .arr entries => entries
  | _ => []

def Val.isArr : Val → Bool
  | .arr _ => true
  | _ => false

def arrayField (source : Val) (name : String) : Val := .arr (source.get name).entries

def listOfArraysField (source : Val) (name : String) : List Val :=
  ((source.get name).entries.map Prod.snd).filter Val.isArr

/-- An id as sdk-php writes it. -/
inductive ReqId where
  | int (n : ℤ)
  | str (s : PhpString)
  deriving DecidableEq, Repr

/-- The array key an id comes to. -/
def ReqId.key : ReqId → ArrayKey
  | .int n => .int n
  | .str s => .ofSymtable s

def listOfKeysField (source : Val) (name : String) : List ReqId :=
  (source.get name).entries.filterMap fun e =>
    match e.2 with
    | .int n => some (.int n)
    | .str s => some (.str s)
    | _ => none

/-! ## Payloads -/

/-- `{metadata?, data?}` as it comes from core, the bytes still in base64. -/
structure WirePayload where
  metadata : Option (List (PhpString × PhpString))
  data : Option PhpString
  deriving DecidableEq, Repr

def logicException (message : String) : Throwable := ⟨.logicException, message⟩

/-- `stringMapOf`. -/
def stringMapOf (map : Val) (field : String) : Except Throwable (List (PhpString × PhpString)) :=
  match map with
  | .arr entries =>
      entries.mapM fun e =>
        match e with
        | (.str k, .str v) => .ok (k, v)
        | _ => .error (logicException
            ("the metadata of a payload in \"" ++ field ++ "\" has a non-string key or value"))
  | _ => .error (logicException
      ("the metadata of a payload in \"" ++ field ++ "\" is not an object"))

def payloadOf (payload : Val) (field : String) : Except Throwable WirePayload :=
  match payload with
  | .arr _ => do
      let metadata ←
        if payload.isset "metadata" then
          (stringMapOf (payload.get "metadata") field).map some
        else .ok none
      let data ←
        match payload.get "data" with
        | .null => .ok none
        | .str s => .ok (some s)
        | _ => .error (logicException
            ("the \"data\" of a payload in \"" ++ field ++ "\" is not a base64 string"))
      .ok ⟨metadata, data⟩
  | _ => .error (logicException ("a payload in \"" ++ field ++ "\" is not an object"))

def payloadListField (source : Val) (name field : String) : Except Throwable (List WirePayload) :=
  match source.get name with
  | .null => .ok []
  | .arr entries => entries.mapM fun e => payloadOf e.2 field
  | _ => .error (logicException
      ("the core document's \"" ++ field ++ "\" is not a list of payloads"))

/-! ## Writing -/

/-- `array_is_list`. -/
def isListFrom : ℤ → List (ArrayKey × Val) → Bool
  | _, [] => true
  | n, (k, _) :: entries => k == .int n && isListFrom (n + 1) entries

def isList (entries : List (ArrayKey × Val)) : Bool := isListFrom 0 entries

/-- The text of a member's name. -/
def ArrayKey.text : ArrayKey → PhpString
  | .int n => intText n
  | .str s => s

mutual

/-- `json_encode`, less the text. -/
def Val.json : Val → Json
  | .arr entries =>
      if isList entries then .list (itemsJson entries) else .object (membersJson entries)
  | .stdClass => .object []
  | .null | .bool _ | .int _ | .float _ | .str _ => .scalar

def itemsJson : List (ArrayKey × Val) → List Json
  | [] => []
  | (_, v) :: entries => v.json :: itemsJson entries

def membersJson : List (ArrayKey × Val) → List (PhpString × Json)
  | [] => []
  | (k, v) :: entries => (ArrayKey.text k, v.json) :: membersJson entries

end

/-- `[name => value, ...]`. -/
def assoc (members : List (String × Val)) : Val := .arr (members.map fun m => (key m.1, m.2))

/-- `[value, ...]`, a list. -/
def listVal (items : List Val) : Val :=
  .arr (items.zipIdx.map fun (v, i) => (.int i, v))

/-- What `fn($v) => $v !== null && $v !== []` keeps. -/
def Val.kept : Val → Bool
  | .null => false
  | .arr [] => false
  | _ => true

/-- `array_filter` with that function, which leaves the keys as they are. -/
def assocFiltered (members : List (String × Val)) : Val :=
  assoc (members.filter fun m => m.2.kept)

/-- `?string`, `?array`. -/
def Val.ofOption : Option Val → Val
  | some v => v
  | none => .null

end Temporal

end Ignis
