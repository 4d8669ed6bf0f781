import Mathlib.Data.List.Flatten
import Ignis.Lib.OrdMap
import Ignis.Lib.StepSystem

/-!
# Scoped objects

`scoped.rs`: an object whose declared properties resolve per fiber.  The object has one ordinary
properties table, and the engine reads and writes it as it does any other; when PHP switches from
one context to another, the tables of all live scoped objects are exchanged for the copies of the
context that is entered.  A context that has no copy yet gets one of row zero, which is the table of
`{main}` and what `seal` promotes.  A scope is the address of a context.

The values are those of the engine, whose counter of a refcounted value is what everybody holds of
it (`State.refcount`).  Giving a reference back may free the value, and with it what it held in its
turn (`collect`); that is how one scoped object comes to be freed while `rows_clear` visits another.
Destructors and the cycle collector are left out, and so is what becomes of freed memory, except
for the slots of an object that `rows_clear` still visits: these are as they were left (`remains`).
-/

namespace Ignis.Scoped

/-- A zval that is not `IS_UNDEF`. -/
inductive Value (α : Type) where
  /-- An integer, a float, an interned string and the like. -/
  | scalar (a : α)
  /-- A string, an array or an object that is not scoped, by its address. -/
  | counted (address : ℕ)
  /-- A scoped object. -/
  | object (handle : ℕ)
  deriving DecidableEq, Repr

/-- `Z_REFCOUNTED`. -/
def Value.refcounted {α : Type} : Value α → Bool
  | .scalar _ => false
  | .counted _ => true
  | .object _ => true

/-- `Vec<zval>`: the declared slots of an object.  `none` is `IS_UNDEF`. -/
abbrev Row (ν : Type) := List (Option ν)

/-- `ROW_ZERO`. -/
def rowZero : ℕ := 0

/-- The state of `scoped.rs` on one thread, and of the memory its values are in. -/
structure State (α : Type) where
  /-- `LIVE`, with what the slots of each object hold. -/
  live : OrdMap ℕ (Row (Value α))
  /-- `TABLES`, by scope and handle. -/
  tables : OrdMap (ℕ × ℕ) (Row (Value α))
  /-- The scope that runs. -/
  current : ℕ
  /-- The slots of the objects that were freed, as they were left. -/
  remains : OrdMap ℕ (Row (Value α))
  /-- What arrays and other objects hold. -/
  contents : OrdMap ℕ (List (Value α))
  /-- The references that PHP code holds otherwise, in its variables. -/
  locals : List (Value α)
  /-- The values a reference was taken to for a slot or a row, once for each reference. -/
  taken : List (Option (Value α))
  /-- The values such a reference was given back of. -/
  released : List (Option (Value α))
  /-- Ghost: what `rows_clear` wrote into the slots of objects that were freed before it came to
  them, and what it gave back for it. -/
  stale : List (Option (Value α) × Option (Value α))

variable {α : Type}

def init : State α := ⟨∅, ∅, rowZero, ∅, ∅, [], [], [], []⟩

/-- The values of the rows that are dropped from `TABLES`. -/
def dropped {ν : Type} (tables : OrdMap (ℕ × ℕ) (Row ν)) (p : ℕ × ℕ → Bool) : List (Option ν) :=
  ((tables.filterKeys p).entries.map Prod.snd).flatten

/-- A scoped object can be had only while it lives; anything else can be made at any time. -/
def State.has (s : State α) : Value α → Bool
  | .object handle => s.live.has handle
  | _ => true

/-! ## References -/

/-- What an object holds when it dies: its rows and its slots. -/
def holdings (s : State α) (handle : ℕ) (slots : Row (Value α)) : Row (Value α) :=
  dropped s.tables (fun k => k.2 == handle) ++ slots

/-- `free_obj`, the standard free included.  What it gives back is looked at by `collect`. -/
def freeObj (s : State α) (handle : ℕ) (slots : Row (Value α)) : State α :=
  { s with
    live := s.live.unset handle
    tables := s.tables.filterKeys fun k => !(k.2 == handle)
    remains := s.remains.set handle slots
    released := s.released ++ holdings s handle slots }

/-- `rc_dtor_func`: a value to which there is no reference is freed.  What it held comes with the
state. -/
def free (s : State α) : Value α → State α × Row (Value α)
  | .scalar _ => (s, [])
  | .counted address =>
      match s.contents.get? address with
      | none => (s, [])
      | some values => ({ s with contents := s.contents.unset address }, values.map some)
  | .object handle =>
      match s.live.get? handle with
      | none => (s, [])
      | some slots => (freeObj s handle slots, holdings s handle slots)

/-- How many values are held by what can be freed. -/
def State.size (s : State α) : ℕ :=
  s.live.total List.length + s.tables.total List.length + s.contents.total List.length

lemma length_dropped {ν : Type} (tables : OrdMap (ℕ × ℕ) (Row ν)) (p : ℕ × ℕ → Bool) :
    (dropped tables p).length = (tables.filterKeys p).total List.length := by
  simp [dropped, OrdMap.total, OrdMap.sumList, Function.comp_def]

/-- What is freed no longer counts, and is what was held. -/
lemma size_free (s : State α) (value : Value α) :
    (free s value).1.size + (free s value).2.length = s.size := by
  cases value with
  | scalar a => rfl
  | counted address =>
      have htotal := s.contents.total_unset List.length address
      cases hc : s.contents.get? address with
      | none => simp [free, hc]
      | some values =>
          simp only [hc, Option.elim_some] at htotal
          simp only [free, hc, State.size, List.length_map]
          omega
  | object handle =>
      have hlive := s.live.total_unset List.length handle
      have htables := s.tables.total_filterKeys List.length fun k => k.2 == handle
      cases hs : s.live.get? handle with
      | none => simp [free, hs]
      | some slots =>
          simp only [hs, Option.elim_some] at hlive
          simp only [free, hs, State.size, freeObj, holdings, List.length_append, length_dropped]
          omega

variable [DecidableEq α]

/-- How often a value occurs in a row. -/
def refs (value : Value α) (row : Row (Value α)) : ℕ := row.count (some value)

/-- `GC_REFCOUNT`, which stays at zero here where it would wrap. -/
def State.refcount (s : State α) (value : Value α) : ℕ :=
  refs value s.taken + s.locals.count value + s.contents.total (List.count value)
    - refs value s.released

/-- The values of `row` have lost a reference each: those that have none left are freed, and so on
with what they held.  Which values go does not depend on the order. -/
def collect : ℕ → State α → Row (Value α) → State α
  | 0, s, _ => s
  | _ + 1, s, [] => s
  | fuel + 1, s, none :: row => collect fuel s row
  | fuel + 1, s, some value :: row =>
      if s.refcount value = 0 then collect fuel (free s value).1 ((free s value).2 ++ row)
      else collect fuel s row

/-- **The releases come to an end.**  More fuel than `giveBack` has changes nothing. -/
theorem collect_of_le {fuel : ℕ} {s : State α} {row : Row (Value α)}
    (h : s.size + row.length ≤ fuel) (more : ℕ) :
    collect (fuel + more) s row = collect fuel s row := by
  induction fuel generalizing s row with
  | zero =>
      obtain rfl : row = [] := List.eq_nil_of_length_eq_zero (by omega)
      cases more <;> rfl
  | succ fuel ih =>
      rw [Nat.succ_add]
      match row with
      | [] => rfl
      | none :: row =>
          simp only [List.length_cons] at h
          exact ih (by omega)
      | some value :: row =>
          have hsize := size_free s value
          simp only [List.length_cons] at h
          simp only [collect]
          split_ifs
          · refine ih ?_
            rw [List.length_append]
            omega
          · exact ih (by omega)

/-- `zval_ptr_dtor`, for each value of a row. -/
def giveBack (s : State α) (row : Row (Value α)) : State α :=
  collect (s.size + row.length) { s with released := s.released ++ row } row

/-! ## The functions -/

/-- `allocate`, after the class is found: `object_properties_init` fills the slots with the defaults
of the class.  The caller has the one reference to the object. -/
def allocate (s : State α) (handle : ℕ) (defaults : Row (Value α)) : State α :=
  { s with
    live := s.live.set handle defaults
    taken := s.taken ++ defaults
    locals := .object handle :: s.locals }

/-- The engine stores a value in a declared slot (`none` for an `unset`) and gives back what was
there. -/
def assign (s : State α) (handle index : ℕ) (value : Option (Value α)) : State α :=
  match s.live.get? handle with
  | none => s
  | some slots =>
      giveBack
        { s with live := s.live.set handle (slots.set index value), taken := s.taken ++ [value] }
        [slots.getD index none]

/-- `seal`. -/
def sealObject (s : State α) (handle : ℕ) : State α :=
  match s.live.get? handle with
  | none => s
  | some kept =>
      let displaced := s.tables.get? (rowZero, handle)
      giveBack
        { s with tables := s.tables.set (rowZero, handle) kept, taken := s.taken ++ kept }
        (displaced.getD [])

/-- The body of the loop of `on_switch`.  What the insertion displaces is a vector of plain zvals,
which is dropped as it is. -/
def switchObject (leaving entering : ℕ) (s : State α) (handle : ℕ) : State α :=
  match s.live.get? handle with
  | none => s
  | some outgoing =>
      let tables := s.tables.set (leaving, handle) outgoing
      match tables.get? (entering, handle) with
      | some values =>
          { s with
            live := s.live.set handle values
            tables := tables.unset (entering, handle) }
      | none =>
          let values :=
            (tables.get? (rowZero, handle)).getD (List.replicate outgoing.length none)
          { s with
            live := s.live.set handle values
            tables := tables
            taken := s.taken ++ values }

/-- `on_switch`, by the scope switched to. -/
def onSwitch (s : State α) (entering : ℕ) : State α :=
  if s.current = entering then s
  else { s.live.keys.foldl (switchObject s.current entering) s with current := entering }

/-- The inner loop of `rows_clear`, for one slot.  The object is reached by a pointer that was
copied before the loops began, so its slots are read and written whether it is alive or not. -/
def clearSlot (defaults : Option (Row (Value α))) (handle : ℕ) (s : State α) (index : ℕ) :
    State α :=
  let value := (defaults.getD []).getD index none
  match s.live.get? handle with
  | some slots =>
      giveBack
        { s with live := s.live.set handle (slots.set index value), taken := s.taken ++ [value] }
        [slots.getD index none]
  | none =>
      let slots := (s.remains.get? handle).getD []
      let previous := slots.getD index none
      giveBack
        { s with
          remains := s.remains.set handle (slots.set index value)
          taken := s.taken ++ [value]
          stale := s.stale ++ [(value, previous)] }
        [previous]

/-- `default_properties_count`, of an object that is or was live. -/
def slotCount (s : State α) (handle : ℕ) : ℕ :=
  ((s.live.get? handle).or (s.remains.get? handle)).elim 0 List.length

/-- The outer loop of `rows_clear`, for one object: row zero is copied before the inner loop. -/
def clearObject (s : State α) (handle : ℕ) : State α :=
  (List.range (slotCount s handle)).foldl
    (clearSlot (s.tables.get? (rowZero, handle)) handle) s

/-- `rows_clear`, which visits the live objects in the order of the hash map. -/
def rowsClear (s : State α) (order : List ℕ) : State α :=
  if s.current = rowZero then s
  else
    let s := order.foldl clearObject s
    giveBack { s with tables := s.tables.filterKeys fun k => !(k.1 == s.current) }
      (dropped s.tables fun k => k.1 == s.current)

/-! ## Steps -/

/-- Something happens in the scope that runs, or another one is switched to. -/
inductive Action (α : Type) where
  | allocate (handle : ℕ) (defaults : Row (Value α))
  | assign (handle index : ℕ) (value : Option (Value α))
  | sealObject (handle : ℕ)
  | switch (scope : ℕ)
  | rowsClear (order : List ℕ)
  /-- PHP code copies a reference to a variable, or makes the value. -/
  | take (value : Value α)
  /-- A variable goes out of scope. -/
  | drop (value : Value α)
  /-- An array or another object is given other contents. -/
  | fill (address : ℕ) (values : List (Value α))
  deriving DecidableEq, Repr

/-- The engine hands out a handle that is not in use, only a declared property has a slot, and PHP
code can store only what there is. -/
def possible (s : State α) : Action α → Bool
  | .allocate handle defaults => !s.live.has handle && defaults.all fun v => v.all s.has
  | .assign handle index value =>
      (s.live.get? handle).any (fun slots => index < slots.length) && value.all s.has
  | .sealObject handle => s.live.has handle
  | .switch _ => true
  | .rowsClear order => order.isPerm s.live.keys
  | .take value => s.has value
  | .drop value => value ∈ s.locals
  | .fill address values => 0 < s.refcount (.counted address) && values.all s.has

def perform (s : State α) : Action α → State α
  | .allocate handle defaults => allocate s handle defaults
  | .assign handle index value => assign s handle index value
  | .sealObject handle => sealObject s handle
  | .switch scope => onSwitch s scope
  | .rowsClear order => rowsClear s order
  | .take value => { s with locals := value :: s.locals }
  | .drop value =>
      collect (s.size + 1) { s with locals := s.locals.erase value } [some value]
  | .fill address values =>
      let previous := (s.contents.get? address).getD []
      collect (s.size + values.length + previous.length)
        { s with contents := s.contents.set address values } (previous.map some)

def step (s : State α) (a : Action α) : Option (State α) :=
  if possible s a then some (perform s a) else none

lemma step_eq {s s' : State α} {a : Action α} (h : step s a = some s') :
    possible s a = true ∧ s' = perform s a := by
  unfold step at h
  split_ifs at h with hp
  exact ⟨hp, (Option.some.inj h).symm⟩

lemma possible_allocate {s : State α} {handle : ℕ} {defaults : Row (Value α)}
    (h : possible s (.allocate handle defaults) = true) :
    s.live.get? handle = none ∧ ∀ value, some value ∈ defaults → s.has value = true := by
  simp only [possible, Bool.and_eq_true, List.all_eq_true, Bool.not_eq_true'] at h
  refine ⟨by simpa [OrdMap.has] using h.1, fun value hvalue => ?_⟩
  simpa using h.2 _ hvalue

lemma possible_assign {s : State α} {handle index : ℕ} {value : Option (Value α)}
    (h : possible s (.assign handle index value) = true) :
    (∃ slots, s.live.get? handle = some slots ∧ index < slots.length) ∧
      ∀ v, value = some v → s.has v = true := by
  simp only [possible, Bool.and_eq_true, Option.any_eq_true, decide_eq_true_eq] at h
  refine ⟨h.1, fun v hv => ?_⟩
  simpa [hv] using h.2

end Ignis.Scoped
