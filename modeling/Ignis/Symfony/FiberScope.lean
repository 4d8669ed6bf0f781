import Mathlib.Data.List.Find
import Mathlib.Data.String.Basic
import Ignis.Lib.Fallible
import Ignis.Lib.OrdMap

/-!
# `FiberScopePass`

A compiler pass of the container: it goes over the definitions of the services and has those whose
state belongs to one request built by `Ignis\Scope` instead of by `new`.  Which these are comes from
a parameter and from a tag, and an id may be named by both.

The pass changes the definitions one after the other and stops at the first it has to refuse.
`process_eq` says what comes of it in one piece: either nothing is refused, and then every
definition is rewritten by itself, or the first refusal is the outcome.  That an id is taken once
matters here: a definition that is already scoped has a configurator, so a second visit would refuse
it.

Ids are strings.  A numeric one would be an integer as an array key, which is left out.
-/

namespace Ignis.Symfony

/-- What a definition hands to a constructor or a method.  References and the like are of a type of
their own. -/
inductive Argument (β : Type) where
  | null
  | string (text : String)
  | array (items : List (Argument β))
  | other (value : β)

/-- A factory or a configurator: `[class, method]`. -/
abbrev Callable := String × String

/-- `Definition`, as far as the pass and the container's `new` read it. -/
structure Definition (β : Type) where
  className : Option String
  arguments : List (Argument β) := []
  factory : Option Callable := none
  configurator : Option Callable := none
  methodCalls : List (String × List (Argument β)) := []
  properties : List (String × Argument β) := []
  tags : List String := []
  isPublic : Bool := false

/-- `ContainerBuilder`. -/
structure ContainerBuilder (β : Type) where
  parameters : OrdMap String (Argument β)
  definitions : OrdMap String (Definition β)

variable {β : Type}

namespace ContainerBuilder

def hasDefinition (c : ContainerBuilder β) (id : String) : Bool := c.definitions.has id

def setDefinition (c : ContainerBuilder β) (id : String) (d : Definition β) : ContainerBuilder β :=
  { c with definitions := c.definitions.set id d }

/-- The keys of `findTaggedServiceIds`. -/
def findTaggedServiceIds (c : ContainerBuilder β) (tag : String) : List String :=
  (c.definitions.entries.filter fun e => e.2.tags.contains tag).map Prod.fst

end ContainerBuilder

/-! ## The pass -/

def vendorIdsParameter : String := "ignis.scoped_vendor_ids"

def scopedTag : String := "ignis.scoped"

def scopeCreate : Callable := ("Ignis\\Scope", "create")

def scopeSeal : Callable := ("Ignis\\Scope", "seal")

def notAnArrayOfIds : String :=
  "the \"" ++ vendorIdsParameter ++ "\" container parameter must be an array of service ids"

/-- The loop over the parameter. -/
def stringIds : List (Argument β) → Except String (List String)
  | [] => .ok []
  | .string id :: rest => (stringIds rest).map (id :: ·)
  | _ :: _ => .error notAnArrayOfIds

def vendorIds (c : ContainerBuilder β) : Except String (List String) :=
  match c.parameters.get? vendorIdsParameter with
  | none => .ok []
  | some (.array items) => stringIds items
  | some _ => .error notAnArrayOfIds

def scopedServiceIds (c : ContainerBuilder β) : Except String (List String) :=
  (vendorIds c).map fun ids => (ids ++ c.findTaggedServiceIds scopedTag).eraseDups

def cannotBeScoped (id : String) : String :=
  "the service \"" ++ id ++ "\" cannot be fiber-scoped: it already has a configurator, and Ignis "
    ++ "needs that slot to seal the object once the container has finished configuring it. Scope "
    ++ "the per-request state it holds instead of the service."

def refuseAnAlreadyConfiguredDefinition (d : Definition β) (id : String) : Except String Unit :=
  if d.configurator = none then .ok () else .error (cannotBeScoped id)

/-- What `getClass()` is as an argument. -/
def classArgument (d : Definition β) : Argument β :=
  match d.className with
  | none => .null
  | some name => .string name

/-- The three setters of `scope`. -/
def Definition.scoped (d : Definition β) : Definition β :=
  { d with
    arguments := classArgument d :: d.arguments
    factory := some scopeCreate
    configurator := some scopeSeal }

def scope (c : ContainerBuilder β) (id : String) : Except String (ContainerBuilder β) :=
  match c.definitions.get? id with
  | none => .ok c
  | some d => do
      refuseAnAlreadyConfiguredDefinition d id
      return c.setDefinition id d.scoped

def servicesResetter : String := "services_resetter"

def fiberServicesResetter (declined : List String) : Definition β :=
  { className := some "Ignis\\Symfony\\FiberServicesResetter"
    arguments := [.array (declined.map .string), .string "%kernel.debug%"]
    isPublic := true }

/-- The ids that are left to themselves, sorted. -/
def declined (c : ContainerBuilder β) : List String :=
  (c.findTaggedServiceIds "kernel.reset").mergeSort fun a b => a ≤ b

def disableTheServiceReset (c : ContainerBuilder β) : ContainerBuilder β :=
  if c.hasDefinition servicesResetter then
    c.setDefinition servicesResetter (fiberServicesResetter (declined c))
  else c

def process (c : ContainerBuilder β) : Except String (ContainerBuilder β) := do
  let ids ← scopedServiceIds c
  let c ← ids.foldlM scope c
  return disableTheServiceReset c

/-! ## Definition by definition -/

/-- A list without its repetitions has none. -/
lemma nodup_eraseDups {α : Type} [DecidableEq α] (l : List α) : l.eraseDups.Nodup := by
  induction h : l.length using Nat.strongRecOn generalizing l with
  | _ n ih =>
      cases l with
      | nil => simp
      | cons a l =>
          have hlt : (l.filter fun b => !b == a).length < n :=
            h ▸ Nat.lt_succ_of_le (List.length_filter_le _ _)
          rw [List.eraseDups_cons, List.nodup_cons]
          refine ⟨by simp, ih _ hlt _ rfl⟩

/-- Whether the pass has to refuse an id. -/
def refused (c : ContainerBuilder β) (id : String) : Bool :=
  (c.definitions.get? id).any fun d => d.configurator.isSome

/-- What becomes of a definition. -/
def rewriteDefinition (ids declined : List String) (id : String) (d : Definition β) :
    Definition β :=
  if id = servicesResetter then fiberServicesResetter declined
  else if id ∈ ids then d.scoped
  else d

/-- The container with every definition rewritten by itself. -/
def rewritten (ids : List String) (c : ContainerBuilder β) : ContainerBuilder β :=
  { c with definitions := c.definitions.mapWithKey (rewriteDefinition ids (declined c)) }

lemma get?_rewritten (ids : List String) (c : ContainerBuilder β) (id : String) :
    (rewritten ids c).definitions.get? id
      = (c.definitions.get? id).map (rewriteDefinition ids (declined c) id) :=
  OrdMap.get?_mapWithKey _ _ _

lemma scope_eq (c : ContainerBuilder β) (id : String) :
    scope c id = if refused c id then .error (cannotBeScoped id) else
      .ok { c with definitions := c.definitions.mapWithKey fun k d =>
        if k = id then d.scoped else d } := by
  cases hd : c.definitions.get? id with
  | none =>
      have hsame : c.definitions.mapWithKey (fun k d => if k = id then d.scoped else d)
          = c.definitions := by
        refine OrdMap.mapWithKey_id fun k d hmem => if_neg ?_
        rintro rfl
        rw [OrdMap.mem_entries_iff, hd] at hmem
        cases hmem
      simp [scope, refused, hd, hsame]
  | some d =>
      cases hconf : d.configurator with
      | some f => simp [scope, refused, hd, refuseAnAlreadyConfiguredDefinition, hconf]
      | none =>
          have hset : c.definitions.set id d.scoped
              = c.definitions.mapWithKey fun k d => if k = id then d.scoped else d := by
            rw [OrdMap.set_eq_mapWithKey (OrdMap.has_iff.mpr ⟨d, hd⟩)]
            refine OrdMap.mapWithKey_congr fun k d' hmem => ?_
            by_cases hk : k = id
            · subst hk
              rw [OrdMap.mem_entries_iff, hd] at hmem
              rw [if_pos rfl, if_pos rfl, Option.some.inj hmem]
            · rw [if_neg hk, if_neg hk]
          simp [scope, refused, hd, refuseAnAlreadyConfiguredDefinition, hconf,
            ContainerBuilder.setDefinition, hset]

/-- The loop of `process` leaves a definition alone or rewrites it, once. -/
lemma foldlM_scope {ids : List String} (hids : ids.Nodup) (c : ContainerBuilder β) :
    ids.foldlM scope c =
      match ids.find? (refused c) with
      | some id => .error (cannotBeScoped id)
      | none => .ok { c with definitions := c.definitions.mapWithKey fun k d =>
          if k ∈ ids then d.scoped else d } := by
  induction ids generalizing c with
  | nil =>
      have hsame : c.definitions.mapWithKey (fun _ d => d) = c.definitions :=
        OrdMap.mapWithKey_id fun _ _ _ => rfl
      simp [hsame]
      rfl
  | cons id ids ih =>
      rw [List.nodup_cons] at hids
      rw [List.foldlM_cons, scope_eq, List.find?_cons]
      by_cases hr : refused c id = true
      · simp [hr]
        rfl
      · have hother : ids.find? (refused { c with definitions := c.definitions.mapWithKey fun k d =>
            if k = id then d.scoped else d }) = ids.find? (refused c) := by
          refine List.find?_congr fun id' hid' => ?_
          have hne : id' ≠ id := fun e => hids.1 (e ▸ hid')
          simp only [refused, OrdMap.get?_mapWithKey, if_neg hne, Option.map_id']
        simp only [Bool.not_eq_true] at hr
        simp only [hr, Bool.false_eq_true, if_false]
        refine (ih hids.2 _).trans ?_
        rw [hother]
        cases ids.find? (refused c) with
        | some id' => rfl
        | none =>
            -- an id that is rewritten here is not rewritten again
            have hstep : ∀ k (d : Definition β),
                (if k ∈ ids then (if k = id then d.scoped else d).scoped
                  else if k = id then d.scoped else d)
                = if k ∈ id :: ids then d.scoped else d := by
              intro k d
              by_cases hk : k = id
              · subst hk
                simp [hids.1]
              · simp [hk]
            simp only [OrdMap.mapWithKey_mapWithKey, hstep]

lemma findTaggedServiceIds_mapWithKey {f : String → Definition β → Definition β}
    (hf : ∀ k d, (f k d).tags = d.tags) (c : ContainerBuilder β) (tag : String) :
    ContainerBuilder.findTaggedServiceIds
        { c with definitions := c.definitions.mapWithKey f } tag
      = c.findTaggedServiceIds tag := by
  simp [ContainerBuilder.findTaggedServiceIds, OrdMap.mapWithKey, List.filter_map, hf,
    Function.comp_def]

lemma disableTheServiceReset_eq (c : ContainerBuilder β) :
    disableTheServiceReset c = { c with definitions := c.definitions.mapWithKey fun k d =>
      if k = servicesResetter then fiberServicesResetter (declined c) else d } := by
  unfold disableTheServiceReset
  split_ifs with h
  · rw [ContainerBuilder.setDefinition, OrdMap.set_eq_mapWithKey h]
  · refine congrArg (ContainerBuilder.mk c.parameters) (OrdMap.mapWithKey_id fun k d hmem => ?_).symm
    refine if_neg fun hk => h ?_
    rw [OrdMap.mem_entries_iff, hk] at hmem
    exact OrdMap.has_iff.mpr ⟨d, hmem⟩

/-- The ids the pass goes over are distinct. -/
lemma nodup_scopedServiceIds {c : ContainerBuilder β} {ids : List String}
    (h : scopedServiceIds c = .ok ids) : ids.Nodup := by
  obtain ⟨named, -, rfl⟩ := Fallible.of_map_eq_ok h
  exact nodup_eraseDups _

/-- **The pass, definition by definition.**  It is a rewriting of each definition by itself, unless
one of those to be scoped has a configurator already; then it is the refusal of the first. -/
theorem process_eq (c : ContainerBuilder β) :
    process c =
      match scopedServiceIds c with
      | .error message => .error message
      | .ok ids =>
          match ids.find? (refused c) with
          | some id => .error (cannotBeScoped id)
          | none => .ok (rewritten ids c) := by
  unfold process
  cases hids : scopedServiceIds c with
  | error message => rfl
  | ok ids =>
      show (ids.foldlM scope c >>= fun c => pure (disableTheServiceReset c)) = _
      rw [foldlM_scope (nodup_scopedServiceIds hids)]
      cases hfind : ids.find? (refused c) with
      | some id => simp only [hfind]; rfl
      | none =>
          have htags : declined { c with definitions := c.definitions.mapWithKey fun k d =>
              if k ∈ ids then d.scoped else d } = declined c := by
            refine congrArg (List.mergeSort · _) (findTaggedServiceIds_mapWithKey (fun k d => ?_) c _)
            split_ifs <;> rfl
          simp only [hfind]
          refine congrArg Except.ok ?_
          rw [disableTheServiceReset_eq, htags]
          simp only [rewritten, OrdMap.mapWithKey_mapWithKey]
          rfl

end Ignis.Symfony
