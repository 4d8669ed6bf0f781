import Ignis.Scoped.Copies
import Ignis.Symfony.FiberScope

/-!
# What the pass makes of a service

The container builds a service by `new` and a configuration: it assigns the properties, makes the
method calls and ends with the configurator.  `FiberScopePass` puts `Scope::create` and
`Scope::seal` in the two slots of the definition, and with that the same code of the class runs on
a scoped object, in the middle of requests that are under way on other fibers.

The code of a class is known here by what it does to the declared properties of the one object that
is being built, `Code`.  `Code.run` runs it on an ordinary object.  On a scoped object it is taken
step by step, `stepBuild`, with anything the other fibers do between two of its steps, and also with
what it does itself to other objects.

`scopedService_outcome` says that the pass preserves the building of a service, and
`scopedService_reads` what the requests have of it afterwards: each scope has its own copy of what
the container would have built without the pass.  Two kinds of definitions are left out of both: the
pass overwrites a factory that the definition has, and `Scope::create` refuses arguments for a class
without a constructor, which `new` ignores.
-/

namespace Ignis.Symfony

open Scoped StepSystem

variable {α ν β : Type} {n : ℕ}

/-! ## Code -/

/-- What PHP code does to the `n` declared properties of one object. -/
inductive Code (ν : Type) (n : ℕ) where
  | done
  | throw (message : String)
  | read (index : Fin n) (next : Option ν → Code ν n)
  | write (index : Fin n) (value : Option ν) (next : Code ν n)
  | sealObject (next : Code ν n)

namespace Code

/-- One after the other. -/
def andThen : Code ν n → Code ν n → Code ν n
  | .done, rest => rest
  | .throw message, _ => .throw message
  | .read index next, rest => .read index fun value => (next value).andThen rest
  | .write index value next, rest => .write index value (next.andThen rest)
  | .sealObject next, rest => .sealObject (next.andThen rest)

/-- On an ordinary object, which there is nothing to seal of. -/
def run : Code ν n → Row ν → Except String (Row ν)
  | .done, row => .ok row
  | .throw message, _ => .error message
  | .read index next, row => (next (row.getD index none)).run row
  | .write index value next, row => next.run (row.set index value)
  | .sealObject next, row => next.run row

def sequence : List (Code ν n) → Code ν n
  | [] => .done
  | code :: codes => code.andThen (sequence codes)

lemma run_andThen (code rest : Code ν n) (row : Row ν) :
    (code.andThen rest).run row = (code.run row).bind rest.run := by
  induction code generalizing row with
  | done => rfl
  | throw message => rfl
  | read index next ih => exact ih _ row
  | write index value next ih => exact ih _
  | sealObject next ih => exact ih row

end Code

/-! ## Building a service -/

/-- A class, as the container needs it. -/
structure Class (ν β : Type) where
  /-- How many properties it declares. -/
  slots : ℕ
  defaults : Row ν
  length_defaults : defaults.length = slots
  construct : Option (List (Argument β) → Code ν slots)
  /-- A call of a method. -/
  call : String → List (Argument β) → Code ν slots
  /-- `$instance->$name = $value`. -/
  assign : String → Argument β → Code ν slots

/-- `new`, after the defaults: a class without a constructor takes any arguments. -/
def Class.new (cls : Class ν β) (arguments : List (Argument β)) : Code ν cls.slots :=
  match cls.construct with
  | some construct => construct arguments
  | none => .done

def takesNoArguments (name : String) (given : ℕ) : String :=
  "Ignis\\Scope::create(): " ++ name ++ " has no constructor, so it takes no arguments, "
    ++ toString given ++ " given"

/-- `Scope::create`, after `ignis_scope_allocate`. -/
def Class.create (cls : Class ν β) (name : String) (arguments : List (Argument β)) :
    Code ν cls.slots :=
  Code.andThen
    (match cls.construct with
    | some construct => construct arguments
    | none =>
        if arguments.isEmpty then .done
        else .throw (takesNoArguments name arguments.length))
    (.sealObject .done)

/-- What the container does between the factory and the configurator. -/
def Class.configure (cls : Class ν β) (d : Definition β) : Code ν cls.slots :=
  Code.andThen (.sequence (d.properties.map fun p => cls.assign p.1 p.2))
    (.sequence (d.methodCalls.map fun c => cls.call c.1 c.2))

/-- How a service is built: of which class, as a scoped object or an ordinary one, and by what
code. -/
structure Recipe (ν β : Type) where
  cls : Class ν β
  isScoped : Bool
  code : Code ν cls.slots

/-- The container's reading of a definition, with the classes that can be loaded.  Factories and
configurators of the application's own are not followed. -/
def recipe (classes : String → Option (Class ν β)) (d : Definition β) : Option (Recipe ν β) := do
  match d.factory, d.configurator with
  | none, none =>
      let cls ← classes (← d.className)
      return ⟨cls, false, (cls.new d.arguments).andThen (cls.configure d)⟩
  | some factory, some configurator =>
      match d.arguments with
      | .string name :: arguments =>
          if factory = scopeCreate ∧ configurator = scopeSeal then
            let cls ← classes name
            return ⟨cls, true,
              (cls.create name arguments).andThen
                ((cls.configure d).andThen (.sealObject .done))⟩
          else none
      | _ => none
  | _, _ => none

/-! ## On a scoped object -/

section Build

variable [DecidableEq α]

/-- A service that is being built: the machine, and what is left of the code. -/
structure Building (α : Type) (n : ℕ) where
  world : Traced α
  code : Code (Value α) n

/-- The code goes on, or something else happens: on another fiber, or to another object. -/
inductive Move (α : Type) where
  | go
  | other (a : Action α)

/-- The object is the business of its builder alone, so far: others do not seal it, the reference
that the builder has is not given up, `{main}` does not write to it, and what else the builder does
is not done to the object.  A request is not over before its code is, and no `rows_clear` touches
the slots of an object that it has freed. -/
def leavesAlone (scope handle : ℕ) (s : State α) : Action α → Bool
  | .assign other _ _ => decide (other ≠ handle ∨ (s.current ≠ scope ∧ s.current ≠ rowZero))
  | .sealObject other => decide (other ≠ handle)
  | .drop value => decide (Keeps handle s (.drop value))
  | .rowsClear order => decide (s.current ≠ scope ∧ Keeps handle s (.rowsClear order))
  | _ => true

def stepBuild (scope handle : ℕ) (b : Building α n) : Move α → Option (Building α n)
  | .go =>
      if b.world.state.current = scope then
        match b.code with
        | .done => none
        | .throw _ => none
        | .read index next =>
            (b.world.state.live.get? handle).map fun slots =>
              ⟨b.world, next (slots.getD index none)⟩
        | .write index value next =>
            (tracedStep b.world (.assign handle index value)).map fun world => ⟨world, next⟩
        | .sealObject next =>
            (tracedStep b.world (.sealObject handle)).map fun world => ⟨world, next⟩
      else none
  | .other a =>
      if leavesAlone scope handle b.world.state a then
        (tracedStep b.world a).map fun world => ⟨world, b.code⟩
      else none

/-- The code is about to store a scoped object that was freed, which PHP code cannot have. -/
def Building.Stuck (b : Building α n) : Prop :=
  ∃ index gone next, b.code = .write index (some (.object gone)) next ∧
    b.world.state.live.has gone = false

/-! ## What the builder sees -/

/-- The object as the scope `scope` finds it when it runs. -/
def look (n scope : ℕ) (x : Past ν) : Row ν := (List.range n).map (x.upcoming scope)

lemma length_look (n scope : ℕ) (x : Past ν) : (look n scope x).length = n := by
  simp [look]

lemma getD_look {n scope : ℕ} {x : Past ν} {p : ℕ} (h : p < n) :
    (look n scope x).getD p none = x.upcoming scope p := by
  simp [look, h]

lemma look_congr {n scope : ℕ} {x y : Past ν}
    (h : ∀ p, y.upcoming scope p = x.upcoming scope p) : look n scope y = look n scope x :=
  List.map_congr_left fun p _ => h p

lemma look_assign (n scope : ℕ) (x : Past ν) (index : ℕ) (value : Option ν) :
    look n scope (x.assign scope index value) = (look n scope x).set index value := by
  refine List.ext_getElem (by simp [look]) fun p hp hp' => ?_
  rw [List.getElem_set]
  simp only [look, List.getElem_map, List.getElem_range, Past.upcoming_assign_self,
    eq_comm (a := index)]

/-- The code ends with a seal, or the object is sealed as it is and the code does nothing more. -/
def Code.EndsSealed : Bool → Code ν n → Prop
  | fresh, .done => fresh = true
  | _, .throw _ => True
  | fresh, .read _ next => ∀ value, (next value).EndsSealed fresh
  | _, .write _ _ next => next.EndsSealed false
  | _, .sealObject next => next.EndsSealed true

lemma Code.EndsSealed.mono {code : Code ν n} {fresh : Bool} (h : code.EndsSealed false) :
    code.EndsSealed fresh := by
  induction code generalizing fresh with
  | done => cases h
  | throw message => trivial
  | read index next ih => exact fun value => ih value (h value)
  | write index value next ih => exact h
  | sealObject next ih => exact h

lemma Code.endsSealed_andThen (code : Code ν n) {rest : Code ν n} (h : rest.EndsSealed false)
    (fresh : Bool) : (code.andThen rest).EndsSealed fresh := by
  induction code generalizing fresh with
  | done => exact h.mono
  | throw message => trivial
  | read index next ih => exact fun value => ih value fresh
  | write index value next ih => exact ih false
  | sealObject next ih => exact ih true

/-- What holds while a service is being built that an ordinary object would come out of with
`outcome`. -/
structure Underway (scope handle : ℕ) (outcome : Except String (Row (Value α)))
    (b : Building α n) : Prop where
  good : Good b.world
  kept : Kept handle b.world.state
  shaped : Shaped n handle b.world.state
  outcome : b.code.run (look n scope (b.world.past handle)) = outcome
  ends : ∃ fresh, b.code.EndsSealed fresh ∧ (fresh = true → ∀ p,
    (b.world.past handle).zero p = (b.world.past handle).upcoming scope p)

lemma keeps_of_leavesAlone {s : State α} {a : Action α} {scope handle : ℕ}
    (ha : leavesAlone scope handle s a = true) : Keeps handle s a := by
  cases a with
  | drop value => exact of_decide_eq_true ha
  | rowsClear order => exact (of_decide_eq_true ha).2
  | allocate other defaults => trivial
  | assign other index value => trivial
  | sealObject other => trivial
  | switch entering => trivial
  | take value => trivial
  | fill address values => trivial

/-- What others do leaves the builder its view of the object, and row zero. -/
lemma upcoming_of_leavesAlone {t t' : Traced α} {a : Action α} {scope handle : ℕ}
    (hlive : t.state.live.has handle = true) (hlive' : t'.state.live.has handle = true)
    (ha : leavesAlone scope handle t.state a = true) (h : tracedStep t a = some t') (p : ℕ) :
    (t'.past handle).upcoming scope p = (t.past handle).upcoming scope p ∧
      (t'.past handle).zero p = (t.past handle).zero p := by
  rw [past_of_step h hlive']
  cases a with
  | allocate other defaults =>
      rw [Action.onPast, if_neg (ne_of_allocate hlive h)]
      exact ⟨rfl, rfl⟩
  | assign other index value =>
      simp only [Action.onPast]
      split_ifs with he
      · obtain ⟨hscope, hmain⟩ : t.state.current ≠ scope ∧ t.state.current ≠ rowZero := by
          simpa [leavesAlone, he] using ha
        exact ⟨Past.upcoming_assign_of_ne _ _ _ hmain (Ne.symm hscope) p,
          congrFun (Past.assign_zero _ _ _ hmain) p⟩
      · exact ⟨rfl, rfl⟩
  | sealObject other =>
      have hne : other ≠ handle := by simpa [leavesAlone] using ha
      rw [Action.onPast, if_neg hne.symm]
      exact ⟨rfl, rfl⟩
  | switch entering =>
      simp only [Action.onPast]
      split_ifs
      · exact ⟨rfl, rfl⟩
      · exact ⟨Past.upcoming_enter _ _ _ _, by rw [Past.enter_zero]⟩
  | rowsClear order =>
      have hne : t.state.current ≠ scope := (of_decide_eq_true ha).1
      simp only [Action.onPast]
      split_ifs
      · exact ⟨rfl, rfl⟩
      · exact ⟨Past.upcoming_clear_of_ne _ (Ne.symm hne) p, rfl⟩
  | take value => exact ⟨rfl, rfl⟩
  | drop value => exact ⟨rfl, rfl⟩
  | fill address values => exact ⟨rfl, rfl⟩

/-- A step of the code is the next of what it does on the object its builder sees, and what others
do is none. -/
theorem Underway.step {scope handle : ℕ} {outcome : Except String (Row (Value α))}
    {b b' : Building α n} {move : Move α} (hb : Underway scope handle outcome b)
    (h : stepBuild scope handle b move = some b') : Underway scope handle outcome b' := by
  obtain ⟨t, code⟩ := b
  obtain ⟨hgood, hkept, hshaped, houtcome, fresh, hends, hfresh⟩ := hb
  cases move with
  | other a =>
      simp only [stepBuild] at h
      split_ifs at h with ha
      obtain ⟨t', hstep, rfl⟩ := Option.map_eq_some_iff.mp h
      have hkept' := hkept.step (keeps_of_leavesAlone ha) (tracedStep_eq hstep).1
      have hview := upcoming_of_leavesAlone hkept.live hkept'.live ha hstep
      refine ⟨hgood.step hstep, hkept', hshaped.step hgood hstep hkept'.live, ?_, fresh, hends,
        fun hf p => ?_⟩
      · rw [look_congr fun p => (hview p).1]
        exact houtcome
      · rw [(hview p).1, (hview p).2]
        exact hfresh hf p
  | go =>
      simp only [stepBuild] at h
      split_ifs at h with hcurrent
      cases code with
      | done => cases h
      | throw message => cases h
      | read index next =>
          obtain ⟨slots, hslots, rfl⟩ := Option.map_eq_some_iff.mp h
          have hread : slots.getD index none
              = (look n scope (t.past handle)).getD index none := by
            rw [getD_look index.isLt, hgood.slots_upcoming hslots, hcurrent]
          exact ⟨hgood, hkept, hshaped, by rw [hread]; exact houtcome, fresh, hends _, hfresh⟩
      | write index value next =>
          obtain ⟨t', hstep, rfl⟩ := Option.map_eq_some_iff.mp h
          have hkept' := hkept.step (a := .assign handle index value) trivial
            (tracedStep_eq hstep).1
          have hx : t'.past handle = (t.past handle).assign scope index value := by
            rw [past_of_step hstep hkept'.live, ← hcurrent]
            exact if_pos rfl
          refine ⟨hgood.step hstep, hkept', hshaped.step hgood hstep hkept'.live, ?_, false, hends,
            by simp⟩
          rw [hx, look_assign]
          exact houtcome
      | sealObject next =>
          obtain ⟨t', hstep, rfl⟩ := Option.map_eq_some_iff.mp h
          have hkept' := hkept.step (a := .sealObject handle) trivial (tracedStep_eq hstep).1
          have hx : t'.past handle = (t.past handle).promote scope := by
            rw [past_of_step hstep hkept'.live, ← hcurrent]
            exact if_pos rfl
          have hgood' := hgood.step hstep
          have hcurrent' : t'.state.current = scope := (current_of_step hstep).trans hcurrent
          -- the seal leaves the slots as they are, so the builder sees the same
          have hshaped' := hshaped.step hgood hstep hkept'.live
          obtain ⟨slots, hslots, -⟩ := hshaped
          have hslots' : t'.state.live.get? handle = some slots := by
            have hheld := congrArg Held.slots (held_of_step hstep hkept'.live)
            simpa [Action.onHeld, Held.promote, State.held, hslots] using hheld
          have hupcoming : ∀ p, (t'.past handle).upcoming scope p
              = (t.past handle).upcoming scope p := by
            intro p
            rw [← hcurrent', ← hgood'.slots_upcoming hslots', hgood.slots_upcoming hslots, hcurrent,
              hcurrent']
          refine ⟨hgood', hkept', hshaped', ?_, true, hends, fun _ p => ?_⟩
          · rw [look_congr hupcoming]
            exact houtcome
          · rw [hupcoming p, hx, ← hcurrent, ← hgood.slots_upcoming hslots,
              (hgood.of_held hslots).running]
            rfl

/-- An object is allocated, and the code has all to do yet. -/
lemma underway_allocated {t t₀ : Traced α} {handle : ℕ} {defaults : Row (Value α)}
    {code : Code (Value α) n} (hgood : Good t) (hsound : Sound t.state)
    (hn : defaults.length = n) (hcode : code.EndsSealed false)
    (h : tracedStep t (.allocate handle defaults) = some t₀) :
    Underway t.state.current handle (code.run defaults) ⟨t₀, code⟩ := by
  have hgood₀ := hgood.step h
  have hstep := (tracedStep_eq h).1
  have hkept₀ : Kept handle t₀.state := by
    refine ⟨hsound.step (a := .allocate handle defaults) trivial hstep, ?_⟩
    rw [locals_of_step hstep]
    exact List.mem_cons_self
  have hcurrent : t₀.state.current = t.state.current := current_of_step h
  have hslots : t₀.state.live.get? handle = some defaults := by
    rw [(step_eq hstep).2]
    simp [perform, allocate]
  have hlook : look n t.state.current (t₀.past handle) = defaults := by
    refine List.ext_getElem (by simp [look, hn]) fun p hp hp' => ?_
    have hread := hgood₀.slots_upcoming hslots p
    rw [hcurrent] at hread
    simpa [look, hp'] using hread.symm
  exact ⟨hgood₀, hkept₀, ⟨defaults, hslots, hn⟩, congrArg code.run hlook, false, hcode, by simp⟩

/-! ## The scopes that did not run meanwhile -/

/-- A parked scope that has nothing of the object. -/
def Stranger (handle scope : ℕ) (t : Traced α) : Prop :=
  t.state.current ≠ scope ∧ (t.past handle).inherited scope = none ∧
    ∀ p, (t.past handle).wrote scope p = none

omit [DecidableEq α] in
lemma Stranger.upcoming {handle scope : ℕ} {t : Traced α} (h : Stranger handle scope t)
    (hfiber : scope ≠ rowZero) (p : ℕ) :
    (t.past handle).upcoming scope p = (t.past handle).zero p := by
  rw [Past.upcoming_fiber _ hfiber, h.2.1, h.2.2 p]
  rfl

/-- A scope stays a stranger until it is switched to. -/
lemma Stranger.step {handle scope : ℕ} {t t' : Traced α} {a : Action α}
    (hs : Stranger handle scope t) (hlive : t.state.live.has handle = true)
    (hlive' : t'.state.live.has handle = true) (ha : a ≠ .switch scope)
    (h : tracedStep t a = some t') : Stranger handle scope t' := by
  obtain ⟨hcurrent, hinherited, hwrote⟩ := hs
  obtain ⟨hcurrent', hinherited'⟩ := inherited_frame hlive hlive' hcurrent ha h
  refine ⟨hcurrent', hinherited'.trans hinherited, fun p => ?_⟩
  rw [past_of_step h hlive']
  cases a with
  | allocate other defaults =>
      rw [Action.onPast, if_neg (ne_of_allocate hlive h)]
      exact hwrote p
  | assign other index value =>
      simp only [Action.onPast, Past.assign]
      split_ifs
      · exact hwrote p
      · simp [Ne.symm hcurrent, hwrote]
      · exact hwrote p
  | sealObject other =>
      simp only [Action.onPast, Past.promote]
      split_ifs <;> exact hwrote p
  | switch entering =>
      simp only [Action.onPast]
      split_ifs
      · exact hwrote p
      · rw [Past.enter_wrote]
        exact hwrote p
  | rowsClear order =>
      simp only [Action.onPast]
      split_ifs
      · exact hwrote p
      · simp [Past.clear, Ne.symm hcurrent, hwrote]
  | take value => exact hwrote p
  | drop value => exact hwrote p
  | fill address values => exact hwrote p

lemma stranger_allocated {t t₀ : Traced α} {handle scope : ℕ} {defaults : Row (Value α)}
    (hne : t.state.current ≠ scope) (hlive : t₀.state.live.has handle = true)
    (h : tracedStep t (.allocate handle defaults) = some t₀) : Stranger handle scope t₀ := by
  have hx : t₀.past handle = .allocated t.state.current defaults := by
    rw [past_of_step h hlive]
    exact if_pos rfl
  refine ⟨(current_of_step h).trans_ne hne, ?_, fun p => ?_⟩
  · rw [hx, Past.allocated]
    split_ifs <;> rfl
  · rw [hx, Past.allocated]
    split_ifs
    · rfl
    · simp [Ne.symm hne]

/-- The scopes that were switched to. -/
def entered (moves : List (Move α)) : List ℕ :=
  moves.filterMap fun
    | .other (.switch scope) => some scope
    | _ => none

lemma Stranger.stepBuild {scope handle c : ℕ} {outcome : Except String (Row (Value α))}
    {b b' : Building α n} {move : Move α} (hs : Stranger handle c b.world)
    (hb : Underway scope handle outcome b) (hmove : move ≠ .other (.switch c))
    (h : stepBuild scope handle b move = some b') : Stranger handle c b'.world := by
  have hlive := hb.kept.live
  have hlive' := (hb.step h).kept.live
  obtain ⟨t, code⟩ := b
  cases move with
  | other a =>
      simp only [Symfony.stepBuild] at h
      split_ifs at h with ha
      obtain ⟨t', hstep, rfl⟩ := Option.map_eq_some_iff.mp h
      exact hs.step hlive hlive' (fun e => hmove (e ▸ rfl)) hstep
  | go =>
      simp only [Symfony.stepBuild] at h
      split_ifs at h
      cases code with
      | done => cases h
      | throw message => cases h
      | read index next =>
          obtain ⟨slots, hslots, rfl⟩ := Option.map_eq_some_iff.mp h
          exact hs
      | write index value next =>
          obtain ⟨t', hstep, rfl⟩ := Option.map_eq_some_iff.mp h
          exact hs.step hlive hlive' (by simp) hstep
      | sealObject next =>
          obtain ⟨t', hstep, rfl⟩ := Option.map_eq_some_iff.mp h
          exact hs.step hlive hlive' (by simp) hstep

/-- A whole build, for its builder and for a scope that did not run meanwhile. -/
lemma underway_run {scope handle : ℕ} {outcome : Except String (Row (Value α))}
    {b b' : Building α n}
    {moves : List (Move α)} (hb : Underway scope handle outcome b)
    (h : runFrom (stepBuild scope handle) b moves = some b') :
    Underway scope handle outcome b' ∧ ∀ c, Stranger handle c b.world → c ∉ entered moves →
      Stranger handle c b'.world := by
  induction moves generalizing b with
  | nil =>
      obtain rfl := Option.some.inj h
      exact ⟨hb, fun c hc _ => hc⟩
  | cons move moves ih =>
      obtain ⟨u, hu, hrest⟩ := (runFrom_cons _).mp h
      obtain ⟨hb', hstrangers⟩ := ih (hb.step hu) hrest
      refine ⟨hb', fun c hc hentered => hstrangers c (hc.stepBuild hb ?_ hu) ?_⟩
      · rintro rfl
        exact hentered (by simp [entered])
      · exact fun hmem => hentered (by
          simp only [entered, List.mem_filterMap] at hmem ⊢
          obtain ⟨move', hmove', heq⟩ := hmem
          exact ⟨move', List.mem_cons_of_mem _ hmove', heq⟩)

/-- **A service that is built, from then on.** -/
lemma Underway.follows {scope handle : ℕ} {outcome : Except String (Row (Value α))} {t : Traced α}
    {stale : List ℕ} (hb : Underway scope handle outcome (⟨t, .done⟩ : Building α n))
    (hstrangers : ∀ c, c ≠ scope → c ≠ rowZero → c ∉ stale → Stranger handle c t) :
    ∃ row, outcome = .ok row ∧
      Follows handle { built := row, current := t.state.current, stale := stale } t := by
  obtain ⟨hgood, hkept, hshaped, houtcome, fresh, hends, hfresh⟩ := hb
  obtain ⟨slots, hslots, rfl⟩ := hshaped
  have hrow : ∀ p, (look slots.length scope (t.past handle)).getD p none
      = (t.past handle).upcoming scope p := by
    intro p
    by_cases hp : p < slots.length
    · exact getD_look hp
    · have hle := Nat.le_of_not_lt hp
      rw [hgood.upcoming_eq_none hslots hle]
      exact List.getD_eq_default _ _ ((length_look _ _ _).trans_le hle)
  have hzero : ∀ p, (t.past handle).zero p = (t.past handle).upcoming scope p := hfresh hends
  refine ⟨_, houtcome.symm, hgood, hkept, ⟨slots, hslots, (length_look _ _ _).symm⟩, rfl,
    fun p => (hzero p).trans (hrow p).symm, fun c => rfl, fun c hc p => ?_⟩
  refine Eq.trans ?_ (hrow p).symm
  by_cases hscope : c = scope
  · rw [hscope]
  by_cases hmain : c = rowZero
  · rw [hmain, Past.upcoming_main, hzero p]
  · rw [(hstrangers c hscope hmain hc).upcoming hmain, hzero p]

end Build

/-! ## The services of a container -/

/-- The code of a service that is built by `new`. -/
def serviceCode (cls : Class ν β) (d : Definition β) : Code ν cls.slots :=
  (cls.new d.arguments).andThen (cls.configure d)

/-- The code of a scoped service: the same, sealed after the constructor and at the end. -/
def scopedCode (cls : Class ν β) (name : String) (d : Definition β) : Code ν cls.slots :=
  (cls.create name d.arguments).andThen ((cls.configure d).andThen (.sealObject .done))

lemma endsSealed_scopedCode (cls : Class ν β) (name : String) (d : Definition β) :
    (scopedCode cls name d).EndsSealed false :=
  Code.endsSealed_andThen _ (Code.endsSealed_andThen _ (by trivial) false) false

lemma run_sealed (code : Code ν n) (row : Row ν) :
    (code.andThen (.sealObject .done)).run row = code.run row := by
  rw [Code.run_andThen]
  cases code.run row <;> rfl

lemma run_create {cls : Class ν β} {arguments : List (Argument β)} (name : String)
    (hnew : cls.construct = none → arguments = []) (row : Row ν) :
    (cls.create name arguments).run row = (cls.new arguments).run row := by
  unfold Class.create Class.new
  rw [run_sealed]
  cases hconstruct : cls.construct with
  | some construct => rfl
  | none =>
      rw [hnew hconstruct]
      rfl

/-- On an ordinary object the two codes do the same. -/
lemma run_scopedCode {cls : Class ν β} {d : Definition β} (name : String)
    (hnew : cls.construct = none → d.arguments = []) (row : Row ν) :
    (scopedCode cls name d).run row = (serviceCode cls d).run row := by
  rw [scopedCode, serviceCode, Code.run_andThen, Code.run_andThen, run_create name hnew]
  cases (cls.new d.arguments).run row with
  | error message => rfl
  | ok row => exact run_sealed _ row

section Container

variable {classes : String → Option (Class (Value α) β)} {c c' : ContainerBuilder β}
  {ids : List String}
  {id name : String} {d : Definition β} {cls : Class (Value α) β}

/-- What becomes of the definition of a scoped service. -/
lemma get?_of_process (hprocess : process c = .ok c') (hids : scopedServiceIds c = .ok ids)
    (hid : id ∈ ids) (hne : id ≠ servicesResetter) (hd : c.definitions.get? id = some d) :
    d.configurator = none ∧ c'.definitions.get? id = some d.scoped := by
  rw [process_eq, hids] at hprocess
  simp only at hprocess
  split at hprocess
  · cases hprocess
  · next hfind =>
      obtain rfl := Except.ok.inj hprocess
      refine ⟨?_, by rw [get?_rewritten, hd, Option.map_some, rewriteDefinition, if_neg hne,
        if_pos hid]⟩
      simpa [refused, hd] using List.find?_eq_none.mp hfind id hid

/-- The recipes of a service before and after the pass. -/
lemma recipes_of_process (hprocess : process c = .ok c') (hids : scopedServiceIds c = .ok ids)
    (hid : id ∈ ids) (hne : id ≠ servicesResetter) (hd : c.definitions.get? id = some d)
    (hname : d.className = some name) (hcls : classes name = some cls)
    (hfactory : d.factory = none) :
    (c.definitions.get? id).bind (recipe classes) = some ⟨cls, false, serviceCode cls d⟩ ∧
      (c'.definitions.get? id).bind (recipe classes)
        = some ⟨cls, true, scopedCode cls name d⟩ := by
  obtain ⟨hconfigurator, hd'⟩ := get?_of_process hprocess hids hid hne hd
  constructor
  · simp [hd, recipe, hfactory, hconfigurator, hname, hcls, serviceCode]
  · simp [hd', recipe, Definition.scoped, classArgument, hname, hcls, scopedCode, Class.configure]

/-- Nothing is left to do. -/
def Code.Finished (code : Code ν n) : Prop := code = .done ∨ ∃ message, code = .throw message

variable [DecidableEq α]

omit [DecidableEq α] in
/-- Only a scoped object can be gone. -/
lemma object_of_not_has {s : State α} {value : Option (Value α)}
    (h : ¬ value.all s.has = true) :
    ∃ gone, value = some (.object gone) ∧ s.live.has gone = false := by
  cases value with
  | none => exact absurd rfl h
  | some value =>
      cases value with
      | scalar a => exact absurd rfl h
      | counted address => exact absurd rfl h
      | object gone => exact ⟨gone, rfl, Bool.eq_false_iff.mpr h⟩

/-- While its scope runs, a build gets to its end, or to a value that is not there. -/
lemma Underway.finishes {scope handle : ℕ} {outcome : Except String (Row (Value α))}
    {t : Traced α} {code : Code (Value α) n} (hb : Underway scope handle outcome ⟨t, code⟩)
    (hcurrent : t.state.current = scope) :
    ∃ k b, runFrom (stepBuild scope handle) ⟨t, code⟩ (List.replicate k .go) = some b ∧
      (b.code.Finished ∨ b.Stuck) := by
  induction code generalizing t with
  | done => exact ⟨0, _, rfl, .inl (.inl rfl)⟩
  | throw message => exact ⟨0, _, rfl, .inl (.inr ⟨message, rfl⟩)⟩
  | read index next ih =>
      obtain ⟨slots, hslots, -⟩ := hb.shaped
      have hstep : stepBuild scope handle ⟨t, .read index next⟩ .go
          = some ⟨t, next (slots.getD index none)⟩ := by
        simp only [stepBuild, hcurrent, if_true]
        rw [hslots]
        rfl
      obtain ⟨k, b, hrun, hfinished⟩ := ih _ (hb.step hstep) hcurrent
      exact ⟨k + 1, b, (runFrom_cons _).mpr ⟨_, hstep, hrun⟩, hfinished⟩
  | write index value next ih =>
      obtain ⟨slots, hslots, hlength⟩ := hb.shaped
      by_cases hthere : value.all t.state.has = true
      · have hpossible : possible t.state (.assign handle index value) = true := by
          simp only [possible, Bool.and_eq_true]
          refine ⟨?_, hthere⟩
          rw [hslots]
          simp [hlength]
        obtain ⟨t', ht'⟩ : ∃ t', tracedStep t (.assign handle index value) = some t' := by
          simp [tracedStep, Scoped.step, hpossible]
        have hstep : stepBuild scope handle ⟨t, .write index value next⟩ .go
            = some ⟨t', next⟩ := by
          simp [stepBuild, hcurrent, ht']
        obtain ⟨k, b, hrun, hfinished⟩ :=
          ih (hb.step hstep) ((current_of_step ht').trans hcurrent)
        exact ⟨k + 1, b, (runFrom_cons _).mpr ⟨_, hstep, hrun⟩, hfinished⟩
      · refine ⟨0, _, rfl, .inr ?_⟩
        obtain ⟨gone, rfl, hgone⟩ := object_of_not_has hthere
        exact ⟨index, gone, next, rfl, hgone⟩
  | sealObject next ih =>
      obtain ⟨slots, hslots, -⟩ := hb.shaped
      have hpossible : possible t.state (.sealObject handle) = true :=
        OrdMap.has_iff.mpr ⟨slots, hslots⟩
      obtain ⟨t', ht'⟩ : ∃ t', tracedStep t (.sealObject handle) = some t' := by
        simp [tracedStep, Scoped.step, hpossible]
      have hstep : stepBuild scope handle ⟨t, .sealObject next⟩ .go = some ⟨t', next⟩ := by
        simp [stepBuild, hcurrent, ht']
      obtain ⟨k, b, hrun, hfinished⟩ :=
        ih (hb.step hstep) ((current_of_step ht').trans hcurrent)
      exact ⟨k + 1, b, (runFrom_cons _).mpr ⟨_, hstep, hrun⟩, hfinished⟩

end Container

/-- A service with a list that its constructor leaves to a method call. -/
def stackClass : Class (Value ℕ) ℕ where
  slots := 2
  defaults := [some (.scalar 0), none]
  length_defaults := rfl
  construct := some fun arguments => .write 1 (some (.scalar arguments.length)) .done
  call := fun _ _ => .read 1 fun value => .write 0 value .done
  assign := fun _ _ => .done

def stackDefinition : Definition ℕ :=
  { className := some "App\\Stack", arguments := [.null], methodCalls := [("push", [])] }

def stackContainer : ContainerBuilder ℕ where
  parameters := .ofList [("ignis.scoped_vendor_ids", .array [.string "stack", .string "other"])]
  definitions := .ofList [("stack", stackDefinition)]

def stackClasses (name : String) : Option (Class (Value ℕ) ℕ) :=
  if name = "App\\Stack" then some stackClass else none

lemma stack_ids : scopedServiceIds stackContainer = .ok ["stack", "other"] := by decide

lemma stack_definition : stackContainer.definitions.get? "stack" = some stackDefinition := by rfl

lemma stack_class : stackClasses "App\\Stack" = some stackClass := if_pos rfl

/-- Fiber 5 builds the service; fiber 6 runs in between. -/
def stackMoves : List (Move ℕ) :=
  [.go, .other (.switch 6), .other (.switch 5), .go, .go, .go, .go]

/-- Fiber 7 changes its copy and parks, and fiber 8 comes to the service and clears. -/
def stackUses : List (Action ℕ) :=
  [.switch 7, .assign 1 0 (some (.scalar 9)), .switch 8, .rowsClear [1], .switch 7]

end Ignis.Symfony
