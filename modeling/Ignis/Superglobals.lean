import Mathlib.Logic.Function.Basic
import Mathlib.Data.Nat.Notation
import Mathlib.Tactic.SplitIfs

/-!
# Fiber-scoped superglobals

`superglobals.rs`: the four entries of the symbol table are swapped when PHP switches from one fiber
context to another.  The swap is lazy.  A context gets a slot the first time
`ignis_set_superglobals` runs on it and keeps it until it dies; a context without a slot runs with
whatever view happens to be installed.  `VIEW` says whose view that is, and `BASE` keeps the world
of `{main}` while somebody else's is in.

What an entry holds does not matter here, so the values are of any type; an absent entry
(`IS_UNDEF`) is `none`.

The second half says when the views stay apart.  `Apart` is about two classes of values, those the
world of `{main}` may hold and those the view of a context may; each operation keeps them apart as
long as the world of `{main}` is complete when it is put away, because an absent entry does not
displace what another view has put in its place.
-/

namespace Ignis

/-- `KEYS`. -/
inductive Superglobal where
  | server
  | get
  | post
  | cookie
  deriving DecidableEq, Repr

/-- The elements of `KEYS`. -/
def Superglobal.keys : List Superglobal := [.server, .get, .post, .cookie]

lemma Superglobal.mem_keys (k : Superglobal) : k ∈ Superglobal.keys := by
  cases k <;> simp [keys]

/-- Four zvals, each of which may be `IS_UNDEF`. -/
abbrev View (α : Type) := Superglobal → Option α

/-- The state of `superglobals.rs` on one thread.  A context is the number of its fiber; `{main}`
has none. -/
structure Superglobals (α : Type) where
  /-- The four entries of `EG(symbol_table)`. -/
  symbols : View α
  /-- `BASE`. -/
  base : Option (View α)
  /-- `VIEW`; none is the base world. -/
  view : Option ℕ
  /-- The reserved slot of each context. -/
  slots : ℕ → Option (View α)

namespace Superglobals

variable {α : Type}

/-- A thread on which nothing has switched yet. -/
def init (symbols : View α) : Superglobals α := ⟨symbols, none, none, fun _ => none⟩

/-- `save_current_view`. -/
def saveCurrentView (g : Superglobals α) : Superglobals α :=
  match g.view with
  | none => { g with base := some g.symbols }
  | some owner => { g with slots := Function.update g.slots owner (some g.symbols) }

/-- `install`: an `IS_UNDEF` entry leaves the current value in place. -/
def install (g : Superglobals α) (vals : View α) : Superglobals α :=
  { g with symbols := fun k => (vals k).or (g.symbols k) }

/-- `isolate_current`, for the running context. -/
def isolateCurrent (g : Superglobals α) (current : Option ℕ) : Superglobals α :=
  match current with
  | none => g
  | some f =>
      match g.slots f with
      | some _ => g
      | none =>
          let g := g.saveCurrentView
          { g with slots := Function.update g.slots f (some fun _ => none), view := some f }

/-- `zif_ignis_set_superglobals`. -/
def setSuperglobals (g : Superglobals α) (current : Option ℕ) (vals : View α) : Superglobals α :=
  (g.isolateCurrent current).install vals

/-- `on_switch`, by the context switched to. -/
def onSwitch (g : Superglobals α) (target : Option ℕ) : Superglobals α :=
  match target with
  | some f =>
      match g.slots f with
      | none => g
      | some slot =>
          if g.view = some f then g
          else { g.saveCurrentView.install slot with view := some f }
  | none =>
      match g.view with
      | none => g
      | some _ =>
          let g := g.saveCurrentView
          match g.base with
          | none => { g with view := none }
          | some base => { g.install base with view := none }

/-- `on_destroy`. -/
def onDestroy (g : Superglobals α) (f : ℕ) : Superglobals α :=
  { g with
    slots := Function.update g.slots f none
    view := if g.view = some f then none else g.view }

/-- `$_GET = ...` in the code that runs now. -/
def assign (g : Superglobals α) (k : Superglobal) (v : Option α) : Superglobals α :=
  { g with symbols := Function.update g.symbols k v }

/-! ## Views apart -/

/-- All four entries are there. -/
def Complete (g : Superglobals α) : Prop := ∀ k ∈ Superglobal.keys, (g.symbols k).isSome = true

instance (g : Superglobals α) : Decidable g.Complete := inferInstanceAs (Decidable (∀ k ∈ _, _))

/-- While `current` runs, the world of `{main}` holds values of `Base` only and the view of each
context `f` values of `Own f` only, wherever each of them is at the moment. -/
structure Apart (Base : α → Prop) (Own : ℕ → α → Prop) (current : Option ℕ) (g : Superglobals α) :
    Prop where
  view_main : current = none → g.view = none
  view_isolated : ∀ f v, current = some f → g.slots f = some v → g.view = some f
  view_plain : ∀ f, current = some f → g.slots f = none → g.view = none
  world : g.view = none → ∀ k a, g.symbols k = some a → Base a
  saved : ∀ f, g.view = some f → ∃ b, g.base = some b ∧ ∀ k, ∃ a, b k = some a ∧ Base a
  own : ∀ f, g.view = some f → ∀ k a, g.symbols k = some a → Own f a
  slots : ∀ f v, g.view ≠ some f → g.slots f = some v → ∀ k a, v k = some a → Own f a

section Apart

variable {Base : α → Prop} {Own Own' : ℕ → α → Prop} {g : Superglobals α} {f : ℕ}

lemma apart_init {symbols : View α} (h : ∀ k a, symbols k = some a → Base a) :
    Apart Base Own none (init symbols) where
  view_main _ := rfl
  view_isolated := by simp
  view_plain := by simp
  world _ := h
  saved := by simp [init]
  own := by simp [init]
  slots := by simp [init]

/-- Fewer values may be anywhere when more jobs have a say. -/
lemma Apart.mono {current : Option ℕ} (h : Apart Base Own current g)
    (hown : ∀ f a, Own f a → Own' f a) : Apart Base Own' current g :=
  ⟨h.view_main, h.view_isolated, h.view_plain, h.world, h.saved,
    fun f hv k a ha => hown f a (h.own f hv k a ha),
    fun f v hv hs k a ha => hown f a (h.slots f v hv hs k a ha)⟩

lemma Apart.assign {current : Option ℕ} (h : Apart Base Own current g) {k : Superglobal}
    {v : Option α} (hbase : ∀ a, v = some a → Base a) (hown : ∀ f a, v = some a → Own f a) :
    Apart Base Own current (g.assign k v) := by
  have hsym : ∀ {P : α → Prop}, (∀ a, v = some a → P a) → (∀ k a, g.symbols k = some a → P a) →
      ∀ k' a, (g.assign k v).symbols k' = some a → P a := by
    intro P hv hold k' a ha
    simp only [Superglobals.assign, Function.update_apply] at ha
    split_ifs at ha
    · exact hv a ha
    · exact hold k' a ha
  exact ⟨h.view_main, h.view_isolated, h.view_plain, fun hw => hsym hbase (h.world hw), h.saved,
    fun f hv => hsym (hown f) (h.own f hv), h.slots⟩

/-- A fiber gives the thread back to `{main}`. -/
lemma Apart.toMain (h : Apart Base Own (some f) g) : Apart Base Own none (g.onSwitch none) := by
  cases hs : g.slots f with
  | none =>
      have hview := h.view_plain f rfl hs
      have hsame : g.onSwitch none = g := by simp [onSwitch, hview]
      rw [hsame]
      exact ⟨fun _ => hview, by simp, by simp, h.world, h.saved, h.own, h.slots⟩
  | some v =>
      have hview := h.view_isolated f v rfl hs
      obtain ⟨b, hb, hcomplete⟩ := h.saved f hview
      have hto : g.onSwitch none
          = ⟨b, some b, none, Function.update g.slots f (some g.symbols)⟩ := by
        simp only [onSwitch, hview, saveCurrentView, hb, install, Superglobals.mk.injEq, and_true]
        funext k
        obtain ⟨a, ha, -⟩ := hcomplete k
        simp [ha]
      rw [hto]
      refine ⟨fun _ => rfl, by simp, by simp, fun _ k a ha => ?_, by simp, by simp, ?_⟩
      · obtain ⟨a', ha', hbase⟩ := hcomplete k
        have ha : b k = some a := ha
        rw [ha] at ha'
        exact Option.some.inj ha' ▸ hbase
      · intro f' v' _ hv' k a ha
        simp only [Function.update_apply] at hv'
        split_ifs at hv' with hf
        · obtain rfl := Option.some.inj hv'
          exact hf ▸ h.own f hview k a ha
        · exact h.slots f' v' (by simp [hview, Ne.symm hf]) hv' k a ha

/-- `{main}` hands the thread to a fiber.  What the fiber's slot holds is to be its own from now on,
and the world of `{main}` to be complete when it is put away. -/
lemma Apart.toFiber (h : Apart Base Own none g) (hfull : g.slots f ≠ none → g.Complete)
    (hslot : ∀ v, g.slots f = some v → ∀ k a, v k = some a → Own' f a)
    (hbase : ∀ a, Base a → Own' f a) (hown : ∀ f', f' ≠ f → ∀ a, Own f' a → Own' f' a) :
    Apart Base Own' (some f) (g.onSwitch (some f)) := by
  have hview := h.view_main rfl
  cases hs : g.slots f with
  | none =>
      have hsame : g.onSwitch (some f) = g := by simp [onSwitch, hs]
      rw [hsame]
      refine ⟨by simp, ?_, fun _ _ _ => hview, h.world, h.saved, by simp [hview], ?_⟩
      · intro f' v hf' hv
        rw [← Option.some.inj hf', hs] at hv
        exact absurd hv (by simp)
      · intro f' v hne hv k a ha
        have hf' : f' ≠ f := by
          rintro rfl
          simp [hs] at hv
        exact hown f' hf' a (h.slots f' v hne hv k a ha)
  | some v =>
      have hto : g.onSwitch (some f)
          = ⟨fun k => (v k).or (g.symbols k), some g.symbols, some f, g.slots⟩ := by
        simp [onSwitch, hs, hview, saveCurrentView, install]
      have hcomplete := hfull (by simp [hs])
      rw [hto]
      refine ⟨by simp, fun f' _ hf' _ => by rw [hf'], ?_, by simp, ?_, ?_, ?_⟩
      · intro f' hf' hnone
        rw [← Option.some.inj hf'] at hnone
        simp [hs] at hnone
      · intro f' hf'
        refine ⟨g.symbols, rfl, fun k => ?_⟩
        obtain ⟨a, ha⟩ := Option.isSome_iff_exists.mp (hcomplete k (Superglobal.mem_keys k))
        exact ⟨a, ha, h.world hview k a ha⟩
      · intro f' hf' k a ha
        obtain rfl := Option.some.inj hf'
        rcases Option.or_eq_some_iff.mp ha with ha | ⟨-, ha⟩
        · exact hslot v hs k a ha
        · exact hbase a (h.world hview k a ha)
      · intro f' v' hne hv' k a ha
        have hf' : f' ≠ f := fun e => hne (by rw [e])
        exact hown f' hf' a (h.slots f' v' (by simp [hview]) hv' k a ha)

/-- `ignis_set_superglobals()` with four values on the fiber that runs. -/
lemma Apart.setSuperglobals (h : Apart Base Own (some f) g) {vals : View α}
    (hfull : g.slots f = none → g.Complete) (hvals : ∀ k, ∃ a, vals k = some a ∧ Own' f a)
    (hown : ∀ f', f' ≠ f → ∀ a, Own f' a → Own' f' a) :
    Apart Base Own' (some f) (g.setSuperglobals (some f) vals) := by
  have hsym : ∀ (w : View α) k a, (vals k).or (w k) = some a → Own' f a := by
    intro w k a ha
    obtain ⟨a', ha', ho⟩ := hvals k
    rw [ha', Option.some_or] at ha
    exact Option.some.inj ha ▸ ho
  cases hs : g.slots f with
  | none =>
      have hview := h.view_plain f rfl hs
      have hto : g.setSuperglobals (some f) vals
          = ⟨fun k => (vals k).or (g.symbols k), some g.symbols, some f,
            Function.update g.slots f (some fun _ => none)⟩ := by
        simp [Superglobals.setSuperglobals, isolateCurrent, hs, hview, saveCurrentView, install]
      rw [hto]
      refine ⟨by simp, fun f' _ hf' _ => by rw [hf'], ?_, by simp, ?_, ?_, ?_⟩
      · intro f' hf' hnone
        rw [← Option.some.inj hf'] at hnone
        simp at hnone
      · intro f' hf'
        refine ⟨g.symbols, rfl, fun k => ?_⟩
        obtain ⟨a, ha⟩ := Option.isSome_iff_exists.mp (hfull hs k (Superglobal.mem_keys k))
        exact ⟨a, ha, h.world hview k a ha⟩
      · intro f' hf' k a ha
        obtain rfl := Option.some.inj hf'
        exact hsym _ k a ha
      · intro f' v' hne hv' k a ha
        have hf' : f' ≠ f := fun e => hne (by rw [e])
        simp only [Function.update_of_ne hf'] at hv'
        exact hown f' hf' a (h.slots f' v' (by simp [hview]) hv' k a ha)
  | some v =>
      have hview := h.view_isolated f v rfl hs
      have hto : g.setSuperglobals (some f) vals
          = { g with symbols := fun k => (vals k).or (g.symbols k) } := by
        simp [Superglobals.setSuperglobals, isolateCurrent, hs, install]
      rw [hto]
      refine ⟨by simp, h.view_isolated, h.view_plain, by simp [hview], h.saved, ?_, ?_⟩
      · intro f' hf' k a ha
        obtain rfl : f = f' := Option.some.inj (hview.symm.trans hf')
        exact hsym _ k a ha
      · intro f' v' hne hv' k a ha
        have hf' : f' ≠ f := fun e => hne (by rw [e, hview])
        exact hown f' hf' a (h.slots f' v' hne hv' k a ha)

end Apart

end Superglobals

end Ignis
