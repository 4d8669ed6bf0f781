import Mathlib.Data.Option.Basic
import Mathlib.Tactic.SplitIfs
import Ignis.Lib.StepSystem
import Ignis.Superglobals

/-!
# Whose superglobals a fiber sees

A thread on which fibers resume one another to any depth, and what the observer of `superglobals.rs`
does to the symbol table meanwhile.  `{main}` and the fibers that have called
`ignis_set_superglobals` have a view of their own; the others write into whatever is installed.

`kept` is a view wherever it is at the moment: in the symbol table if it is installed, else in
`BASE` or in the slot of its context.  A swap moves views about and changes none of them
(`kept_onSwitch`), with one exception: an entry that is absent from the view put in keeps the value
of the view taken out.

The two results are about whole runs.  `views_kept` is about fibers that are alive: everybody who
has a view finds it as it was left.  `world_kept_iff` is about the view of a context that has died:
`on_destroy` forgets whose view is installed, and from then on it passes for the world of `{main}`.
-/

namespace Ignis.Superglobals

open StepSystem

variable {α : Type}

instance [DecidableEq α] : DecidableEq (View α) := fun v w =>
  decidable_of_iff (∀ k ∈ Superglobal.keys, v k = w k)
    ⟨fun h => funext fun k => h k k.mem_keys, fun h k _ => congrFun h k⟩

/-! ## Where a view is -/

/-- `{main}` and the contexts with a slot have a view of their own. -/
def HasView (g : Superglobals α) (h : Option ℕ) : Prop := ∀ f ∈ h, (g.slots f).isSome = true

instance (g : Superglobals α) (h : Option ℕ) : Decidable (g.HasView h) :=
  inferInstanceAs (Decidable (∀ f ∈ h, _))

/-- What is put away of a view. -/
def saved (g : Superglobals α) : Option ℕ → Option (View α)
  | none => g.base
  | some f => g.slots f

/-- A view as it is now, wherever it is. -/
def kept (g : Superglobals α) (h : Option ℕ) : Option (View α) :=
  if g.view = h then some g.symbols else g.saved h

/-- Nothing of the view that is installed shows through that of `target` when it is put in its
place. -/
def NoHoles (g : Superglobals α) (target : Option ℕ) : Prop :=
  g.view ≠ target → ∀ v ∈ g.saved target, ∀ k ∈ Superglobal.keys, v k = none → g.symbols k = none

instance (g : Superglobals α) (target : Option ℕ) : Decidable (g.NoHoles target) :=
  inferInstanceAs (Decidable (_ → ∀ v ∈ g.saved target, ∀ k ∈ Superglobal.keys, _ → _))

section Switch

variable {g : Superglobals α} {h target : Option ℕ} {f : ℕ}

@[simp] lemma hasView_none : g.HasView none := by simp [HasView]

@[simp] lemma hasView_some : g.HasView (some f) ↔ (g.slots f).isSome = true := by simp [HasView]

@[simp] lemma symbols_saveCurrentView : g.saveCurrentView.symbols = g.symbols := by
  unfold saveCurrentView
  split <;> rfl

lemma saved_saveCurrentView (h : Option ℕ) :
    g.saveCurrentView.saved h = if h = g.view then some g.symbols else g.saved h := by
  cases hv : g.view with
  | none => cases h <;> simp [saveCurrentView, hv, saved]
  | some owner => cases h <;> simp [saveCurrentView, hv, saved, Function.update_apply]

/-- The three things a switch can do: nothing, a swap, and, if there is no `BASE` to go back to,
only to put the installed view away. -/
lemma onSwitch_cases (g : Superglobals α) (target : Option ℕ) :
    (g.onSwitch target = g ∧ (g.HasView target → g.view = target)) ∨
    (∃ v, g.view ≠ target ∧ g.HasView target ∧ g.saved target = some v ∧
      g.onSwitch target = { g.saveCurrentView.install v with view := target }) ∨
    (target = none ∧ g.view ≠ none ∧ g.base = none ∧
      g.onSwitch target = { g.saveCurrentView with view := none }) := by
  cases target with
  | some f =>
      cases hs : g.slots f with
      | none => exact .inl ⟨by simp [onSwitch, hs], by simp [hs]⟩
      | some slot =>
          by_cases hv : g.view = some f
          · exact .inl ⟨by simp [onSwitch, hs, hv], fun _ => hv⟩
          · exact .inr (.inl ⟨slot, hv, by simp [hs], hs, by simp [onSwitch, hs, hv]⟩)
  | none =>
      cases hv : g.view with
      | none => exact .inl ⟨by simp [onSwitch, hv], fun _ => rfl⟩
      | some owner =>
          cases hb : g.base with
          | none =>
              exact .inr (.inr ⟨rfl, by simp, rfl, by simp [onSwitch, hv, saveCurrentView, hb]⟩)
          | some b =>
              exact .inr (.inl ⟨b, by simp, by simp, hb,
                by simp [onSwitch, hv, saveCurrentView, hb]⟩)

/-- Putting a view in leaves every other view as it was. -/
lemma kept_swap (g : Superglobals α) (h target : Option ℕ) (w : View α) :
    Superglobals.kept { g.saveCurrentView with symbols := w, view := target } h
      = if h = target then some w else g.kept h := by
  by_cases ht : h = target
  · simp [kept, ht]
  · have hsaved := saved_saveCurrentView (g := g) h
    rw [if_neg ht]
    simp only [kept, Ne.symm ht, if_false]
    refine Eq.trans ?_ (hsaved.trans ?_)
    · cases h <;> rfl
    · simp only [eq_comm]

/-- What a view put in looks like if it has no holes. -/
lemma install_of_noHoles {v : View α} (hview : g.view ≠ target) (hv : g.saved target = some v)
    (hfull : g.NoHoles target) : (fun k => (v k).or (g.symbols k)) = v := by
  funext k
  cases hk : v k with
  | none => rw [Option.none_or, hfull hview v hv k k.mem_keys hk]
  | some a => rfl

/-- A switch changes no view. -/
lemma kept_onSwitch (hfull : g.NoHoles target) (hbase : g.view ≠ none → g.base ≠ none)
    (h : Option ℕ) : (g.onSwitch target).kept h = g.kept h := by
  obtain ⟨hsame, -⟩ | ⟨v, hview, -, hv, hto⟩ | ⟨-, hview, hnone, -⟩ := g.onSwitch_cases target
  · rw [hsame]
  · have hin : g.onSwitch target = { g.saveCurrentView with symbols := v, view := target } := by
      rw [hto]
      simp only [install, symbols_saveCurrentView, install_of_noHoles hview hv hfull]
    rw [hin, kept_swap]
    split_ifs with ht
    · rw [ht, kept, if_neg hview, hv]
    · rfl
  · exact absurd hnone (hbase hview)

lemma view_onSwitch (g : Superglobals α) (target : Option ℕ) :
    (g.onSwitch target).view = if g.HasView target then target else g.view := by
  obtain ⟨hsame, hview⟩ | ⟨v, -, htarget, -, hto⟩ | ⟨rfl, -, -, hto⟩ := g.onSwitch_cases target
  · rw [hsame]
    split_ifs with ht
    · exact hview ht
    · rfl
  · rw [hto, if_pos htarget]
  · rw [hto, if_pos hasView_none]

lemma isSome_slots_saveCurrentView (howner : g.HasView g.view) (f : ℕ) :
    (g.saveCurrentView.slots f).isSome = (g.slots f).isSome := by
  cases hv : g.view with
  | none => simp [saveCurrentView, hv]
  | some owner =>
      rw [hv, hasView_some] at howner
      by_cases hf : f = owner
      · simp [saveCurrentView, hv, hf, howner]
      · simp [saveCurrentView, hv, Function.update_of_ne hf]

/-- Nobody gets a view by a switch, and nobody loses one. -/
lemma hasView_onSwitch (howner : g.HasView g.view) (h : Option ℕ) :
    (g.onSwitch target).HasView h ↔ g.HasView h := by
  have hslots := isSome_slots_saveCurrentView howner
  obtain ⟨hsame, -⟩ | ⟨v, -, -, -, hto⟩ | ⟨-, -, -, hto⟩ := g.onSwitch_cases target
  · rw [hsame]
  · simp only [HasView, hto, install, hslots]
  · simp only [HasView, hto, hslots]

end Switch

section Set

variable {g : Superglobals α} {current : Option ℕ} {vals : View α}

/-- The first call of a fiber puts the installed view away and the fiber's own in its place; a later
one, or one of `{main}`, only writes. -/
lemma setSuperglobals_cases (g : Superglobals α) (current : Option ℕ) (vals : View α)
    (hvals : ∀ k, (vals k).isSome = true) :
    (g.HasView current ∧ g.setSuperglobals current vals = { g with symbols := vals }) ∨
    (∃ f, current = some f ∧ g.slots f = none ∧ g.setSuperglobals current vals
      = { g.saveCurrentView with
          symbols := vals
          slots := Function.update g.saveCurrentView.slots f (some fun _ => none)
          view := some f }) := by
  have hin : ∀ w : View α, (fun k => (vals k).or (w k)) = vals := by
    intro w
    funext k
    obtain ⟨a, ha⟩ := Option.isSome_iff_exists.mp (hvals k)
    simp [ha]
  cases current with
  | none => exact .inl ⟨hasView_none, by simp [setSuperglobals, isolateCurrent, install, hin]⟩
  | some f =>
      cases hs : g.slots f with
      | some v =>
          exact .inl ⟨by simp [hs], by simp [setSuperglobals, isolateCurrent, hs, install, hin]⟩
      | none =>
          exact .inr ⟨f, rfl, hs, by simp [setSuperglobals, isolateCurrent, hs, install, hin]⟩

variable (hcurrent : g.HasView current → g.view = current)
  (hvals : ∀ k, (vals k).isSome = true)

include hcurrent hvals

lemma view_setSuperglobals : (g.setSuperglobals current vals).view = current := by
  obtain ⟨hhas, hto⟩ | ⟨f, rfl, -, hto⟩ := g.setSuperglobals_cases current vals hvals
  · rw [hto, ← hcurrent hhas]
  · rw [hto]

lemma hasView_setSuperglobals (howner : g.HasView g.view) (h : Option ℕ) :
    (g.setSuperglobals current vals).HasView h ↔ h = current ∨ g.HasView h := by
  obtain ⟨hhas, hto⟩ | ⟨f, rfl, -, hto⟩ := g.setSuperglobals_cases current vals hvals
  · rw [hto]
    constructor
    · exact .inr
    · rintro (rfl | hh)
      · exact hhas
      · exact hh
  · rw [hto]
    cases h with
    | none => simp
    | some f' =>
        by_cases hf : f' = f
        · simp [hf]
        · simp [hf, isSome_slots_saveCurrentView howner]

lemma kept_setSuperglobals (h : Option ℕ) :
    (g.setSuperglobals current vals).kept h = if h = current then some vals else g.kept h := by
  obtain ⟨hhas, hto⟩ | ⟨f, rfl, -, hto⟩ := g.setSuperglobals_cases current vals hvals
  · have hview := hcurrent hhas
    rw [hto]
    by_cases hh : h = current
    · simp [kept, hh, hview]
    · simp only [kept, hview, Ne.symm hh, hh, if_false]
      cases h <;> rfl
  · rw [hto, ← kept_swap g h (some f) vals]
    by_cases hh : h = some f
    · simp [kept, hh]
    · simp only [kept, Ne.symm hh, if_false]
      cases h with
      | none => rfl
      | some f' => exact Function.update_of_ne (fun e => hh (by rw [e])) _ _

end Set

lemma kept_assign (g : Superglobals α) (k : Superglobal) (v : Option α) (h : Option ℕ) :
    (g.assign k v).kept h
      = if h = g.view then some (Function.update g.symbols k v) else g.kept h := by
  by_cases hh : h = g.view
  · simp [kept, assign, hh]
  · simp only [kept, assign, hh, Ne.symm hh, if_false]
    cases h <;> rfl

/-! ## Runs -/

inductive Action (α : Type) where
  /-- `Fiber::start` or `Fiber::resume`. -/
  | resume (f : ℕ)
  /-- `Fiber::suspend`, or the fiber has come to its end. -/
  | suspend
  /-- The context of the fiber goes. -/
  | destroy (f : ℕ)
  /-- `$_GET = ...`, or `unset($_GET)`. -/
  | assign (k : Superglobal) (v : Option α)
  | setSuperglobals (vals : Superglobal → α)

/-- A thread and what its fibers have done to the four entries. -/
structure Thread (α : Type) where
  globals : Superglobals α
  /-- The running fiber, the fiber that resumed it and so on.  The last one was resumed by
  `{main}`. -/
  stack : List ℕ
  /-- What `{main}` or a fiber with a view has last made the entries, itself or through the fibers
  without a view that run on its behalf. -/
  made : Option ℕ → View α
  /-- The world of `{main}`, as it was when the table last held it. -/
  world : View α
  /-- The table holds the view of a fiber, which may be dead by now. -/
  lent : Bool

namespace Thread

def start (symbols : View α) : Thread α := ⟨init symbols, [], fun _ => symbols, symbols, false⟩

/-- Who runs. -/
def current (t : Thread α) : Option ℕ := t.stack.head?

/-- On whose behalf: the nearest one in the stack that has a view. -/
def holder (t : Thread α) : Option ℕ := t.stack.find? fun f => (t.globals.slots f).isSome

/-- The thread goes over to the first of `stack`. -/
def switch (t : Thread α) (stack : List ℕ) : Thread α :=
  { t with
    globals := t.globals.onSwitch stack.head?
    stack := stack
    lent := match stack.head? with
      | none => false
      | some f => t.lent || (t.globals.slots f).isSome }

/-- A fiber that is suspended or new can be resumed or destroyed. -/
def Possible (t : Thread α) : Action α → Prop
  | .resume f => f ∉ t.stack
  | .suspend => t.stack ≠ []
  | .destroy f => f ∉ t.stack
  | .assign _ _ => True
  | .setSuperglobals _ => True

instance (t : Thread α) : ∀ a, Decidable (t.Possible a)
  | .resume f => inferInstanceAs (Decidable (f ∉ t.stack))
  | .suspend => inferInstanceAs (Decidable (t.stack ≠ []))
  | .destroy f => inferInstanceAs (Decidable (f ∉ t.stack))
  | .assign _ _ => isTrue trivial
  | .setSuperglobals _ => isTrue trivial

def perform (t : Thread α) : Action α → Thread α
  | .resume f => t.switch (f :: t.stack)
  | .suspend => t.switch t.stack.tail
  | .destroy f => { t with globals := t.globals.onDestroy f }
  | .assign k v =>
      { t with
        globals := t.globals.assign k v
        made := Function.update t.made t.holder (Function.update (t.made t.holder) k v)
        world := if t.lent then t.world else Function.update t.world k v }
  | .setSuperglobals vals =>
      let vals : View α := fun k => some (vals k)
      { t with
        globals := t.globals.setSuperglobals t.current vals
        made := Function.update t.made t.current vals
        world := if t.current = none then vals else t.world
        lent := t.current.isSome }

def step (t : Thread α) (a : Action α) : Option (Thread α) :=
  if t.Possible a then some (t.perform a) else none

/-! ## Whose view is installed -/

/-- The thread is in the hands of somebody with a view. -/
def InCharge (t : Thread α) : Prop := t.globals.HasView t.current

/-- What is known of `VIEW`, in any run. -/
structure Placed (t : Thread α) : Prop where
  owner : t.globals.HasView t.globals.view
  charge : t.InCharge → t.globals.view = t.current
  lent : t.lent = false → t.globals.view = none
  main : t.stack = [] → t.lent = false

variable {t t' : Thread α} {a : Action α}

lemma placed_start (symbols : View α) : (start symbols).Placed where
  owner := hasView_none
  charge _ := rfl
  lent _ := rfl
  main _ := rfl

/-- With somebody in charge who has a view, it is he on whose behalf the thread runs. -/
lemma holder_eq_current (h : t.InCharge) : t.holder = t.current := by
  unfold InCharge current at h
  unfold holder current
  cases hs : t.stack with
  | nil => rfl
  | cons f stack =>
      rw [hs] at h
      exact List.find?_cons_of_pos (hasView_some.mp h)

lemma placed_switch (h : t.Placed) (stack : List ℕ) : (t.switch stack).Placed where
  owner := by
    show (t.globals.onSwitch stack.head?).HasView (t.globals.onSwitch stack.head?).view
    rw [hasView_onSwitch h.owner, view_onSwitch]
    split_ifs with hhas
    · exact hhas
    · exact h.owner
  charge := by
    intro hcharge
    have hhas : t.globals.HasView stack.head? := (hasView_onSwitch h.owner _).mp hcharge
    show (t.globals.onSwitch stack.head?).view = stack.head?
    rw [view_onSwitch, if_pos hhas]
  lent := by
    intro hlent
    show (t.globals.onSwitch stack.head?).view = none
    rw [view_onSwitch]
    cases hhead : stack.head? with
    | none => simp
    | some f =>
        simp only [switch, hhead, Bool.or_eq_false_iff] at hlent
        simp [hlent.2, h.lent hlent.1]
  main := by
    rintro (rfl : stack = [])
    rfl

lemma placed_destroy (h : t.Placed) {f : ℕ} (hf : f ∉ t.stack) :
    ({ t with globals := t.globals.onDestroy f } : Thread α).Placed := by
  have hcurrent : t.current ≠ some f := fun e => hf (List.mem_of_mem_head? e)
  have hslots : ∀ f' ≠ f, (t.globals.onDestroy f).slots f' = t.globals.slots f' :=
    fun f' hne => Function.update_of_ne hne _ _
  constructor
  · show (t.globals.onDestroy f).HasView (if t.globals.view = some f then none else t.globals.view)
    split_ifs with hview
    · exact hasView_none
    · intro f' hf'
      rw [hslots f' fun e => hview (e ▸ hf')]
      exact h.owner f' hf'
  · intro hcharge
    have hview : t.globals.view = t.current := by
      refine h.charge fun f' hf' => ?_
      rw [← hslots f' fun e => hcurrent (e ▸ hf')]
      exact hcharge f' hf'
    show (if t.globals.view = some f then none else t.globals.view) = t.current
    rw [if_neg (by rwa [hview]), hview]
  · intro hlent
    have hview := h.lent hlent
    simp [onDestroy, hview]
  · exact h.main

lemma placed_setSuperglobals (h : t.Placed) (vals : Superglobal → α) :
    (t.perform (.setSuperglobals vals)).Placed := by
  have hview : (t.globals.setSuperglobals t.current fun k => some (vals k)).view = t.current :=
    view_setSuperglobals h.charge fun _ => rfl
  constructor
  · show (t.globals.setSuperglobals t.current fun k => some (vals k)).HasView _
    rw [hasView_setSuperglobals h.charge (fun _ => rfl) h.owner]
    exact .inl hview
  · exact fun _ => hview
  · intro hlent
    exact hview.trans (Option.isSome_eq_false_iff.mp hlent |> Option.isNone_iff_eq_none.mp)
  · intro hstack
    have hstack : t.stack = [] := hstack
    simp [perform, current, hstack]

lemma step_eq (h : t.step a = some t') : t.Possible a ∧ t.perform a = t' := by
  unfold step at h
  split_ifs at h with hp
  exact ⟨hp, Option.some.inj h⟩

lemma placed_step (h : t.Placed) (hstep : t.step a = some t') : t'.Placed := by
  obtain ⟨hp, rfl⟩ := step_eq hstep
  cases a with
  | resume f => exact placed_switch h _
  | suspend => exact placed_switch h _
  | destroy f => exact placed_destroy h hp
  | assign k v => exact ⟨h.owner, h.charge, h.lent, h.main⟩
  | setSuperglobals vals => exact placed_setSuperglobals h vals

/-! ## Everybody's view -/

/-- Whoever has a view and runs finds it as it was last made. -/
def OwnView (t : Thread α) : Prop := t.InCharge → t.globals.symbols = t.made t.current

/-- What an action has to heed.  A view is put in the place of another only if nothing shows
through, and a fiber without a view writes only while the view of the one on whose behalf it runs is
installed. -/
def Careful (t : Thread α) : Action α → Prop
  | .resume f => t.globals.NoHoles (some f)
  | .suspend => t.globals.NoHoles t.stack.tail.head?
  | .destroy _ => True
  | .assign _ _ => ¬ t.InCharge → t.globals.view = t.holder
  | .setSuperglobals _ => True

instance (t : Thread α) : Decidable t.InCharge := inferInstanceAs (Decidable (t.globals.HasView _))

instance (t : Thread α) : ∀ a, Decidable (t.Careful a)
  | .resume f => inferInstanceAs (Decidable (t.globals.NoHoles (some f)))
  | .suspend => inferInstanceAs (Decidable (t.globals.NoHoles t.stack.tail.head?))
  | .destroy _ => isTrue trivial
  | .assign _ _ => inferInstanceAs (Decidable (_ → t.globals.view = t.holder))
  | .setSuperglobals _ => isTrue trivial

/-- Every view is as it was last made, wherever it is kept. -/
structure Intact (t : Thread α) : Prop where
  placed : t.Placed
  kept : ∀ h, t.globals.HasView h → t.globals.kept h = some (t.made h)

lemma Intact.base (h : t.Intact) (hview : t.globals.view ≠ none) : t.globals.base ≠ none := by
  have hbase := h.kept none hasView_none
  rw [Superglobals.kept, if_neg hview] at hbase
  exact fun hnone => absurd (hbase.symm.trans hnone) (by simp)

lemma Intact.symbols (h : t.Intact) : t.globals.symbols = t.made t.globals.view := by
  have hkept := h.kept t.globals.view h.placed.owner
  rw [Superglobals.kept, if_pos rfl] at hkept
  exact Option.some.inj hkept

lemma Intact.ownView (h : t.Intact) : t.OwnView := by
  intro hcharge
  rw [h.symbols, h.placed.charge hcharge]

lemma intact_start (symbols : View α) : (start symbols).Intact where
  placed := placed_start symbols
  kept := by
    rintro (_ | f) hhas
    · rfl
    · simp [start, init] at hhas

lemma intact_switch (h : t.Intact) {stack : List ℕ} (hfull : t.globals.NoHoles stack.head?) :
    (t.switch stack).Intact where
  placed := placed_switch h.placed stack
  kept := by
    intro h' hhas
    have hhas := (hasView_onSwitch h.placed.owner h').mp hhas
    exact (kept_onSwitch hfull h.base h').trans (h.kept h' hhas)

lemma intact_assign (h : t.Intact) {k : Superglobal} {v : Option α}
    (hview : ¬ t.InCharge → t.globals.view = t.holder) : (t.perform (.assign k v)).Intact := by
  have hholder : t.globals.view = t.holder := by
    by_cases hcharge : t.InCharge
    · rw [h.placed.charge hcharge, holder_eq_current hcharge]
    · exact hview hcharge
  refine ⟨⟨h.placed.owner, h.placed.charge, h.placed.lent, h.placed.main⟩, fun h' hhas => ?_⟩
  show (t.globals.assign k v).kept h' = some (Function.update t.made t.holder _ h')
  rw [kept_assign, hholder]
  split_ifs with hh
  · rw [hh, Function.update_self, h.symbols, hholder]
  · rw [Function.update_of_ne hh]
    exact h.kept h' hhas

lemma intact_setSuperglobals (h : t.Intact) (vals : Superglobal → α) :
    (t.perform (.setSuperglobals vals)).Intact := by
  refine ⟨placed_setSuperglobals h.placed vals, fun h' hhas => ?_⟩
  have hhas := (hasView_setSuperglobals h.placed.charge (fun _ => rfl) h.placed.owner h').mp hhas
  show (t.globals.setSuperglobals t.current _).kept h'
    = some (Function.update t.made t.current _ h')
  rw [kept_setSuperglobals h.placed.charge fun _ => rfl]
  split_ifs with hh
  · rw [hh, Function.update_self]
  · rw [Function.update_of_ne hh]
    exact h.kept h' (hhas.resolve_left hh)

/-- A step of a run in which nobody dies. -/
lemma intact_step (h : t.Intact) (hlive : ∀ f, a ≠ .destroy f) (hok : t.Careful a)
    (hstep : t.step a = some t') : t'.Intact := by
  obtain ⟨-, rfl⟩ := step_eq hstep
  cases a with
  | resume f => exact intact_switch h hok
  | suspend => exact intact_switch h hok
  | destroy f => exact absurd rfl (hlive f)
  | assign k v => exact intact_assign h hok
  | setSuperglobals vals => exact intact_setSuperglobals h vals

/-- As long as no fiber dies: in a run whose steps are all careful, whoever has a view finds the
four entries, and their absence, as he or the fibers that run on his behalf have last made them. -/
theorem views_kept (symbols : View α) (as : List (Action α)) (t : Thread α)
    (hlive : ∀ f, .destroy f ∉ as) (hok : Along step Careful (start symbols) as)
    (hrun : runFrom step (start symbols) as = some t) : t.OwnView := by
  have hlive : Along step (fun _ a => ∀ f, a ≠ .destroy f) (start symbols) as := by
    refine along_of_forall step (P := fun a => ∀ f, a ≠ .destroy f) ?_ _
    rintro a ha f rfl
    exact hlive f ha
  have hintact : t.Intact :=
    invariant_of_step step (fun s a s' h hok => intact_step h hok.1 hok.2)
      (intact_start symbols) (along_and step hlive hok) hrun
  exact hintact.ownView

/-- Two requests, one of which lets a child of its own unset an entry, while `{main}` does the same
to its own before it goes back to it. -/
def twoRequests : List (Action ℕ) :=
  [.resume 1, .setSuperglobals fun _ => 10, .assign .get (some 11), .resume 5, .assign .post none,
    .suspend, .suspend, .resume 2, .setSuperglobals fun _ => 20, .suspend, .assign .post none,
    .resume 1]

theorem views_kept_two_requests : ∃ t, runFrom step (start fun _ => some 0) twoRequests = some t ∧
    t.current = some 1 ∧ t.OwnView ∧ t.globals.symbols .get = some 11 ∧
    t.globals.symbols .post = none := by
  refine ⟨_, rfl, rfl, views_kept _ twoRequests _ ?_ (by decide) rfl, rfl, rfl⟩
  simp [twoRequests]

/-- An entry that a request has unset comes back with the value of `{main}`.  And a fiber without a
view that gets the thread back from a request goes on in that request's view, where the request then
finds an assignment made on behalf of `{main}`. -/
theorem views_mixed :
    (∃ t, runFrom step (start fun _ => some 0)
        [.resume 1, .setSuperglobals fun _ => 10, .assign .post none, .suspend, .resume 1]
        = some t ∧
      t.InCharge ∧ t.current = some 1 ∧ t.globals.symbols .post = some 0 ∧
      t.made (some 1) .post = none ∧ ¬ t.OwnView) ∧
    (∃ t, runFrom step (start fun _ => some 0)
        [.resume 5, .resume 1, .setSuperglobals fun _ => 10, .suspend, .assign .get (some 9),
          .resume 1] = some t ∧
      t.InCharge ∧ t.current = some 1 ∧ t.globals.symbols .get = some 9 ∧
      t.made (some 1) .get = some 10 ∧ t.made none .get = some 9 ∧ ¬ t.OwnView) := by
  constructor
  · refine ⟨_, rfl, by decide, rfl, rfl, rfl, fun h => ?_⟩
    exact absurd (congrFun (h (by decide)) .post) (by decide)
  · refine ⟨_, rfl, by decide, rfl, rfl, rfl, rfl, fun h => ?_⟩
    exact absurd (congrFun (h (by decide)) .get) (by decide)

/-! ## The world of `{main}` -/

/-- `{main}`, and whoever inherits its world, runs with it, and `BASE` has it while the table holds
the view of a fiber. -/
structure WorldKept (t : Thread α) : Prop where
  main : t.stack = [] → t.globals.symbols = t.world
  inherited : t.lent = false → t.globals.symbols = t.world
  base : t.lent = true → t.globals.base = some t.world

/-- The owner of the installed view has died. -/
def Orphaned (t : Thread α) : Prop := t.lent = true ∧ t.globals.view = none

/-- The view of a dead fiber can be taken for the world of `{main}` without harm. -/
def Harmless (t : Thread α) : Prop := t.Orphaned → t.globals.base = some t.globals.symbols

/-- What an action has to heed for the sake of the world of `{main}`: a view is not put in the place
of a dead fiber's, which `BASE` or `{main}` would get, and nothing shows through `BASE`. -/
def Restoring (t : Thread α) : Action α → Prop
  | .resume f => t.globals.HasView (some f) → t.Harmless
  | .suspend => (t.globals.HasView t.stack.tail.head? → t.Harmless) ∧
      (t.stack.tail = [] → t.globals.NoHoles none)
  | .destroy _ => True
  | .assign _ _ => True
  | .setSuperglobals _ => t.Harmless

section Decidable

variable [DecidableEq α]

instance (t : Thread α) : Decidable t.Orphaned := inferInstanceAs (Decidable (_ ∧ _))

instance (t : Thread α) : Decidable t.Harmless :=
  inferInstanceAs (Decidable (t.Orphaned → t.globals.base = some t.globals.symbols))

instance (t : Thread α) : ∀ a, Decidable (t.Restoring a)
  | .resume f => inferInstanceAs (Decidable (t.globals.HasView (some f) → t.Harmless))
  | .suspend => inferInstanceAs (Decidable ((t.globals.HasView t.stack.tail.head? → t.Harmless) ∧
      (t.stack.tail = [] → t.globals.NoHoles none)))
  | .destroy _ => isTrue trivial
  | .assign _ _ => isTrue trivial
  | .setSuperglobals _ => inferInstanceAs (Decidable t.Harmless)

end Decidable

lemma Placed.lent_of_view (h : t.Placed) (hview : t.globals.view ≠ none) : t.lent = true := by
  cases hlent : t.lent with
  | false => exact absurd (h.lent hlent) hview
  | true => rfl

lemma harmless_of_view (hview : t.globals.view ≠ none) : t.Harmless := fun h => absurd h.2 hview

lemma harmless_of_not_lent (hlent : t.lent = false) : t.Harmless :=
  fun h => absurd (h.1.symm.trans hlent) (by simp)

lemma worldKept_of_lent (h : t.Placed) (hlent : t.lent = true) :
    t.WorldKept ↔ t.globals.base = some t.world := by
  have hne : t.lent ≠ false := by simp [hlent]
  exact ⟨fun hw => hw.base hlent,
    fun hb => ⟨fun hs => absurd (h.main hs) hne, fun hl => absurd hl hne, fun _ => hb⟩⟩

lemma worldKept_of_not_lent (hlent : t.lent = false) :
    t.WorldKept ↔ t.globals.symbols = t.world :=
  ⟨fun hw => hw.inherited hlent,
    fun hs => ⟨fun _ => hs, fun _ => hs, fun hl => absurd (hlent.symm.trans hl) (by simp)⟩⟩

/-- What `save_current_view` leaves in `BASE`. -/
lemma base_saveCurrentView_iff (h : t.Placed) (hw : t.WorldKept) :
    t.globals.saveCurrentView.base = some t.world ↔ t.Harmless := by
  have hsave : t.globals.saveCurrentView.base
      = if none = t.globals.view then some t.globals.symbols else t.globals.base :=
    saved_saveCurrentView none
  rw [hsave]
  cases hlent : t.lent with
  | false =>
      rw [if_pos (h.lent hlent).symm, hw.inherited hlent]
      exact iff_of_true rfl (harmless_of_not_lent hlent)
  | true =>
      have hbase := hw.base hlent
      split_ifs with hview
      · -- the table still holds what a dead fiber has left in it
        rw [Harmless, hbase]
        exact ⟨fun e _ => e.symm, fun hh => (hh ⟨hlent, hview.symm⟩).symm⟩
      · exact iff_of_true hbase (harmless_of_view (Ne.symm hview))

lemma worldKept_toMain_iff (h : t.Placed) (hw : t.WorldKept) :
    (t.switch []).WorldKept ↔ t.Harmless ∧ t.globals.NoHoles none := by
  rw [worldKept_of_not_lent (t := t.switch []) rfl]
  show (t.globals.onSwitch none).symbols = t.world ↔ _
  cases hlent : t.lent with
  | false =>
      have hview := h.lent hlent
      have hsame : t.globals.onSwitch none = t.globals := by simp [onSwitch, hview]
      rw [hsame]
      exact iff_of_true (hw.inherited hlent)
        ⟨harmless_of_not_lent hlent, fun hne => absurd hview hne⟩
  | true =>
      have hbase := hw.base hlent
      cases hview : t.globals.view with
      | none =>
          have hsame : t.globals.onSwitch none = t.globals := by simp [onSwitch, hview]
          rw [hsame, Harmless, hbase]
          constructor
          · exact fun e => ⟨fun _ => by rw [e], fun hne => absurd hview hne⟩
          · exact fun hh => (Option.some.inj (hh.1 ⟨hlent, hview⟩)).symm
      | some owner =>
          have hto : (t.globals.onSwitch none).symbols
              = fun k => (t.world k).or (t.globals.symbols k) := by
            simp [onSwitch, hview, saveCurrentView, hbase, install]
          have hne : t.globals.view ≠ none := by simp [hview]
          rw [hto]
          constructor
          · intro e
            refine ⟨harmless_of_view hne, fun _ v hv k _ hk => ?_⟩
            obtain rfl : t.world = v := Option.some.inj (hbase.symm.trans hv)
            have hor := congrFun e k
            rwa [hk, Option.none_or] at hor
          · exact fun hh => install_of_noHoles hne hbase hh.2

lemma worldKept_toFiber_iff (h : t.Placed) (hw : t.WorldKept) {f : ℕ} {stack : List ℕ} :
    (t.switch (f :: stack)).WorldKept ↔ (t.globals.HasView (some f) → t.Harmless) := by
  by_cases hhas : t.globals.HasView (some f)
  · have hlent : (t.switch (f :: stack)).lent = true := by
      simp [switch, hasView_some.mp hhas]
    rw [worldKept_of_lent (placed_switch h _) hlent]
    show (t.globals.onSwitch (some f)).base = some t.world ↔ _
    obtain ⟨hsame, hview⟩ | ⟨v, -, -, -, hto⟩ | ⟨hnone, -⟩ := t.globals.onSwitch_cases (some f)
    · -- the fiber's view is installed already
      have hne : t.globals.view ≠ none := by simp [hview hhas]
      rw [hsame]
      exact iff_of_true (hw.base (h.lent_of_view hne)) fun _ => harmless_of_view hne
    · rw [hto]
      exact (base_saveCurrentView_iff h hw).trans ⟨fun hh _ => hh, fun hh => hh hhas⟩
    · exact absurd hnone (by simp)
  · have hslot : t.globals.slots f = none := by simpa using hhas
    have hto : t.switch (f :: stack) = { t with stack := f :: stack } := by
      simp [switch, onSwitch, hslot]
    rw [hto]
    refine iff_of_true ⟨by simp, hw.inherited, hw.base⟩ fun hh => absurd hh hhas

lemma worldKept_setSuperglobals_iff (h : t.Placed) (hw : t.WorldKept) (vals : Superglobal → α) :
    (t.perform (.setSuperglobals vals)).WorldKept ↔ t.Harmless := by
  have hplaced := placed_setSuperglobals h vals
  obtain ⟨hhas, hto⟩ | ⟨f, hf, -, hto⟩ :=
    t.globals.setSuperglobals_cases t.current (fun k => some (vals k)) fun _ => rfl
  · cases hc : t.current with
    | none =>
        have hlent : t.lent = false := h.main (List.head?_eq_none_iff.mp hc)
        rw [worldKept_of_not_lent (t := t.perform (.setSuperglobals vals)) (by simp [perform, hc])]
        refine iff_of_true ?_ (harmless_of_not_lent hlent)
        show (t.globals.setSuperglobals t.current _).symbols = if t.current = none then _ else _
        rw [hto, if_pos hc]
    | some f =>
        have hne : t.globals.view ≠ none := by simp [h.charge hhas, hc]
        rw [worldKept_of_lent hplaced (by simp [perform, hc])]
        refine iff_of_true ?_ (harmless_of_view hne)
        show (t.globals.setSuperglobals t.current _).base = some (if t.current = none then _ else _)
        rw [hto, if_neg (by simp [hc])]
        exact hw.base (h.lent_of_view hne)
  · rw [worldKept_of_lent hplaced (by simp [perform, hf]), ← base_saveCurrentView_iff h hw]
    show (t.globals.setSuperglobals t.current _).base = some (if t.current = none then _ else _) ↔ _
    rw [hto, if_neg (by simp [hf])]

/-- From a state in which the world is kept, a step keeps it exactly if it heeds `Restoring`. -/
lemma worldKept_step_iff (h : t.Placed) (hw : t.WorldKept) (hstep : t.step a = some t') :
    t'.WorldKept ↔ t.Restoring a := by
  obtain ⟨-, rfl⟩ := step_eq hstep
  cases a with
  | resume f => exact worldKept_toFiber_iff h hw
  | suspend =>
      show (t.switch t.stack.tail).WorldKept ↔
        (t.globals.HasView t.stack.tail.head? → t.Harmless) ∧
          (t.stack.tail = [] → t.globals.NoHoles none)
      cases t.stack.tail with
      | nil => simpa using worldKept_toMain_iff h hw
      | cons f stack => simpa using worldKept_toFiber_iff h hw
  | destroy f => exact iff_of_true ⟨hw.main, hw.inherited, hw.base⟩ trivial
  | assign k v =>
      refine iff_of_true ?_ trivial
      cases hlent : t.lent with
      | false =>
          rw [worldKept_of_not_lent (t := t.perform (.assign k v)) hlent]
          simp [perform, hlent, assign, hw.inherited hlent]
      | true =>
          rw [worldKept_of_lent (placed_step h hstep) hlent]
          show t.globals.base = some (if t.lent then t.world else _)
          rw [if_pos hlent, hw.base hlent]
  | setSuperglobals vals => exact worldKept_setSuperglobals_iff h hw vals

/-- **When `{main}` gets its world back.**  In every run, fibers nested and destroyed at will, the
world of `{main}` is kept throughout if and only if no view is put in the place of that of a fiber
that has died meanwhile, unless the two are the same, and nothing shows through `BASE`. -/
theorem world_kept_iff {symbols : View α} {as : List (Action α)} {t : Thread α}
    (h : runFrom step (start symbols) as = some t) :
    Always step WorldKept (start symbols) as ↔ Along step Restoring (start symbols) as :=
  always_iff_along step (fun _ _ _ => placed_step) (fun _ _ _ => worldKept_step_iff)
    (placed_start symbols) ((worldKept_of_not_lent rfl).mpr rfl) h

/-- Two requests in a row, each of which dies when `{main}` has its world back. -/
def inTurn : List (Action ℕ) :=
  [.resume 1, .setSuperglobals fun _ => 10, .suspend, .destroy 1, .assign .get (some 1), .resume 5,
    .resume 1, .setSuperglobals fun _ => 20, .assign .post none, .suspend, .suspend, .destroy 1]

theorem world_kept_in_turn : ∃ t, runFrom step (start fun _ => some 0) inTurn = some t ∧
    Always step WorldKept (start fun _ => some 0) inTurn ∧ t.stack = [] ∧
    t.globals.symbols .get = some 1 :=
  ⟨_, rfl, (world_kept_iff rfl).mpr (by decide), rfl, rfl⟩

/-- A request that a fiber without a view has started dies there.  `{main}` then goes on with what
the dead request had, and the next request makes it the world. -/
theorem world_lost_with_owner : ∃ t t', runFrom step (start fun _ => some 0)
      [.resume 5, .resume 1, .setSuperglobals fun _ => 10, .suspend, .destroy 1, .suspend]
      = some t ∧
    t.stack = [] ∧ t.globals.symbols .get = some 10 ∧ t.globals.base = some (fun _ => some 0) ∧
    t.world .get = some 0 ∧ ¬ t.WorldKept ∧
    runFrom step t [.resume 2, .setSuperglobals fun _ => 20] = some t' ∧
    t'.globals.base = some (fun _ => some 10) ∧ ¬ t'.WorldKept := by
  refine ⟨_, _, rfl, rfl, rfl, rfl, rfl, fun h => ?_, rfl, rfl, fun h => ?_⟩
  · exact absurd (congrFun (h.main rfl) .get) (by decide)
  · exact absurd (congrFun (Option.some.inj (h.base rfl)) .get) (by decide)

end Thread

end Ignis.Superglobals
