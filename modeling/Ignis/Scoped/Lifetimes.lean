import Ignis.Scoped.Isolation

/-!
# A new fiber at an old address

The key of a scope is the address of its context, and an address is given out again once its context
is destroyed.  `scoped.rs` has no destroy hook (`output.rs` has one, `on_fiber_destroy`), so a row
stays in `TABLES` when its fiber dies without a `rows_clear`, and the next fiber at that address
takes it for its own.  `fresh_fiber_iff` says for every history of creations, switches and
destructions when a new fiber starts from row zero.
-/

namespace Ignis.Scoped

open StepSystem

variable {α : Type} [DecidableEq α]

/-- The fibers there are.  Nothing in the module is called when a context is created or
destroyed. -/
structure Fibers (α : Type) where
  traced : Traced α
  alive : List ℕ
  /-- The fibers that have not run yet. -/
  fresh : List ℕ

inductive Life (α : Type) where
  | create (scope : ℕ)
  | destroy (scope : ℕ)
  | act (a : Action α)
  deriving DecidableEq, Repr

/-- A context is created at an address that is free at that moment, and is switched to only while it
is alive. -/
def lifeStep (l : Fibers α) : Life α → Option (Fibers α)
  | .create scope =>
      if scope = rowZero ∨ scope ∈ l.alive then none
      else some { l with alive := scope :: l.alive, fresh := scope :: l.fresh }
  | .destroy scope =>
      if scope ∈ l.alive ∧ l.traced.state.current ≠ scope then
        some { l with
          alive := l.alive.filter fun c => !(c == scope)
          fresh := l.fresh.filter fun c => !(c == scope) }
      else none
  | .act a =>
      (tracedStep l.traced a).bind fun t =>
        if t.state.current = rowZero ∨ t.state.current ∈ l.alive then
          some { l with traced := t, fresh := l.fresh.filter fun c => !(c == t.state.current) }
        else none

/-- Before the first fiber is created. -/
def Fibers.none : Fibers α := ⟨start, [], []⟩

lemma lifeStep_act {l l' : Fibers α} {a : Action α} (h : lifeStep l (.act a) = some l') :
    tracedStep l.traced a = some l'.traced ∧
      (l'.traced.state.current = rowZero ∨ l'.traced.state.current ∈ l.alive) ∧
      l'.alive = l.alive ∧
      l'.fresh = l.fresh.filter fun c => !(c == l'.traced.state.current) := by
  obtain ⟨t, ht, hl⟩ := Option.bind_eq_some_iff.mp h
  split_ifs at hl with hrunning
  obtain rfl := Option.some.inj hl
  exact ⟨ht, hrunning, rfl, rfl⟩

structure Fibers.Inv (l : Fibers α) : Prop where
  good : Good l.traced
  current : l.traced.state.current = rowZero ∨ l.traced.state.current ∈ l.alive
  fresh : ∀ c ∈ l.fresh, c ∈ l.alive ∧ c ≠ rowZero ∧ c ≠ l.traced.state.current

lemma Fibers.Inv.step {l l' : Fibers α} {a : Life α} (hI : l.Inv) (h : lifeStep l a = some l') :
    l'.Inv := by
  cases a with
  | create scope =>
      simp only [lifeStep] at h
      split_ifs at h with hfree
      obtain rfl := Option.some.inj h
      obtain ⟨hzero, hdead⟩ := not_or.mp hfree
      refine ⟨hI.good, ?_, ?_⟩
      · exact hI.current.imp_right (List.mem_cons_of_mem scope)
      · intro c hc
        rcases List.mem_cons.mp hc with rfl | hc
        · refine ⟨List.mem_cons_self, hzero, fun hcurrent => ?_⟩
          rcases hI.current with hmain | halive
          · exact hzero (hcurrent.trans hmain)
          · exact hdead (hcurrent ▸ halive)
        · obtain ⟨halive, hne⟩ := hI.fresh c hc
          exact ⟨List.mem_cons_of_mem scope halive, hne⟩
  | destroy scope =>
      simp only [lifeStep] at h
      split_ifs at h with hok
      obtain rfl := Option.some.inj h
      refine ⟨hI.good, ?_, ?_⟩
      · refine hI.current.imp_right fun halive => ?_
        simpa [halive] using hok.2
      · intro c hc
        simp only [List.mem_filter, Bool.not_eq_true', beq_eq_false_iff_ne] at hc ⊢
        obtain ⟨halive, hne⟩ := hI.fresh c hc.1
        exact ⟨⟨halive, hc.2⟩, hne⟩
  | act a =>
      obtain ⟨ht, hrunning, halive, hfresh⟩ := lifeStep_act h
      refine ⟨hI.good.step ht, by rwa [halive], fun c hc => ?_⟩
      rw [hfresh, List.mem_filter, Bool.not_eq_true', beq_eq_false_iff_ne] at hc
      obtain ⟨hc', hne, -⟩ := hI.fresh c hc.1
      exact ⟨by rwa [halive], hne, hc.2⟩

lemma Fibers.inv_of_run {as : List (Life α)} {l : Fibers α}
    (h : runFrom lifeStep Fibers.none as = some l) : l.Inv :=
  invariant_of_run lifeStep (fun _ _ _ hI hs => hI.step hs)
    ⟨good_start, .inl rfl, by simp [Fibers.none]⟩ h

omit [DecidableEq α] in
/-- A scope is given row zero unless it has a row that differs from it. -/
lemma Parked.entered_zero_iff {ν : Type} {n : ℕ} {rows : ℕ → Option (Row ν)} {x : Past ν}
    (h : Parked n rows x) (scope : ℕ) :
    (∀ p < n, (entered n rows scope).getD p none = x.zero p) ↔
      ∀ row, rows scope = some row → ∀ p < row.length, row.getD p none = x.zero p := by
  unfold entered
  cases hrow : rows scope with
  | none =>
      refine iff_of_true (fun p _ => ?_) (fun row hrow => by cases hrow)
      exact (getD_defaults _ _ p).trans (h.zero p)
  | some row => simp [h.length scope row hrow]

/-- **A fresh fiber starts from row zero, or from what is left of a dead one.**  The first time a
new fiber runs it reads row zero in every property of every live object if and only if no row that
`TABLES` holds for a live object under its address differs from row zero. -/
theorem fresh_fiber_iff {as : List (Life α)} {l l' : Fibers α}
    (hrun : runFrom lifeStep Fibers.none as = some l) {scope : ℕ} (hfresh : scope ∈ l.fresh)
    (hfirst : lifeStep l (.act (.switch scope)) = some l') :
    (∀ handle slots, l'.traced.state.live.get? handle = some slots →
      ∀ p < slots.length, slots.getD p none = (l'.traced.past handle).zero p) ↔
    ∀ handle slots row, l.traced.state.live.get? handle = some slots →
      l.traced.state.tables.get? (scope, handle) = some row →
      ∀ p < row.length, row.getD p none = (l.traced.past handle).zero p := by
  have hI := Fibers.inv_of_run hrun
  obtain ⟨-, hfiber, hparked⟩ := hI.fresh scope hfresh
  obtain ⟨ht, -⟩ := lifeStep_act hfirst
  have hswitch' : l'.traced.state = onSwitch l.traced.state scope :=
    (step_eq (tracedStep_eq ht).1).2
  have hheld := held_onSwitch (s := l.traced.state) (Ne.symm hparked)
  rw [← hswitch'] at hheld
  have hzero : ∀ handle slots, l'.traced.state.live.get? handle = some slots →
      (l'.traced.past handle).zero = (l.traced.past handle).zero := by
    intro handle slots hslots
    rw [past_of_step ht (OrdMap.has_iff.mpr ⟨slots, hslots⟩), Action.onPast,
      if_neg (Ne.symm hparked)]
    exact Past.enter_zero _ _
  -- object by object: a live one is given its row, and a dead one stays dead
  refine forall_congr' fun handle => ?_
  have hslots : l'.traced.state.live.get? handle = _ := congrArg Held.slots (hheld handle)
  have hread : (∀ slots, l'.traced.state.live.get? handle = some slots →
      ∀ p < slots.length, slots.getD p none = (l'.traced.past handle).zero p) ↔
    ∀ slots, l'.traced.state.live.get? handle = some slots →
      ∀ p < slots.length, slots.getD p none = (l.traced.past handle).zero p :=
    forall₂_congr fun slots hs => by rw [hzero handle slots hs]
  rw [hread, hslots]
  cases hlive : l.traced.state.live.get? handle with
  | none => simp [Held.switch, State.held, hlive]
  | some outgoing =>
      have hsave := (hI.good.of_held hlive).parked_save
      have hrow : Function.update (l.traced.state.held handle).rows l.traced.state.current
          (some outgoing) scope = l.traced.state.tables.get? (scope, handle) :=
        Function.update_of_ne hparked _ _
      have hswitch : ((l.traced.state.held handle).switch l.traced.state.current scope).slots
          = some (entered outgoing.length (Function.update (l.traced.state.held handle).rows
              l.traced.state.current (some outgoing)) scope) := by
        simp [Held.switch, State.held, hlive, entered]
      have hiff := hsave.entered_zero_iff scope
      rw [hrow] at hiff
      rw [hswitch]
      refine Iff.trans ?_ (hiff.trans ?_)
      · simp [hsave.length_entered]
      · exact ⟨fun h _ row _ => h row, fun h row => h outgoing row rfl⟩

/-- `{main}` builds an object; fiber 5 writes to it, clears its rows if `cleared`, and dies; a new
fiber is created at its address. -/
def reborn (cleared : Bool) : List (Life ℕ) :=
  List.flatten
    [[.act (.allocate 1 [some (.scalar 1)]), .create 5, .act (.switch 5),
      .act (.assign 1 0 (some (.scalar 2)))],
      if cleared then [.act (.rowsClear [1])] else [], [.act (.switch 0), .destroy 5, .create 5]]

theorem fresh_fiber_after_clear : ∃ l l', runFrom lifeStep Fibers.none (reborn true) = some l ∧
    5 ∈ l.fresh ∧ lifeStep l (.act (.switch 5)) = some l' ∧
    ∀ slots, l'.traced.state.live.get? 1 = some slots →
      ∀ p < slots.length, slots.getD p none = (l'.traced.past 1).zero p := by
  have hruns : ∃ l l', runFrom lifeStep Fibers.none (reborn true) = some l ∧ 5 ∈ l.fresh ∧
      lifeStep l (.act (.switch 5)) = some l' ∧
      l.traced.state.live.keys = [1] ∧
      l.traced.state.tables.get? (5, 1) = some [some (.scalar 1)] ∧
      (l.traced.past 1).zero 0 = some (.scalar 1) :=
    ⟨_, _, rfl, by decide, rfl, by decide, by decide, rfl⟩
  obtain ⟨l, l', hrun, hfresh, hfirst, hkeys, hrow, hzero⟩ := hruns
  refine ⟨l, l', hrun, hfresh, hfirst, (fresh_fiber_iff hrun hfresh hfirst).mpr ?_ 1⟩
  intro handle slots row hlive hrow'
  have hmem : handle ∈ l.traced.state.live.keys := OrdMap.mem_keys_iff.mpr ⟨slots, hlive⟩
  obtain rfl : handle = 1 := by simpa [hkeys] using hmem
  obtain rfl : row = [some (.scalar 1)] := Option.some.inj (hrow'.symm.trans hrow)
  intro p hp
  obtain rfl : p = 0 := by simpa using hp
  exact hzero.symm

/-- The dead fiber has not cleared its rows: the new one reads the value it wrote. -/
theorem fresh_fiber_reads_dead : ∃ l l', runFrom lifeStep Fibers.none (reborn false) = some l ∧
    5 ∈ l.fresh ∧ lifeStep l (.act (.switch 5)) = some l' ∧
    l'.traced.state.live.get? 1 = some [some (.scalar 2)] ∧
    (l'.traced.past 1).zero 0 = some (.scalar 1) :=
  ⟨_, _, rfl, by decide, rfl, by decide, rfl⟩

end Ignis.Scoped
