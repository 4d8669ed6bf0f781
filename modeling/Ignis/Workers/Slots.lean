import Ignis.Workers.Staffing

/-!
# Slots of the master

A slot leaves the list when its worker is reaped and comes back when the worker is respawned or the
slot is paused.  The failure branches do not all put it back: `retry_paused_slots` leaves the slot
paused, but the reaping loop drops a slot it cannot fork for, and `reload_one_at_a_time` leaves one
on the list with neither a worker nor a time to be retried at.

`Conserving` is the condition under which no slot is lost, and `slots_conserved` is the result for
every run that meets it.
-/

namespace Ignis

namespace Workers

/-- The slot has a worker that was forked for it and has not been reaped, or it is paused until a
time that comes within `RESTART_PAUSE`. -/
def State.Kept (s : State) (slot : ℕ) : Prop :=
  ∃ child ∈ s.children, child.slot = slot ∧
    (s.table.Holds child.pid slot ∨ ∃ retryAt ∈ child.retryAt, retryAt ≤ s.now + restartPause)

instance (s : State) (slot : ℕ) : Decidable (s.Kept slot) :=
  inferInstanceAs (Decidable (∃ child ∈ s.children, child.slot = slot ∧
    (s.table.Holds child.pid slot ∨ ∃ retryAt ∈ child.retryAt, retryAt ≤ s.now + restartPause)))

/-- The master does not act on a shutdown signal. -/
def StaysUp (s : State) : Action → Prop
  | .master _ => s.control = .signalling → s.pendingSignal = none ∨ s.pendingSignal = some .hup
  | _ => True

instance (s : State) (a : Action) : Decidable (StaysUp s a) :=
  match a with
  | .master _ => inferInstanceAs (Decidable (s.control = .signalling →
      s.pendingSignal = none ∨ s.pendingSignal = some .hup))
  | .exits _ _ | .receives _ | .elapses _ => isTrue trivial

/-- What a failed fork may be for: not for a worker that has ended, and in a reload only for a slot
that is paused. -/
def MayFail (s : State) : Control → Prop
  | .respawning _ => False
  | .replacing i => ∀ child ∈ s.children[i]?, child.retryAt.isSome
  | _ => True

instance (s : State) (c : Control) : Decidable (MayFail s c) :=
  match c with
  | .respawning _ => isFalse id
  | .replacing i => inferInstanceAs (Decidable (∀ child ∈ s.children[i]?, child.retryAt.isSome))
  | .starting _ | .sleeping | .reaping | .retrying _ | .signalling | .reloading _ | .waiting _ _
  | .killed _ | .checking | .returned _ => isTrue trivial

/-- No fork fails that may not, and what is reaped is the record's own process. -/
def Conserving (s : State) (a : Action) : Prop :=
  Owned s a ∧ (a = .master none → MayFail s s.control)

instance (s : State) (a : Action) : Decidable (Conserving s a) :=
  inferInstanceAs (Decidable (Owned s a ∧ (a = .master none → MayFail s s.control)))

/-- No slot has been lost. -/
structure Complete (cfg : Config) (s : State) : Prop where
  kept : (∀ status, s.control ≠ .returned status) → ∀ slot < cfg.count, slot ∈ s.slots cfg
  replaced : s.unreplaced = []
  due : ∀ child ∈ s.children, ∀ retryAt ∈ child.retryAt, retryAt ≤ s.now + restartPause
  up : s.shutdownDeadline = none

lemma complete_init (cfg : Config) : Complete cfg init where
  kept := by
    intro _ slot hslot
    simpa [State.slots, init, Control.slots, List.mem_range'_1] using hslot
  replaced := rfl
  due := by simp [init]
  up := rfl

section

variable {cfg : Config} {s s' : State}

/-- A step that leaves the list alone. -/
lemma Complete.frame (h : Complete cfg s) (hchildren : s'.children = s.children)
    (hun : s'.unreplaced = s.unreplaced) (hnow : s.now ≤ s'.now)
    (hup : s'.shutdownDeadline = s.shutdownDeadline)
    (hslots : (∀ status, s'.control ≠ .returned status) →
      (∀ status, s.control ≠ .returned status) ∧ s'.control.slots cfg = s.control.slots cfg) :
    Complete cfg s' where
  kept := by
    intro hret slot hslot
    obtain ⟨hret, heq⟩ := hslots hret
    rw [State.slots, hchildren, heq]
    exact h.kept hret slot hslot
  replaced := hun.trans h.replaced
  due := by
    intro child hc retryAt hretry
    have hdue := h.due child (hchildren ▸ hc) retryAt hretry
    omega
  up := hup.trans h.up

/-- A slot that was in hand is back on the list. -/
lemma Complete.append (h : Complete cfg s) {slot pid : ℕ} {T : ProcessTable ℕ} {c : Control}
    (hslots : s.control.slots cfg = slot :: c.slots cfg)
    (hret : ∀ status, s.control ≠ .returned status) :
    Complete cfg { s with
      table := T
      children := s.children ++ [{ slot := slot, pid := pid, retryAt := none }]
      control := c } where
  kept := by
    intro _ k hk
    simpa [State.slots, hslots] using h.kept hret k hk
  replaced := h.replaced
  due := by
    intro child hc retryAt hretry
    rcases List.mem_append.mp hc with hc | hc
    · exact h.due child hc retryAt hretry
    · obtain rfl := List.mem_singleton.mp hc
      cases hretry
  up := h.up

/-- A fresh worker takes the place of a child. -/
lemma Complete.set (h : Complete cfg s) {i pid : ℕ} {child : Child} {T : ProcessTable ℕ}
    {c : Control} {un : List ℕ} (hi : s.children[i]? = some child)
    (hslots : s.control.slots cfg = c.slots cfg) (hret : ∀ status, s.control ≠ .returned status)
    (hun : un = []) :
    Complete cfg { s with
      table := T
      children := s.children.set i { slot := child.slot, pid := pid, retryAt := none }
      control := c
      unreplaced := un } where
  kept := by
    intro _ k hk
    have hmem := h.kept hret k hk
    rw [State.slots, hslots] at hmem
    simp only [State.slots]
    rwa [map_slot_set hi]
  replaced := hun
  due := by
    intro other ho retryAt hretry
    rcases List.mem_or_eq_of_mem_set ho with ho | rfl
    · exact h.due other ho retryAt hretry
    · cases hretry
  up := h.up

/-- A worker of the list has been reaped, and its slot is paused or in hand. -/
lemma Complete.ended (h : Complete cfg s) (hrespawn : cfg.respawn = true)
    (hc : s.control = .reaping) {index status : ℕ} {child : Child} {T : ProcessTable ℕ}
    (hchild : s.children[index]? = some child) :
    Complete cfg (State.ended cfg { s with
      table := T, children := s.children.eraseIdx index } child status) := by
  have hmem : ∀ slot < cfg.count, slot ∈ (s.children.eraseIdx index).map Child.slot ++
      [child.slot] := by
    intro slot hslot
    obtain ⟨hlt, rfl⟩ := List.getElem?_eq_some_iff.mp hchild
    rw [(map_slot_eraseIdx hlt).mem_iff]
    simpa [State.slots, hc, Control.slots] using h.kept (by simp [hc]) slot hslot
  have hdue : ∀ other ∈ s.children.eraseIdx index, ∀ retryAt ∈ other.retryAt,
      retryAt ≤ s.now + restartPause :=
    fun other ho => h.due other ((List.eraseIdx_sublist _ _).subset ho)
  rcases ended_cases cfg { s with table := T, children := s.children.eraseIdx index } child status
    with ⟨w, m, r, ⟨hover, heq⟩ | heq | heq⟩
  · simp [h.up, hrespawn] at hover
  · rw [heq]
    refine ⟨fun _ slot hslot => ?_, h.replaced, fun other ho => ?_, h.up⟩
    · simpa [State.slots, Control.slots] using hmem slot hslot
    · rcases List.mem_append.mp ho with ho | ho
      · exact hdue other ho
      · obtain rfl := List.mem_singleton.mp ho
        rintro _ ⟨⟩
        exact Nat.le_refl _
  · rw [heq]
    refine ⟨fun _ slot hslot => ?_, h.replaced, hdue, h.up⟩
    simpa [State.slots, Control.slots] using hmem slot hslot

/-- **The step lemma.** -/
theorem Complete.step (h : Complete cfg s) (hrespawn : cfg.respawn = true) {a : Action}
    (hup : StaysUp s a) (hok : Conserving s a) (hstep : step cfg s a = some s') :
    Complete cfg s' := by
  have heffect := effect_of_step hstep
  cases heffect with
  | exits | receives => exact ⟨h.kept, h.replaced, h.due, h.up⟩
  | elapses ms =>
      exact h.frame rfl rfl (by simp) rfl fun hret => ⟨hret, rfl⟩
  | waits => exact h
  | @started slot pid T hc hslot hT =>
      refine h.append ?_ (by simp [hc])
      have hpos : cfg.count - slot = (cfg.count - (slot + 1)) + 1 := by omega
      rw [hc, Control.slots, Control.slots, hpos, List.range'_succ]
  | respawned hc hT => exact h.append (by rw [hc]; rfl) (by simp [hc])
  | @startDone slot _ hc hslot =>
      refine h.frame rfl rfl (Nat.le_refl _) rfl fun _ => ⟨by simp [hc], ?_⟩
      rw [hc, Control.slots, Nat.sub_eq_zero_of_le hslot]
      rfl
  | reaped hc hindex hchild => exact h.ended hrespawn hc hchild
  | respawnFailed hc =>
      have hfail := hok.2 rfl
      rw [hc] at hfail
      exact hfail.elim
  | retried hc hi => exact h.set hi (by rw [hc]; rfl) (by simp [hc]) h.replaced
  | replaced hc hi =>
      exact h.set hi (by rw [hc]; rfl) (by simp [hc]) (by simp [h.replaced])
  | @replaceFailed i child hc hi =>
      have hfail := hok.2 rfl
      rw [hc] at hfail
      have hpaused : child.retryAt ≠ none := Option.isSome_iff_ne_none.mp (hfail child hi)
      exact h.frame rfl (if_neg hpaused) (Nat.le_refl _) rfl
        fun _ => ⟨by simp [hc], by rw [hc]; rfl⟩
  | shutsDown hc hsig hhup =>
      rcases hup hc with hnone | hsome
      · cases hsig.symm.trans hnone
      · exact absurd (Option.some.inj (hsig.symm.trans hsome)) hhup
  | startFailed | returns =>
      exact h.frame rfl rfl (Nat.le_refl _) rfl fun hret => absurd rfl (hret _)
  | woke hc | allRun hc | reapedStranger hc | retriedAll hc | notRetried hc | noSignal hc
  | reloads hc | reloadedAll hc | asked hc | drained hc | timedOut hc | waited hc | loops hc =>
      exact h.frame rfl rfl (Nat.le_refl _) rfl fun _ =>
        ⟨by simp [hc], by simp [hc, Control.slots]⟩

/-- At the head of the loop a complete list keeps every slot. -/
lemma Complete.slot_kept (h : Complete cfg s) (hinv : Inv cfg s) (hs : s.control = .sleeping)
    {slot : ℕ} (hslot : slot < cfg.count) : s.Kept slot := by
  have hmem := h.kept (by simp [hs]) slot hslot
  simp only [State.slots, hs, Control.slots, List.append_nil, List.mem_map] at hmem
  obtain ⟨child, hc, rfl⟩ := hmem
  refine ⟨child, hc, rfl, ?_⟩
  cases hretry : child.retryAt with
  | none =>
      refine .inl (hinv.staffed child hc hretry (by simp [h.replaced]) ?_)
      simp [hs]
  | some retryAt => exact .inr ⟨retryAt, rfl, h.due child hc retryAt hretry⟩

/-- **No slot is lost.** -/
theorem slots_conserved (hrespawn : cfg.respawn = true) {as : List Action}
    (h : StepSystem.runFrom (Workers.step cfg) init as = some s)
    (hup : StepSystem.Along (Workers.step cfg) StaysUp init as)
    (hok : StepSystem.Along (Workers.step cfg) Conserving init as) (hs : s.control = .sleeping)
    {slot : ℕ} (hslot : slot < cfg.count) : s.Kept slot := by
  have hkeep : Inv cfg s ∧ Complete cfg s := by
    refine StepSystem.invariant_of_step (Workers.step cfg)
      (I := fun s => Inv cfg s ∧ Complete cfg s) (fun s a s' hI hsa hstep => ?_)
      ⟨inv_init cfg, complete_init cfg⟩ (StepSystem.along_and _ hup hok) h
    exact ⟨hI.1.step hsa.2.1 hstep, hI.2.step hrespawn hsa.1 hsa.2 hstep⟩
  exact hkeep.2.slot_kept hkeep.1 hs hslot

end

/-- Two workers are forked, the first ends, the master reaps it and asks the kernel for another;
nothing else happens in the iteration. -/
def exitRun (answer : Option ℕ) (children : ℕ) : List Action :=
  ([.master (some 100), .master (some 101), .master none, .exits 100 1, .master none,
    .master (some 100), .master answer] : List Action) ++
    List.replicate (children + 4) (Action.master none)

/-- The worker that ended comes back. -/
theorem slots_conserved_respawned : ∃ s,
    StepSystem.runFrom (step ⟨2, true, 10000⟩) init (exitRun (some 102) 2) = some s ∧ s.Kept 0 :=
  ⟨_, rfl, @slots_conserved ⟨2, true, 10000⟩ _ rfl (exitRun (some 102) 2) rfl (by decide)
    (by decide) rfl 0 (by decide)⟩

/-- The fork for the worker that ended fails, and the iteration ends without its slot. -/
theorem slot_lost : ∃ s,
    StepSystem.runFrom (step ⟨2, true, 10000⟩) init (exitRun none 1) = some s ∧
    StepSystem.Along (step ⟨2, true, 10000⟩) StaysUp init (exitRun none 1) ∧
    s.control = .sleeping ∧ ¬ s.Kept 0 :=
  ⟨_, rfl, by decide, rfl, by decide⟩

end Workers

end Ignis
