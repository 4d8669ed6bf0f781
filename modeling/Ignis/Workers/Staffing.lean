import Mathlib.Data.List.Perm.Basic
import Ignis.Workers.Master

/-!
# What a record of the list stands for

A child of the list names a slot and a pid.  `Inv` is what the two have to do with the processes the
kernel keeps: no slot is on the list twice, and a child that is neither paused nor left over from a
failed reload is the record of a process that was forked for its slot and has not been reaped.

A pid can come back.  The record of a worker that was reaped long ago may carry the pid of another
slot's worker, and the master, which searches its list by pid, then takes one for the other.
`Owned` is the condition that this does not happen, on the two steps that go from a record to a
process.
-/

namespace Ignis

namespace Workers

/-- The slots that are not on the list: the one in hand, and those `run` has not come to. -/
def Control.slots (cfg : Config) : Control → List ℕ
  | .starting slot => List.range' slot (cfg.count - slot)
  | .respawning slot => [slot]
  | _ => []

def State.slots (cfg : Config) (s : State) : List ℕ :=
  s.children.map Child.slot ++ s.control.slots cfg

/-- `wait_for` is at work for this child. -/
def Control.awaits (i : ℕ) : Control → Prop
  | .waiting j _ | .killed j => j = i
  | _ => False

/-- The record's pid is not another slot's worker. -/
def State.Owns (s : State) (child : Child) : Prop :=
  ∀ p ∈ s.table.procs, p.pid = child.pid → p.tag = child.slot

instance (s : State) (child : Child) : Decidable (s.Owns child) :=
  inferInstanceAs (Decidable (∀ p ∈ s.table.procs, p.pid = child.pid → p.tag = child.slot))

lemma State.owns_iff {s : State} {child : Child} :
    s.Owns child ↔ ∀ slot, s.table.Holds child.pid slot → slot = child.slot := by
  constructor
  · rintro h _ ⟨p, hp, hpid, rfl⟩
    exact h p hp hpid
  · exact fun h p hp hpid => h p.tag ⟨p, hp, hpid, rfl⟩

/-- The process that is reaped, and the child that is asked to drain, are those of the record. -/
def OwnedAt (s : State) (answer : Option ℕ) : Control → Prop
  | .reaping =>
      ∀ pid ∈ answer, ∀ child ∈ s.children.find? fun child => child.pid = pid, s.Owns child
  | .reloading i => ∀ child ∈ s.children[i]?, s.Owns child
  | _ => True

def Owned (s : State) : Action → Prop
  | .master answer => OwnedAt s answer s.control
  | _ => True

instance (s : State) (answer : Option ℕ) (c : Control) : Decidable (OwnedAt s answer c) :=
  match c with
  | .reaping => inferInstanceAs (Decidable (∀ pid ∈ answer,
      ∀ child ∈ s.children.find? fun child => child.pid = pid, s.Owns child))
  | .reloading i => inferInstanceAs (Decidable (∀ child ∈ s.children[i]?, s.Owns child))
  | .starting _ | .sleeping | .respawning _ | .retrying _ | .signalling | .waiting _ _ | .killed _
  | .replacing _ | .checking | .returned _ => isTrue trivial

instance (s : State) (a : Action) : Decidable (Owned s a) :=
  match a with
  | .master answer => inferInstanceAs (Decidable (OwnedAt s answer s.control))
  | .exits _ _ | .receives _ | .elapses _ => isTrue trivial

/-- A fresh worker for a child of the list has the child's slot. -/
lemma map_slot_set {children : List Child} {i pid : ℕ} {child : Child}
    (hi : children[i]? = some child) :
    (children.set i { slot := child.slot, pid := pid, retryAt := none }).map Child.slot =
      children.map Child.slot := by
  obtain ⟨hlt, rfl⟩ := List.getElem?_eq_some_iff.mp hi
  rw [List.map_set, ← List.getElem_map Child.slot (h := by simpa using hlt)]
  exact List.set_getElem_self _

lemma map_slot_eraseIdx {children : List Child} {i : ℕ} (hlt : i < children.length) :
    ((children.eraseIdx i).map Child.slot ++ [children[i].slot]).Perm
      (children.map Child.slot) := by
  rw [← List.map_singleton, ← List.map_append]
  refine List.Perm.map _ (List.perm_append_comm.trans ?_)
  exact List.getElem_cons_eraseIdx_perm hlt

structure Inv (cfg : Config) (s : State) : Prop where
  nodup : (s.slots cfg).Nodup
  staffed : ∀ child ∈ s.children, child.retryAt = none → child.slot ∉ s.unreplaced →
    (∀ i, s.control = .replacing i → s.children[i]? ≠ some child) →
    s.table.Holds child.pid child.slot
  awaited : ∀ i child, s.control.awaits i → s.children[i]? = some child → s.Owns child

lemma inv_init (cfg : Config) : Inv cfg init where
  nodup := by simpa [State.slots, init, Control.slots] using List.nodup_range'
  staffed := by simp [init]
  awaited := by simp [init]

section

variable {cfg : Config} {s s' : State}

/-- The children of the list have slots of their own. -/
lemma Inv.child_eq (h : Inv cfg s) {child other : Child} (hc : child ∈ s.children)
    (ho : other ∈ s.children) (hslot : child.slot = other.slot) : child = other :=
  List.inj_on_of_nodup_map h.nodup.of_append_left hc ho hslot

/-- A step that leaves the list and the processes alone, and takes nothing in hand. -/
lemma Inv.frame (h : Inv cfg s) (htable : ∀ p t, s'.table.Holds p t ↔ s.table.Holds p t)
    (hchildren : s'.children = s.children) (hun : s'.unreplaced = s.unreplaced)
    (hslots : (s'.control.slots cfg).Sublist (s.control.slots cfg))
    (hrep : ∀ i, s.control = .replacing i → s'.control = .replacing i)
    (hawaits : ∀ i child, s'.control.awaits i → s.children[i]? = some child → s.Owns child) :
    Inv cfg s' where
  nodup := by
    refine h.nodup.sublist ?_
    rw [State.slots, State.slots, hchildren]
    exact (List.Sublist.refl _).append hslots
  staffed := by
    intro child hc hretry hslot hnot
    rw [hchildren] at hc hnot
    rw [hun] at hslot
    exact (htable _ _).mpr (h.staffed child hc hretry hslot fun i hi => hnot i (hrep i hi))
  awaited := by
    intro i child hi hc
    rw [hchildren] at hc
    refine State.owns_iff.mpr fun slot hslot => ?_
    exact State.owns_iff.mp (hawaits i child hi hc) slot ((htable _ _).mp hslot)

/-- A fresh worker for a slot that was in hand goes to the end of the list. -/
lemma Inv.append (h : Inv cfg s) {slot pid : ℕ} {T : ProcessTable ℕ} {c : Control}
    (hT : s.table.fork pid slot = some T)
    (hslots : s.control.slots cfg = slot :: c.slots cfg)
    (hrep : ∀ i, s.control ≠ .replacing i) (hawaits : ∀ i, ¬ c.awaits i) :
    Inv cfg { s with
      table := T
      children := s.children ++ [{ slot := slot, pid := pid, retryAt := none }]
      control := c } where
  nodup := by
    have hnodup := h.nodup
    rw [State.slots, hslots] at hnodup
    simpa [State.slots] using hnodup
  staffed := by
    intro child hc hretry hslot _
    rcases List.mem_append.mp hc with hc | hc
    · have hheld := h.staffed child hc hretry hslot fun i hi => absurd hi (hrep i)
      exact (ProcessTable.holds_fork hT).mpr (.inr hheld)
    · obtain rfl := List.mem_singleton.mp hc
      exact (ProcessTable.holds_fork hT).mpr (.inl ⟨rfl, rfl⟩)
  awaited := fun i _ hi => absurd hi (hawaits i)

/-- A fresh worker takes the place of the child it is forked for. -/
lemma Inv.set (h : Inv cfg s) {i pid : ℕ} {child : Child} {T : ProcessTable ℕ} {c : Control}
    {un : List ℕ} (hi : s.children[i]? = some child)
    (hT : s.table.fork pid child.slot = some T) (hslots : c.slots cfg = s.control.slots cfg)
    (hrep : ∀ j, s.control = .replacing j → j = i) (hawaits : ∀ j, ¬ c.awaits j)
    (hun : ∀ slot, slot ≠ child.slot → slot ∉ un → slot ∉ s.unreplaced) :
    Inv cfg { s with
      table := T
      children := s.children.set i { slot := child.slot, pid := pid, retryAt := none }
      control := c
      unreplaced := un } where
  nodup := by
    have hnodup := h.nodup
    rw [State.slots, ← map_slot_set hi, ← hslots] at hnodup
    exact hnodup
  staffed := by
    intro other ho hretry hslot _
    obtain ⟨j, hj⟩ := List.mem_iff_getElem?.mp ho
    rw [List.getElem?_set] at hj
    split at hj
    case isTrue hij =>
      split at hj
      · obtain rfl := Option.some.inj hj
        exact (ProcessTable.holds_fork hT).mpr (.inl ⟨rfl, rfl⟩)
      · cases hj
    case isFalse hij =>
      have hmem : other ∈ s.children := List.mem_of_getElem? hj
      have hne : other.slot ≠ child.slot := by
        intro heq
        obtain rfl := h.child_eq hmem (List.mem_of_getElem? hi) heq
        have hlt := (List.getElem?_eq_some_iff.mp hi).1
        exact hij ((List.getElem?_inj hlt (h.nodup.of_append_left.of_map _)).mp (hi.trans hj.symm))
      refine (ProcessTable.holds_fork hT).mpr (.inr ?_)
      refine h.staffed other hmem hretry (hun _ hne hslot) fun k hk heq => ?_
      obtain rfl := hrep k hk
      obtain rfl := Option.some.inj (hi.symm.trans heq)
      exact hne rfl
  awaited := fun j _ hj => absurd hj (hawaits j)

/-- Whatever else is on the list keeps its process when a record's own process is reaped. -/
lemma Inv.holds_reap (h : Inv cfg s) {child other : Child} (hown : s.Owns child)
    (hc : child ∈ s.children) (ho : other ∈ s.children) (hne : other ≠ child)
    (hheld : s.table.Holds other.pid other.slot) :
    (s.table.reap child.pid).Holds other.pid other.slot := by
  refine ProcessTable.holds_reap.mpr ⟨fun hpid => hne ?_, hheld⟩
  rw [hpid] at hheld
  exact h.child_eq ho hc (State.owns_iff.mp hown other.slot hheld)

/-- The record's process has been reaped, and the record is the one in hand. -/
lemma Inv.reaped (h : Inv cfg s) {i : ℕ} {child : Child} (hi : s.children[i]? = some child)
    (hown : s.Owns child) (hslots : s.control.slots cfg = [])
    (hrep : ∀ j, s.control ≠ .replacing j) :
    Inv cfg { s with table := s.table.reap child.pid, control := .replacing i } where
  nodup := by
    have hnodup := h.nodup
    rw [State.slots, hslots] at hnodup
    exact hnodup
  staffed := by
    intro other ho hretry hslot hnot
    have hne : other ≠ child := fun heq => hnot i rfl (heq ▸ hi)
    refine h.holds_reap hown (List.mem_of_getElem? hi) ho hne ?_
    exact h.staffed other ho hretry hslot fun j hj => absurd hj (hrep j)
  awaited := fun _ _ hj => hj.elim

/-- The three ends of the reaping loop's body. -/
lemma ended_cases (cfg : Config) (s : State) (child : Child) (status : ℕ) : ∃ w m r,
    ((s.shutdownDeadline.isSome ∨ cfg.respawn = false) ∧
      State.ended cfg s child status = { s with worstStatus := w, control := .reaping }) ∨
    State.ended cfg s child status =
      { s with
        worstStatus := w
        minute := m
        restartsThisMinute := r
        children := s.children ++ [{ child with retryAt := some (s.now + restartPause) }]
        control := .reaping } ∨
    State.ended cfg s child status =
      { s with
        worstStatus := w
        minute := m
        restartsThisMinute := r
        control := .respawning child.slot } := by
  unfold State.ended
  by_cases hover : (s.shutdownDeadline.isSome || !cfg.respawn) = true
  · refine ⟨_, s.minute, s.restartsThisMinute, .inl ⟨by simpa using hover, if_pos hover⟩⟩
  · simp only [if_neg hover]
    split <;> split
    · exact ⟨_, _, _, .inr (.inl rfl)⟩
    · exact ⟨_, _, _, .inr (.inr rfl)⟩
    · exact ⟨_, _, _, .inr (.inl rfl)⟩
    · exact ⟨_, _, _, .inr (.inr rfl)⟩

/-- A worker of the list has been reaped by `reap_one`. -/
lemma Inv.ended (h : Inv cfg s) (hc : s.control = .reaping) {index status : ℕ} {child : Child}
    (hchild : s.children[index]? = some child) (hown : s.Owns child) :
    Inv cfg (State.ended cfg { s with
      table := s.table.reap child.pid, children := s.children.eraseIdx index } child status) := by
  have hslots : (s.children.map Child.slot).Nodup := h.nodup.of_append_left
  have hsub : (s.children.eraseIdx index).Sublist s.children := List.eraseIdx_sublist _ _
  obtain ⟨hlt, rfl⟩ := List.getElem?_eq_some_iff.mp hchild
  have hperm := map_slot_eraseIdx hlt
  have hstaffed : ∀ other ∈ s.children.eraseIdx index, other.retryAt = none →
      other.slot ∉ s.unreplaced →
      (s.table.reap s.children[index].pid).Holds other.pid other.slot := by
    intro other ho hretry hslot
    have hmem := hsub.subset ho
    refine h.holds_reap hown (List.getElem_mem hlt) hmem ?_ ?_
    · rintro rfl
      have hnodup := hperm.nodup_iff.mpr hslots
      refine (List.nodup_append.mp hnodup).2.2 _ (List.mem_map_of_mem ho) _ ?_ rfl
      exact List.mem_singleton_self _
    · exact h.staffed other hmem hretry hslot fun j hj => by simp [hc] at hj
  rcases ended_cases cfg { s with
      table := s.table.reap s.children[index].pid, children := s.children.eraseIdx index }
    s.children[index] status with ⟨w, m, r, ⟨-, heq⟩ | heq | heq⟩
  · rw [heq]
    refine ⟨?_, fun other ho hretry hslot _ => hstaffed other ho hretry hslot,
      fun _ _ hj => hj.elim⟩
    simpa [State.slots, Control.slots] using hslots.sublist (hsub.map Child.slot)
  · rw [heq]
    refine ⟨?_, fun other ho hretry hslot _ => ?_, fun _ _ hj => hj.elim⟩
    · simpa [State.slots, Control.slots] using hperm.nodup_iff.mpr hslots
    · rcases List.mem_append.mp ho with ho | ho
      · exact hstaffed other ho hretry hslot
      · obtain rfl := List.mem_singleton.mp ho
        cases hretry
  · rw [heq]
    refine ⟨?_, fun other ho hretry hslot _ => hstaffed other ho hretry hslot,
      fun _ _ hj => hj.elim⟩
    simpa [State.slots, Control.slots] using hperm.nodup_iff.mpr hslots

/-- **The step lemma.** -/
theorem Inv.step (h : Inv cfg s) {a : Action} (hown : Owned s a)
    (hstep : step cfg s a = some s') : Inv cfg s' := by
  have heffect := effect_of_step hstep
  cases heffect with
  | exits pid status =>
      exact h.frame (fun _ _ => ProcessTable.holds_exit) rfl rfl (List.Sublist.refl _)
        (fun _ hi => hi) h.awaited
  | receives | elapses => exact ⟨h.nodup, h.staffed, h.awaited⟩
  | waits => exact h
  | @started slot pid T hc hslot hT =>
      refine h.append hT ?_ (by simp [hc]) fun _ hi => hi
      have hpos : cfg.count - slot = (cfg.count - (slot + 1)) + 1 := by omega
      rw [hc, Control.slots, Control.slots, hpos, List.range'_succ]
  | respawned hc hT =>
      refine h.append hT ?_ (by simp [hc]) fun _ hi => hi
      rw [hc]
      rfl
  | reapedStranger hc hpid =>
      refine ⟨h.nodup.sublist ?_, fun child hchild hretry hslot _ => ?_, fun _ _ hi => hi.elim⟩
      · exact (List.Sublist.refl _).append (by simp [Control.slots])
      · refine ProcessTable.holds_reap.mpr ⟨hpid child hchild, ?_⟩
        exact h.staffed child hchild hretry hslot fun i hi => by simp [hc] at hi
  | @reaped pid status index child hc hindex hchild =>
      obtain ⟨hlt, hpid, -⟩ := List.findIdx?_eq_some_iff_getElem.mp hindex
      have hget := (List.getElem?_eq_some_iff.mp hchild).2
      obtain rfl : child.pid = pid := by simpa [hget] using hpid
      refine h.ended hc hchild ?_
      simp only [Owned, OwnedAt, hc] at hown
      refine hown _ rfl child ?_
      rw [List.find?_eq_bind_findIdx?_getElem?, hindex]
      exact hchild
  | retried hc hi hretry hdue hT =>
      exact h.set hi hT (by rw [hc]; rfl) (by simp [hc]) (fun _ hj => hj) fun _ _ hslot => hslot
  | replaced hc hi hT =>
      refine h.set hi hT (by rw [hc]; rfl) (by simp [hc]) (fun _ hj => hj) ?_
      exact fun slot hne hslot hmem => hslot (List.mem_filter.mpr ⟨hmem, by simpa using hne⟩)
  | @asked i child _ hc hi =>
      refine h.frame (fun _ _ => Iff.rfl) rfl rfl (by simp [hc, Control.slots]) (by simp [hc]) ?_
      rintro j other rfl hj
      simp only [Owned, OwnedAt, hc] at hown
      exact hown other hj
  | drained hc hi =>
      exact h.reaped hi (h.awaited _ _ (by rw [hc]; rfl) hi) (by rw [hc]; rfl) (by simp [hc])
  | waited hc hi =>
      exact h.reaped hi (h.awaited _ _ (by rw [hc]; rfl) hi) (by rw [hc]; rfl) (by simp [hc])
  | timedOut hc hi =>
      refine h.frame (fun _ _ => Iff.rfl) rfl rfl (by simp [hc, Control.slots]) (by simp [hc]) ?_
      rintro j other rfl hj
      exact h.awaited _ _ (by rw [hc]; rfl) hj
  | @replaceFailed i child hc hi =>
      refine ⟨h.nodup.sublist ?_, fun other ho hretry hslot _ => ?_, fun _ _ hj => hj.elim⟩
      · exact (List.Sublist.refl _).append (by simp [Control.slots])
      · refine h.staffed other ho hretry ?_ fun j hj heq => ?_
        · split at hslot
          · exact fun hmem => hslot (List.mem_cons_of_mem _ hmem)
          · exact hslot
        · obtain rfl : i = j := by simpa [hc] using hj
          obtain rfl := Option.some.inj (hi.symm.trans heq)
          simp [hretry] at hslot
  | startFailed hc | startDone hc | woke hc | allRun hc | respawnFailed hc | retriedAll hc
  | notRetried hc | noSignal hc | reloads hc | shutsDown hc | reloadedAll hc | returns hc
  | loops hc =>
      exact h.frame (fun _ _ => Iff.rfl) rfl rfl (by simp [hc, Control.slots]) (by simp [hc])
        fun _ _ hi => hi.elim

end

end Workers

end Ignis
