import Ignis.Workers.Staffing

/-!
# Whom the master signals

`forward` and `reload_one_at_a_time` take the pid of every child on the list.  A slot that is paused
is on the list with the pid of the worker that ended, and so is a slot whose fork failed in a
reload: to signal those is to signal a process that is gone, or whichever process has the pid now.

`Serving` asks that no such slot is on the list when the master acts on a signal or gives up the
drain.  What is on the list when a reload begins stays in order until the reload comes to it, which
is `Ready.pending`, and so every pid passed to `kill` is that of a worker not yet reaped.
-/

namespace Ignis

namespace Workers

/-- No slot is paused, and none is left over from a failed reload. -/
def AllServe (s : State) : Prop :=
  ∀ child ∈ s.children, child.retryAt = none ∧ child.slot ∉ s.unreplaced

instance (s : State) : Decidable (AllServe s) :=
  inferInstanceAs (Decidable (∀ child ∈ s.children,
    child.retryAt = none ∧ child.slot ∉ s.unreplaced))

/-- The drain of the master has run out of time. -/
def State.Overdue (s : State) : Prop :=
  ∃ deadline ∈ s.shutdownDeadline, deadline < s.now

instance (s : State) : Decidable s.Overdue :=
  inferInstanceAs (Decidable (∃ deadline ∈ s.shutdownDeadline, deadline < s.now))

/-- What is asked of the state in which the master acts, and of the process that is reaped. -/
def ServingAt (s : State) (answer : Option ℕ) : Control → Prop
  | .reaping => OwnedAt s answer .reaping
  | .signalling => s.pendingSignal ≠ none → AllServe s
  | .checking => s.Overdue → AllServe s
  | _ => True

/-- When the master acts on a signal, or gives up the drain, every slot of the list serves; and what
is reaped is the record's own process. -/
def Serving (s : State) : Action → Prop
  | .master answer => ServingAt s answer s.control
  | _ => True

instance (s : State) (answer : Option ℕ) (c : Control) : Decidable (ServingAt s answer c) :=
  match c with
  | .reaping => inferInstanceAs (Decidable (OwnedAt s answer .reaping))
  | .signalling => inferInstanceAs (Decidable (s.pendingSignal ≠ none → AllServe s))
  | .checking => inferInstanceAs (Decidable (s.Overdue → AllServe s))
  | .starting _ | .sleeping | .respawning _ | .retrying _ | .reloading _ | .waiting _ _ | .killed _
  | .replacing _ | .returned _ => isTrue trivial

instance (s : State) (a : Action) : Decidable (Serving s a) :=
  match a with
  | .master answer => inferInstanceAs (Decidable (ServingAt s answer s.control))
  | .exits _ _ | .receives _ | .elapses _ => isTrue trivial

/-- The children a reload has still to deal with. -/
def Control.pending : Control → Option ℕ
  | .reloading i | .waiting i _ | .killed i | .replacing i => some i
  | _ => none

structure Ready (cfg : Config) (s : State) : Prop extends Inv cfg s where
  pending : ∀ i ∈ s.control.pending, ∀ j child, i ≤ j → s.children[j]? = some child →
    child.retryAt = none ∧ child.slot ∉ s.unreplaced

lemma ready_init (cfg : Config) : Ready cfg init where
  toInv := inv_init cfg
  pending := by simp [init, Control.pending]

section

variable {cfg : Config} {s s' : State}

/-- Every child of a list on which all slots serve has a worker. -/
lemma Inv.unreaped (h : Inv cfg s) (hall : AllServe s) (hrep : ∀ i, s.control ≠ .replacing i)
    {child : Child} (hc : child ∈ s.children) : s.table.Unreaped child.pid := by
  obtain ⟨hretry, hslot⟩ := hall child hc
  exact (h.staffed child hc hretry hslot fun i hi => absurd hi (hrep i)).unreaped

/-- The child a reload is about to signal, or waits for, has a worker of its own. -/
lemma Ready.holds (h : Ready cfg s) {i : ℕ} {child : Child} (hi : i ∈ s.control.pending)
    (hrep : ∀ j, s.control ≠ .replacing j) (hchild : s.children[i]? = some child) :
    s.table.Holds child.pid child.slot := by
  obtain ⟨hretry, hslot⟩ := h.pending i hi i child (Nat.le_refl i) hchild
  exact h.staffed child (List.mem_of_getElem? hchild) hretry hslot fun j hj => absurd hj (hrep j)

/-- A run that meets `Serving` meets `Owned`. -/
lemma Ready.owned (h : Ready cfg s) {a : Action} (hok : Serving s a) : Owned s a := by
  cases a with
  | exits | receives | elapses => trivial
  | master answer =>
      cases hc : s.control with
      | reaping =>
          simp only [Serving, ServingAt, hc] at hok
          simpa only [Owned, hc] using hok
      | reloading i =>
          simp only [Owned, hc]
          intro child hchild
          refine State.owns_iff.mpr fun slot hslot => ?_
          have hheld := h.holds (by rw [hc]; rfl) (by simp [hc]) hchild
          exact hslot.unique hheld
      | _ => simp only [Owned, hc, OwnedAt]

/-- A step after which no reload is under way. -/
lemma Ready.of_inv (h : Inv cfg s) (hc : s.control.pending = none) : Ready cfg s where
  toInv := h
  pending := by simp [hc]

/-- A step of a reload that leaves the list alone and does not go back. -/
lemma Ready.frame (h : Ready cfg s) (hinv : Inv cfg s') (hchildren : s'.children = s.children)
    (hun : s'.unreplaced = s.unreplaced)
    (hpending : ∀ i ∈ s'.control.pending, ∃ j ∈ s.control.pending, j ≤ i) : Ready cfg s' where
  toInv := hinv
  pending := by
    intro i hi j child hij hj
    obtain ⟨k, hk, hki⟩ := hpending i hi
    rw [hchildren] at hj
    rw [hun]
    exact h.pending k hk j child (Nat.le_trans hki hij) hj

/-- **The step lemma.** -/
theorem Ready.step (h : Ready cfg s) {a : Action} (hok : Serving s a)
    (hstep : step cfg s a = some s') : Ready cfg s' := by
  have hinv : Inv cfg s' := h.toInv.step (h.owned hok) hstep
  have heffect := effect_of_step hstep
  cases heffect with
  | exits | receives | elapses | waits =>
      exact h.frame hinv rfl rfl fun i hi => ⟨i, hi, Nat.le_refl i⟩
  | @reloads _ hc hsig =>
      refine ⟨hinv, fun i hi j child _ hj => ?_⟩
      simp only [Serving, ServingAt, hc, hsig] at hok
      exact hok (by simp) child (List.mem_of_getElem? hj)
  | @asked i child _ hc hi | @drained i _ child _ hc hi | @timedOut i _ child _ hc hi
  | @waited i child _ hc hi =>
      refine h.frame hinv rfl rfl fun j hj => ⟨j, ?_, Nat.le_refl j⟩
      rw [hc]
      exact hj
  | @replaced i pid child T hc hi hT =>
      refine ⟨hinv, fun j hj k other hjk hk => ?_⟩
      obtain rfl : i + 1 = j := by simpa [Control.pending] using hj
      rw [List.getElem?_set_ne (by omega)] at hk
      obtain ⟨hretry, hslot⟩ := h.pending i (by rw [hc]; rfl) k other (by omega) hk
      exact ⟨hretry, fun hmem => hslot (List.mem_of_mem_filter hmem)⟩
  | @replaceFailed i child hc hi =>
      refine ⟨hinv, fun j hj k other hjk hk => ?_⟩
      obtain rfl : i + 1 = j := by simpa [Control.pending] using hj
      obtain ⟨hretry, hslot⟩ := h.pending i (by rw [hc]; rfl) k other (by omega) hk
      refine ⟨hretry, ?_⟩
      have hne : other.slot ≠ child.slot := by
        intro heq
        obtain rfl := h.child_eq (List.mem_of_getElem? hk) (List.mem_of_getElem? hi) heq
        have hlt := (List.getElem?_eq_some_iff.mp hi).1
        have hnodup := h.nodup.of_append_left.of_map Child.slot
        have hik := (List.getElem?_inj hlt hnodup).mp (hi.trans hk.symm)
        omega
      split
      · exact List.not_mem_cons_of_ne_of_not_mem hne hslot
      · exact hslot
  | reaped =>
      refine Ready.of_inv hinv ?_
      rcases ended_cases cfg _ _ _ with ⟨w, m, r, ⟨-, heq⟩ | heq | heq⟩ <;> rw [heq] <;> rfl
  | _ => exact Ready.of_inv hinv rfl

/-- A step that calls no `kill`. -/
lemma kills_quiet (out : Option State) :
    ((out.map (·, ([] : List ℕ))).map Prod.snd).getD [] = [] := by
  cases out <;> rfl

/-- What the master passes to `kill`, at each place of its loop where it does. -/
lemma mem_kills {a : Action} {pid : ℕ} (hpid : pid ∈ kills cfg s a) :
    ∃ child ∈ s.children, child.pid = pid ∧
      ((s.control = .signalling ∧ s.pendingSignal ≠ none) ∨
        (s.control = .checking ∧ s.Overdue) ∨
        ∃ i ∈ s.control.pending, s.children[i]? = some child ∧ ∀ j, s.control ≠ .replacing j) := by
  cases a with
  | exits | receives | elapses => simp [kills] at hpid
  | master answer =>
      cases hc : s.control with
      | signalling =>
          simp only [kills, advance, hc, State.handle] at hpid
          split at hpid
          · simp at hpid
          · simp at hpid
          case h_3 signal hhup hsig =>
            obtain ⟨child, hchild, rfl⟩ : ∃ child ∈ s.children, child.pid = pid := by
              simpa [forward] using hpid
            exact ⟨child, hchild, rfl, .inl ⟨rfl, by simp [hsig]⟩⟩
      | checking =>
          simp only [kills, advance, hc, State.check] at hpid
          split at hpid
          · simp at hpid
          · split at hpid
            case isTrue hover =>
              obtain ⟨child, hchild, rfl⟩ : ∃ child ∈ s.children, child.pid = pid := by
                simpa [forward] using hpid
              exact ⟨child, hchild, rfl, .inr (.inl ⟨rfl, hover⟩)⟩
            case isFalse => simp at hpid
      | reloading i =>
          simp only [kills, advance, hc, State.reload] at hpid
          split at hpid
          · simp at hpid
          case h_2 child hi =>
            obtain rfl : pid = child.pid := by simpa using hpid
            exact ⟨child, List.mem_of_getElem? hi, rfl, .inr (.inr ⟨i, rfl, hi, by simp⟩)⟩
      | waiting i deadline =>
          cases hi : s.children[i]? with
          | none => simp [kills, advance, hc, State.waitFor, hi] at hpid
          | some child =>
              simp only [kills, advance, hc, State.waitFor, hi, Option.map_some,
                Option.getD_some] at hpid
              split at hpid
              · simp at hpid
              · split at hpid
                · obtain rfl : pid = child.pid := by simpa using hpid
                  exact ⟨child, List.mem_of_getElem? hi, rfl, .inr (.inr ⟨i, rfl, hi, by simp⟩)⟩
                · simp at hpid
      | sleeping | returned status => simp [kills, advance, hc] at hpid
      | starting slot | reaping | respawning slot | retrying i | killed i | replacing i =>
          simp only [kills, advance, hc, kills_quiet, List.not_mem_nil] at hpid

/-- **The master signals its own workers.** -/
theorem kills_unreaped {as : List Action}
    (hok : StepSystem.Along (Workers.step cfg) Serving init as) :
    StepSystem.Along (Workers.step cfg)
      (fun s a => ∀ pid ∈ kills cfg s a, s.table.Unreaped pid) init as := by
  refine StepSystem.along_of_invariant (Workers.step cfg) (I := Ready cfg)
    (fun s a s' hI hsa hstep => hI.step hsa hstep) (fun s a hI hsa pid hpid => ?_)
    (ready_init cfg) hok
  obtain ⟨child, hchild, rfl, ⟨hc, hsig⟩ | ⟨hc, hover⟩ | ⟨i, hi, hget, hrep⟩⟩ := mem_kills hpid
  · cases a with
    | exits | receives | elapses => simp [kills] at hpid
    | master answer =>
        simp only [Serving, ServingAt, hc] at hsa
        exact hI.unreaped (hsa hsig) (by simp [hc]) hchild
  · cases a with
    | exits | receives | elapses => simp [kills] at hpid
    | master answer =>
        simp only [Serving, ServingAt, hc] at hsa
        exact hI.unreaped (hsa hover) (by simp [hc]) hchild
  · exact (hI.holds hi hrep hget).unreaped

end

/-- The loop from the end of the reaping to the pending signal, with one child on the list. -/
def actOn (signal : Signal) : List Action :=
  [.master none, .master none, .master none, .receives signal, .master none]

/-- A worker that serves is told to shut down. -/
theorem kills_unreaped_term :
    StepSystem.Along (step ⟨1, true, 10000⟩)
      (fun s a => ∀ pid ∈ kills ⟨1, true, 10000⟩ s a, s.table.Unreaped pid) init
      (([.master (some 100), .master none, .master none] : List Action) ++ actOn .term) :=
  kills_unreaped (by decide)

/-- A worker and its ten replacements end within a minute, and the slot is paused. -/
def crashLoop : List Action :=
  ([.master (some 100), .master none, .master none] : List Action) ++
    (List.range 10).flatMap (fun k =>
      ([.exits (100 + k) 1, .master (some (100 + k)), .master (some (101 + k))] : List Action)) ++
    ([.exits 110 1, .master (some 110)] : List Action)

/-- The paused slot still has the pid of the worker that was reaped, and the shutdown signal is
forwarded to it. -/
theorem paused_slot_killed : ∃ s,
    StepSystem.runFrom (step ⟨1, true, 10000⟩) init (crashLoop ++ (actOn .term).dropLast) =
      some s ∧
    ∃ pid ∈ kills ⟨1, true, 10000⟩ s (.master none), ¬ s.table.Unreaped pid :=
  ⟨_, rfl, by decide⟩

end Workers

end Ignis
