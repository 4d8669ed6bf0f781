import Ignis.Workers.Signals

/-!
# The end of the master

Two questions about a stop signal: whether the master acts on it, and whether what it does then is
the end.

`PENDING_SIGNAL` holds one signal, the last that arrived.  `stop_heeded_iff` says of a stop signal
that the next swap acts on it exactly when no `SIGHUP` took its place.

Once the shutdown deadline is set, the reaping loop forks for nobody.  The other two loops do not
look at the deadline: a paused slot is retried and a `SIGHUP` reloads as before.  `Stopping` is the
condition that neither has anything to work on, and `shutdown_final` is the result for every run
that meets it.
-/

namespace Ignis

namespace Workers

section

variable {cfg : Config} {s s' t : State}

/-- The step swaps `PENDING_SIGNAL`. -/
def Swaps (s : State) : Action → Prop
  | .master _ => s.control = .signalling
  | _ => False

instance (s : State) (a : Action) : Decidable (Swaps s a) :=
  match a with
  | .master _ => inferInstanceAs (Decidable (s.control = .signalling))
  | .exits _ _ | .receives _ | .elapses _ => isFalse id

/-- The signals that arrive in the course of a run. -/
def received (as : List Action) : List Signal :=
  as.filterMap fun
    | .receives signal => some signal
    | _ => none

/-- A step other than the swap does not touch `PENDING_SIGNAL` or the deadline. -/
lemma step_unswapped {a : Action} (hstep : step cfg s a = some s') (hno : ¬ Swaps s a) :
    s'.pendingSignal = (received [a]).getLast?.or s.pendingSignal ∧
      s'.shutdownDeadline = s.shutdownDeadline := by
  have heffect := effect_of_step hstep
  cases heffect with
  | receives => exact ⟨rfl, rfl⟩
  | noSignal hc | reloads hc | shutsDown hc => exact absurd hc hno
  | reaped =>
      rcases ended_cases cfg _ _ _ with ⟨w, m, r, ⟨-, heq⟩ | heq | heq⟩ <;> rw [heq] <;>
        exact ⟨rfl, rfl⟩
  | _ => exact ⟨rfl, rfl⟩

/-- Between two swaps the slot holds the last signal that arrived. -/
lemma run_unswapped {as : List Action} (h : StepSystem.runFrom (step cfg) s as = some t)
    (hno : StepSystem.Along (step cfg) (fun s a => ¬ Swaps s a) s as) :
    t.pendingSignal = (received as).getLast?.or s.pendingSignal ∧
      t.shutdownDeadline = s.shutdownDeadline := by
  induction as generalizing s with
  | nil =>
      obtain rfl := Option.some.inj h
      exact ⟨rfl, rfl⟩
  | cons a as ih =>
      obtain ⟨u, hu, hrun⟩ := (StepSystem.runFrom_cons _).mp h
      obtain ⟨hsignal, hdeadline⟩ := step_unswapped hu hno.1
      obtain ⟨hsignals, hdeadlines⟩ := ih hrun (hno.2 u hu)
      have happ : received (a :: as) = received [a] ++ received as :=
        List.filterMap_append (l := [a])
      refine ⟨?_, hdeadlines.trans hdeadline⟩
      rw [hsignals, hsignal, happ, List.getLast?_append, Option.or_assoc]

/-- The swap sets the deadline for a stop signal, and for nothing else. -/
lemma deadline_handle (cfg : Config) (s : State) :
    (s.handle cfg).1.shutdownDeadline.isSome ↔
      s.shutdownDeadline.isSome ∨ ∃ signal ∈ s.pendingSignal, signal ≠ .hup := by
  unfold State.handle
  split
  case h_1 hsig => simp [hsig]
  case h_2 hsig => simp [hsig]
  case h_3 signal hhup hsig => simpa [hsig] using .inr hhup

/-- **When a stop signal is heeded.**  It arrives in `s`, and `as` is what happens up to the next
swap. -/
theorem stop_heeded_iff {as : List Action} {stop : Signal} (hstop : stop ≠ .hup)
    (h : StepSystem.runFrom (step cfg) s (.receives stop :: as) = some t)
    (hno : StepSystem.Along (step cfg) (fun s a => ¬ Swaps s a) s (.receives stop :: as))
    (ht : t.control = .signalling) {answer : Option ℕ}
    (hswap : step cfg t (.master answer) = some s') :
    s'.shutdownDeadline.isSome ↔
      s.shutdownDeadline.isSome ∨ (received as).getLast? ≠ some .hup := by
  obtain ⟨hsignal, hdeadline⟩ := run_unswapped h hno
  have hs' : s' = (t.handle cfg).1 := by
    simpa [step, advance, ht] using hswap.symm
  have hlast : t.pendingSignal = some ((received as).getLast?.getD stop) := by
    rw [hsignal]
    simp [received, List.getLast?_cons]
  rw [hs', deadline_handle, hdeadline, hlast]
  refine or_congr_right ?_
  cases hget : (received as).getLast? with
  | none => simpa using hstop
  | some signal => simp

end

/-- From the start, with the signals that follow, to the first swap of a master of one worker. -/
def upToSwap (signals : List Signal) : List Action :=
  signals.map Action.receives ++ .master (some 100) :: List.replicate 5 (Action.master none)

/-- An interrupt after a reload's signal stops the master. -/
theorem stop_heeded_iff_int : ∃ t s',
    StepSystem.runFrom (step ⟨1, true, 10000⟩) init (.receives .term :: upToSwap [.hup, .int]) =
      some t ∧
    step ⟨1, true, 10000⟩ t (.master none) = some s' ∧
    (s'.shutdownDeadline.isSome ↔
      init.shutdownDeadline.isSome ∨ (received (upToSwap [.hup, .int])).getLast? ≠ some .hup) :=
  ⟨_, _, rfl, rfl, @stop_heeded_iff ⟨1, true, 10000⟩ init _ _ (upToSwap [.hup, .int]) .term
    (by decide) rfl (by decide) rfl none rfl⟩

/-- A reload's signal takes the place of the stop signal, and the swap begins a reload. -/
theorem stop_erased : ∃ t s',
    StepSystem.runFrom (step ⟨1, true, 10000⟩) init (.receives .term :: upToSwap [.hup]) =
      some t ∧
    StepSystem.Along (step ⟨1, true, 10000⟩) (fun s a => ¬ Swaps s a) init
      (.receives .term :: upToSwap [.hup]) ∧
    t.control = .signalling ∧ step ⟨1, true, 10000⟩ t (.master none) = some s' ∧
    s'.shutdownDeadline = none ∧ s'.control = .reloading 0 :=
  ⟨_, _, rfl, by decide, rfl, rfl, rfl, rfl⟩

/-! ## After the deadline is set -/

/-- The step forks a process. -/
def Forks (cfg : Config) (s : State) (a : Action) : Prop :=
  ∃ s', step cfg s a = some s' ∧ ∃ pid, s'.table.Unreaped pid ∧ ¬ s.table.Unreaped pid

/-- What is asked of the swap: a stop signal finds every slot of the list serving, and a `SIGHUP`
after it finds the list empty. -/
def StoppingAt (s : State) : Control → Prop
  | .signalling =>
      (s.pendingSignal = some .hup → s.shutdownDeadline.isSome → s.children = []) ∧
        ((∃ signal ∈ s.pendingSignal, signal ≠ .hup) → AllServe s)
  | _ => True

/-- The master stops with its slots in order, and what it reaps and signals is the record's own
process. -/
def Stopping (s : State) (a : Action) : Prop :=
  Owned s a ∧ ∀ answer, a = .master answer → StoppingAt s s.control

/-- The places of the loop that the master still passes once it stops. -/
def Control.calm : Control → Prop
  | .starting _ | .respawning _ | .waiting _ _ | .killed _ | .replacing _ => False
  | _ => True

/-- What holds from the deadline on. -/
structure Final (cfg : Config) (s : State) : Prop extends Inv cfg s where
  serves : s.shutdownDeadline.isSome → AllServe s
  calm : s.shutdownDeadline.isSome → s.control.calm
  still : s.shutdownDeadline.isSome → ∀ i, s.control = .reloading i → s.children = []

lemma final_init (cfg : Config) : Final cfg init where
  toInv := inv_init cfg
  serves := by simp [init]
  calm := by simp [init]
  still := by simp [init]

section

variable {cfg : Config} {s s' : State}

/-- A step that does not set the deadline, puts nobody on the list and takes nothing in hand. -/
lemma Final.frame (h : Final cfg s) (hinv : Inv cfg s')
    (hdeadline : s'.shutdownDeadline = s.shutdownDeadline) (hchildren : s'.children ⊆ s.children)
    (hun : s'.unreplaced = s.unreplaced) (hcalm : s'.control.calm)
    (hstill : ∀ i, s'.control = .reloading i → s.control = .reloading i) : Final cfg s' where
  toInv := hinv
  serves := by
    intro hd child hc
    rw [hdeadline] at hd
    rw [hun]
    exact h.serves hd child (hchildren hc)
  calm := fun _ => hcalm
  still := by
    intro hd i hi
    rw [hdeadline] at hd
    exact List.subset_nil.mp (h.still hd i (hstill i hi) ▸ hchildren)

/-- Nobody has asked the master to stop. -/
lemma Final.of_up (hinv : Inv cfg s) (hup : s.shutdownDeadline = none) : Final cfg s where
  toInv := hinv
  serves := by simp [hup]
  calm := by simp [hup]
  still := by simp [hup]

@[simp] lemma ended_table (cfg : Config) (s : State) (child : Child) (status : ℕ) :
    (State.ended cfg s child status).table = s.table := by
  rcases ended_cases cfg s child status with ⟨w, m, r, ⟨-, heq⟩ | heq | heq⟩ <;> rw [heq]

/-- With the deadline set the reaping loop forks for nobody. -/
lemma ended_of_deadline {s : State} (hd : s.shutdownDeadline.isSome) (cfg : Config)
    (child : Child) (status : ℕ) :
    State.ended cfg s child status =
      { s with worstStatus := max s.worstStatus status, control := .reaping } := by
  simp [State.ended, hd]

/-- With the deadline set a step finds nobody to fork for. -/
lemma Final.not_forks (h : Final cfg s) (hd : s.shutdownDeadline.isSome) (a : Action) :
    ¬ Forks cfg s a := by
  rintro ⟨s', hstep, pid, hnew, hold⟩
  have hcalm := h.calm hd
  have heffect := effect_of_step hstep
  cases heffect with
  | exits p status => exact hold (ProcessTable.unreaped_exit.mp hnew)
  | started hc | respawned hc | replaced hc => simp [hc, Control.calm] at hcalm
  | retried hc hi hretry =>
      have hnone := (h.serves hd _ (List.mem_of_getElem? hi)).1
      cases hretry.symm.trans hnone
  | reaped =>
      rw [ended_table] at hnew
      exact hold hnew.of_reap
  | reapedStranger | drained | waited => exact hold hnew.of_reap
  | _ => exact hold hnew

/-- The step that sets the deadline. -/
lemma Final.step_up (hinv : Inv cfg s') (hup : s.shutdownDeadline = none) {a : Action}
    (hok : Stopping s a) (hstep : Workers.step cfg s a = some s') : Final cfg s' := by
  by_cases hup' : s'.shutdownDeadline = none
  · exact .of_up hinv hup'
  · have heffect := effect_of_step hstep
    cases heffect with
    | @shutsDown signal answer hc hsig hhup =>
        have hat := hok.2 answer rfl
        rw [hc] at hat
        exact ⟨hinv, fun _ => hat.2 ⟨signal, hsig, hhup⟩, fun _ => trivial,
          fun _ _ hi => by cases hi⟩
    | reaped =>
        rcases ended_cases cfg _ _ _ with ⟨w, m, r, ⟨-, heq⟩ | heq | heq⟩ <;>
          rw [heq] at hup' <;> exact absurd hup hup'
    | _ => exact absurd hup hup'

/-- **The step lemma.** -/
theorem Final.step (h : Final cfg s) {a : Action} (hok : Stopping s a)
    (hstep : step cfg s a = some s') : Final cfg s' := by
  have hinv : Inv cfg s' := h.toInv.step hok.1 hstep
  cases hd : s.shutdownDeadline with
  | none => exact .step_up hinv hd hok hstep
  | some deadline =>
      have hsome : s.shutdownDeadline.isSome := by simp [hd]
      have hcalm := h.calm hsome
      have heffect := effect_of_step hstep
      cases heffect with
      | exits | receives | elapses =>
          exact h.frame hinv rfl (List.Subset.refl _) rfl hcalm fun _ hi => hi
      | started hc | startFailed hc | startDone hc | respawned hc | respawnFailed hc | waits hc
      | replaced hc | replaceFailed hc | drained hc | timedOut hc | waited hc =>
          simp [hc, Control.calm] at hcalm
      | retried hc hi hretry =>
          have hnone := (h.serves hsome _ (List.mem_of_getElem? hi)).1
          cases hretry.symm.trans hnone
      | @asked i child _ hc hi =>
          have hempty := h.still hsome i hc
          simp [hempty] at hi
      | @reloads answer hc hsig =>
          have hat := hok.2 answer rfl
          rw [hc] at hat
          exact ⟨hinv, h.serves, fun _ => trivial, fun _ _ _ => hat.1 hsig hsome⟩
      | shutsDown =>
          exact ⟨hinv, fun _ => h.serves hsome, fun _ => trivial, fun _ _ hi => by cases hi⟩
      | reaped =>
          rw [ended_of_deadline (by exact hsome)] at hinv ⊢
          exact h.frame hinv rfl List.eraseIdx_subset rfl trivial fun _ hi => by cases hi
      | _ => exact h.frame hinv rfl (List.Subset.refl _) rfl trivial fun _ hi => by cases hi

/-- Without a live worker the list is empty. -/
lemma Final.children_eq_nil (h : Final cfg s) (hd : s.shutdownDeadline.isSome)
    (hnone : s.table.procs = []) : s.children = [] := by
  have hrep : ∀ i, s.control ≠ .replacing i := by
    intro i hi
    have hcalm := h.calm hd
    simp [hi, Control.calm] at hcalm
  refine List.eq_nil_iff_forall_not_mem.mpr fun child hc => ?_
  obtain ⟨p, hp, -⟩ := h.toInv.unreaped (h.serves hd) hrep hc
  simp [hnone] at hp

/-- The master returns within `n` steps of its own. -/
def Returns (cfg : Config) (n : ℕ) (s : State) : Prop :=
  ∃ k ≤ n, ∃ t status, StepSystem.runFrom (step cfg) s (List.replicate k (.master none)) = some t ∧
    t.control = .returned status

lemma Returns.mono {m n : ℕ} (h : Returns cfg m s) (hmn : m ≤ n) : Returns cfg n s := by
  obtain ⟨k, hk, hrun⟩ := h
  exact ⟨k, by omega, hrun⟩

lemma Returns.cons {n : ℕ} (hstep : Workers.step cfg s (.master none) = some s')
    (h : Returns cfg n s') : Returns cfg (n + 1) s := by
  obtain ⟨k, hk, t, status, hrun, ht⟩ := h
  exact ⟨k + 1, by omega, t, status, (StepSystem.runFrom_cons _).mpr ⟨s', hstep, hrun⟩, ht⟩

lemma returns_checking (hc : s.control = .checking) (hchildren : s.children = []) :
    Returns cfg 1 s := by
  have hcheck : Workers.step cfg s (.master none) = some s.check.1 := by simp [step, advance, hc]
  have hreturned : s.check.1.control =
      .returned (if s.shutdownDeadline.isSome then 0 else s.worstStatus) := by
    simp only [State.check, if_pos hchildren]
  exact .cons hcheck ⟨0, Nat.le_refl _, s.check.1, _, rfl, hreturned⟩

lemma returns_reloading {i : ℕ} (hc : s.control = .reloading i) (hchildren : s.children = []) :
    Returns cfg 2 s := by
  have hdone : Workers.step cfg s (.master none) = some { s with control := .checking } := by
    simp [step, advance, hc, State.reload, hchildren]
  exact .cons hdone (returns_checking rfl hchildren)

lemma returns_signalling (hc : s.control = .signalling) (hchildren : s.children = []) :
    Returns cfg 3 s := by
  have hswap : Workers.step cfg s (.master none) = some (s.handle cfg).1 := by
    simp [step, advance, hc]
  unfold State.handle at hswap
  split at hswap
  · exact (Returns.cons hswap (returns_checking rfl hchildren)).mono (by omega)
  · exact .cons hswap (returns_reloading rfl hchildren)
  · exact (Returns.cons hswap (returns_checking rfl hchildren)).mono (by omega)

lemma returns_retrying {i : ℕ} (hc : s.control = .retrying i) (hchildren : s.children = []) :
    Returns cfg 4 s := by
  have hdone : Workers.step cfg s (.master none) = some { s with control := .signalling } := by
    simp [step, advance, hc, State.retry, hchildren]
  exact .cons hdone (returns_signalling rfl hchildren)

lemma returns_reaping (hc : s.control = .reaping) (hchildren : s.children = [])
    (hnone : s.table.procs = []) : Returns cfg 5 s := by
  have hrun : s.table.AllRun := fun p hp => by simp [hnone] at hp
  have hdone : Workers.step cfg s (.master none) = some { s with control := .retrying 0 } := by
    simp [step, advance, hc, State.reapOne, hrun]
  exact .cons hdone (returns_retrying rfl hchildren)

/-- Once nobody is left the master goes once more round its loop, at most. -/
lemma Final.returns (h : Final cfg s) (hd : s.shutdownDeadline.isSome)
    (hnone : s.table.procs = []) : Returns cfg 6 s := by
  have hchildren : s.children = [] := h.children_eq_nil hd hnone
  have hcalm := h.calm hd
  cases hc : s.control with
  | starting | respawning | waiting | killed | replacing => simp [hc, Control.calm] at hcalm
  | sleeping =>
      have hwoke : Workers.step cfg s (.master none) = some { s with control := .reaping } := by
        simp [Workers.step, advance, hc]
      exact .cons hwoke (returns_reaping rfl hchildren hnone)
  | reaping => exact (returns_reaping hc hchildren hnone).mono (by omega)
  | retrying i => exact (returns_retrying hc hchildren).mono (by omega)
  | signalling => exact (returns_signalling hc hchildren).mono (by omega)
  | reloading i => exact (returns_reloading hc hchildren).mono (by omega)
  | checking => exact (returns_checking hc hchildren).mono (by omega)
  | returned status => exact ⟨0, by omega, s, status, rfl, hc⟩

/-- **The shutdown is final.** -/
theorem shutdown_final {as : List Action}
    (h : StepSystem.runFrom (Workers.step cfg) init as = some s)
    (hok : StepSystem.Along (Workers.step cfg) Stopping init as)
    (hd : s.shutdownDeadline.isSome) :
    (∀ a, ¬ Forks cfg s a) ∧ (s.table.procs = [] → Returns cfg 6 s) := by
  have hfinal : Final cfg s :=
    StepSystem.invariant_of_step (Workers.step cfg) (I := Final cfg)
      (fun s a s' hI hsa hstep => hI.step hsa hstep) (final_init cfg) hok h
  exact ⟨hfinal.not_forks hd, hfinal.returns hd⟩

end

instance (s : State) (c : Control) : Decidable (StoppingAt s c) :=
  match c with
  | .signalling => inferInstanceAs (Decidable
      ((s.pendingSignal = some .hup → s.shutdownDeadline.isSome → s.children = []) ∧
        ((∃ signal ∈ s.pendingSignal, signal ≠ .hup) → AllServe s)))
  | .starting _ | .sleeping | .reaping | .respawning _ | .retrying _ | .reloading _ | .waiting _ _
  | .killed _ | .replacing _ | .checking | .returned _ => isTrue trivial

instance (s : State) (a : Action) : Decidable (Stopping s a) :=
  match a with
  | .master answer => decidable_of_iff (Owned s (.master answer) ∧ StoppingAt s s.control)
      ⟨fun h => ⟨h.1, fun _ _ => h.2⟩, fun h => ⟨h.1, h.2 answer rfl⟩⟩
  | .exits _ _ | .receives _ | .elapses _ => isTrue ⟨trivial, by simp⟩

/-- The worker of the only slot is told to stop, ends, and is reaped. -/
theorem shutdown_final_reaped : ∃ s,
    StepSystem.runFrom (step ⟨1, true, 10000⟩) init
      (.receives .term :: upToSwap [] ++
        ([.master none, .exits 100 0, .master none, .master none, .master (some 100)] :
          List Action)) = some s ∧
    (∀ a, ¬ Forks ⟨1, true, 10000⟩ s a) ∧
    (s.table.procs = [] → Returns ⟨1, true, 10000⟩ 6 s) :=
  ⟨_, rfl, @shutdown_final ⟨1, true, 10000⟩ _ (.receives .term :: upToSwap [] ++
    ([.master none, .exits 100 0, .master none, .master none, .master (some 100)] : List Action))
    rfl (by decide) rfl⟩

/-- The only slot is paused when the stop signal comes.  Nobody is left, the master stays, and when
the pause is over it forks. -/
theorem shutdown_forks : ∃ s t u,
    StepSystem.runFrom (step ⟨1, true, 10000⟩) init (crashLoop ++ actOn .term) = some s ∧
    s.shutdownDeadline.isSome ∧ s.table.procs = [] ∧ s.control = .checking ∧
    step ⟨1, true, 10000⟩ s (.master none) = some t ∧ t.control = .sleeping ∧
    StepSystem.runFrom (step ⟨1, true, 10000⟩) t
      ([.elapses 5000, .master none, .master none] : List Action) = some u ∧
    u.shutdownDeadline.isSome ∧ Forks ⟨1, true, 10000⟩ u (.master (some 200)) :=
  ⟨_, _, _, rfl, rfl, rfl, rfl, rfl, rfl, rfl, rfl, _, rfl, 200, by decide, by decide⟩

end Workers

end Ignis
