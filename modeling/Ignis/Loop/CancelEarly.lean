import Ignis.Loop.Reachable

/-!
# Cancelled before it starts

A request that is queued is marked by `cancelRequest()` and dropped when it is read.  Between the
spawn of its handler and the handler's first instruction a request is neither queued nor mapped to
a fiber, and a cancel that falls into this gap does nothing.  In every run in which none does, a
request cancelled after it arrived and before its handler started is never served
(`cancelled_not_served`).
-/

namespace Ignis

namespace Loop

/-! ## The gap -/

/-- The request `{main}` calls `cancelRequest()` for in a step. -/
def State.cancelsAt (s : State) : Action → Option Id
  | .advance => if s.pool.running = none then s.cancelsNext else none
  | _ => none

/-- Fiber `f` has the handler of request `id` and has not started it. -/
def HoldsHandler (s : State) (id : Id) (f : FiberId) : Prop :=
  ∃ j ∈ (s.pool.status f).job?, (s.pool.status f).started? = none ∧ j.body = .handler id

instance (s : State) (id : Id) (f : FiberId) : Decidable (HoldsHandler s id f) :=
  inferInstanceAs (Decidable (∃ j ∈ _, _))

/-- No request is cancelled between the spawn of its handler and the handler's start. -/
def NoGap (s : State) (a : Action) : Prop :=
  ∀ id ∈ s.cancelsAt a, ∀ f < s.pool.fibersCreated, ¬ HoldsHandler s id f

instance (s : State) (a : Action) : Decidable (NoGap s a) :=
  inferInstanceAs (Decidable (∀ id ∈ _, ∀ f < _, _))

lemma holdsHandler_of_holds {s : State} {id : Id} {f : FiberId} {k : Job}
    (h : (s.pool.status f).Holds k) (hb : k.body = .handler id) : HoldsHandler s id f :=
  ⟨k, h.job?, h.started?, hb⟩

/-- A handler that waits to be started still waits, or has entered its request. -/
lemma Effect.holdsHandler {s s' : State} {a : Action} (heff : Effect s a s') (hi : Inv s) {id : Id}
    {f : FiberId} (h : HoldsHandler s id f) : HoldsHandler s' id f ∨ id ∈ s'.log.entered := by
  obtain ⟨j, hj, hnone, hb⟩ := h
  rcases heff.job?_kept hi hj with hj' | ⟨st, hcur⟩
  · cases hst : (s'.pool.status f).started? with
    | none => exact Or.inl ⟨j, hj', hst, hb⟩
    | some k =>
        rcases heff.started? hi hst with hold | ⟨-, p, hs'⟩
        · rw [hnone] at hold
          exact absurd hold (by simp)
        · obtain rfl : j = k := Option.some.inj (hj'.symm.trans (Status.started?_job? hst))
          right
          rw [hs', startJob_log, hb]
          simp
  · rw [started?_of_current hcur] at hnone
    exact absurd hnone (by simp)

/-- A request that is admitted has a handler that waits to be started. -/
lemma Effect.admitted_holds {s s' : State} {a : Action} (heff : Effect s a s') (hi : Inv s)
    {id : Id} (hid : id ∈ s'.admission.admissions.map Admitted.id) :
    id ∈ s.admission.admissions.map Admitted.id ∨ ∃ f, HoldsHandler s' id f := by
  cases heff with
  | start =>
      rw [startJob_admission] at hid
      exact Or.inl hid
  | @queue i raw rest hmain htodo hnew hpc hwait =>
      simp only [Admission.dispatchRequest, hwait, if_true, Admission.queueRequest] at hid
      split_ifs at hid <;> exact Or.inl hid
  | @letIn i raw rest hmain htodo hnew hpc hwait =>
      simp only [Admission.dispatchRequest, hwait, Bool.false_eq_true, if_false,
        Admission.admitRequest, List.map_append, List.mem_append, List.map_cons, List.map_nil,
        List.mem_singleton] at hid
      rcases hid with hid | rfl
      · exact Or.inl hid
      · exact Or.inr ⟨s.pool.spawnTarget,
          holdsHandler_of_holds (spawnTarget_holds s.pool (.handler id) none (some id)) rfl⟩
  | cancel =>
      simp only [State.cancelRequest, (Admission.dispatchCancel_settings _ _).2.2.2.2] at hid
      exact Or.inl hid
  | @slot f j i hcur hb =>
      obtain ⟨-, hf⟩ := current_eq_some_iff.mp hcur
      obtain ⟨hnodup, hfresh⟩ := hi.drained_fresh i
      have hid : id ∈ (s.admission.releaseSlot i).drainQueue.1.admissions.map Admitted.id := hid
      rw [Admission.drainQueue_admissions] at hid
      rcases List.mem_append.mp hid with hid | hid
      · exact Or.inl hid
      · obtain ⟨g, k, hk, hbk⟩ := spawnHandlers_holds hi.pool hnodup hfresh hid
        rw [← hi.releaseSlot_pool hf i] at hk
        have hne : g ≠ f := by
          rintro rfl
          rw [(hi.releaseSlot_tidy hf i).2, hf] at hk
          simp [Status.Holds] at hk
        have hparks := (hi.releaseSlot_tidy hf i).1.pool.toParks
        exact Or.inr ⟨g, holdsHandler_of_holds (finishJob_holds hparks j .resolved hne hk) hbk⟩
  | quiet | assign | readSuperglobal | readScope | writeScope | clearScope | suspend | resume
  | deliver | miss | callEnds | spawn | answer | release | settle | cleanupThrew => exact Or.inl hid

/-- An admitted request has entered or is in the gap, and one that was cancelled early is turned
away. -/
structure EarlyInv (s : State) : Prop where
  admitted : ∀ id ∈ s.admission.admissions.map Admitted.id,
    id ∈ s.log.entered ∨ ∃ f, HoldsHandler s id f
  entered : ∀ id ∈ s.log.entered, id ∈ s.admission.admissions.map Admitted.id
  completed : ∀ id ∈ s.log.completed, id ∈ s.admission.admissions.map Admitted.id
  early : ∀ id ∈ s.log.cancelledEarly, s.admission.TurnedAway id

/-- What a step records about requests: whom it lets in has a handler's job, whom it is done with
too, and whom it cancels early has arrived and not entered. -/
lemma Effect.requestLog {s s' : State} {a : Action} (heff : Effect s a s') :
    (∀ id ∈ s'.log.entered, id ∈ s.log.entered
      ∨ ∃ f j, (s.pool.status f).job? = some j ∧ j.body = .handler id)
    ∧ (∀ id ∈ s'.log.completed, id ∈ s.log.completed
      ∨ ∃ f j, (s.pool.status f).job? = some j ∧ j.body = .handler id)
    ∧ (∀ id ∈ s.log.entered, id ∈ s'.log.entered)
    ∧ ∀ id ∈ s'.log.cancelledEarly, id ∈ s.log.cancelledEarly
      ∨ (s.cancelsAt a = some id ∧ id ∈ s.admission.arrivals.map Arrival.id ∧ id ∉ s.log.entered
        ∧ s'.admission = s.admission.dispatchCancel id) := by
  cases heff with
  | @start f j p hmain hnext htodo hptodo hf hp =>
      have hholds : (s.pool.status f).Holds j := hf.imp And.right And.right
      rw [startJob_log]
      refine ⟨fun id hid => ?_, fun id hid => Or.inl hid, fun id hid => List.mem_append_left _ hid,
        fun id hid => Or.inl hid⟩
      rcases List.mem_append.mp hid with hid | hid
      · exact Or.inl hid
      · cases hb : j.body with
        | user => simp [hb] at hid
        | handler i =>
            rw [hb] at hid
            exact Or.inr ⟨f, j, hholds.job?, by rw [hb, List.mem_singleton.mp hid]⟩
  | @cancel i rest deadlines deadlineOf hmain htodo hnext =>
      simp only [State.cancelRequest]
      split_ifs with hearly
      · refine ⟨fun id hid => Or.inl hid, fun id hid => Or.inl hid, fun id hid => hid,
          fun id hid => ?_⟩
        rcases List.mem_append.mp hid with hid | hid
        · exact Or.inl hid
        · rw [List.mem_singleton.mp hid]
          refine Or.inr ⟨?_, hearly.1, hearly.2, rfl⟩
          rw [State.cancelsAt, if_pos hmain, hnext]
      · exact ⟨fun id hid => Or.inl hid, fun id hid => Or.inl hid, fun id hid => hid,
          fun id hid => Or.inl hid⟩
  | @answer f j i e hcur hb =>
      refine ⟨fun id hid => Or.inl hid, fun id hid => ?_, fun id hid => hid,
        fun id hid => Or.inl hid⟩
      rcases List.mem_append.mp hid with hid | hid
      · exact Or.inl hid
      · rw [List.mem_singleton.mp hid]
        exact Or.inr ⟨f, j, Status.started?_job? (started?_of_current hcur), hb⟩
  | quiet | assign | readSuperglobal | readScope | writeScope | clearScope | suspend | resume
  | deliver | miss | callEnds | spawn | queue | letIn | release | settle | slot | cleanupThrew =>
      exact ⟨fun id hid => Or.inl hid, fun id hid => Or.inl hid, fun id hid => hid,
        fun id hid => Or.inl hid⟩

theorem earlyInv_step {s s' : State} {a : Action} (h : EarlyInv s) (hi : Inv s) (hgap : NoGap s a)
    (hstep : step s a = some s') : EarlyInv s' := by
  have heff := (step_effect hi hstep).1
  obtain ⟨hentered, hcompleted, hkept, hearly⟩ := heff.requestLog
  refine ⟨fun id hid => ?_, fun id hid => ?_, fun id hid => ?_, fun id hid => ?_⟩
  · rcases heff.admitted_holds hi hid with hold | hnew
    · rcases h.admitted id hold with hent | ⟨f, hf⟩
      · exact Or.inl (hkept id hent)
      · rcases heff.holdsHandler hi hf with hf | hent
        · exact Or.inr ⟨f, hf⟩
        · exact Or.inl hent
    · exact Or.inr hnew
  · rcases hentered id hid with hold | ⟨f, j, hj, hb⟩
    · exact heff.admissions_kept (h.entered id hold)
    · exact heff.admissions_kept (hi.handler_admitted f j id hj hb)
  · rcases hcompleted id hid with hold | ⟨f, j, hj, hb⟩
    · exact heff.admissions_kept (h.completed id hold)
    · exact heff.admissions_kept (hi.handler_admitted f j id hj hb)
  · rcases hearly id hid with hold | ⟨hcancel, harrived, hent, hadm⟩
    · have hold := h.early id hold
      rcases heff.admission with he | ⟨i, raw, -, he⟩ | ⟨i, he⟩ | ⟨i, he⟩ <;> rw [he]
      · exact hold
      · exact hold.dispatchRequest i raw
      · exact hold.dispatchCancel i
      · exact Admission.TurnedAway.drainQueue (a := s.admission.releaseSlot i) hold
    · -- it has not entered and no fiber holds its handler, so it was not admitted
      rw [hadm]
      refine Admission.turnedAway_of_dispatchCancel hi.admission.toCore harrived fun hmem => ?_
      rcases h.admitted id hmem with hent' | ⟨f, hf⟩
      · exact hent hent'
      · have hlt : f < s.pool.fibersCreated := by
          obtain ⟨j, hj, -⟩ := hf
          exact hi.pool.lt_of_job? hj
        exact hgap id hcancel f hlt hf

/-! ## Over whole runs -/

/-- **A cancelled request is not served.**  In every run in which no cancel falls between the spawn
of a handler and its start, a request that was cancelled after it arrived and before its handler
started is never started, let alone completed. -/
theorem cancelled_not_served {budget depth : ℤ} {exempt : List PhpString} {chaos : Bool}
    {symbols : Superglobal → Bool} {as : List Action} {s : State}
    (hgap : StepSystem.Along step NoGap (boot budget depth exempt chaos symbols) as)
    (hrun : StepSystem.runFrom step (boot budget depth exempt chaos symbols) as = some s) :
    ∀ id ∈ s.log.cancelledEarly, id ∉ s.log.entered ∧ id ∉ s.log.completed := by
  obtain ⟨hi, h⟩ : Inv s ∧ EarlyInv s := StepSystem.invariant_of_step step
    (I := fun t => Inv t ∧ EarlyInv t)
    (fun t a t' ht hok hstep => ⟨inv_step ht.1 hstep, earlyInv_step ht.2 ht.1 hok hstep⟩)
    ⟨inv_boot budget depth exempt chaos symbols, by simp [boot, Admission.boot], by simp [boot],
      by simp [boot], by simp [boot]⟩ hgap hrun
  intro id hid
  have hnot := (h.early id hid).not_admitted hi.admission.toCore
  exact ⟨fun hent => hnot (h.entered id hent), fun hc => hnot (h.completed id hc)⟩

/-- Request `1` has the only slot; request `2` is queued when its client goes away, and is dropped
when the slot is free. -/
def queuedCancelled : List Action :=
  List.flatten [oneWaits, completes 2 .cancelled, [.advance, .advance], toPoll,
    completes 50 (.slept 0), handlerEnds]

theorem cancelled_not_served_queued : ∃ s,
    StepSystem.runFrom step (worker 1) queuedCancelled = some s
    ∧ s.log.cancelledEarly = [2] ∧ s.admission.dropped = [2] ∧ 2 ∉ s.log.entered := by
  obtain ⟨s, hrun, hs⟩ := Option.map_eq_some_iff.mp
    (show (StepSystem.runFrom step (worker 1) queuedCancelled).map
      (fun s => (s.log.cancelledEarly, s.admission.dropped)) = some ([2], [2]) by decide +kernel)
  obtain ⟨hearly, hdropped⟩ := Prod.mk.inj hs
  refine ⟨s, hrun, hearly, hdropped, ?_⟩
  exact (cancelled_not_served (by decide +kernel) hrun 2 (by simp [hearly])).1

/-- Request `1` has the only slot, and request `2` is queued.  One poll brings the end of what
request `1` waits for and the cancel of request `2`, in this order: the slot is free, the handler
of request `2` is spawned, and the cancel finds it in no table. -/
def cancelInTheGap : List Action :=
  List.flatten [oneWaits,
    [.poll [(⟨50, .slept 0⟩, 0), (⟨2, .cancelled⟩, 0)], .advance, .advance, .dispatch 1 [50, 2],
      .advance], handlerEnds,
    [.advance, .advance, .advance, .turn false, .advance, .advance, .finish none]]

theorem cancel_in_the_gap_is_lost : ∃ s,
    StepSystem.runFrom step (worker 1) cancelInTheGap = some s
    ∧ s.log.cancelledEarly = [2] ∧ s.log.completed = [1, 2] ∧ s.log.deliveries = [] := by
  obtain ⟨s, hrun, hs⟩ := Option.map_eq_some_iff.mp
    (show (StepSystem.runFrom step (worker 1) cancelInTheGap).map
      (fun s => (s.log.cancelledEarly, s.log.completed, s.log.deliveries))
        = some ([2], [1, 2], []) by decide +kernel)
  simp only [Prod.mk.injEq] at hs
  exact ⟨s, hrun, hs⟩

end Loop

end Ignis
