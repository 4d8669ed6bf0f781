import Ignis.Loop.Reachable

/-!
# Admission control over whole runs

The queue's invariant holds in every reachable state, whatever the handlers, their children and
their clients do, because the loop touches the statics of admission control at three points only: a
request arrives, a cancel is dispatched, a slot is given back.

The second half is about that last point.  `releaseRequest()` gives the slot back after
`Scope::clear()`, which runs the destructors of whatever the request left in its scope; when one of
them throws, the lines behind it are skipped.
-/

namespace Ignis

namespace Loop

/-- The settings stay what they were when the worker booted. -/
lemma run_settings {fiberBudget queueDepth : ℤ} {budgetExempt : List PhpString} {chaos : Bool}
    {symbols : Superglobal → Bool} {as : List Action} {s : State}
    (hrun : StepSystem.runFrom step (boot fiberBudget queueDepth budgetExempt chaos symbols) as
      = some s) :
    s.admission.fiberBudget = fiberBudget ∧ s.admission.queueDepth = queueDepth := by
  suffices H : Inv s ∧ s.admission.fiberBudget = fiberBudget
      ∧ s.admission.queueDepth = queueDepth from H.2
  refine StepSystem.invariant_of_run step
    (I := fun s => Inv s ∧ s.admission.fiberBudget = fiberBudget
      ∧ s.admission.queueDepth = queueDepth) ?_ ⟨inv_boot _ _ _ _ _, rfl, rfl⟩ hrun
  rintro s a s' ⟨hi, hb, hd⟩ hstep
  refine ⟨inv_step hi hstep, ?_⟩
  rcases (step_effect hi hstep).1.admission with he | ⟨id, raw, -, he⟩ | ⟨id, he⟩ | ⟨id, he⟩ <;>
    rw [he]
  · exact ⟨hb, hd⟩
  · obtain ⟨h₁, h₂, -⟩ := Admission.dispatchRequest_settings s.admission id raw
    exact ⟨h₁.trans hb, h₂.trans hd⟩
  · obtain ⟨h₁, h₂, -⟩ := Admission.dispatchCancel_settings s.admission id
    exact ⟨h₁.trans hb, h₂.trans hd⟩
  · obtain ⟨h₁, h₂, -⟩ := Admission.drainQueue_settings (s.admission.releaseSlot id)
    exact ⟨h₁.trans hb, h₂.trans hd⟩

/-- A queued request that was cancelled is dropped when it is read, and no other is. -/
lemma dropped_iff {a : Admission} (h : a.Inv) (id : Id) :
    id ∈ a.dropped ↔ id ∈ a.cancelledQueued ∧ id ∉ a.live := by
  have hc := h.cancelled_iff id
  constructor
  · intro hd
    refine ⟨hc.mpr (Or.inl hd), fun hl => ?_⟩
    have hf := h.fates id
    have hn := List.nodup_iff_count_le_one.mp h.arrivals_nodup id
    have := List.count_pos_iff.mpr hd
    have := List.count_pos_iff.mpr hl
    omega
  · rintro ⟨hq, hl⟩
    exact (hc.mp hq).resolve_right fun hm => hl (h.cancelled_live id hm)

/-- **Admission control.**  In every state of every run with a budget:

* the queue is empty unless the budget is used up;
* who is admitted without an exemption is admitted while there is room, and the requests admitted
  so, followed by those still queued, are in order of arrival;
* every request that arrived was admitted once, or shed once at a full queue, or is queued, or was
  dropped, and it was dropped exactly when a cancel was dispatched while it was queued;
* `$inflightRequests` is the number of admissions less the number of releases;
* `$queued` is the set of the ids in the queue, and `$queueCancelled` a subset of it. -/
theorem admission_control {budget depth : ℤ} {exempt : List PhpString} {chaos : Bool}
    {symbols : Superglobal → Bool} {as : List Action} {s : State} (hbudget : 0 < budget)
    (hrun : StepSystem.runFrom step (boot budget depth exempt chaos symbols) as = some s) :
    ((s.admission.queueHead < s.admission.requestQueue.length →
        budget ≤ s.admission.inflightRequests)
      ∧ (s.admission.inflightRequests = 0 →
        s.admission.queueHead = s.admission.requestQueue.length))
    ∧ ((∀ r ∈ s.admission.admissions, r.exempt = false → r.inflight < budget)
      ∧ (s.admission.ordinaryAdmissions ++ s.admission.live).Sublist s.admission.ordinaryArrivals)
    ∧ ((∀ id ∈ s.admission.arrivals.map Arrival.id,
        (s.admission.admissions.map Admitted.id).count id
          + (s.admission.refusals.map Refused.id).count id + s.admission.live.count id
          + s.admission.dropped.count id = 1)
      ∧ (∀ r ∈ s.admission.refusals, 0 < depth ∧ depth ≤ r.queued)
      ∧ ∀ id, id ∈ s.admission.dropped ↔ id ∈ s.admission.cancelledQueued ∧ id ∉ s.admission.live)
    ∧ s.admission.inflightRequests
        = (s.admission.admissions.length : ℤ) - s.admission.released.length
    ∧ ((∀ id, s.admission.queued.has id = true ↔ id ∈ s.admission.live)
      ∧ ∀ id, s.admission.queueCancelled.has id = true → s.admission.queued.has id = true) := by
  have hi : s.admission.Inv := (Reachable.inv ⟨_, _, _, _, _, _, hrun⟩).admission
  obtain ⟨hb, hd⟩ := run_settings hrun
  have hempty := Admission.live_eq_nil_iff hi.head_le
  have hfull : s.admission.live ≠ [] → budget ≤ s.admission.inflightRequests := fun hne =>
    hb ▸ (hi.full hne).2
  refine ⟨⟨fun hlt => ?_, fun hzero => ?_⟩, ⟨?_, hi.order⟩, ⟨?_, ?_, dropped_iff hi⟩,
    hi.inflight_eq, hi.queued_iff, ?_⟩
  · exact hfull fun e => absurd (hempty.mp e) (Nat.ne_of_lt hlt)
  · by_contra hne
    have := hfull fun e => hne (hempty.mp e)
    omega
  · intro r hr hex
    have := hi.room r hr hex
    rw [hb] at this
    exact this hbudget
  · intro id hid
    rw [hi.fates id]
    exact List.count_eq_one_of_mem hi.arrivals_nodup hid
  · intro r hr
    have := hi.refused r hr
    rwa [hd] at this
  · intro id hid
    exact (hi.queued_iff id).mpr (hi.cancelled_live id hid)

theorem admission_control_oneWaits : ∃ s, StepSystem.runFrom step (worker 1) oneWaits = some s
    ∧ s.admission.live = [2] ∧ 1 ≤ s.admission.inflightRequests := by
  obtain ⟨s, hrun, hlive⟩ := Option.map_eq_some_iff.mp
    (show (StepSystem.runFrom step (worker 1) oneWaits).map (fun s => s.admission.live) = some [2]
      by decide +kernel)
  obtain ⟨⟨hfull, -⟩, -⟩ := admission_control (by decide) hrun
  refine ⟨s, hrun, hlive, hfull (Nat.lt_of_not_le fun hle => ?_)⟩
  rw [Admission.live, List.drop_eq_nil_of_le hle] at hlive
  exact absurd hlive (by simp)

/-! ## Giving a slot back -/

/-- How many times the job of a request's handler has settled. -/
def settledCount (s : State) (id : Id) : ℕ := s.log.settled.countP fun j => j.body = .handler id

/-- A slot is given back by the job that holds it, or lost in its cleanup; either ends the job, and
a request has one such job. -/
structure SlotInv (s : State) : Prop where
  handled_eq : s.admission.handled = s.admission.released.length
  drained_eq : s.log.drained = s.admission.released
  ends : ∀ id, s.admission.released.count id + s.log.cleanupThrew.count id = settledCount s id
  one_job : ∀ id, settledCount s id ≤ 1
  admitted : ∀ id, 0 < settledCount s id → id ∈ s.admission.admissions.map Admitted.id
  live : ∀ f j id, (s.pool.status f).job? = some j → j.body = .handler id → settledCount s id = 0

lemma slotInv_boot (fiberBudget queueDepth : ℤ) (budgetExempt : List PhpString) (chaos : Bool)
    (symbols : Superglobal → Bool) :
    SlotInv (boot fiberBudget queueDepth budgetExempt chaos symbols) where
  handled_eq := rfl
  drained_eq := rfl
  ends := by simp [boot, Admission.boot, settledCount]
  one_job := by simp [boot, settledCount]
  admitted := by simp [boot, settledCount]
  live := by simp [boot, Pool.init, Status.job?]

/-- The handler of a request just admitted has not settled before. -/
lemma SlotInv.unsettled_of_spawned {s s' : State} {k : Job} {id : Id} (h : SlotInv s)
    (hk : Spawned s s' k) (hb : k.body = .handler id) : settledCount s id = 0 := by
  by_contra hne
  exact (hk.of_handler hb).1 (h.admitted id (Nat.pos_of_ne_zero hne))

@[simp] lemma settleJob_admission (s : State) (f : FiberId) (j : Job) (result : Result) :
    (s.settleJob f j result).admission = s.admission := rfl

lemma settleJob_job? (s : State) (f : FiberId) (j : Job) (result : Result) :
    ((s.settleJob f j result).pool.status f).job? = none := by
  have hs : (s.settleJob f j result).pool = s.pool.finishJob f j result := rfl
  rw [hs, Pool.finishJob_status, if_pos rfl]
  rfl

lemma settledCount_settleJob (s : State) (f : FiberId) (j : Job) (result : Result) (id : Id) :
    settledCount (s.settleJob f j result) id
      = settledCount s id + if j.body = .handler id then 1 else 0 := by
  simp [settledCount, State.settleJob, State.withPool, List.countP_append]

/-- A step in which no handler's job ends, and no slot is given back. -/
lemma SlotInv.frame {s s' : State} {a : Action} (h : SlotInv s) (heff : Effect s a s') (hi : Inv s)
    (hhandled : s'.admission.handled = s.admission.handled)
    (hreleased : s'.admission.released = s.admission.released)
    (hdrained : s'.log.drained = s.log.drained)
    (hthrew : s'.log.cleanupThrew = s.log.cleanupThrew)
    (hcount : ∀ id, settledCount s' id = settledCount s id) : SlotInv s' := by
  refine ⟨by rw [hhandled, hreleased, h.handled_eq], by rw [hdrained, hreleased, h.drained_eq],
    fun id => ?_, fun id => ?_, fun id hid => ?_, fun f j id hj hb => ?_⟩
  · rw [hreleased, hthrew, hcount, h.ends]
  · rw [hcount]
    exact h.one_job id
  · rw [hcount] at hid
    exact heff.admissions_kept (h.admitted id hid)
  · rw [hcount]
    rcases heff.job? hi hj with hold | hnew
    · exact h.live f j id hold hb
    · exact h.unsettled_of_spawned hnew hb

/-- The end of a handler's job, with what happened to its slot. -/
lemma SlotInv.ended {s s' : State} {a : Action} (h : SlotInv s) (heff : Effect s a s') (hi : Inv s)
    {f : FiberId} {j : Job} {id : Id} (hf : (s.pool.status f).job? = some j)
    (hb : j.body = .handler id) (hgone : (s'.pool.status f).job? = none)
    (hhandled : s'.admission.handled = s'.admission.released.length)
    (hdrained : s'.log.drained = s'.admission.released)
    (hsettled : s'.log.settled = s.log.settled ++ [j])
    (hends : ∀ i, s'.admission.released.count i + s'.log.cleanupThrew.count i
      = s.admission.released.count i + s.log.cleanupThrew.count i + if i = id then 1 else 0) :
    SlotInv s' := by
  have hzero := h.live f j id hf hb
  have hcount : ∀ i, settledCount s' i = settledCount s i + if i = id then 1 else 0 := by
    intro i
    simp only [settledCount, hsettled, List.countP_append, List.countP_singleton, hb,
      decide_eq_true_eq, Body.handler.injEq, eq_comm (a := id)]
  refine ⟨hhandled, hdrained, fun i => ?_, fun i => ?_, fun i hpos => ?_, fun g k i hk hbk => ?_⟩
  · rw [hcount, ← h.ends]
    exact hends i
  · rw [hcount]
    split_ifs with hii
    · rw [hii, hzero]
    · exact h.one_job i
  · rw [hcount] at hpos
    by_cases hii : i = id
    · exact heff.admissions_kept (hii ▸ hi.handler_admitted f j id hf hb)
    · rw [if_neg hii] at hpos
      exact heff.admissions_kept (h.admitted i hpos)
  · rw [hcount]
    rcases heff.job? hi hk with hold | hnew
    · have hii : i ≠ id := by
        rintro rfl
        rw [hi.pool.handler_unique g f k j i hold hf hbk hb, hgone] at hk
        exact absurd hk (by simp)
      rw [if_neg hii, Nat.add_zero]
      exact h.live g k i hold hbk
    · have hii : i ≠ id := by
        rintro rfl
        exact (hnew.of_handler hbk).1 (hi.handler_admitted f j i hf hb)
      rw [if_neg hii, Nat.add_zero]
      exact h.unsettled_of_spawned hnew hbk

theorem slotInv_step {s s' : State} {a : Action} (h : SlotInv s) (hi : Inv s)
    (hstep : step s a = some s') : SlotInv s' := by
  have heff := (step_effect hi hstep).1
  have heff' := heff
  cases heff' with
  | quiet | assign | readSuperglobal | readScope | writeScope | clearScope | suspend | resume
  | deliver | miss | callEnds | spawn | answer | release =>
      exact h.frame heff hi rfl rfl rfl rfl fun _ => rfl
  | @start f j p hmain hnext htodo hptodo hf hp =>
      have hlog := startJob_log (s.withPool p) f j
      refine h.frame heff hi ?_ ?_ ?_ ?_ fun id => ?_
      · rw [startJob_admission]
        rfl
      · rw [startJob_admission]
        rfl
      · rw [hlog]
        rfl
      · rw [hlog]
        rfl
      · rw [settledCount, hlog]
        rfl
  | @queue id raw rest hmain htodo hnew hpc hwait =>
      obtain ⟨-, -, h₃, h₄⟩ := Admission.dispatchRequest_settings s.admission id raw
      exact h.frame heff hi h₃ h₄ rfl rfl fun _ => rfl
  | @letIn id raw rest hmain htodo hnew hpc hwait =>
      obtain ⟨-, -, h₃, h₄⟩ := Admission.dispatchRequest_settings s.admission id raw
      exact h.frame heff hi h₃ h₄ rfl rfl fun _ => rfl
  | @cancel id rest deadlines deadlineOf hmain htodo hnext =>
      obtain ⟨-, -, h₃, h₄, -⟩ := Admission.dispatchCancel_settings s.admission id
      refine h.frame heff hi h₃ h₄ ?_ ?_ fun i => ?_
      · simp only [State.cancelRequest]
        split_ifs <;> rfl
      · simp only [State.cancelRequest]
        split_ifs <;> rfl
      · simp only [settledCount, State.cancelRequest]
        split_ifs <;> rfl
  | @settle f j e hcur hb =>
      refine h.frame heff hi rfl rfl rfl rfl fun i => ?_
      rw [settledCount_settleJob, hb, if_neg (by simp), Nat.add_zero]
  | @slot f j id hcur hb =>
      obtain ⟨-, hf⟩ := current_eq_some_iff.mp hcur
      obtain ⟨-, -, h₃, h₄, -⟩ := Admission.drainQueue_settings (s.admission.releaseSlot id)
      have hreleased : (s.releaseSlot f id).admission.released = s.admission.released ++ [id] := h₄
      have hhandled : (s.releaseSlot f id).admission.handled = s.admission.handled + 1 := h₃
      refine h.ended heff hi (by rw [hf]; rfl) hb (settleJob_job? _ _ _ _) ?_ ?_ rfl fun i => ?_
      · rw [settleJob_admission, hhandled, hreleased, h.handled_eq, List.length_append]
        rfl
      · rw [settleJob_admission, hreleased, ← h.drained_eq]
        rfl
      · have hthrew : ((s.releaseSlot f id).settleJob f j .resolved).log.cleanupThrew
            = s.log.cleanupThrew := rfl
        rw [settleJob_admission, hreleased, hthrew, List.count_append, List.count_singleton]
        simp only [beq_iff_eq, eq_comm (a := id)]
        omega
  | @cleanupThrew f j id e hcur hb =>
      obtain ⟨-, hf⟩ := current_eq_some_iff.mp hcur
      refine h.ended heff hi (by rw [hf]; rfl) hb (settleJob_job? _ _ _ _) h.handled_eq h.drained_eq
        rfl fun i => ?_
      have hthrew : (({ s with
          log := { s.log with cleanupThrew := s.log.cleanupThrew ++ [id] } } : State).settleJob f j
          (.rejected e)).log.cleanupThrew = s.log.cleanupThrew ++ [id] := rfl
      rw [hthrew, settleJob_admission, List.count_append, List.count_singleton]
      simp only [beq_iff_eq, eq_comm (a := id)]
      omega

/-- A destructor throws while the fiber clears the scope of a request. -/
def cleanupThrows (s : State) : Action → Bool
  | .finish (some _) => s.current.any fun c => c.2.2 = .clearing
  | _ => false

lemma cleanupThrows_iff {s : State} {a : Action} :
    cleanupThrows s a = true
      ↔ ∃ e f j, a = .finish (some e) ∧ s.current = some (f, j, .clearing) := by
  constructor
  · intro h
    unfold cleanupThrows at h
    split at h
    · cases hcur : s.current with
      | none => simp [hcur] at h
      | some c =>
          obtain ⟨f, j, st⟩ := c
          simp only [hcur, Option.any_some, decide_eq_true_eq] at h
          exact ⟨_, f, j, rfl, by rw [h]⟩
    · simp at h
  · rintro ⟨e, f, j, rfl, hcur⟩
    simp [cleanupThrows, hcur]

/-- The throw is on record, and nothing else is. -/
lemma step_cleanupThrew {s s' : State} {a : Action} (hi : Inv s) (hstep : step s a = some s') :
    s'.log.cleanupThrew = [] ↔ s.log.cleanupThrew = [] ∧ cleanupThrows s a = false := by
  cases hc : cleanupThrows s a with
  | true =>
      obtain ⟨e, f, j, rfl, hcur⟩ := cleanupThrows_iff.mp hc
      obtain ⟨hr, -⟩ := current_eq_some_iff.mp hcur
      simp only [step, hr, hcur, stepFiber, State.finish] at hstep
      cases hb : j.body with
      | user => simp [hb] at hstep
      | handler id =>
          simp only [hb] at hstep
          obtain rfl := Option.some.inj hstep
          simp [State.settleJob, State.withPool]
  | false =>
      have hsame : s'.log.cleanupThrew = s.log.cleanupThrew := by
        cases (step_effect hi hstep).1 with
        | start =>
            rw [startJob_log]
            rfl
        | cancel =>
            simp only [State.cancelRequest]
            split_ifs <;> rfl
        | cleanupThrew hcur hb =>
            rw [cleanupThrows_iff.mpr ⟨_, _, _, rfl, hcur⟩] at hc
            exact absurd hc (by simp)
        | quiet | assign | readSuperglobal | readScope | writeScope | clearScope | suspend | resume
        | deliver | miss | callEnds | spawn | queue | letIn | answer | release | settle | slot =>
            rfl
      simp [hsame]

lemma run_cleanupThrew {s s' : State} {as : List Action} (hi : Inv s)
    (hrun : StepSystem.runFrom step s as = some s') :
    s'.log.cleanupThrew = [] ↔ s.log.cleanupThrew = []
      ∧ StepSystem.Along step (fun t a => cleanupThrows t a = false) s as := by
  induction as generalizing s with
  | nil =>
      obtain rfl := Option.some.inj hrun
      simp [StepSystem.Along]
  | cons a as ih =>
      obtain ⟨t, ht, hrest⟩ := (StepSystem.runFrom_cons step).mp hrun
      rw [ih (inv_step hi ht) hrest, step_cleanupThrew hi ht]
      simp only [StepSystem.Along, and_assoc, and_congr_right_iff]
      intro _ _
      exact ⟨fun h u hu => Option.some.inj (ht.symm.trans hu) ▸ h, fun h => h t ht⟩

/-- What the end of a handler is to leave behind: one decrement of `$inflightRequests`, one
increment of `$handled` and one run of `drainQueue()` for every request that is gone, so that the
slots in use are those of requests that are not, and nobody queues behind the others. -/
structure SlotsGivenBack (s : State) : Prop where
  released_once : ∀ id, 0 < settledCount s id → s.admission.released.count id = 1
  drained_once : ∀ id, 0 < settledCount s id → s.log.drained.count id = 1
  handled_eq : s.admission.handled = s.admission.released.length
  inflight_eq : s.admission.inflightRequests
    = ((s.admission.admissions.map Admitted.id).filter fun id => settledCount s id = 0).length
  not_stranded : 0 < s.admission.fiberBudget → s.admission.live ≠ [] →
    ∃ id ∈ s.admission.admissions.map Admitted.id, settledCount s id = 0

/-- Where no cleanup has thrown, a job that has settled has given its slot back. -/
lemma SlotInv.released_count {s : State} (h : SlotInv s) (hthrew : s.log.cleanupThrew = [])
    (id : Id) : s.admission.released.count id = settledCount s id := by
  have := h.ends id
  rwa [hthrew, List.count_nil, Nat.add_zero] at this

/-- Each admitted request holds a slot or has given it back. -/
lemma SlotInv.split_admissions {s : State} (h : SlotInv s) (hi : s.admission.Inv)
    (hthrew : s.log.cleanupThrew = []) :
    s.admission.admissions.length = s.admission.released.length
      + ((s.admission.admissions.map Admitted.id).filter
        fun id => settledCount s id = 0).length := by
  have hends := h.released_count hthrew
  have hnodup : s.admission.released.Nodup := List.nodup_iff_count_le_one.mpr fun id =>
    hends id ▸ h.one_job id
  have hperm : ((s.admission.admissions.map Admitted.id).filter
      fun id => !decide (settledCount s id = 0)).Perm s.admission.released := by
    refine (List.perm_ext_iff_of_nodup (hi.toCore.admissions_nodup.filter _) hnodup).mpr ?_
    intro id
    rw [List.mem_filter, ← List.count_pos_iff, ← List.count_pos_iff, hends]
    simp only [Bool.not_eq_true', decide_eq_false_iff_not]
    constructor
    · exact fun hid => Nat.pos_of_ne_zero hid.2
    · exact fun hid => ⟨List.count_pos_iff.mpr (h.admitted id hid), Nat.ne_of_gt hid⟩
  have hlen := List.length_eq_length_filter_add (l := s.admission.admissions.map Admitted.id)
    fun id => decide (settledCount s id = 0)
  rw [List.length_map, hperm.length_eq] at hlen
  rw [hlen, Nat.add_comm]

/-- **A slot is given back unless the cleanup throws.**  In every run, the slots of all requests
that are gone have been given back exactly when no destructor threw while a scope was cleared. -/
theorem slots_given_back_iff {budget depth : ℤ} {exempt : List PhpString} {chaos : Bool}
    {symbols : Superglobal → Bool} {as : List Action} {s : State}
    (hrun : StepSystem.runFrom step (boot budget depth exempt chaos symbols) as = some s) :
    SlotsGivenBack s ↔ StepSystem.Along step (fun t a => cleanupThrows t a = false)
      (boot budget depth exempt chaos symbols) as := by
  have hboot := inv_boot budget depth exempt chaos symbols
  obtain ⟨hi, h⟩ : Inv s ∧ SlotInv s := StepSystem.invariant_of_run step
    (I := fun t => Inv t ∧ SlotInv t)
    (fun t a t' ht hstep => ⟨inv_step ht.1 hstep, slotInv_step ht.2 ht.1 hstep⟩)
    ⟨hboot, slotInv_boot budget depth exempt chaos symbols⟩ hrun
  have hthrew : s.log.cleanupThrew = [] ↔ _ :=
    (run_cleanupThrew hboot hrun).trans (and_iff_right rfl)
  rw [← hthrew]
  constructor
  · intro hback
    refine List.eq_nil_iff_forall_not_mem.mpr fun id hid => ?_
    have hpos := List.count_pos_iff.mpr hid
    have hends := h.ends id
    have := hback.released_once id (by omega)
    have := h.one_job id
    omega
  · intro hnil
    have hone : ∀ id, 0 < settledCount s id → s.admission.released.count id = 1 := by
      intro id hid
      have := h.one_job id
      rw [h.released_count hnil]
      omega
    have hinflight : s.admission.inflightRequests = _ := hi.admission.inflight_eq
    have hsplit := h.split_admissions hi.admission hnil
    refine ⟨hone, fun id hid => by rw [h.drained_eq]; exact hone id hid, h.handled_eq, by omega, ?_⟩
    intro hbudget hlive
    have hfull := (hi.admission.full hlive).2
    have hne : ((s.admission.admissions.map Admitted.id).filter
        fun id => settledCount s id = 0) ≠ [] := by
      intro e
      rw [e, List.length_nil] at hsplit
      omega
    obtain ⟨id, hid⟩ := List.exists_mem_of_ne_nil _ hne
    rw [List.mem_filter, decide_eq_true_iff] at hid
    exact ⟨id, hid⟩

/-- The request that held the slot ends, and the one that waited is admitted. -/
def nextServed : List Action := List.flatten [oneWaits, completes 50 (.slept 0), handlerEnds]

theorem slots_given_back_iff_served : ∃ s, StepSystem.runFrom step (worker 1) nextServed = some s
    ∧ settledCount s 1 = 1 ∧ s.admission.live = [] ∧ SlotsGivenBack s := by
  obtain ⟨s, hrun, hs⟩ := Option.map_eq_some_iff.mp
    (show (StepSystem.runFrom step (worker 1) nextServed).map
      (fun s => (settledCount s 1, s.admission.live)) = some (1, []) by decide +kernel)
  obtain ⟨h₁, h₂⟩ := Prod.mk.inj hs
  exact ⟨s, hrun, h₁, h₂, (slots_given_back_iff hrun).mpr (by decide +kernel)⟩

/-- A destructor throws out of `Scope::clear()` while another request waits for the slot. -/
def destructorThrows : List Action :=
  List.flatten [oneWaits, completes 50 (.slept 0), [.finish none, .finish none],
    [.finish (some (.user 0))]]

/-- The request is gone, its slot is not given back, and the request that waits for it is
stranded. -/
theorem throwing_cleanup_loses_slot : ∃ s,
    StepSystem.runFrom step (worker 1) destructorThrows = some s
    ∧ settledCount s 1 = 1 ∧ s.admission.released = [] ∧ s.admission.inflightRequests = 1
    ∧ s.admission.live = [2] ∧ ¬ SlotsGivenBack s := by
  obtain ⟨s, hrun, hs⟩ := Option.map_eq_some_iff.mp
    (show (StepSystem.runFrom step (worker 1) destructorThrows).map
      (fun s => (settledCount s 1, s.admission.released, s.admission.inflightRequests,
        s.admission.live)) = some (1, [], 1, [2]) by decide +kernel)
  simp only [Prod.mk.injEq] at hs
  obtain ⟨h₁, h₂, h₃, h₄⟩ := hs
  refine ⟨s, hrun, h₁, h₂, h₃, h₄, fun hback => ?_⟩
  have := hback.released_once 1 (by omega)
  simp [h₂] at this

end Loop

end Ignis
