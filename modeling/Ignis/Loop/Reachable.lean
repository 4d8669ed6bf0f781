import Ignis.Loop.Jobs

/-!
# Every reachable state is good

The invariant of the loop holds when a worker boots, and every step keeps it: the pool's part is in
`step_effect`, the queue changes in one of three ways, a new handler belongs to a request admitted
with it, and whoever begins to clean up has just cleared its scope.
-/

namespace Ignis

namespace Loop

/-! ## The scopes -/

lemma currentRequestId_congr {s s' : State} {f : FiberId}
    (h : (s'.scopes f).get? .request = (s.scopes f).get? .request) :
    s'.currentRequestId f = s.currentRequestId f := by
  simp only [State.currentRequestId, h]

lemma scopeSet_user_request (s : State) (f : FiberId) (j : Job) (n : ℕ) (v : ScopeValue)
    (g : FiberId) : (s.scopeSet f j (.user n) v).currentRequestId g = s.currentRequestId g := by
  refine currentRequestId_congr ?_
  simp only [State.scopeSet, Function.update_apply]
  split_ifs with hg
  · simp [hg, OrdMap.get?_set]
  · rfl

lemma scopes_elsewhere_scopeSet (s : State) {f g : FiberId} (j : Job) (key : ScopeKey)
    (v : ScopeValue) (hg : g ≠ f) : (s.scopeSet f j key v).scopes g = s.scopes g :=
  Function.update_of_ne hg _ _

lemma scopes_elsewhere_startJob (s : State) {f g : FiberId} (j : Job) (hg : g ≠ f) :
    (s.startJob f j).scopes g = s.scopes g := by
  have hattr : (s.attributedToRequest f j).scopes g = s.scopes g := by
    unfold State.attributedToRequest
    split
    · rfl
    · exact scopes_elsewhere_scopeSet s j _ _ hg
  unfold State.startJob
  cases j.body with
  | user => exact hattr
  | handler id =>
      simp only [State.enterRequest]
      rw [scopes_elsewhere_scopeSet _ _ _ _ hg, scopes_elsewhere_scopeSet _ _ _ _ hg]
      exact hattr

@[simp] lemma startJob_admission (s : State) (f : FiberId) (j : Job) :
    (s.startJob f j).admission = s.admission := by
  have hattr : (s.attributedToRequest f j).admission = s.admission := by
    unfold State.attributedToRequest
    split <;> rfl
  unfold State.startJob
  cases j.body <;> exact hattr

lemma startJob_deadlines (s : State) (f : FiberId) (j : Job) :
    (s.startJob f j).deadlines = s.deadlines ∧ (s.startJob f j).deadlineOf = s.deadlineOf := by
  have hattr : (s.attributedToRequest f j).deadlines = s.deadlines
      ∧ (s.attributedToRequest f j).deadlineOf = s.deadlineOf := by
    unfold State.attributedToRequest
    split <;> exact ⟨rfl, rfl⟩
  unfold State.startJob
  cases j.body <;> exact hattr

/-- The request a job's callable starts with. -/
def State.startsWith (s : State) (f : FiberId) (j : Job) : Option Id :=
  (s.attributedToRequest f j).currentRequestId f

lemma startJob_log (s : State) (f : FiberId) (j : Job) :
    (s.startJob f j).log = { s.log with
      starts := s.log.starts ++ [(j, s.startsWith f j)]
      entered := s.log.entered ++ (match j.body with | .handler id => [id] | .user => []) } := by
  have hattr : (s.attributedToRequest f j).log = s.log := by
    unfold State.attributedToRequest
    split <;> rfl
  unfold State.startJob State.startsWith
  cases j.body with
  | handler id => simp [State.enterRequest, State.scopeSet, hattr]
  | user => simp [hattr]

/-! ## The invariant -/

/-- What a step does to the queue: nothing, or one of three things. -/
lemma Effect.admission {s s' : State} {a : Action} (h : Effect s a s') :
    s'.admission = s.admission
      ∨ (∃ id raw, id ∉ s.admission.arrivals.map Arrival.id
        ∧ s'.admission = s.admission.dispatchRequest id raw)
      ∨ (∃ id, s'.admission = s.admission.dispatchCancel id)
      ∨ (∃ id, s'.admission = (s.admission.releaseSlot id).drainQueue.1) := by
  cases h with
  | queue hmain htodo hnew hpc hwait => exact Or.inr (Or.inl ⟨_, _, hnew, rfl⟩)
  | letIn hmain htodo hnew hpc hwait => exact Or.inr (Or.inl ⟨_, _, hnew, rfl⟩)
  | cancel => exact Or.inr (Or.inr (Or.inl ⟨_, rfl⟩))
  | slot => exact Or.inr (Or.inr (Or.inr ⟨_, rfl⟩))
  | start => exact Or.inl (startJob_admission _ _ _)
  | quiet | assign | readSuperglobal | readScope | writeScope | clearScope | suspend | resume
  | deliver | miss | callEnds | spawn | answer | release | settle | cleanupThrew => exact Or.inl rfl

lemma Effect.admission_inv {s s' : State} {a : Action} (heff : Effect s a s') (h : Inv s) :
    s'.admission.Inv := by
  rcases heff.admission with he | ⟨id, raw, hnew, he⟩ | ⟨id, he⟩ | ⟨id, he⟩ <;> rw [he]
  · exact h.admission
  · exact Admission.inv_dispatchRequest h.admission hnew
  · exact Admission.inv_dispatchCancel h.admission id
  · exact Admission.inv_releaseSlot h.admission id

/-- Who was admitted stays admitted. -/
lemma Effect.admissions_kept {s s' : State} {a : Action} (heff : Effect s a s') {id : Id}
    (hid : id ∈ s.admission.admissions.map Admitted.id) :
    id ∈ s'.admission.admissions.map Admitted.id := by
  rcases heff.admission with he | ⟨i, raw, -, he⟩ | ⟨i, he⟩ | ⟨i, he⟩ <;> rw [he]
  · exact hid
  · exact Admission.admissions_dispatchRequest _ _ _ id hid
  · rw [(Admission.dispatchCancel_settings s.admission i).2.2.2.2]
    exact hid
  · rw [Admission.drainQueue_admissions]
    exact List.mem_append_left _ hid

/-- A step leaves the `ignis.request` of a fiber alone, or takes it away, or starts a job there. -/
lemma Effect.currentRequestId {s s' : State} {a : Action} (heff : Effect s a s') (g : FiberId) :
    s'.currentRequestId g = s.currentRequestId g ∨ s'.currentRequestId g = none
      ∨ ∃ j, (s.pool.status g).Holds j := by
  cases heff with
  | quiet | assign | readSuperglobal | readScope | suspend | resume | deliver | miss | callEnds
  | spawn | queue | letIn | cancel | settle | slot | cleanupThrew => exact Or.inl rfl
  | writeScope => exact Or.inl (scopeSet_user_request _ _ _ _ _ _)
  | @clearScope _ f j st hcur =>
      by_cases hg : g = f
      · exact Or.inr (Or.inl (by simp [State.currentRequestId, State.scopeClear, hg]))
      · exact Or.inl (currentRequestId_congr (by simp [State.scopeClear, hg]))
  | @start f j p hmain hnext htodo hptodo hf hp =>
      by_cases hg : g = f
      · exact Or.inr (Or.inr ⟨j, hg ▸ hf.imp And.right And.right⟩)
      · exact Or.inl (currentRequestId_congr (by rw [scopes_elsewhere_startJob _ _ hg]; rfl))
  | @answer f j id e hcur hb =>
      by_cases hg : g = f
      · refine Or.inr (Or.inl ?_)
        simp [State.currentRequestId, State.scopeSet, State.withPool, hg]
      · refine Or.inl (currentRequestId_congr ?_)
        exact congrArg (OrdMap.get? · _) (scopes_elsewhere_scopeSet s j _ _ hg)
  | @release f j id e deadlines deadlineOf hcur hb =>
      by_cases hg : g = f
      · exact Or.inr (Or.inl (by simp [State.currentRequestId, State.scopeClear, hg]))
      · exact Or.inl (currentRequestId_congr (by simp [State.scopeClear, State.withPool, hg]))

/-- A fiber that cleans up did so before, or has just cleared its scope. -/
lemma Effect.clearing {s s' : State} {a : Action} (heff : Effect s a s') (h : Inv s) {g : FiberId}
    (hg : (s'.pool.status g).stage? = some .clearing) :
    s'.currentRequestId g = none ∨ (s.pool.status g).stage? = some .clearing := by
  cases heff.fate h g with
  | same hsame => exact Or.inr (hsame.stage? ▸ hg)
  | spawned hold hk hnew => simp [hk.stage?] at hg
  | @starts k p hat hk hs' hg' =>
      rw [hg'] at hg
      rcases k with ⟨_ | _, _, _, _⟩ <;> simp [Pool.entryStage, Status.stage?] at hg
  | turns hcur hg' hst' =>
      refine Or.inl (hst'.resolve_left fun e => ?_)
      rw [hg', e] at hg
      simp [Status.stage?] at hg
  | ends hcur hg' => simp [hg', Status.stage?] at hg

theorem inv_step {s s' : State} {a : Action} (h : Inv s) (hstep : step s a = some s') : Inv s' := by
  obtain ⟨heff, ht⟩ := step_effect h hstep
  refine ⟨ht, heff.admission_inv h, ?_, ?_⟩
  · intro g j id hj hb
    rcases heff.job? h hj with hold | hnew
    · exact heff.admissions_kept (h.handler_admitted g j id hold hb)
    · exact (hnew.of_handler hb).2
  · intro g hg
    rcases heff.clearing h hg with hnone | hold
    · exact hnone
    · rcases heff.currentRequestId g with hsame | hnone | ⟨j, hj⟩
      · exact hsame.trans (h.clearing_scope g hold)
      · exact hnone
      · simp [hj.stage?] at hold

theorem inv_boot (fiberBudget queueDepth : ℤ) (budgetExempt : List PhpString) (chaos : Bool)
    (symbols : Superglobal → Bool) :
    Inv (boot fiberBudget queueDepth budgetExempt chaos symbols) where
  pool := Pool.inv_init
  admission := Admission.inv_boot fiberBudget queueDepth budgetExempt
  starting := Or.inr rfl
  resuming := Or.inr rfl
  walking := Or.inr rfl
  handler_admitted := by simp [boot, Pool.init, Status.job?]
  clearing_scope := by simp [boot, Pool.init, Status.stage?]

/-- A state some run of a worker reaches. -/
def Reachable (s : State) : Prop :=
  ∃ fiberBudget queueDepth budgetExempt chaos symbols as,
    StepSystem.runFrom step (boot fiberBudget queueDepth budgetExempt chaos symbols) as = some s

theorem Reachable.inv {s : State} (h : Reachable s) : Inv s := by
  obtain ⟨b, d, ex, chaos, symbols, as, hrun⟩ := h
  exact StepSystem.invariant_of_run step (fun _ _ _ => inv_step) (inv_boot b d ex chaos symbols)
    hrun

/-! ## Runs, written down

The pieces the runs of the following modules are put together from.
-/

/-- A worker with a budget, an unbounded queue and all four superglobals. -/
def worker (budget : ℤ) : State := boot budget 0 [] false fun _ => true

/-- A turn of the loop with nothing to run, up to the poll. -/
def toPoll : List Action := [.turn false, .advance, .advance, .test 1 false]

/-- The poll answers with one completion, which is dispatched. -/
def completes (id : Id) (outcome : Outcome) : List Action :=
  [.poll [(⟨id, outcome⟩, 0)], .advance, .dispatch 1 [id], .advance]

/-- `GET /` arrives. -/
def arrives (id : Id) : List Action :=
  List.flatten [completes id (.request ⟨bytes "GET", bytes "/", [], []⟩), [.advance]]

/-- The fiber created last starts with what it was made for. -/
def startsFresh : List Action := [.turn false, .advance, .advance]

/-- The handler waits for `op`, and the loop polls again. -/
def awaits (op : Id) : List Action := [.awaitOp op, .advance, .advance, .test 1 false]

/-- `{main}` serves; request `id` arrives and starts. -/
def handlerStarts (id : Id) : List Action :=
  List.flatten [[.run true], toPoll, arrives id, startsFresh]

/-- What a handler does to the end: it returns, answers and is released. -/
def handlerEnds : List Action := [.finish none, .finish none, .finish none]

/-- Request `1` has the only slot of a budget of one, and request `2` waits for it. -/
def oneWaits : List Action := List.flatten [handlerStarts 1, awaits 50, arrives 2, toPoll]

end Loop

end Ignis
