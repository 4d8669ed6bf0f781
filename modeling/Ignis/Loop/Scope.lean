import Ignis.Loop.Reachable

/-!
# Fiber-scoped values on pooled fibers

`Scope` keeps its values per fiber, and a fiber outlives the job that stored them.  A handler clears
the bag of its fiber in `releaseRequest()`; nothing clears it after any other job.  So a job may
start on a fiber that still holds what an earlier one stored, the `ignis.request` of a finished
child above all.

* `Effect.scopeEntry`: a value that a started job can read was there before, or was left on the
  fiber the job starts on, or is the job's own.
* `Attributed`: a job's request id, and the one in the scope of the fiber it runs on, are right in
  the sense of a parameter.  The property is kept by every step that starts no job under the wrong
  `ignis.request`.
* `scope_isolated`: a job reads its own values and those of its request, in every run in which no
  job starts on a fiber with values of somebody else.
-/

namespace Ignis

/-- What the start of a job stores in the scope of its fiber. -/
def Job.stores (j : Job) : ScopeKey → Option ScopeValue
  | .request =>
      match j.body with
      | .handler id => some (.request id)
      | .user => j.requestId.map .request
  | .body =>
      match j.body with
      | .handler id => some (.body id)
      | .user => none
  | .user _ => none

namespace Loop

/-! ## Who can read what -/

lemma currentRequestId_eq_some_iff {s : State} {f : FiberId} {r : Id} :
    s.currentRequestId f = some r
      ↔ ∃ stored, (s.scopes f).get? .request = some stored ∧ stored.value = .request r := by
  unfold State.currentRequestId
  constructor
  · intro h
    split at h
    · rename_i id w hget
      exact ⟨_, hget, by rw [Option.some.inj h]⟩
    · simp at h
  · rintro ⟨⟨v, w⟩, hget, hv⟩
    simp only at hv
    rw [hget, hv]

/-- An entry after `Scope::set()` is the one just stored, or an old one. -/
lemma scopeSet_entry {s : State} {f g : FiberId} {j : Job} {key key' : ScopeKey} {v : ScopeValue}
    {stored : Stored} (h : ((s.scopeSet f j key v).scopes g).get? key' = some stored) :
    (g = f ∧ key' = key ∧ stored = ⟨v, j⟩) ∨ (s.scopes g).get? key' = some stored := by
  by_cases hgf : g = f
  · subst hgf
    simp only [State.scopeSet, Function.update_self, OrdMap.get?_set] at h
    split_ifs at h with hkey
    · exact Or.inl ⟨rfl, hkey, (Option.some.inj h).symm⟩
    · exact Or.inr h
  · rw [scopes_elsewhere_scopeSet _ _ _ _ hgf] at h
    exact Or.inr h

/-- The start of a job leaves in place what it does not store itself. -/
lemma startJob_scopes (s : State) (f : FiberId) (j : Job) (key : ScopeKey) :
    ((s.startJob f j).scopes f).get? key
      = (j.stores key).elim ((s.scopes f).get? key) fun v => some ⟨v, j⟩ := by
  rcases j with ⟨_ | _, fut, _ | rid, d⟩ <;> cases key <;>
    simp [State.startJob, State.attributedToRequest, State.enterRequest, State.scopeSet, Job.stores,
      OrdMap.get?_set]

/-- **What a started job can read** was there before, was left on the fiber it starts on, or is its
own. -/
theorem Effect.scopeEntry {s s' : State} {a : Action} (heff : Effect s a s') (hi : Inv s)
    {g : FiberId} {k : Job} {key : ScopeKey} {stored : Stored}
    (hk : (s'.pool.status g).started? = some k) (hget : (s'.scopes g).get? key = some stored) :
    ((s.pool.status g).started? = some k ∧ (s.scopes g).get? key = some stored)
      ∨ (s.startsAt a = some (g, k) ∧ k.stores key = none ∧ (s.scopes g).get? key = some stored)
      ∨ (stored.writer = k
        ∧ (key = .request → stored.value = .null ∨ k.stores .request = some stored.value)) := by
  -- the code of a job starts none, so who has started after it had started before
  have hfinish : ∀ e, a = .finish e → (s.pool.status g).started? = some k := fun e ha =>
    (heff.started? hi hk).resolve_right (by simp [ha, State.startsAt])
  cases heff with
  | quiet hp hpc => exact Or.inl ⟨(hp.sameJob g).started? ▸ hk, hget⟩
  | assign | readSuperglobal | readScope | miss | callEnds | queue | cancel =>
      exact Or.inl ⟨hk, hget⟩
  | @writeScope _ f j st n v hcur =>
      obtain ⟨-, hf⟩ := current_eq_some_iff.mp hcur
      have hold : (s.pool.status g).started? = some k := hk
      rcases scopeSet_entry hget with ⟨rfl, rfl, rfl⟩ | hget
      · rw [hf] at hold
        exact Or.inr (Or.inr ⟨Option.some.inj hold, by simp⟩)
      · exact Or.inl ⟨hold, hget⟩
  | @clearScope _ f j st hcur =>
      by_cases hgf : g = f
      · simp [State.scopeClear, hgf] at hget
      · simp only [State.scopeClear, Function.update_of_ne hgf] at hget
        exact Or.inl ⟨hk, hget⟩
  | suspend hcur htodo hp =>
      obtain ⟨-, hf⟩ := current_eq_some_iff.mp hcur
      exact Or.inl ⟨(hp.suspended hf g).started? ▸ hk, hget⟩
  | resume hmain htodo hptodo hf hp hpc => exact Or.inl ⟨(hp.resumed hf g).started? ▸ hk, hget⟩
  | deliver hmain hpc htodo hptodo hf hp => exact Or.inl ⟨(hp.resumed hf g).started? ▸ hk, hget⟩
  | @start f j p hmain hnext htodo hptodo hf hp =>
      rw [startJob_pool] at hk
      have hk : (p.status g).started? = some k := hk
      rw [hp.status] at hk
      by_cases hgf : g = f
      · subst hgf
        rw [if_pos rfl] at hk
        obtain rfl := Option.some.inj hk
        rw [startJob_scopes] at hget
        cases hst : j.stores key with
        | none =>
            rw [hst] at hget
            exact Or.inr (Or.inl ⟨startsAt_advance hmain hnext, rfl, hget⟩)
        | some v =>
            rw [hst] at hget
            obtain rfl := Option.some.inj hget
            exact Or.inr (Or.inr ⟨rfl, fun e => Or.inr (e ▸ hst)⟩)
      · rw [if_neg hgf] at hk
        rw [scopes_elsewhere_startJob _ _ hgf] at hget
        exact Or.inl ⟨hk, hget⟩
  | @spawn _ requestId descends hby =>
      exact Or.inl ⟨spawn_started? hi.pool.toPlaces .user requestId descends g ▸ hk, hget⟩
  | @letIn id raw rest hmain htodo hnew hpc hwait =>
      exact Or.inl ⟨spawn_started? hi.pool.toPlaces (.handler id) none (some id) g ▸ hk, hget⟩
  | @answer f j id e hcur hb =>
      obtain ⟨-, hf⟩ := current_eq_some_iff.mp hcur
      have hold := hfinish e rfl
      have hget : ((s.scopeSet f j .request .null).scopes g).get? key = some stored := hget
      rcases scopeSet_entry hget with ⟨rfl, rfl, rfl⟩ | hget
      · rw [hf] at hold
        exact Or.inr (Or.inr ⟨Option.some.inj hold, fun _ => Or.inl rfl⟩)
      · exact Or.inl ⟨hold, hget⟩
  | @release f j id e deadlines deadlineOf hcur hb =>
      by_cases hgf : g = f
      · simp [State.scopeClear, hgf] at hget
      · simp only [State.scopeClear, Function.update_of_ne hgf] at hget
        exact Or.inl ⟨hfinish e rfl, hget⟩
  | settle hcur hb => exact Or.inl ⟨hfinish _ rfl, hget⟩
  | slot hcur hb => exact Or.inl ⟨hfinish _ rfl, hget⟩
  | cleanupThrew hcur hb => exact Or.inl ⟨hfinish _ rfl, hget⟩

/-! ## Attribution -/

/-- Jobs are attributed rightly: `P d r` says when a job that descends from `d` may count as one of
request `r`. -/
structure Attributed (P : Option Id → Id → Prop) (s : State) : Prop where
  job : ∀ g j r, (s.pool.status g).job? = some j → j.requestId = some r → P j.descends r
  scope : ∀ g j r, (s.pool.status g).started? = some j → s.currentRequestId g = some r →
    P j.descends r

section Attribution

variable {P : Option Id → Id → Prop}

lemma attributed_boot (fiberBudget queueDepth : ℤ) (budgetExempt : List PhpString) (chaos : Bool)
    (symbols : Superglobal → Bool) :
    Attributed P (boot fiberBudget queueDepth budgetExempt chaos symbols) where
  job := by simp [boot, Pool.init, Status.job?]
  scope := by simp [boot, Pool.init, Status.started?]

/-- **Attribution is handed down.**  A job gets its request from the scope of the job that spawns
it, and its scope gets it from the job, unless the job starts with what is left on its fiber. -/
theorem attributed_step (hP : ∀ r, P (some r) r) {s s' : State} {a : Action} (h : Attributed P s)
    (hi : Inv s)
    (hleft : ∀ f j r, s.startsAt a = some (f, j) → j.stores .request = none →
      s.currentRequestId f = some r → P j.descends r)
    (hstep : step s a = some s') : Attributed P s' := by
  have heff := (step_effect hi hstep).1
  have hi' := inv_step hi hstep
  have hjob : ∀ g j r, (s'.pool.status g).job? = some j → j.requestId = some r →
      P j.descends r := by
    intro g j r hj hr
    rcases heff.job? hi hj with hold | hnew
    · exact h.job g j r hold hr
    · cases hnew with
      | child hcur hb hreq hdesc =>
          rw [hdesc]
          exact h.scope _ _ r (started?_of_current hcur) (hreq ▸ hr)
      | main hmain hb hreq hdesc => simp [hr] at hreq
      | handler hk hold hnew => simp [hk.requestId] at hr
  refine ⟨hjob, fun g j r hj hr => ?_⟩
  obtain ⟨stored, hget, hv⟩ := currentRequestId_eq_some_iff.mp hr
  rcases heff.scopeEntry hi hj hget with ⟨hold, hget⟩ | ⟨hstart, hst, hget⟩ | ⟨-, hst⟩
  · exact h.scope g j r hold (currentRequestId_eq_some_iff.mpr ⟨stored, hget, hv⟩)
  · exact hleft g j r hstart hst (currentRequestId_eq_some_iff.mpr ⟨stored, hget, hv⟩)
  · rw [hv] at hst
    have hst := (hst rfl).resolve_left (by simp)
    have hj := Status.started?_job? hj
    cases hb : j.body with
    | handler id =>
        simp only [Job.stores, hb, Option.some.injEq, ScopeValue.request.injEq] at hst
        rw [(hi'.pool.handler_own g j id hj hb).2, hst]
        exact hP r
    | user =>
        simp only [Job.stores, hb, Option.map_eq_some_iff, ScopeValue.request.injEq] at hst
        obtain ⟨r', hr', rfl⟩ := hst
        exact hjob g j r' hj hr'

end Attribution

/-! ## Isolation -/

/-- `w` is a job of the request `j` is a job of. -/
def SameRequest (j w : Job) : Prop := j.descends ≠ none ∧ w.descends = j.descends

instance (j w : Job) : Decidable (SameRequest j w) := inferInstanceAs (Decidable (_ ∧ _))

/-- Whatever `j` would find on fiber `f` when it starts comes from a job of its own request. -/
def CleanFor (s : State) (f : FiberId) (j : Job) : Prop :=
  ∀ e ∈ (s.scopes f).entries, e.2.value ≠ .null → j.stores e.1 = none → SameRequest j e.2.writer

instance (s : State) (f : FiberId) (j : Job) : Decidable (CleanFor s f j) :=
  inferInstanceAs (Decidable (∀ e ∈ _, _))

/-- No job starts on a fiber that holds values of somebody else. -/
def CleanStart (s : State) (a : Action) : Prop :=
  ∀ x ∈ s.startsAt a, CleanFor s x.1 x.2

instance (s : State) (a : Action) : Decidable (CleanStart s a) :=
  inferInstanceAs (Decidable (∀ x ∈ s.startsAt a, _))

/-- A job may read what it stored itself, and what its request did. -/
def MayRead (j : Job) (stored : Stored) : Prop := stored.writer = j ∨ SameRequest j stored.writer

structure ScopeInv (s : State) : Prop where
  attributed : Attributed (fun d _ => d ≠ none) s
  readable : ∀ g j key stored, (s.pool.status g).started? = some j →
    (s.scopes g).get? key = some stored → stored.value ≠ .null → MayRead j stored
  reads : ∀ x ∈ s.log.scopeReads, MayRead x.1 x.2
  starts : ∀ x ∈ s.log.starts, x.1.descends = none → x.2 = none

lemma CleanStart.request {s : State} {a : Action} (h : CleanStart s a) {f : FiberId} {j : Job}
    {r : Id} (hstart : s.startsAt a = some (f, j)) (hst : j.stores .request = none)
    (hr : s.currentRequestId f = some r) : j.descends ≠ none := by
  obtain ⟨stored, hget, hv⟩ := currentRequestId_eq_some_iff.mp hr
  exact (h (f, j) hstart _ (OrdMap.mem_entries_iff.mpr hget) (by simp [hv]) hst).1

lemma startsWith_withPool (s : State) (p : Pool) (f : FiberId) (j : Job) :
    (s.withPool p).startsWith f j = s.startsWith f j := by
  unfold State.startsWith State.attributedToRequest
  split <;> rfl

/-- The reads and the starts a step puts on record. -/
lemma Effect.scopeLog {s s' : State} {a : Action} (heff : Effect s a s') :
    (∀ x ∈ s'.log.scopeReads, x ∈ s.log.scopeReads
      ∨ ∃ g key, (s.pool.status g).started? = some x.1 ∧ (s.scopes g).get? key = some x.2
        ∧ x.2.value ≠ .null)
    ∧ ∀ x ∈ s'.log.starts, x ∈ s.log.starts
      ∨ ∃ g, s.startsAt a = some (g, x.1) ∧ (s.pool.status g).job? = some x.1
        ∧ x.2 = s.startsWith g x.1 := by
  cases heff with
  | @readScope _ f j st key stored hcur hget hne =>
      refine ⟨fun x hx => ?_, fun x hx => Or.inl hx⟩
      rcases List.mem_append.mp hx with hx | hx
      · exact Or.inl hx
      · rw [List.mem_singleton.mp hx]
        exact Or.inr ⟨f, key, started?_of_current hcur, hget, hne⟩
  | @start f j p hmain hnext htodo hptodo hf hp =>
      rw [startJob_log]
      refine ⟨fun x hx => Or.inl hx, fun x hx => ?_⟩
      rcases List.mem_append.mp hx with hx | hx
      · exact Or.inl hx
      · rw [List.mem_singleton.mp hx]
        have hholds : (s.pool.status f).Holds j := hf.imp And.right And.right
        exact Or.inr ⟨f, startsAt_advance hmain hnext, hholds.job?, startsWith_withPool s p f j⟩
  | cancel =>
      simp only [State.cancelRequest]
      split_ifs <;> exact ⟨fun x hx => Or.inl hx, fun x hx => Or.inl hx⟩
  | quiet | assign | readSuperglobal | writeScope | clearScope | suspend | resume | deliver | miss
  | callEnds | spawn | queue | letIn | answer | release | settle | slot | cleanupThrew =>
      exact ⟨fun x hx => Or.inl hx, fun x hx => Or.inl hx⟩

theorem scopeInv_step {s s' : State} {a : Action} (h : ScopeInv s) (hi : Inv s)
    (hclean : CleanStart s a) (hstep : step s a = some s') : ScopeInv s' := by
  have heff := (step_effect hi hstep).1
  obtain ⟨hreads, hstarts⟩ := heff.scopeLog
  refine ⟨attributed_step (by simp) h.attributed hi (fun f j r => hclean.request) hstep, ?_, ?_, ?_⟩
  · intro g j key stored hj hget hne
    rcases heff.scopeEntry hi hj hget with ⟨hold, hget⟩ | ⟨hstart, hst, hget⟩ | ⟨hw, -⟩
    · exact h.readable g j key stored hold hget hne
    · exact Or.inr (hclean (g, j) hstart _ (OrdMap.mem_entries_iff.mpr hget) hne hst)
    · exact Or.inl hw
  · intro x hx
    rcases hreads x hx with hx | ⟨g, key, hj, hget, hne⟩
    · exact h.reads x hx
    · exact h.readable g x.1 key x.2 hj hget hne
  · intro x hx hdesc
    rcases hstarts x hx with hx | ⟨g, hstart, hj, hwith⟩
    · exact h.starts x hx hdesc
    · -- a job of no request has no request id, so it starts with what is on the fiber: nothing
      have hb : x.1.body = .user := by
        cases hb : x.1.body with
        | user => rfl
        | handler id => simp [(hi.pool.handler_own g x.1 id hj hb).2] at hdesc
      have hr : x.1.requestId = none := by
        by_contra hne
        obtain ⟨r, hr⟩ := Option.ne_none_iff_exists'.mp hne
        exact h.attributed.job g x.1 r hj hr hdesc
      rw [hwith, State.startsWith, State.attributedToRequest, hr]
      by_contra hne
      obtain ⟨r, hr'⟩ := Option.ne_none_iff_exists'.mp hne
      exact hclean.request hstart (by simp [Job.stores, hb, hr]) hr' hdesc

/-- **Scope isolation.**  In every run in which no job starts on a fiber that still holds values of
another request or of none, a job reads only what it stored itself or a job of its request did, and
a job of no request starts without `ignis.request`. -/
theorem scope_isolated {budget depth : ℤ} {exempt : List PhpString} {chaos : Bool}
    {symbols : Superglobal → Bool} {as : List Action} {s : State}
    (hclean : StepSystem.Along step CleanStart (boot budget depth exempt chaos symbols) as)
    (hrun : StepSystem.runFrom step (boot budget depth exempt chaos symbols) as = some s) :
    (∀ x ∈ s.log.scopeReads, MayRead x.1 x.2)
      ∧ ∀ x ∈ s.log.starts, x.1.descends = none → x.2 = none := by
  have h : Inv s ∧ ScopeInv s := StepSystem.invariant_of_step step
    (I := fun t => Inv t ∧ ScopeInv t)
    (fun t a t' ht hok hstep => ⟨inv_step ht.1 hstep, scopeInv_step ht.2 ht.1 hok hstep⟩)
    ⟨inv_boot budget depth exempt chaos symbols, attributed_boot budget depth exempt chaos symbols,
      by simp [boot, Pool.init, Status.started?], by simp [boot], by simp [boot]⟩ hclean hrun
  exact ⟨h.2.reads, h.2.starts⟩

/-- A handler stores a value and reads it back. -/
def readsBack : List Action :=
  List.flatten [handlerStarts 1, [.scopeSet 0 (.user 7), .scopeGet (.user 0)]]

theorem scope_isolated_own : ∃ s, StepSystem.runFrom step (worker 0) readsBack = some s
    ∧ s.log.scopeReads = [(⟨.handler 1, 0, none, some 1⟩, ⟨.user 7, ⟨.handler 1, 0, none, some 1⟩⟩)]
    ∧ ∀ x ∈ s.log.scopeReads, MayRead x.1 x.2 := by
  obtain ⟨s, hrun, hreads⟩ := Option.map_eq_some_iff.mp
    (show (StepSystem.runFrom step (worker 0) readsBack).map (fun s => s.log.scopeReads)
        = some [(⟨.handler 1, 0, none, some 1⟩, ⟨.user 7, ⟨.handler 1, 0, none, some 1⟩⟩)] by
      decide +kernel)
  exact ⟨s, hrun, hreads, (scope_isolated (by decide +kernel) hrun).1⟩

/-- A background job `0` waits; request `1` arrives, and its handler spawns a child, which ends; the
background job goes on to spawn a job, which starts on the fiber the child has left. -/
def leftOver : List Action :=
  List.flatten [[.async, .run true], startsFresh, awaits 50, arrives 1, startsFresh,
    [.async, .awaitOp 60, .advance, .advance, .finish none, .advance, .advance, .test 1 false],
    completes 50 (.slept 0),
    [.async, .finish none, .advance, .turn false, .advance,
      .takeReady [(2, .job ⟨.user, 3, none, none⟩)], .advance]]

/-- The last of them belongs to no request, starts as one of request `1`, and reads what the child
of request `1` stored. -/
theorem leftOver_reads_foreign : ∃ s,
    StepSystem.runFrom step (worker 0) (List.concat leftOver (.scopeGet .request)) = some s
    ∧ (⟨.user, 3, none, none⟩, some 1) ∈ s.log.starts
    ∧ s.log.scopeReads
        = [(⟨.user, 3, none, none⟩, ⟨.request 1, ⟨.user, 2, some 1, some 1⟩⟩)]
    ∧ ¬ ∀ x ∈ s.log.scopeReads, MayRead x.1 x.2 := by
  obtain ⟨s, hrun, hs⟩ := Option.map_eq_some_iff.mp
    (show (StepSystem.runFrom step (worker 0) (List.concat leftOver (.scopeGet .request))).map
      (fun s => (s.log.starts.getLast?, s.log.scopeReads))
        = some (some (⟨.user, 3, none, none⟩, some 1),
          [(⟨.user, 3, none, none⟩, ⟨.request 1, ⟨.user, 2, some 1, some 1⟩⟩)]) by decide +kernel)
  obtain ⟨hlast, hreads⟩ := Prod.mk.inj hs
  refine ⟨s, hrun, List.mem_of_getLast? hlast, hreads, fun hall => ?_⟩
  have := hall _ (hreads ▸ List.mem_singleton.mpr rfl)
  simp [MayRead, SameRequest] at this

end Loop

end Ignis
