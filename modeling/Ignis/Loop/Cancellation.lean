import Ignis.Loop.Scope

/-!
# Whom a cancellation hits

`cancelRequest()` takes a snapshot of the request's children and its own fiber and throws into one
after another, and between two throws the code that caught the exception runs.  The fibers on the
list wait for their turn, so they keep the jobs they had when the call began; and those descend from
the request that is cancelled, in every run in which no job starts under the `ignis.request` of
another (`cancellation_stays_in_request`).
-/

namespace Ignis

namespace Loop

/-! ## The walk -/

/-- The fibers still to visit are those of the same call, or the call has just begun. -/
lemma Effect.walks {s s' : State} {a : Action} (heff : Effect s a s') {id : Id}
    {rest : List (Id × Payload)} (hpc : s'.pc = .cancelRequest id rest) :
    (s.pc = .cancelRequest id rest ∧ ∀ f ∈ s'.pool.todo, f ∈ s.pool.todo)
      ∨ (s'.pool.status = s.pool.status ∧ s'.pool.todo = s.pool.cancelTargets id) := by
  cases heff with
  | quiet hp hpc' => exact Or.inl ⟨(hpc' id rest).mpr hpc, fun f hf => hp.todo ▸ hf⟩
  | assign | readSuperglobal | readScope | writeScope | clearScope | answer | release =>
      exact Or.inl ⟨hpc, fun f hf => hf⟩
  | suspend hcur htodo hp => exact Or.inl ⟨hpc, fun f hf => htodo ▸ hf⟩
  | resume hmain htodo hptodo hf hp hpc' => exact absurd hpc (hpc' id rest).2
  | deliver hmain hpc' htodo hptodo hf hp =>
      exact Or.inl ⟨hpc, fun f hf => htodo ▸ List.mem_cons_of_mem _ (hptodo ▸ hf)⟩
  | miss hmain hpc' htodo hf =>
      exact Or.inl ⟨hpc, fun f hf => htodo ▸ List.mem_cons_of_mem _ hf⟩
  | callEnds hmain hpc' htodo => exact absurd hpc (by simp)
  | @start f j p hmain hnext htodo hptodo hf hp =>
      rw [startJob_pc] at hpc
      refine Or.inl ⟨hpc, fun f hf => ?_⟩
      rw [startJob_pool] at hf
      have hf : f ∈ p.todo := hf
      simp [hptodo] at hf
  | spawn hby => exact Or.inl ⟨hpc, fun f hf => spawn_todo _ _ _ _ ▸ hf⟩
  | queue hmain htodo hnew hpc' hwait => exact absurd hpc (by simp)
  | letIn hmain htodo hnew hpc' hwait => exact absurd hpc (by simp)
  | cancel hmain htodo hnext =>
      obtain ⟨rfl, -⟩ := Pc.cancelRequest.inj hpc
      exact Or.inr ⟨rfl, rfl⟩
  | settle hcur hb => exact Or.inl ⟨hpc, fun f hf => finishJob_todo _ _ _ _ ▸ hf⟩
  | @slot f j i hcur hb =>
      refine Or.inl ⟨hpc, fun g hg => ?_⟩
      have hg : g ∈ ((s.releaseSlot f i).pool.finishJob f j .resolved).todo := hg
      rw [finishJob_todo] at hg
      exact spawnHandlers_todo _ _ _ ▸ hg
  | cleanupThrew hcur hb => exact Or.inl ⟨hpc, fun f hf => finishJob_todo _ _ _ _ ▸ hf⟩

/-- A new delivery went to the fiber that was next. -/
lemma Effect.deliveries {s s' : State} {a : Action} (heff : Effect s a s') {d : Delivery}
    (hd : d ∈ s'.log.deliveries) : d ∈ s.log.deliveries
      ∨ ∃ f rest, s.pc = .cancelRequest d.requestId rest ∧ f ∈ s.pool.todo
        ∧ (s.pool.status f).job? = some d.job := by
  cases heff with
  | @deliver f j st at' p id rest todo hmain hpc htodo hptodo hf hp =>
      rcases List.mem_append.mp hd with hd | hd
      · exact Or.inl hd
      · rw [List.mem_singleton.mp hd]
        exact Or.inr ⟨f, rest, hpc, by simp [htodo], by rw [hf]; rfl⟩
  | start =>
      rw [startJob_log] at hd
      exact Or.inl hd
  | cancel =>
      simp only [State.cancelRequest] at hd
      split_ifs at hd <;> exact Or.inl hd
  | quiet | assign | readSuperglobal | readScope | writeScope | clearScope | suspend | resume | miss
  | callEnds | spawn | queue | letIn | answer | release | settle | slot | cleanupThrew =>
      exact Or.inl hd

/-! ## Whom a cancellation hits -/

/-- No job starts under the `ignis.request` of a request it does not descend from. -/
def RightStart (s : State) (a : Action) : Prop :=
  ∀ x ∈ s.startsAt a, x.2.stores .request = none →
    ∀ r ∈ s.currentRequestId x.1, x.2.descends = some r

instance (s : State) (a : Action) : Decidable (RightStart s a) :=
  inferInstanceAs (Decidable (∀ x ∈ s.startsAt a, _ → ∀ r ∈ _, _))

structure TargetInv (s : State) : Prop where
  attributed : Attributed (fun d r => d = some r) s
  todo : ∀ id rest, s.pc = .cancelRequest id rest → ∀ f ∈ s.pool.todo, ∀ j,
    (s.pool.status f).job? = some j → j.descends = some id
  deliveries : ∀ d ∈ s.log.deliveries, d.job.descends = some d.requestId

theorem targetInv_step {s s' : State} {a : Action} (h : TargetInv s) (hi : Inv s)
    (hok : RightStart s a) (hstep : step s a = some s') : TargetInv s' := by
  have heff := (step_effect hi hstep).1
  refine ⟨attributed_step (fun _ => rfl) h.attributed hi
    (fun f j r hstart hst hr => hok (f, j) hstart hst r hr) hstep, ?_, ?_⟩
  · intro id rest hpc f hf j hj
    rcases heff.walks hpc with ⟨hpc', htodo⟩ | ⟨hstatus, htodo⟩
    · -- a fiber of the walk waits, so it still has the job it had
      have hf := htodo f hf
      have hw := hi.pool.todo_waits f hf
      obtain ⟨k, hk⟩ := Status.job?_of_isWaiting hw
      rcases heff.job?_kept hi hk with hk' | ⟨st, hcur⟩
      · rw [hk'] at hj
        exact Option.some.inj hj ▸ h.todo id rest hpc' f hf k hk
      · rw [(current_eq_some_iff.mp hcur).2] at hw
        exact absurd hw (by simp [Status.isWaiting])
    · rw [htodo] at hf
      rw [hstatus] at hj
      obtain ⟨k, hk, hreq⟩ := hi.pool.job?_of_mem_cancelTargets hf
      rw [hj] at hk
      obtain rfl := Option.some.inj hk
      rcases hreq with hreq | hb
      · exact h.attributed.job f j id hj hreq
      · exact (hi.pool.handler_own f j id hj hb).2
  · intro d hd
    rcases heff.deliveries hd with hd | ⟨f, rest, hpc, hf, hj⟩
    · exact h.deliveries d hd
    · exact h.todo d.requestId rest hpc f hf d.job hj

/-- **No cross-request cancellation.**  In every run in which no job starts under the
`ignis.request` of a request it does not descend from, whatever `cancelRequest()` throws into
descends from the request it cancels. -/
theorem cancellation_stays_in_request {budget depth : ℤ} {exempt : List PhpString} {chaos : Bool}
    {symbols : Superglobal → Bool} {as : List Action} {s : State}
    (hok : StepSystem.Along step RightStart (boot budget depth exempt chaos symbols) as)
    (hrun : StepSystem.runFrom step (boot budget depth exempt chaos symbols) as = some s) :
    ∀ d ∈ s.log.deliveries, d.job.descends = some d.requestId := by
  have h : Inv s ∧ TargetInv s := StepSystem.invariant_of_step step
    (I := fun t => Inv t ∧ TargetInv t)
    (fun t a t' ht hok hstep => ⟨inv_step ht.1 hstep, targetInv_step ht.2 ht.1 hok hstep⟩)
    ⟨inv_boot budget depth exempt chaos symbols, attributed_boot budget depth exempt chaos symbols,
      by simp [boot], by simp [boot]⟩ hok hrun
  exact h.2.deliveries

/-- The client of request `1` goes away while its handler waits. -/
def handlerCancelled : List Action :=
  List.flatten [handlerStarts 1, awaits 50, completes 1 .cancelled, [.advance]]

theorem cancellation_stays_in_request_handler : ∃ s,
    StepSystem.runFrom step (worker 0) handlerCancelled = some s
    ∧ s.log.deliveries = [⟨1, 1, ⟨.handler 1, 0, none, some 1⟩⟩]
    ∧ ∀ d ∈ s.log.deliveries, d.job.descends = some d.requestId := by
  obtain ⟨s, hrun, hs⟩ := Option.map_eq_some_iff.mp
    (show (StepSystem.runFrom step (worker 0) handlerCancelled).map (fun s => s.log.deliveries)
      = some [⟨1, 1, ⟨.handler 1, 0, none, some 1⟩⟩] by decide +kernel)
  exact ⟨s, hrun, hs, cancellation_stays_in_request (by decide +kernel) hrun⟩

/-- The job that starts on the fiber a child of request `1` has left spawns one of its own, and
then the client of request `1` goes away. -/
def leftOverSpawns : List Action :=
  List.flatten [leftOver,
    [.async, .finish none, .takeReady [(0, .job ⟨.user, 4, some 1, none⟩)], .advance],
    [.awaitOp 70, .advance, .test 1 false], completes 1 .cancelled, [.advance]]

/-- The exception reaches a job of no request. -/
theorem leftOver_cancels_foreign : ∃ s,
    StepSystem.runFrom step (worker 0) leftOverSpawns = some s
    ∧ s.log.deliveries = [⟨1, 1, ⟨.user, 4, some 1, none⟩⟩]
    ∧ ¬ ∀ d ∈ s.log.deliveries, d.job.descends = some d.requestId := by
  obtain ⟨s, hrun, hs⟩ := Option.map_eq_some_iff.mp
    (show (StepSystem.runFrom step (worker 0) leftOverSpawns).map (fun s => s.log.deliveries)
      = some [⟨1, 1, ⟨.user, 4, some 1, none⟩⟩] by decide +kernel)
  refine ⟨s, hrun, hs, fun hall => ?_⟩
  have := hall _ (hs ▸ List.mem_singleton.mpr rfl)
  simp at this

end Loop

end Ignis
