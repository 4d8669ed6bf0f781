import Ignis.Loop.MainSteps

/-!
# What becomes of a job

The effects in the terms the later properties use: which job a fiber has (`job?`), which one it has
started (`started?`) and how far that is (`stage?`).  A job is made by a step (`Spawned`), stays
with its fiber, is started once by `{main}` (`State.startsAt`), and ends when its fiber parks.

`Effect.fate` says what a step can do to one fiber; that a job comes from somewhere (`Effect.job?`),
that only `{main}` starts one (`Effect.started?`) and that a job stays where it is until it has run
(`Effect.job?_kept`) follow from it.
-/

namespace Ignis

namespace Status

/-- The fiber has a job it has not started. -/
def Holds (s : Status) (j : Job) : Prop := s = .pending j ∨ s = .handed j

lemma Holds.job? {s : Status} {j : Job} (h : s.Holds j) : s.job? = some j := by
  rcases h with rfl | rfl <;> rfl

lemma Holds.started? {s : Status} {j : Job} (h : s.Holds j) : s.started? = none := by
  rcases h with rfl | rfl <;> rfl

lemma Holds.stage? {s : Status} {j : Job} (h : s.Holds j) : s.stage? = none := by
  rcases h with rfl | rfl <;> rfl

/-- Two statuses of a fiber with the same job, as far as it has got. -/
structure SameJob (s t : Status) : Prop where
  job? : t.job? = s.job?
  started? : t.started? = s.started?
  stage? : t.stage? = s.stage?

lemma SameJob.rfl {s : Status} : s.SameJob s := ⟨by simp, by simp, by simp⟩

lemma SameJob.of_eq {s t : Status} (h : t = s) : s.SameJob t := h ▸ SameJob.rfl

end Status

namespace Loop

/-! ## The operations of the pool -/

section Pool

variable {p q : Pool} {f : FiberId} {t : Status} {r : Option FiberId}

lemma Moves.elsewhere (h : Moves p q f t r) {g : FiberId} (hg : g ≠ f) : q.status g = p.status g :=
  (h.status g).trans (if_neg hg)

lemma Moves.here (h : Moves p q f t r) : q.status f = t := (h.status f).trans (if_pos rfl)

lemma Moves.sameJob (h : Moves p q f t r) (ht : (p.status f).SameJob t) (g : FiberId) :
    (p.status g).SameJob (q.status g) := by
  by_cases hg : g = f
  · rw [hg, h.here]
    exact ht
  · exact .of_eq (h.elsewhere hg)

lemma Moves.suspended {j : Job} {st : Stage} {at' : Park}
    (h : Moves p q f (.blocked j st at') r) (hf : p.status f = .running j st) (g : FiberId) :
    (p.status g).SameJob (q.status g) :=
  h.sameJob (by rw [hf]; exact ⟨rfl, rfl, rfl⟩) g

lemma Moves.resumed {j : Job} {st : Stage} {at' : Park} (h : Moves p q f (.running j st) r)
    (hf : p.status f = .blocked j st at') (g : FiberId) : (p.status g).SameJob (q.status g) :=
  h.sameJob (by rw [hf]; exact ⟨rfl, rfl, rfl⟩) g

lemma moves_setStage (p : Pool) (f : FiberId) (j : Job) (st : Stage) :
    Moves p (p.setStage f j st) f (.running j st) p.running :=
  .of_update rfl rfl

lemma moves_release (p : Pool) (f : FiberId) (j : Job) (id : Id) :
    Moves p (p.release f j id) f (.running j .clearing) p.running :=
  .of_update rfl rfl

/-- A settled future moves its waiters, but not in their jobs. -/
lemma Quiet.sameJob (h : Quiet p q) (g : FiberId) : (p.status g).SameJob (q.status g) := by
  rcases h.status g with hs | ⟨j, st, fut, hs, hs'⟩
  · exact .of_eq hs
  · rw [hs, hs']
    exact ⟨rfl, rfl, rfl⟩

lemma settle_sameJob (h : p.Parks) (fut : FutureId) (result : Result) (g : FiberId) :
    (p.status g).SameJob ((p.settle fut result).status g) := by
  rcases Pool.settle_status h fut result g with ⟨hs, -⟩ | ⟨j, st, hs, hs'⟩
  · exact .of_eq hs
  · rw [hs, hs']
    exact ⟨rfl, rfl, rfl⟩

/-- The fiber whose job ends parks; the others keep theirs. -/
lemma finishJob_here (p : Pool) (f : FiberId) (j : Job) (result : Result) :
    (p.finishJob f j result).status f = .idle := by
  rw [Pool.finishJob_status, if_pos rfl]

lemma finishJob_holds (h : p.Parks) (j : Job) (result : Result) {g : FiberId} {k : Job}
    (hg : g ≠ f) (hk : (p.status g).Holds k) : ((p.finishJob f j result).status g).Holds k := by
  rw [Pool.finishJob_status, if_neg hg]
  rcases Pool.settle_status h j.future result g with ⟨hs, -⟩ | ⟨j', st, hs, -⟩
  · exact hs ▸ hk
  · rcases hk with hk | hk <;> rw [hk] at hs <;> exact absurd hs (by simp)

lemma finishJob_sameJob (h : p.Parks) (j : Job) (result : Result) {g : FiberId} (hg : g ≠ f) :
    (p.status g).SameJob ((p.finishJob f j result).status g) := by
  rw [Pool.finishJob_status, if_neg hg]
  exact settle_sameJob h j.future result g

/-- A job spawned is handed to a fiber without one, and to nobody else. -/
lemma spawn_cases (h : p.Places) (b : Body) (rid d : Option Id) (g : FiberId) :
    (p.spawn b rid d).status g = p.status g
      ∨ ((p.status g).job? = none ∧ ((p.spawn b rid d).status g).Holds (p.newJob b rid d)) := by
  rw [Pool.spawn_status]
  split_ifs with hg hidle
  · exact Or.inr ⟨hg ▸ Pool.spawnTarget_job? h, Or.inl rfl⟩
  · exact Or.inr ⟨hg ▸ Pool.spawnTarget_job? h, Or.inr rfl⟩
  · exact Or.inl rfl

lemma spawn_started? (h : p.Places) (b : Body) (rid d : Option Id) (g : FiberId) :
    ((p.spawn b rid d).status g).started? = (p.status g).started? := by
  rcases spawn_cases h b rid d g with hs | ⟨hnone, hk⟩
  · rw [hs]
  · rw [hk.started?, Status.started?_of_job?_none hnone]

lemma spawnTarget_holds (p : Pool) (b : Body) (rid d : Option Id) :
    ((p.spawn b rid d).status p.spawnTarget).Holds (p.newJob b rid d) := by
  rw [Pool.spawn_status, if_pos rfl]
  split_ifs
  · exact Or.inl rfl
  · exact Or.inr rfl

/-- Whoever has a job is not handed another. -/
lemma spawn_status_kept (h : p.Places) {b : Body} {rid d : Option Id} {g : FiberId} {k : Job}
    (hk : (p.status g).job? = some k) : (p.spawn b rid d).status g = p.status g := by
  refine (spawn_cases h b rid d g).resolve_right fun hnone => ?_
  rw [hnone.1] at hk
  exact absurd hk (by simp)

/-- The job of the handler of `id`, as `admitRequest()` makes it outside any request. -/
structure HandlerJob (id : Id) (k : Job) : Prop where
  body : k.body = .handler id
  requestId : k.requestId = none
  descends : k.descends = some id

/-- A release hands the handlers it admits to fibers without a job. -/
lemma spawnHandlers_cases (h : p.Inv) {ids : List Id} (hnodup : ids.Nodup)
    (hnew : ∀ id ∈ ids, ∀ f j, (p.status f).job? = some j → j.body ≠ .handler id) (g : FiberId) :
    (p.spawnHandlers none ids).status g = p.status g
      ∨ ((p.status g).job? = none ∧ ∃ k, ((p.spawnHandlers none ids).status g).Holds k
        ∧ ∃ id ∈ ids, HandlerJob id k) := by
  induction ids generalizing p with
  | nil => exact Or.inl rfl
  | cons id ids ih =>
      obtain ⟨hinv, hnew'⟩ := Pool.inv_spawnHandler h hnodup hnew
      rcases spawn_cases h.toPlaces (.handler id) none (some id) g with hs | ⟨hnone, hk⟩
      · rcases ih hinv (List.nodup_cons.mp hnodup).2 hnew' with hs' | ⟨hnone, k, hk, i, hi, hb⟩
        · exact Or.inl (hs'.trans hs)
        · exact Or.inr ⟨hs ▸ hnone, k, hk, i, List.mem_cons_of_mem _ hi, hb⟩
      · refine Or.inr ⟨hnone, p.newJob (.handler id) none (some id), ?_, id, List.mem_cons_self,
          rfl, rfl, rfl⟩
        rw [Pool.spawnHandlers, spawnHandlers_status hinv.toPlaces hk.job?]
        exact hk

/-- Each of the handlers a release admits has a fiber, and has not started. -/
lemma spawnHandlers_holds (h : p.Inv) {ids : List Id} (hnodup : ids.Nodup)
    (hnew : ∀ id ∈ ids, ∀ f j, (p.status f).job? = some j → j.body ≠ .handler id) {id : Id}
    (hid : id ∈ ids) :
    ∃ g k, ((p.spawnHandlers none ids).status g).Holds k ∧ k.body = .handler id := by
  induction ids generalizing p with
  | nil => simp at hid
  | cons i ids ih =>
      obtain ⟨hinv, hnew'⟩ := Pool.inv_spawnHandler h hnodup hnew
      rcases List.mem_cons.mp hid with rfl | hid
      · have hk := spawnTarget_holds p (.handler id) none (some id)
        refine ⟨p.spawnTarget, p.newJob (.handler id) none (some id), ?_, rfl⟩
        rw [Pool.spawnHandlers, spawnHandlers_status hinv.toPlaces hk.job?]
        exact hk
      · exact ih hinv (List.nodup_cons.mp hnodup).2 hnew' hid

end Pool

/-! ## The fate of a fiber -/

/-- A job that a step from `s` to `s'` makes: a child of the job that runs, one of `{main}`, or the
handler of a request the step admits. -/
inductive Spawned (s s' : State) (k : Job) : Prop
  | child {f j st} (hcur : s.current = some (f, j, st)) (hb : k.body = .user)
      (hreq : k.requestId = s.currentRequestId f) (hdesc : k.descends = j.descends)
  | main (hmain : s.pool.running = none) (hb : k.body = .user) (hreq : k.requestId = none)
      (hdesc : k.descends = none)
  | handler {id} (hk : HandlerJob id k) (hold : id ∉ s.admission.admissions.map Admitted.id)
      (hnew : id ∈ s'.admission.admissions.map Admitted.id)

lemma Spawned.of_handler {s s' : State} {k : Job} {id : Id} (h : Spawned s s' k)
    (hb : k.body = .handler id) : id ∉ s.admission.admissions.map Admitted.id
      ∧ id ∈ s'.admission.admissions.map Admitted.id := by
  cases h with
  | child hcur hb' hreq hdesc => simp [hb] at hb'
  | main hmain hb' hreq hdesc => simp [hb] at hb'
  | handler hk hold hnew =>
      obtain rfl := Body.handler.inj (hb.symm.trans hk.body)
      exact ⟨hold, hnew⟩

/-- The job that `{main}` starts in a step, and the fiber it starts on. -/
def State.startsAt (s : State) : Action → Option (FiberId × Job)
  | .advance => if s.pool.running = none then s.startsNext else none
  | _ => none

lemma startsAt_advance {s : State} {f : FiberId} {j : Job} (hmain : s.pool.running = none)
    (hnext : s.startsNext = some (f, j)) : s.startsAt .advance = some (f, j) := by
  rw [State.startsAt, if_pos hmain, hnext]

/-- What a step does to fiber `g` and its job. -/
inductive Fate (s : State) (a : Action) (s' : State) (g : FiberId) : Prop
  /-- Nothing, but that the job may be suspended or run on. -/
  | same (h : (s.pool.status g).SameJob (s'.pool.status g))
  /-- The fiber had no job, and has one now. -/
  | spawned {k} (hold : (s.pool.status g).job? = none) (hk : (s'.pool.status g).Holds k)
      (hnew : Spawned s s' k)
  | starts {k p} (hat : s.startsAt a = some (g, k)) (hk : (s.pool.status g).Holds k)
      (hs' : s' = (s.withPool p).startJob g k)
      (hg : s'.pool.status g = .running k (Pool.entryStage k))
  /-- The handler has ended, or the answer is out. -/
  | turns {j st st'} (hcur : s.current = some (g, j, st)) (hg : s'.pool.status g = .running j st')
      (hst' : st' = .answering ∨ s'.currentRequestId g = none)
  | ends {j st} (hcur : s.current = some (g, j, st)) (hg : s'.pool.status g = .idle)

/-- A request that has not arrived was not admitted. -/
lemma not_admitted {a : Admission} (h : a.Inv) {id : Id} (hnew : id ∉ a.arrivals.map Arrival.id) :
    id ∉ a.admissions.map Admitted.id := by
  intro hmem
  have hf := h.fates id
  rw [List.count_eq_zero.mpr hnew] at hf
  have := List.count_pos_iff.mpr hmem
  omega

/-- The requests a release admits are new ones. -/
lemma drained_new {s : State} (hi : Inv s) (f : FiberId) (id : Id) {i : Id}
    (h : i ∈ ((s.admission.releaseSlot id).drainQueue.2).map Prod.fst) :
    i ∉ s.admission.admissions.map Admitted.id
      ∧ i ∈ (s.releaseSlot f id).admission.admissions.map Admitted.id := by
  have hids := Admission.drainQueue_admissions (s.admission.releaseSlot id)
  have hnd := (Admission.inv_releaseSlot hi.admission id).toCore.admissions_nodup
  have hadm : (s.releaseSlot f id).admission = (s.admission.releaseSlot id).drainQueue.1 := rfl
  rw [hids] at hnd
  refine ⟨fun hmem => (List.nodup_append.mp hnd).2.2 i hmem i h rfl, ?_⟩
  rw [hadm, hids]
  exact List.mem_append_right _ h

/-- The fiber that runs parks when its job ends, and nobody else's job is touched. -/
lemma fate_finishJob {s s' : State} {a : Action} {p : Pool} {f : FiberId} {j : Job} {st : Stage}
    {result : Result} (hcur : s.current = some (f, j, st)) (hp : p.Parks)
    (hs' : s'.pool = p.finishJob f j result) {g : FiberId} (hg : p.status g = s.pool.status g) :
    Fate s a s' g := by
  by_cases hgf : g = f
  · subst hgf
    exact .ends hcur (hs' ▸ finishJob_here p g j result)
  · have hsame := finishJob_sameJob hp j result hgf
    rw [hg, ← hs'] at hsame
    exact .same hsame

/-- **What a step can do to a fiber.** -/
theorem Effect.fate {s s' : State} {a : Action} (heff : Effect s a s') (hi : Inv s) (g : FiberId) :
    Fate s a s' g := by
  cases heff with
  | quiet hp hpc => exact .same (hp.sameJob g)
  | assign | readSuperglobal | readScope | writeScope | clearScope | miss | callEnds | queue
  | cancel => exact .same .rfl
  | suspend hcur htodo hp =>
      obtain ⟨-, hf⟩ := current_eq_some_iff.mp hcur
      exact .same (hp.suspended hf g)
  | resume hmain htodo hptodo hf hp hpc => exact .same (hp.resumed hf g)
  | deliver hmain hpc htodo hptodo hf hp => exact .same (hp.resumed hf g)
  | @start f j p hmain hnext htodo hptodo hf hp =>
      have hpool : ((s.withPool p).startJob f j).pool.status = p.status := by
        rw [startJob_pool]
        rfl
      by_cases hg : g = f
      · subst hg
        exact .starts (startsAt_advance hmain hnext) (hf.imp And.right And.right) rfl
          ((congrFun hpool g).trans hp.here)
      · exact .same (.of_eq ((congrFun hpool g).trans (hp.elsewhere hg)))
  | @spawn _ requestId descends hby =>
      rcases spawn_cases hi.pool.toPlaces .user requestId descends g with hs | ⟨hnone, hk⟩
      · exact .same (.of_eq hs)
      · refine .spawned hnone hk ?_
        rcases hby with ⟨f, j, st, hcur, hreq, hdesc⟩ | ⟨hmain, hreq, hdesc⟩
        · exact .child hcur rfl hreq hdesc
        · exact .main hmain rfl hreq hdesc
  | @letIn id raw rest hmain htodo hnew hpc hwait =>
      rcases spawn_cases hi.pool.toPlaces (.handler id) none (some id) g with hs | ⟨hnone, hk⟩
      · exact .same (.of_eq hs)
      · refine .spawned hnone hk (.handler ⟨rfl, rfl, rfl⟩ (not_admitted hi.admission hnew) ?_)
        simp [Admission.dispatchRequest, hwait, Admission.admitRequest]
  | @answer f j id e hcur hb =>
      have hmoves := moves_setStage s.pool f j .answering
      by_cases hg : g = f
      · subst hg
        exact .turns hcur hmoves.here (Or.inl rfl)
      · exact .same (.of_eq (hmoves.elsewhere hg))
  | @release f j id e deadlines deadlineOf hcur hb =>
      have hmoves := moves_release s.pool f j id
      by_cases hg : g = f
      · subst hg
        exact .turns hcur hmoves.here (Or.inr (by simp [State.currentRequestId, State.scopeClear]))
      · exact .same (.of_eq (hmoves.elsewhere hg))
  | settle hcur hb => exact fate_finishJob hcur hi.pool.toParks rfl rfl
  | @slot f j id hcur hb =>
      obtain ⟨-, hf⟩ := current_eq_some_iff.mp hcur
      obtain ⟨hnodup, hfresh⟩ := hi.drained_fresh id
      have hparks := (hi.releaseSlot_tidy hf id).1.pool.toParks
      rcases spawnHandlers_cases hi.pool hnodup hfresh g with hs | ⟨hnone, k, hk, i, hi', hb'⟩
      · rw [← hi.releaseSlot_pool hf id] at hs
        exact fate_finishJob hcur hparks rfl hs
      · have hg : g ≠ f := by
          rintro rfl
          rw [hf] at hnone
          exact absurd hnone (by simp [Status.job?])
        obtain ⟨hold, hnew⟩ := drained_new hi f id hi'
        rw [← hi.releaseSlot_pool hf id] at hk
        exact .spawned hnone (finishJob_holds hparks j .resolved hg hk) (.handler hb' hold hnew)
  | cleanupThrew hcur hb => exact fate_finishJob hcur hi.pool.toParks rfl rfl

/-! ## Where jobs come from and where they go -/

/-- **A job was there before, or the step made it.** -/
theorem Effect.job? {s s' : State} {a : Action} (heff : Effect s a s') (hi : Inv s) {g : FiberId}
    {k : Job} (hk : (s'.pool.status g).job? = some k) :
    (s.pool.status g).job? = some k ∨ Spawned s s' k := by
  cases heff.fate hi g with
  | same h => exact Or.inl (h.job? ▸ hk)
  | spawned hold hk' hnew =>
      obtain rfl := Option.some.inj (hk'.job?.symm.trans hk)
      exact Or.inr hnew
  | starts hat hk' hs' hg =>
      rw [hg] at hk
      exact Or.inl (Option.some.inj hk ▸ hk'.job?)
  | turns hcur hg hst' =>
      rw [hg] at hk
      rw [(current_eq_some_iff.mp hcur).2]
      exact Or.inl hk
  | ends hcur hg => simp [hg, Status.job?] at hk

/-- **A started job was started before, or the step starts it.** -/
theorem Effect.started? {s s' : State} {a : Action} (heff : Effect s a s') (hi : Inv s)
    {g : FiberId} {k : Job} (hk : (s'.pool.status g).started? = some k) :
    (s.pool.status g).started? = some k
      ∨ (s.startsAt a = some (g, k) ∧ ∃ p, s' = (s.withPool p).startJob g k) := by
  cases heff.fate hi g with
  | same h => exact Or.inl (h.started? ▸ hk)
  | spawned hold hk' hnew => simp [hk'.started?] at hk
  | starts hat hk' hs' hg =>
      rw [hg] at hk
      obtain rfl := Option.some.inj hk
      exact Or.inr ⟨hat, _, hs'⟩
  | turns hcur hg hst' =>
      rw [hg] at hk
      rw [(current_eq_some_iff.mp hcur).2]
      exact Or.inl hk
  | ends hcur hg => simp [hg, Status.started?] at hk

/-- **A job stays with its fiber** until it has run. -/
theorem Effect.job?_kept {s s' : State} {a : Action} (heff : Effect s a s') (hi : Inv s)
    {g : FiberId} {k : Job} (hk : (s.pool.status g).job? = some k) :
    (s'.pool.status g).job? = some k ∨ ∃ st, s.current = some (g, k, st) := by
  cases heff.fate hi g with
  | same h => exact Or.inl (h.job?.trans hk)
  | spawned hold hk' hnew => simp [hold] at hk
  | starts hat hk' hs' hg =>
      obtain rfl := Option.some.inj (hk'.job?.symm.trans hk)
      exact Or.inl (by rw [hg]; rfl)
  | turns hcur hg hst' =>
      rw [(current_eq_some_iff.mp hcur).2] at hk
      exact Or.inl (by rw [hg]; exact hk)
  | ends hcur hg =>
      rw [(current_eq_some_iff.mp hcur).2] at hk
      obtain rfl := Option.some.inj hk
      exact Or.inr ⟨_, hcur⟩

lemma started?_of_current {s : State} {f : FiberId} {j : Job} {st : Stage}
    (h : s.current = some (f, j, st)) : (s.pool.status f).started? = some j := by
  rw [(current_eq_some_iff.mp h).2]
  rfl

end Loop

end Ignis
