import Ignis.Loop.AdmissionRuns

/-!
# What is left of a released request

`releaseRequest()` drops the request's entries and calls its deadline off.  Its children may outlive
it, and they keep its id in their scopes: whatever they spawn is entered under the id in
`$children`, and a deadline they set is entered under it in `$deadlines` and `$deadlineOf`.  Neither
`spawn()` nor `deadline()` asks whether the request is still there, and nothing takes those entries
out again.

`TableEffect` says what a step can do to the three tables, and `unmentioned_iff` is the theorem.
-/

namespace Ignis

namespace Status

/-- The request whose `releaseRequest()` runs on the fiber and has dropped its entries. -/
def releasing? : Status → Option Id
  | running ⟨.handler id, _, _, _⟩ .clearing | blocked ⟨.handler id, _, _, _⟩ .clearing _ => some id
  | _ => none

lemma releasing?_eq_some_iff {t : Status} {id : Id} :
    t.releasing? = some id
      ↔ t.stage? = some .clearing ∧ ∃ j, t.job? = some j ∧ j.body = .handler id := by
  rcases t with _ | _ | _ | _ | ⟨⟨_ | _, _, _, _⟩, _ | _ | _ | _⟩ |
      ⟨⟨_ | _, _, _, _⟩, _ | _ | _ | _, _⟩ | _ <;>
    simp [releasing?, stage?, job?]

lemma serving?_of_releasing? {t : Status} {id : Id} (h : t.releasing? = some id) :
    t.serving? = none := by
  rcases t with _ | _ | _ | _ | ⟨⟨_ | _, _, _, _⟩, _ | _ | _ | _⟩ |
      ⟨⟨_ | _, _, _, _⟩, _ | _ | _ | _, _⟩ | _ <;>
    simp_all [releasing?, serving?]

lemma releasing?_of_job?_none {t : Status} (h : t.job? = none) : t.releasing? = none := by
  cases t <;> first | rfl | cases h

lemma Holds.releasing? {t : Status} {j : Job} (h : t.Holds j) : t.releasing? = none := by
  rcases h with rfl | rfl <;> rfl

lemma SameJob.releasing? {t u : Status} (h : t.SameJob u) : u.releasing? = t.releasing? := by
  refine Option.ext fun id => ?_
  rw [releasing?_eq_some_iff, releasing?_eq_some_iff, h.stage?, h.job?]

end Status

namespace Pool

/-! ## `$children` -/

lemma has_adopt (children : OrdMap Id (OrdMap FiberId Unit)) (requestId : Option Id) (f : FiberId)
    (id : Id) : (adopt children requestId f).has id = true
      ↔ children.has id = true ∨ requestId = some id := by
  cases requestId with
  | none => simp [adopt]
  | some i =>
      simp only [adopt, OrdMap.has_set, Option.some.injEq]
      rw [or_comm, @eq_comm _ id i]

lemma has_children_spawn (p : Pool) (b : Body) (requestId descends : Option Id) (id : Id) :
    (p.spawn b requestId descends).children.has id = true
      ↔ p.children.has id = true ∨ requestId = some id := by
  unfold spawn
  cases p.idle.getLast? <;> exact has_adopt _ _ _ _

lemma has_children_spawnHandlers (p : Pool) (ids : List Id) (id : Id) :
    (p.spawnHandlers none ids).children.has id = true ↔ p.children.has id = true := by
  induction ids generalizing p with
  | nil => rfl
  | cons i ids ih => simp [spawnHandlers, ih, has_children_spawn]

lemma has_children_forgetChild (p : Pool) (requestId : Option Id) (f : FiberId) (id : Id) :
    (p.forgetChild requestId f).children.has id = true ↔ p.children.has id = true := by
  unfold forgetChild
  cases requestId with
  | none => rfl
  | some i =>
      cases hget : p.children.get? i with
      | none => simp only [hget]
      | some fibers =>
          simp only [hget, OrdMap.has_set, or_iff_right_iff_imp]
          rintro rfl
          exact OrdMap.has_iff.mpr ⟨_, hget⟩

/-- `forgetChild()` leaves an empty array under the key. -/
lemma has_children_finishJob (p : Pool) (f : FiberId) (j : Job) (result : Result) (id : Id) :
    (p.finishJob f j result).children.has id = true ↔ p.children.has id = true :=
  has_children_forgetChild (p.settle j.future result) j.requestId f id

lemma children_leavePark (p : Pool) (f : FiberId) (at' : Park) :
    (p.leavePark f at').children = p.children := by
  cases at' <;> rfl

lemma children_startNext {p q : Pool} (h : p.startNext = some q) : q.children = p.children := by
  unfold startNext at h
  split at h
  · cases h
  · split at h <;> cases h
    rfl

lemma children_resumeNext {p q : Pool} (h : p.resumeNext = some q) : q.children = p.children := by
  unfold resumeNext at h
  split at h
  · cases h
  all_goals
    split at h <;> cases h
    all_goals rfl

lemma children_resumeOp {p q : Pool} {op : Id} (h : p.resumeOp op = some q) :
    q.children = p.children := by
  unfold resumeOp at h
  split at h
  · cases h
  · cases h
    rfl
  · split at h <;> cases h
    exact children_leavePark _ _ _

lemma children_resumeParked {p q : Pool} {id : Id} (h : p.resumeParked id = some q) :
    q.children = p.children := by
  unfold resumeParked at h
  split at h
  · cases h
  · split at h <;> cases h
    exact children_leavePark _ _ _

lemma children_interrupt (p : Pool) (f : FiberId) : (p.interrupt f).1.children = p.children := by
  unfold interrupt
  split
  · exact children_leavePark _ _ _
  · rfl

lemma children_throwInto (p : Pool) (f : FiberId) : (p.throwInto f).1.children = p.children := by
  unfold throwInto
  split
  · split
    · exact children_interrupt _ _
    · split
      · exact children_interrupt _ _
      · rfl
  · rfl

lemma children_observe (p : Pool) (fut : FutureId) : (p.observe fut).children = p.children := by
  unfold observe
  split <;> rfl

end Pool

namespace Loop

/-! ## The tables -/

/-- The request under which a call enters something in `$children`, or in `$deadlines` and
`$deadlineOf`: the one the fiber that runs is attributed to. -/
def State.entersUnder (s : State) : Action → Option Id
  | .async | .deadline _ => s.current.bind fun c => s.currentRequestId c.1
  | _ => none

/-- What a step does to `$children`, `$deadlines` and `$deadlineOf`. -/
inductive TableEffect (s : State) (a : Action) (s' : State) : Prop
  | keeps (hchildren : ∀ i, s'.pool.children.has i = true ↔ s.pool.children.has i = true)
      (hdeadlines : s'.deadlines = s.deadlines) (hdeadlineOf : s'.deadlineOf = s.deadlineOf)
  /-- A child is spawned. -/
  | adopts {id} (henters : s.entersUnder a = some id)
      (hchildren : ∀ i, s'.pool.children.has i = true ↔ s.pool.children.has i = true ∨ id = i)
      (hdeadlines : s'.deadlines = s.deadlines) (hdeadlineOf : s'.deadlineOf = s.deadlineOf)
  /-- A deadline is set. -/
  | arms {id op} (henters : s.entersUnder a = some id)
      (hchildren : s'.pool.children = s.pool.children)
      (hdeadlines : s'.deadlines = (s.disarmDeadline id).deadlines.set op id)
      (hdeadlineOf : s'.deadlineOf = (s.disarmDeadline id).deadlineOf.set id op)
  /-- A deadline passes. -/
  | fires {op id} (hget : s.deadlines.get? op = some id)
      (hchildren : s'.pool.children = s.pool.children)
      (hdeadlines : s'.deadlines = s.deadlines.unset op)
      (hdeadlineOf : s'.deadlineOf = s.deadlineOf.unset id)
  /-- A request is released. -/
  | drops {f j id} (hcur : s.current = some (f, j, .answering)) (hb : j.body = .handler id)
      (hchildren : s'.pool.children = s.pool.children.unset id)
      (hdeadlines : s'.deadlines = (s.disarmDeadline id).deadlines)
      (hdeadlineOf : s'.deadlineOf = (s.disarmDeadline id).deadlineOf)

lemma TableEffect.of_eq {s s' : State} {a : Action} (hchildren : s'.pool.children = s.pool.children)
    (hdeadlines : s'.deadlines = s.deadlines) (hdeadlineOf : s'.deadlineOf = s.deadlineOf) :
    TableEffect s a s' :=
  .keeps (fun i => by rw [hchildren]) hdeadlines hdeadlineOf

lemma tables_startJob {s : State} {a : Action} {p : Pool} (f : FiberId) (j : Job)
    (hp : p.children = s.pool.children) : TableEffect s a ((s.withPool p).startJob f j) := by
  obtain ⟨hdeadlines, hdeadlineOf⟩ := startJob_deadlines (s.withPool p) f j
  refine .of_eq ?_ hdeadlines hdeadlineOf
  rw [startJob_pool]
  exact hp

/-- The calls any user code can make. -/
lemma tables_stepUser {s s' : State} {a : Action} {requestId descends : Option Id}
    (hid : requestId = s.entersUnder .async)
    (hstep : stepUser s requestId descends a = some s') : TableEffect s a s' := by
  cases a with
  | async =>
      obtain rfl := Option.some.inj hstep
      have hspawn := s.pool.has_children_spawn .user requestId descends
      cases requestId with
      | none => exact .keeps (fun i => by rw [hspawn]; simp) rfl rfl
      | some id => exact .adopts hid.symm (fun i => by rw [hspawn, Option.some.injEq]) rfl rfl
  | settle fut result =>
      simp only [stepUser] at hstep
      split_ifs at hstep
      obtain rfl := Option.some.inj hstep
      exact .of_eq rfl rfl rfl
  | newFuture | stop | assign =>
      obtain rfl := Option.some.inj hstep
      exact .of_eq rfl rfl rfl
  | _ => simp [stepUser] at hstep

/-- The end of a piece of user code. -/
lemma tables_finish {s s' : State} {f : FiberId} {j : Job} {st : Stage} {e : Option Exc} (h : Inv s)
    (hcur : s.current = some (f, j, st)) (hstep : s.finish f j st e = some s') :
    TableEffect s (.finish e) s' := by
  have hf := (current_eq_some_iff.mp hcur).2
  unfold State.finish at hstep
  split at hstep
  · cases hstep
    exact .keeps (s.pool.has_children_finishJob f j _) rfl rfl
  · cases hstep
    exact .of_eq rfl rfl rfl
  · rename_i id hb
    cases hstep
    refine .drops hcur hb ?_ rfl rfl
    rw [disarmDeadline_eq]
    rfl
  · rename_i id hb
    have hnone : s.currentRequestId f = none := h.clearing_scope f (by rw [hf]; rfl)
    cases e with
    | none =>
        cases hstep
        refine .keeps (fun i => ?_) rfl rfl
        refine (Pool.has_children_finishJob _ f j _ i).trans ?_
        simp only [State.releaseSlot, hnone]
        exact Pool.has_children_spawnHandlers _ _ _
    | some e =>
        cases hstep
        exact .keeps (s.pool.has_children_finishJob f j _) rfl rfl
  · cases hstep

/-- The calls of the job that runs. -/
lemma tables_stepFiber {s s' : State} {a : Action} {f : FiberId} {j : Job} {st : Stage} (h : Inv s)
    (hcur : s.current = some (f, j, st)) (hstep : stepFiber s f j st a = some s') :
    TableEffect s a s' := by
  cases a with
  | readSuperglobal k =>
      simp only [stepFiber] at hstep
      split at hstep <;> cases hstep <;> exact .of_eq rfl rfl rfl
  | scopeSet | scopeClear | awaitOp =>
      cases hstep
      exact .of_eq rfl rfl rfl
  | scopeGet key =>
      simp only [stepFiber] at hstep
      split at hstep
      · split_ifs at hstep <;> cases hstep <;> exact .of_eq rfl rfl rfl
      · cases hstep
        exact .of_eq rfl rfl rfl
  | deadline op =>
      simp only [stepFiber] at hstep
      split at hstep <;> cases hstep
      · exact .of_eq rfl rfl rfl
      · rename_i id hid
        refine .arms (by simp [State.entersUnder, hcur, hid]) ?_ rfl rfl
        rw [disarmDeadline_eq]
  | await fut =>
      simp only [stepFiber] at hstep
      split_ifs at hstep <;> cases hstep
      · exact .of_eq rfl rfl rfl
      · exact .of_eq (s.pool.children_observe fut) rfl rfl
  | park ids =>
      simp only [stepFiber] at hstep
      split_ifs at hstep
      cases hstep
      exact .of_eq rfl rfl rfl
  | finish e => exact tables_finish h hcur hstep
  | async | newFuture | settle | stop | assign =>
      simp only [stepFiber] at hstep
      exact tables_stepUser (by simp [State.entersUnder, hcur]) hstep
  | _ => simp [stepFiber, stepUser] at hstep

/-! ## `{main}` -/

/-- A completion somebody waits for, or the timer of a deadline. -/
lemma tables_dispatchAwaited (s : State) (pc : Pc) (id : Id) (rest : List (Id × Payload)) :
    TableEffect s .advance ({ s with pc := pc }.dispatchAwaited id rest) := by
  unfold State.dispatchAwaited
  cases hget : s.deadlines.get? id with
  | some requestId => exact .fires hget rfl rfl rfl
  | none =>
      simp only
      split
      · exact .of_eq rfl rfl rfl
      · split
        · rename_i q hq
          exact .of_eq (Pool.children_resumeOp hq) rfl rfl
        · exact .of_eq rfl rfl rfl

lemma tables_dispatchEvent {s s' : State} {id : Id} {payload : Payload} {rest : List (Id × Payload)}
    (hstep : s.dispatchEvent id payload rest = some s') : TableEffect s .advance s' := by
  cases eventStep_of_dispatchEvent hstep with
  | awaited => exact tables_dispatchAwaited s _ id rest
  | malformed | ignored | cancel => exact .of_eq rfl rfl rfl
  | request hrequest =>
      simp only [State.dispatchRequest] at hrequest
      split_ifs at hrequest <;> cases hrequest
      · exact .of_eq rfl rfl rfl
      · refine .keeps (fun i => ?_) rfl rfl
        exact (s.pool.has_children_spawn _ none _ i).trans (by simp)

lemma tables_advance {s s' : State} (hstep : s.advance = some s') : TableEffect s .advance s' := by
  unfold State.advance at hstep
  split at hstep
  · split at hstep
    · split at hstep <;> cases hstep
      · rename_i hp
        exact tables_startJob _ _ (Pool.children_startNext hp)
      · exact .of_eq rfl rfl rfl
    · split_ifs at hstep <;> cases hstep <;> exact .of_eq rfl rfl rfl
  · split at hstep
    · split at hstep <;> cases hstep
      · rename_i hp
        exact tables_startJob _ _ (Pool.children_resumeNext hp)
      · exact .of_eq rfl rfl rfl
    · split at hstep <;> cases hstep
      · rename_i hp
        exact .of_eq (Pool.children_resumeNext hp) rfl rfl
      · exact .of_eq rfl rfl rfl
    · split_ifs at hstep
      cases hstep
      exact .of_eq rfl rfl rfl
  · cases hstep
    unfold State.collect
    split
    · split
      · rename_i hp
        exact .of_eq (Pool.children_resumeParked hp) rfl rfl
      · exact .of_eq rfl rfl rfl
    · split <;> exact .of_eq rfl rfl rfl
  · exact tables_dispatchEvent hstep
  · cases hstep
    exact .of_eq rfl rfl rfl
  · cases hstep
    unfold State.cancelNext
    split
    · exact .of_eq rfl rfl rfl
    · exact .of_eq (Pool.children_throwInto _ _) rfl rfl
  · cases hstep

lemma tables_stepMain {s s' : State} {a : Action} (hmain : s.pool.running = none)
    (hstep : stepMain s a = some s') : TableEffect s a s' := by
  have hcur : s.current = none := by simp [State.current, hmain]
  rcases stepMain_cases hstep with hstep | ⟨-, huser⟩
  · cases hstep with
    | advance hadvance => exact tables_advance hadvance
    | run | awaitOpFromMain | stops | goesOn | takeReady | again | ends | waits | poll
    | endsPolled | dispatch => exact .of_eq rfl rfl rfl
  · exact tables_stepUser (by simp [State.entersUnder, hcur]) huser

/-- **What a step does to the tables.** -/
theorem step_tables {s s' : State} {a : Action} (h : Inv s) (hstep : step s a = some s') :
    TableEffect s a s' := by
  rcases step_cases hstep with ⟨f, j, st, hcur, hfiber⟩ | ⟨hmain, hstep⟩
  · exact tables_stepFiber h hcur hfiber
  · exact tables_stepMain hmain hstep

/-! ## Released requests -/

/-- `releaseRequest()` has returned, or thrown. -/
def ReleaseEnded (s : State) (id : Id) : Prop := id ∈ s.log.drained ∨ id ∈ s.log.cleanupThrew

instance (s : State) (id : Id) : Decidable (ReleaseEnded s id) :=
  inferInstanceAs (Decidable (_ ∨ _))

/-- `releaseRequest()` has run for the request, or runs and has dropped its entries. -/
def Released (s : State) (id : Id) : Prop :=
  ReleaseEnded s id ∨ ∃ f < s.pool.fibersCreated, (s.pool.status f).releasing? = some id

instance (s : State) (id : Id) : Decidable (Released s id) :=
  inferInstanceAs (Decidable (_ ∨ ∃ f < _, _))

lemma released_of_releasing {s : State} (h : Inv s) {f : FiberId} {id : Id}
    (hf : (s.pool.status f).releasing? = some id) : Released s id := by
  refine Or.inr ⟨f, Nat.lt_of_not_le fun hle => ?_, hf⟩
  rw [(h.pool.absent_iff f).mpr hle] at hf
  simp [Status.releasing?] at hf

/-- The job of a released request has ended, or is at its cleanup. -/
lemma Released.job {s : State} {id : Id} (h : Released s id) (hslot : SlotInv s) :
    0 < settledCount s id ∨ ∃ f, (s.pool.status f).releasing? = some id := by
  have hends := hslot.ends id
  rcases h with (hid | hid) | ⟨f, -, hf⟩
  · rw [hslot.drained_eq] at hid
    have := List.count_pos_iff.mpr hid
    exact Or.inl (by omega)
  · have := List.count_pos_iff.mpr hid
    exact Or.inl (by omega)
  · exact Or.inr ⟨f, hf⟩

lemma Released.admitted {s : State} {id : Id} (h : Released s id) (hi : Inv s)
    (hslot : SlotInv s) : id ∈ s.admission.admissions.map Admitted.id := by
  rcases h.job hslot with hpos | ⟨f, hf⟩
  · exact hslot.admitted id hpos
  · obtain ⟨-, j, hj, hb⟩ := Status.releasing?_eq_some_iff.mp hf
    exact hi.handler_admitted f j id hj hb

/-- What a step does to the release on a fiber: nothing, or it begins, or it ends. -/
lemma Effect.releasing {s s' : State} {a : Action} (heff : Effect s a s') (hi : Inv s)
    (g : FiberId) :
    (s'.pool.status g).releasing? = (s.pool.status g).releasing?
      ∨ (∃ j id e, s.current = some (g, j, .answering) ∧ j.body = .handler id ∧ a = .finish e
        ∧ (s'.pool.status g).releasing? = some id)
      ∨ ∃ id, (s.pool.status g).releasing? = some id ∧ (s'.pool.status g).releasing? = none
        ∧ ReleaseEnded s' id := by
  cases heff with
  | quiet hp hpc => exact Or.inl (hp.sameJob g).releasing?
  | assign | readSuperglobal | readScope | writeScope | clearScope | miss | callEnds | queue
  | cancel => exact Or.inl rfl
  | suspend hcur htodo hp =>
      exact Or.inl (hp.suspended (current_eq_some_iff.mp hcur).2 g).releasing?
  | resume hmain htodo hptodo hf hp hpc => exact Or.inl (hp.resumed hf g).releasing?
  | deliver hmain hpc htodo hptodo hf hp => exact Or.inl (hp.resumed hf g).releasing?
  | @start f j p hmain hnext htodo hptodo hf hp =>
      have hpool : ((s.withPool p).startJob f j).pool.status = p.status := by
        rw [startJob_pool]
        rfl
      refine Or.inl ?_
      by_cases hg : g = f
      · rw [hg, congrFun hpool f, hp.here, Status.Holds.releasing? (hf.imp And.right And.right)]
        rcases j with ⟨_ | _, _, _, _⟩ <;> rfl
      · rw [congrFun hpool g, hp.elsewhere hg]
  | @spawn _ requestId descends hby =>
      rcases spawn_cases hi.pool.toPlaces .user requestId descends g with hs | ⟨hnone, hk⟩
      · exact Or.inl (congrArg _ hs)
      · exact Or.inl (hk.releasing?.trans (Status.releasing?_of_job?_none hnone).symm)
  | @letIn id raw rest hmain htodo hnew hpc hwait =>
      rcases spawn_cases hi.pool.toPlaces (.handler id) none (some id) g with hs | ⟨hnone, hk⟩
      · exact Or.inl (congrArg _ hs)
      · exact Or.inl (hk.releasing?.trans (Status.releasing?_of_job?_none hnone).symm)
  | @answer f j id e hcur hb =>
      have hmoves := moves_setStage s.pool f j .answering
      refine Or.inl ?_
      by_cases hg : g = f
      · have hhere : (s.pool.setStage f j .answering).status f = _ := hmoves.here
        rw [hg, (current_eq_some_iff.mp hcur).2]
        simp only [State.withPool, hhere]
        rcases j with ⟨_ | _, _, _, _⟩ <;> rfl
      · exact congrArg _ (hmoves.elsewhere hg)
  | @release f j id e deadlines deadlineOf hcur hb =>
      have hmoves := moves_release s.pool f j id
      by_cases hg : g = f
      · subst hg
        refine Or.inr (Or.inl ⟨j, id, e, hcur, hb, rfl, ?_⟩)
        exact Status.releasing?_eq_some_iff.mpr
          ⟨congrArg Status.stage? hmoves.here, j, congrArg Status.job? hmoves.here, hb⟩
      · exact Or.inl (congrArg _ (hmoves.elsewhere hg))
  | @settle f j e hcur hb =>
      refine Or.inl ?_
      by_cases hg : g = f
      · rw [hg, (current_eq_some_iff.mp hcur).2,
          Status.releasing?_of_job?_none (settleJob_job? _ _ _ _)]
        rcases j with ⟨_ | _, _, _, _⟩ <;> rfl
      · exact (finishJob_sameJob hi.pool.toParks j _ hg).releasing?
  | @slot f j id hcur hb =>
      obtain ⟨-, hf⟩ := current_eq_some_iff.mp hcur
      by_cases hg : g = f
      · subst hg
        refine Or.inr (Or.inr ⟨id, ?_, ?_, Or.inl ?_⟩)
        · exact Status.releasing?_eq_some_iff.mpr ⟨by rw [hf]; rfl, j, by rw [hf]; rfl, hb⟩
        · exact Status.releasing?_of_job?_none (settleJob_job? _ _ _ _)
        · exact List.mem_append_right _ List.mem_cons_self
      · obtain ⟨hnodup, hfresh⟩ := hi.drained_fresh id
        have hparks := (hi.releaseSlot_tidy hf id).1.pool.toParks
        have hsame := (finishJob_sameJob hparks j .resolved hg).releasing?
        refine Or.inl (hsame.trans ?_)
        rw [hi.releaseSlot_pool hf id]
        rcases spawnHandlers_cases hi.pool hnodup hfresh g with hs | ⟨hnone, k, hk, -⟩
        · rw [hs]
        · rw [hk.releasing?, Status.releasing?_of_job?_none hnone]
  | @cleanupThrew f j id e hcur hb =>
      obtain ⟨-, hf⟩ := current_eq_some_iff.mp hcur
      by_cases hg : g = f
      · subst hg
        refine Or.inr (Or.inr ⟨id, ?_, ?_, Or.inr ?_⟩)
        · exact Status.releasing?_eq_some_iff.mpr ⟨by rw [hf]; rfl, j, by rw [hf]; rfl, hb⟩
        · exact Status.releasing?_of_job?_none (settleJob_job? _ _ _ _)
        · exact List.mem_append_right _ List.mem_cons_self
      · exact Or.inl (finishJob_sameJob hi.pool.toParks j _ hg).releasing?

/-- What a step puts on record about releases stays there, and is about one that runs. -/
lemma Effect.releaseEnded {s s' : State} {a : Action} (heff : Effect s a s') (id : Id) :
    (ReleaseEnded s id → ReleaseEnded s' id)
      ∧ (ReleaseEnded s' id →
        ReleaseEnded s id ∨ ∃ f, (s.pool.status f).releasing? = some id) := by
  have hkeep : s'.log.drained = s.log.drained → s'.log.cleanupThrew = s.log.cleanupThrew →
      (ReleaseEnded s id → ReleaseEnded s' id)
        ∧ (ReleaseEnded s' id →
          ReleaseEnded s id ∨ ∃ f, (s.pool.status f).releasing? = some id) := by
    intro hdrained hthrew
    simp only [ReleaseEnded, hdrained, hthrew]
    exact ⟨fun h => h, Or.inl⟩
  have hruns : ∀ {f j i}, s.current = some (f, j, .clearing) → j.body = .handler i →
      (s.pool.status f).releasing? = some i := by
    intro f j i hcur hb
    rw [(current_eq_some_iff.mp hcur).2]
    exact Status.releasing?_eq_some_iff.mpr ⟨rfl, j, rfl, hb⟩
  cases heff with
  | start => exact hkeep (by rw [startJob_log]; rfl) (by rw [startJob_log]; rfl)
  | cancel =>
      refine hkeep ?_ ?_
      all_goals
        simp only [State.cancelRequest]
        split_ifs <;> rfl
  | @slot f j i hcur hb =>
      have hended : ReleaseEnded ((s.releaseSlot f i).settleJob f j .resolved) id
          ↔ (id ∈ s.log.drained ∨ id = i) ∨ id ∈ s.log.cleanupThrew := by
        simp [ReleaseEnded, State.settleJob, State.withPool, State.releaseSlot]
      refine ⟨fun h => hended.mpr (h.imp Or.inl fun h => h), fun h => ?_⟩
      rcases hended.mp h with (h | rfl) | h
      · exact Or.inl (Or.inl h)
      · exact Or.inr ⟨f, hruns hcur hb⟩
      · exact Or.inl (Or.inr h)
  | @cleanupThrew f j i e hcur hb =>
      have hended : ReleaseEnded (({ s with
          log := { s.log with cleanupThrew := s.log.cleanupThrew ++ [i] } } : State).settleJob f j
          (.rejected e)) id ↔ id ∈ s.log.drained ∨ id ∈ s.log.cleanupThrew ∨ id = i := by
        simp [ReleaseEnded, State.settleJob, State.withPool]
      refine ⟨fun h => hended.mpr (h.imp (fun h => h) Or.inl), fun h => ?_⟩
      rcases hended.mp h with h | h | rfl
      · exact Or.inl (Or.inl h)
      · exact Or.inl (Or.inr h)
      · exact Or.inr ⟨f, hruns hcur hb⟩
  | quiet | assign | readSuperglobal | readScope | writeScope | clearScope | suspend | resume
  | deliver | miss | callEnds | spawn | queue | letIn | answer | release | settle =>
      exact hkeep rfl rfl

/-- Released is for good. -/
lemma Released.step {s s' : State} {a : Action} {id : Id} (h : Released s id) (hi : Inv s)
    (hstep : step s a = some s') : Released s' id := by
  have heff := (step_effect hi hstep).1
  rcases h with hended | ⟨f, -, hf⟩
  · exact Or.inl ((heff.releaseEnded id).1 hended)
  · rcases heff.releasing hi f with hsame | ⟨j, i, e, hcur, -⟩ | ⟨i, hi', -, hended⟩
    · exact released_of_releasing (inv_step hi hstep) (hsame.trans hf)
    · rw [(current_eq_some_iff.mp hcur).2] at hf
      rcases j with ⟨_ | _, _, _, _⟩ <;> cases hf
    · obtain rfl := Option.some.inj (hf.symm.trans hi')
      exact Or.inl hended

/-- A request that is released after a step was so before, or the step releases it. -/
lemma released_before {s s' : State} {a : Action} {id : Id} (hi : Inv s)
    (hstep : Loop.step s a = some s') (h : Released s' id) :
    Released s id ∨ ∃ f j e, s.current = some (f, j, .answering) ∧ j.body = .handler id
      ∧ a = .finish e := by
  have heff := (step_effect hi hstep).1
  rcases h with hended | ⟨f, -, hf⟩
  · rcases (heff.releaseEnded id).2 hended with hold | ⟨f, hf⟩
    · exact Or.inl (Or.inl hold)
    · exact Or.inl (released_of_releasing hi hf)
  · rcases heff.releasing hi f with hsame | ⟨j, i, e, hcur, hb, ha, hi'⟩ | ⟨i, -, hnone, -⟩
    · exact Or.inl (released_of_releasing hi (hsame.symm.trans hf))
    · obtain rfl := Option.some.inj (hf.symm.trans hi')
      exact Or.inr ⟨f, j, e, hcur, hb, ha⟩
    · rw [hnone] at hf
      cases hf

/-- What the tables say about a request whose entries are gone. -/
structure Unmentioned (s : State) (id : Id) : Prop where
  requestFibers : s.pool.requestFibers.has id = false
  children : s.pool.children.has id = false
  deadlines : ∀ op, s.deadlines.get? op ≠ some id
  deadlineOf : s.deadlineOf.has id = false
  queued : s.admission.queued.has id = false
  queueCancelled : s.admission.queueCancelled.has id = false

/-- No fiber serves a released request. -/
lemma Released.not_served {s : State} {id : Id} (h : Released s id) (hi : Inv s)
    (hslot : SlotInv s) : s.pool.requestFibers.has id = false := by
  rw [Bool.eq_false_iff]
  intro hhas
  obtain ⟨g, hg⟩ := OrdMap.has_iff.mp hhas
  have hserving := (hi.pool.serving_iff g id).mp hg
  obtain ⟨k, hk, hbk⟩ := Status.serving?_job hserving
  rcases h.job hslot with hpos | ⟨f, hf⟩
  · rw [hslot.live g k id (Status.started?_job? hk) hbk] at hpos
    exact absurd hpos (lt_irrefl 0)
  · obtain ⟨hst, j, hj, hbj⟩ := Status.releasing?_eq_some_iff.mp hf
    obtain rfl := hi.pool.handler_unique f g j k id hj (Status.started?_job? hk) hbj hbk
    rw [Status.serving?_of_releasing? hf] at hserving
    cases hserving

/-- A request that has been admitted is in the queue no more. -/
lemma Released.not_queued {s : State} {id : Id} (h : Released s id) (hi : Inv s)
    (hslot : SlotInv s) :
    s.admission.queued.has id = false ∧ s.admission.queueCancelled.has id = false := by
  have hlive : id ∉ s.admission.live := by
    intro hlive
    have hfates := hi.admission.fates id
    have hone := List.nodup_iff_count_le_one.mp hi.admission.arrivals_nodup id
    have := List.count_pos_iff.mpr (h.admitted hi hslot)
    have := List.count_pos_iff.mpr hlive
    omega
  rw [Bool.eq_false_iff, Bool.eq_false_iff]
  exact ⟨fun hq => hlive ((hi.admission.queued_iff id).mp hq),
    fun hc => hlive (hi.admission.cancelled_live id hc)⟩

/-! ## Deadlines -/

/-- Each entry of `$deadlines` has its mirror image in `$deadlineOf`. -/
def DeadlinesPaired (s : State) : Prop :=
  ∀ op id, s.deadlines.get? op = some id → s.deadlineOf.get? id = some op

lemma deadlineOf_disarmDeadline (s : State) (id i : Id) :
    (s.disarmDeadline id).deadlineOf.get? i = if i = id then none else s.deadlineOf.get? i := by
  unfold State.disarmDeadline
  cases hget : s.deadlineOf.get? id with
  | none =>
      split_ifs with hi
      · rw [hi, hget]
      · rfl
  | some op => exact OrdMap.get?_unset _ _ _

lemma DeadlinesPaired.disarmDeadline {s : State} (h : DeadlinesPaired s) (id : Id) :
    DeadlinesPaired (s.disarmDeadline id) := by
  intro op i hop
  have hold : s.deadlines.get? op = some i ∧ i ≠ id := by
    unfold State.disarmDeadline at hop
    cases hget : s.deadlineOf.get? id with
    | none =>
        simp only [hget] at hop
        refine ⟨hop, ?_⟩
        rintro rfl
        rw [h op i hop] at hget
        cases hget
    | some op' =>
        simp only [hget, OrdMap.get?_unset] at hop
        split_ifs at hop with hne
        refine ⟨hop, ?_⟩
        rintro rfl
        exact hne (Option.some.inj ((h op i hop).symm.trans hget))
  rw [deadlineOf_disarmDeadline, if_neg hold.2]
  exact h op i hold.1

lemma DeadlinesPaired.step {s s' : State} {a : Action} (h : DeadlinesPaired s)
    (htables : TableEffect s a s') : DeadlinesPaired s' := by
  cases htables with
  | keeps _ hdeadlines hof | adopts _ _ hdeadlines hof =>
      intro op id hop
      rw [hdeadlines] at hop
      rw [hof]
      exact h op id hop
  | drops _ _ _ hdeadlines hof =>
      intro op i hop
      rw [hdeadlines] at hop
      rw [hof]
      exact h.disarmDeadline _ op i hop
  | @arms id op _ _ hdeadlines hof =>
      intro op' i hop
      rw [hdeadlines, OrdMap.get?_set] at hop
      rw [hof, OrdMap.get?_set]
      split_ifs at hop with he
      · obtain rfl := Option.some.inj hop
        rw [if_pos rfl, he]
      · have hpaired := h.disarmDeadline id op' i hop
        rw [deadlineOf_disarmDeadline] at hpaired
        split_ifs at hpaired with hi
        rw [if_neg hi, deadlineOf_disarmDeadline, if_neg hi]
        exact hpaired
  | @fires op id hget _ hdeadlines hof =>
      intro op' i hop
      rw [hdeadlines, OrdMap.get?_unset] at hop
      split_ifs at hop with he
      have hi : i ≠ id := by
        rintro rfl
        exact he (Option.some.inj ((h op' i hop).symm.trans (h op i hget)))
      rw [hof, OrdMap.get?_unset, if_neg hi]
      exact h op' i hop

/-! ## The theorem -/

/-- Something is entered under the request in one of the tables that its children write. -/
def Entered (s : State) (id : Id) : Prop :=
  s.pool.children.has id = true ∨ s.deadlineOf.has id = true

/-- What a step enters. -/
lemma TableEffect.entered {s s' : State} {a : Action} {id : Id} (h : TableEffect s a s')
    (hid : Entered s' id) : Entered s id ∨ s.entersUnder a = some id := by
  cases h with
  | keeps hchildren _ hof =>
      rw [Entered, hchildren, hof] at hid
      exact Or.inl hid
  | adopts henters hchildren _ hof =>
      rw [Entered, hchildren, hof] at hid
      rcases hid with (hid | rfl) | hid
      · exact Or.inl (Or.inl hid)
      · exact Or.inr henters
      · exact Or.inl (Or.inr hid)
  | @arms i op henters hchildren _ hof =>
      rw [Entered, hchildren, hof, OrdMap.has_set] at hid
      rcases hid with hid | rfl | hid
      · exact Or.inl (Or.inl hid)
      · exact Or.inr henters
      · obtain ⟨op', hop⟩ := OrdMap.has_iff.mp hid
        rw [deadlineOf_disarmDeadline] at hop
        split_ifs at hop
        exact Or.inl (Or.inr (OrdMap.has_iff.mpr ⟨op', hop⟩))
  | fires _ hchildren _ hof =>
      rw [Entered, hchildren, hof, OrdMap.has_unset] at hid
      exact Or.inl (hid.imp (fun h => h) And.right)
  | @drops f j i _ _ hchildren _ hof =>
      rw [Entered, hchildren, hof, OrdMap.has_unset] at hid
      rcases hid with hid | hid
      · exact Or.inl (Or.inl hid.2)
      · obtain ⟨op', hop⟩ := OrdMap.has_iff.mp hid
        rw [deadlineOf_disarmDeadline] at hop
        split_ifs at hop
        exact Or.inl (Or.inr (OrdMap.has_iff.mpr ⟨op', hop⟩))

/-- A call that enters something under a request does so. -/
lemma entered_of_entersUnder {s s' : State} {a : Action} {id : Id}
    (hstep : Loop.step s a = some s') (henters : s.entersUnder a = some id) : Entered s' id := by
  have hby : ∃ f j st, s.current = some (f, j, st) ∧ s.currentRequestId f = some id
      ∧ (a = .async ∨ ∃ op, a = .deadline op) := by
    cases a with
    | async | deadline =>
        obtain ⟨⟨f, j, st⟩, hcur, hid⟩ := Option.bind_eq_some_iff.mp henters
        exact ⟨f, j, st, hcur, hid, by simp⟩
    | _ => cases henters
  obtain ⟨f, j, st, hcur, hid, ha⟩ := hby
  have hrun := (current_eq_some_iff.mp hcur).1
  rcases ha with rfl | ⟨op, rfl⟩
  · simp only [Loop.step, hrun, hcur, stepFiber, stepUser, Option.some.injEq] at hstep
    subst hstep
    exact Or.inl ((Pool.has_children_spawn _ _ _ _ _).mpr (Or.inr hid))
  · simp only [Loop.step, hrun, hcur, stepFiber, hid, Option.some.injEq] at hstep
    subst hstep
    exact Or.inr (OrdMap.has_set.mpr (Or.inl rfl))

/-- What a release leaves behind. -/
lemma not_entered_of_release {s s' : State} {f : FiberId} {j : Job} {id : Id} {e : Option Exc}
    (hcur : s.current = some (f, j, .answering)) (hb : j.body = .handler id)
    (hstep : Loop.step s (.finish e) = some s') : ¬ Entered s' id := by
  have hrun := (current_eq_some_iff.mp hcur).1
  simp only [Loop.step, hrun, hcur, stepFiber, State.finish, hb, Option.some.injEq] at hstep
  subst hstep
  rintro (hid | hid)
  · exact (OrdMap.has_unset.mp hid).1 rfl
  · obtain ⟨op, hop⟩ := OrdMap.has_iff.mp hid
    have hop : (s.disarmDeadline id).deadlineOf.get? id = some op := hop
    rw [deadlineOf_disarmDeadline, if_pos rfl] at hop
    cases hop

/-- No table mentions a released request. -/
def Forgotten (s : State) : Prop := ∀ id, Released s id → Unmentioned s id

/-- Nothing is spawned, and no deadline is set, under a request that has been released. -/
def EntersLive (s : State) (a : Action) : Prop := ∀ id ∈ s.entersUnder a, ¬ Released s id

instance (s : State) (a : Action) : Decidable (EntersLive s a) :=
  inferInstanceAs (Decidable (∀ id ∈ _, _))

/-- What the theorem needs of a state. -/
structure ReleasedInv (s : State) : Prop where
  inv : Inv s
  slot : SlotInv s
  paired : DeadlinesPaired s

lemma ReleasedInv.step {s s' : State} {a : Action} (h : ReleasedInv s)
    (hstep : Loop.step s a = some s') : ReleasedInv s' :=
  ⟨inv_step h.inv hstep, slotInv_step h.slot h.inv hstep, h.paired.step (step_tables h.inv hstep)⟩

lemma ReleasedInv.forgotten_iff {s : State} (h : ReleasedInv s) :
    Forgotten s ↔ ∀ id, Released s id → ¬ Entered s id := by
  refine forall_congr' fun id => imp_congr_right fun hid => ?_
  constructor
  · intro hun hentered
    rcases hentered with hentered | hentered
    · rw [hun.children] at hentered
      cases hentered
    · rw [hun.deadlineOf] at hentered
      cases hentered
  · intro hentered
    obtain ⟨hchildren, hof⟩ := not_or.mp hentered
    obtain ⟨hqueued, hcancelled⟩ := hid.not_queued h.inv h.slot
    refine ⟨hid.not_served h.inv h.slot, Bool.eq_false_iff.mpr hchildren, fun op hop => ?_,
      Bool.eq_false_iff.mpr hof, hqueued, hcancelled⟩
    exact hof (OrdMap.has_iff.mpr ⟨op, h.paired op id hop⟩)

lemma forgotten_step {s s' : State} {a : Action} (h : ReleasedInv s) (hP : Forgotten s)
    (hstep : step s a = some s') : Forgotten s' ↔ EntersLive s a := by
  rw [(h.step hstep).forgotten_iff]
  rw [h.forgotten_iff] at hP
  constructor
  · intro hforgotten id henters hid
    exact hforgotten id (hid.step h.inv hstep) (entered_of_entersUnder hstep henters)
  · intro hlive id hid hentered
    rcases released_before h.inv hstep hid with hold | ⟨f, j, e, hcur, hb, rfl⟩
    · rcases (step_tables h.inv hstep).entered hentered with hentered | henters
      · exact hP id hold hentered
      · exact hlive id henters hold
    · exact not_entered_of_release hcur hb hstep hentered

/-- **What is left of a released request.**  Throughout a run no table mentions a request that has
been released, exactly when at no point of it something is spawned or a deadline is set under
one. -/
theorem unmentioned_iff {budget depth : ℤ} {exempt : List PhpString} {chaos : Bool}
    {symbols : Superglobal → Bool} {as : List Action} {s : State}
    (hrun : StepSystem.runFrom step (boot budget depth exempt chaos symbols) as = some s) :
    StepSystem.Always step Forgotten (boot budget depth exempt chaos symbols) as
      ↔ StepSystem.Along step EntersLive (boot budget depth exempt chaos symbols) as := by
  have hboot : ReleasedInv (boot budget depth exempt chaos symbols) :=
    ⟨inv_boot _ _ _ _ _, slotInv_boot _ _ _ _ _, fun op id hop => by simp [boot] at hop⟩
  refine StepSystem.always_iff_along step (I := ReleasedInv) (fun _ _ _ => ReleasedInv.step)
    (fun _ _ _ => forgotten_step) hboot ?_ hrun
  rw [hboot.forgotten_iff]
  rintro id -
  simp [Entered, boot, Pool.init]

/-- Request `1` spawns a child and is released before the child starts. -/
def childOutlives : List Action :=
  List.flatten [handlerStarts 1, [.async], handlerEnds, [.advance, .advance]]

/-- The child does nothing that concerns the request. -/
theorem unmentioned_iff_childEnds : ∃ s,
    StepSystem.runFrom step (worker 1) (childOutlives ++ [.newFuture, .finish none]) = some s
    ∧ s.log.drained = [1]
    ∧ StepSystem.Always step Forgotten (worker 1)
      (childOutlives ++ [.newFuture, .finish none]) := by
  obtain ⟨s, hrun, hs⟩ := Option.map_eq_some_iff.mp
    (show (StepSystem.runFrom step (worker 1) (childOutlives ++ [.newFuture, .finish none])).map
      (fun s => s.log.drained) = some [1] by decide +kernel)
  exact ⟨s, hrun, hs, (unmentioned_iff hrun).mpr (by decide +kernel)⟩

/-- The child spawns a job and sets a deadline: both are entered under the request that is gone. -/
theorem released_request_lives_on : ∃ s,
    StepSystem.runFrom step (worker 1) (childOutlives ++ [.async, .deadline 60]) = some s
    ∧ ReleaseEnded s 1 ∧ s.pool.children.has 1 = true ∧ s.deadlines.get? 60 = some 1
    ∧ s.deadlineOf.get? 1 = some 60 ∧ ¬ Forgotten s := by
  obtain ⟨s, hrun, hs⟩ := Option.map_eq_some_iff.mp
    (show (StepSystem.runFrom step (worker 1) (childOutlives ++ [.async, .deadline 60])).map
      (fun s => (s.log.drained, s.pool.children.has 1, s.deadlines.get? 60, s.deadlineOf.get? 1))
        = some ([1], true, some 1, some 60) by decide +kernel)
  simp only [Prod.mk.injEq] at hs
  obtain ⟨hdrained, hchildren, hdeadline, hof⟩ := hs
  have hended : ReleaseEnded s 1 := Or.inl (by simp [hdrained])
  exact ⟨s, hrun, hended, hchildren, hdeadline, hof, fun h =>
    (h 1 (Or.inl hended)).deadlines 60 hdeadline⟩

end Loop

end Ignis
