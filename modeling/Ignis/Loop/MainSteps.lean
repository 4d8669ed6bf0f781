import Ignis.Loop.Effect

/-!
# What `{main}` does

The steps of `runUntil()` (`MainStep`).  Most of them only move `{main}` on (`moveOn_spec`); the
others start a job, resume a fiber, take a request in, begin a cancellation or carry one on, and
there is one lemma for each of the loop functions.  Together with the steps of user code they give
`step_effect`: every step from a good state is one of the effects, and it leaves the locals as they
should be.
-/

namespace Ignis

namespace Loop

/-! ## Steps -/

/-- Who takes a step: a fiber, or `{main}`. -/
lemma step_cases {s s' : State} {a : Action} (h : step s a = some s') :
    (∃ f j st, s.current = some (f, j, st) ∧ stepFiber s f j st a = some s')
      ∨ (s.pool.running = none ∧ stepMain s a = some s') := by
  unfold step at h
  cases hr : s.pool.running with
  | none =>
      simp only [hr] at h
      exact .inr ⟨rfl, h⟩
  | some g =>
      simp only [hr] at h
      cases hcur : s.current with
      | none => simp [hcur] at h
      | some c =>
          simp only [hcur] at h
          exact .inl ⟨c.1, c.2.1, c.2.2, rfl, h⟩

/-- The step takes `runUntil()` to its `reportUnobserved()`. -/
def State.leaves (s : State) : Action → Bool
  | .turn stop => stop
  | .test inflight reload =>
      s.pool.pending.isEmpty
        && ({ s with stopping := s.stopping || reload }.windingDown inflight || s.isIdle inflight)
  | .dispatch inflight _ =>
      match s.pc with
      | .collecting [] events => events.entries.isEmpty && s.isIdle inflight
      | _ => false
  | _ => false

/-- The steps only `{main}` takes. -/
def Action.ofMain : Action → Bool
  | .run _ | .awaitOpFromMain _ | .turn _ | .takeReady _ | .test _ _ | .poll _ | .dispatch _ _
  | .advance => true
  | _ => false

/-- What `{main}` does with a step. -/
inductive MainStep (s : State) : Action → State → Prop
  | run {serve} (hpc : s.pc = .script) :
      MainStep s (.run serve) { s with pc := .turn, serving := s.serving || serve }
  | awaitOpFromMain {op} (hpc : s.pc = .script) :
      MainStep s (.awaitOpFromMain op) { s with
        pool := { s.pool with waiting := s.pool.waiting.set op .throwaway }
        pc := .turn }
  | stops (hpc : s.pc = .turn) : MainStep s (.turn true) s.leave
  | goesOn (hpc : s.pc = .turn) : MainStep s (.turn false) { s with pc := .startPending }
  | takeReady {batch} (hpc : s.pc = .resumeReady) (hbatch : s.pool.readyBatch = [])
      (hready : s.pool.ready ≠ []) (hperm : batch.Perm s.pool.ready) :
      MainStep s (.takeReady batch) { s with pool := s.pool.takeReady batch }
  | again {inflight reload} (hpc : s.pc = .testing) (hpending : s.pool.pending ≠ []) :
      MainStep s (.test inflight reload) { s with pc := .turn }
  | ends {inflight reload} (hpc : s.pc = .testing)
      (hleaves : s.leaves (.test inflight reload) = true) :
      MainStep s (.test inflight reload) { s with stopping := s.stopping || reload }.leave
  | waits {inflight reload} (hpc : s.pc = .testing)
      (hleaves : s.leaves (.test inflight reload) = false) :
      MainStep s (.test inflight reload)
        { s with stopping := s.stopping || reload, pc := .polling }
  | poll {done} (hpc : s.pc = .polling) :
      MainStep s (.poll done) { s with pc := .collecting done ∅ }
  | endsPolled {inflight order events} (hpc : s.pc = .collecting [] events)
      (hleaves : s.leaves (.dispatch inflight order) = true) :
      MainStep s (.dispatch inflight order) s.leave
  | dispatch {inflight order events} (hpc : s.pc = .collecting [] events)
      (hleaves : s.leaves (.dispatch inflight order) = false)
      (horder : ∀ id, id ∈ order ↔ id ∈ events.keys) :
      MainStep s (.dispatch inflight order) { s with
        pc := .dispatchEvents (order.filterMap fun id => (events.get? id).map fun p => (id, p)) }
  | advance {s'} (hstep : s.advance = some s') : MainStep s .advance s'

lemma mainStep_of_test {s s' : State} {inflight : ℕ} {reload : Bool}
    (h : stepMain s (.test inflight reload) = some s') :
    MainStep s (.test inflight reload) s' := by
  have hidle : { s with stopping := s.stopping || reload }.isIdle inflight
      = s.isIdle inflight := rfl
  simp only [stepMain] at h
  split at h
  · rename_i hpc
    split_ifs at h with hpending hover <;> obtain rfl := Option.some.inj h
    · exact .again hpc hpending
    · rw [hidle] at hover
      exact .ends hpc (by simpa [State.leaves, not_not.mp hpending] using hover)
    · rw [hidle] at hover
      exact .waits hpc (by simpa [State.leaves] using fun _ => hover)
  · cases h

lemma mainStep_of_dispatch {s s' : State} {inflight : ℕ} {order : List Id}
    (h : stepMain s (.dispatch inflight order) = some s') :
    MainStep s (.dispatch inflight order) s' := by
  simp only [stepMain] at h
  split at h
  · rename_i events hpc
    split_ifs at h with hover horder <;> obtain rfl := Option.some.inj h
    · exact .endsPolled hpc (by simpa [State.leaves, hpc] using hover)
    · refine .dispatch hpc (by simpa [State.leaves, hpc] using hover) fun id => ?_
      rcases horder with rfl | ⟨-, hperm⟩
      · rfl
      · exact (List.isPerm_iff.mp hperm).mem_iff
  · cases h

/-- A step of `{main}`, or of user code of `{main}`. -/
lemma stepMain_cases {s s' : State} {a : Action} (h : stepMain s a = some s') :
    MainStep s a s' ∨ (a.ofMain = false ∧ stepUser s none none a = some s') := by
  cases a with
  | run serve | awaitOpFromMain op | poll done =>
      simp only [stepMain] at h
      split at h
      · rename_i hpc
        obtain rfl := Option.some.inj h
        refine .inl ?_
        constructor
        exact hpc
      · cases h
  | turn stop =>
      simp only [stepMain] at h
      split at h
      · rename_i hpc
        cases stop
        · obtain rfl := Option.some.inj h
          exact .inl (.goesOn hpc)
        · obtain rfl := Option.some.inj h
          exact .inl (.stops hpc)
      · cases h
  | takeReady batch =>
      simp only [stepMain] at h
      split at h
      · rename_i hpc
        split_ifs at h with hok
        obtain rfl := Option.some.inj h
        refine .inl (.takeReady hpc hok.1 hok.2.1 ?_)
        rcases hok.2.2 with e | ⟨-, e⟩
        · rw [e]
        · exact List.isPerm_iff.mp e
      · cases h
  | test inflight reload => exact .inl (mainStep_of_test h)
  | dispatch inflight order => exact .inl (mainStep_of_dispatch h)
  | advance => exact .inl (.advance h)
  | async | newFuture | settle _ _ | stop | assign _ _ | readSuperglobal _ | scopeSet _ _
  | scopeGet _ | scopeClear | deadline _ | awaitOp _ | await _ | park _ | finish _ =>
      simp only [stepMain] at h
      split_ifs at h
      exact .inr ⟨rfl, h⟩

/-- What `dispatchEvents()` does with an event. -/
inductive EventStep (s : State) (id : Id) (rest : List (Id × Payload)) : Payload → State → Prop
  | awaited {payload} (hw : ∀ a, payload = .array a → s.pool.waiting.has id = true) :
      EventStep s id rest payload
        ({ s with pc := .dispatchEvents rest }.dispatchAwaited id rest)
  | malformed {a e} (hw : s.pool.waiting.has id = false) (hu : dispatchUnawaited a = .error e) :
      EventStep s id rest (.array a) { s with pc := .dispatchEvents rest }.unwind
  | ignored {a} : EventStep s id rest (.array a) { s with pc := .dispatchEvents rest }
  | cancel {a ageUs} (hw : s.pool.waiting.has id = false)
      (hu : dispatchUnawaited a = .ok (.cancel ageUs)) :
      EventStep s id rest (.array a) ({ s with pc := .dispatchEvents rest }.cancelRequest id rest)
  | request {a raw s'}
      (hrequest : { s with pc := .dispatchEvents rest }.dispatchRequest id raw = some s') :
      EventStep s id rest (.array a) s'

lemma eventStep_of_dispatchEvent {s s' : State} {id : Id} {payload : Payload}
    {rest : List (Id × Payload)} (h : s.dispatchEvent id payload rest = some s') :
    EventStep s id rest payload s' := by
  cases payload with
  | scalar v =>
      obtain rfl := Option.some.inj h
      exact .awaited nofun
  | array a =>
      simp only [State.dispatchEvent] at h
      split_ifs at h with hw
      · obtain rfl := Option.some.inj h
        exact .awaited fun _ _ => hw
      · have hw : s.pool.waiting.has id = false := by simpa using hw
        cases hu : dispatchUnawaited a with
        | error e =>
            simp only [hu] at h
            obtain rfl := Option.some.inj h
            exact .malformed hw hu
        | ok u =>
            cases u with
            | ignored =>
                simp only [hu] at h
                obtain rfl := Option.some.inj h
                exact .ignored
            | cancel ageUs =>
                simp only [hu] at h
                obtain rfl := Option.some.inj h
                exact .cancel hw hu
            | request raw =>
                simp only [hu] at h
                exact .request h

/-! ## Moving on -/

/-- The places of `{main}` at which no loop function has locals. -/
def Pc.plain : Pc → Bool
  | .startPending | .resumeReady | .cancelRequest _ _ => false
  | .script | .turn | .testing | .polling | .collecting _ _ | .dispatchEvents _ => true

lemma Pc.ne_cancel_of_plain {pc : Pc} (h : pc.plain = true) (id : Id) (rest : List (Id × Payload)) :
    pc ≠ .cancelRequest id rest := by
  rintro rfl
  simp [Pc.plain] at h

lemma Tidy.locals_nil {s : State} (h : Tidy s) (hpc : s.pc.plain = true) :
    s.pool.startBatch = [] ∧ s.pool.readyBatch = [] ∧ s.pool.todo = [] := by
  refine ⟨h.starting.resolve_left ?_, h.resuming.resolve_left ?_, h.walking.resolve_left ?_⟩
  · intro e
    simp [e, Pc.plain] at hpc
  · intro e
    simp [e, Pc.plain] at hpc
  · rintro ⟨id, rest, e⟩
    exact Pc.ne_cancel_of_plain hpc id rest e

lemma Tidy.todo_nil {s : State} (h : Tidy s) (hpc : ∀ id rest, s.pc ≠ .cancelRequest id rest) :
    s.pool.todo = [] :=
  h.walking.resolve_left fun ⟨id, rest, e⟩ => hpc id rest e

/-- A step that only moves `{main}` on. -/
lemma mainMoves_spec {s : State} {a : Action} {pc : Pc} {p : Pool} {serving stopping : Bool}
    (hp : p.Inv) (hquiet : Quiet s.pool p)
    (hpc : ∀ id rest, s.pc ≠ .cancelRequest id rest ∧ pc ≠ .cancelRequest id rest)
    (hstart : pc = .startPending ∨ p.startBatch = [])
    (hready : pc = .resumeReady ∨ p.readyBatch = []) (htodo : p.todo = []) :
    Effect s a { s with pool := p, pc := pc, serving := serving, stopping := stopping }
      ∧ Tidy { s with pool := p, pc := pc, serving := serving, stopping := stopping } := by
  refine ⟨.quiet hquiet fun id rest => ?_, hp, hstart, hready, Or.inr htodo⟩
  exact ⟨fun e => absurd e (hpc id rest).1, fun e => absurd e (hpc id rest).2⟩

/-- From a place without locals to any but `cancelRequest()`. -/
lemma moveOn_spec {s : State} {a : Action} {pc : Pc} {p : Pool} {serving stopping : Bool}
    (h : Inv s) (hfrom : s.pc.plain = true) (hto : ∀ id rest, pc ≠ .cancelRequest id rest)
    (hp : p.Inv) (hquiet : Quiet s.pool p) (hstart : p.startBatch = s.pool.startBatch)
    (hready : p.readyBatch = s.pool.readyBatch) :
    Effect s a { s with pool := p, pc := pc, serving := serving, stopping := stopping }
      ∧ Tidy { s with pool := p, pc := pc, serving := serving, stopping := stopping } := by
  obtain ⟨hs, hr, ht⟩ := h.locals_nil hfrom
  refine mainMoves_spec hp hquiet (fun id rest => ⟨?_, hto id rest⟩) (Or.inr (hstart.trans hs))
    (Or.inr (hready.trans hr)) (hquiet.todo.trans ht)
  exact Pc.ne_cancel_of_plain hfrom id rest

/-- The pool stays as it is. -/
lemma moveOn_same {s : State} {a : Action} {pc : Pc} {serving stopping : Bool} (h : Inv s)
    (hfrom : s.pc.plain = true) (hto : ∀ id rest, pc ≠ .cancelRequest id rest) :
    Effect s a { s with pc := pc, serving := serving, stopping := stopping }
      ∧ Tidy { s with pc := pc, serving := serving, stopping := stopping } :=
  moveOn_spec h hfrom hto h.pool (.of_eq rfl rfl rfl) rfl rfl

/-- The loop ends. -/
lemma leave_spec {s : State} {a : Action} {stopping : Bool} (h : Inv s)
    (hfrom : s.pc.plain = true) :
    Effect s a { s with stopping := stopping }.leave ∧ Tidy { s with stopping := stopping }.leave :=
  moveOn_spec h hfrom (by simp) (Pool.inv_reportUnobserved h.pool) (.of_eq rfl rfl rfl) rfl rfl

/-- Outside the loop functions there are no locals to lose. -/
lemma unwind_eq {s : State} (hstart : s.pool.startBatch = []) (hready : s.pool.readyBatch = [])
    (htodo : s.pool.todo = []) : s.unwind = { s with pc := .script } := by
  have hpool : { s.pool with startBatch := [], readyBatch := [], todo := [] } = s.pool := by
    cases hp : s.pool
    simp_all
  rw [State.unwind, hpool]

/-! ## Starting jobs -/

@[simp] lemma attributedToRequest_pool (s : State) (f : FiberId) (j : Job) :
    (s.attributedToRequest f j).pool = s.pool := by
  unfold State.attributedToRequest
  split <;> rfl

@[simp] lemma attributedToRequest_pc (s : State) (f : FiberId) (j : Job) :
    (s.attributedToRequest f j).pc = s.pc := by
  unfold State.attributedToRequest
  split <;> rfl

@[simp] lemma startJob_pool (s : State) (f : FiberId) (j : Job) :
    (s.startJob f j).pool = s.pool := by
  unfold State.startJob
  cases j.body <;> simp [State.enterRequest, State.scopeSet]

@[simp] lemma startJob_pc (s : State) (f : FiberId) (j : Job) : (s.startJob f j).pc = s.pc := by
  unfold State.startJob
  cases j.body <;> simp [State.enterRequest, State.scopeSet]

lemma Tidy.startJob {s : State} (h : Tidy s) (f : FiberId) (j : Job) : Tidy (s.startJob f j) :=
  h.keep (by rw [startJob_pool]; exact h.pool) (startJob_pc s f j) (by rw [startJob_pool])
    (by rw [startJob_pool]) (by rw [startJob_pool])

/-- `startPending()`. -/
lemma advance_start {s s' : State} (h : Inv s) (hmain : s.pool.running = none)
    (hpc : s.pc = .startPending) (hstep : s.advance = some s') :
    Effect s .advance s' ∧ Tidy s' := by
  have hnot : ∀ id rest, s.pc ≠ .cancelRequest id rest := by simp [hpc]
  have htodo := h.todo_nil hnot
  have hready : s.pool.readyBatch = [] := h.resuming.resolve_left (by simp [hpc])
  simp only [State.advance, hpc] at hstep
  cases hbatch : s.pool.startBatch with
  | nil =>
      simp only [hbatch] at hstep
      split_ifs at hstep with hpending
      · obtain rfl := Option.some.inj hstep
        exact mainMoves_spec h.pool (.of_eq rfl rfl rfl) (fun id rest => ⟨hnot id rest, by simp⟩)
          (Or.inr hbatch) (Or.inl rfl) htodo
      · obtain rfl := Option.some.inj hstep
        exact mainMoves_spec (Pool.inv_takePending h.pool hbatch) (.of_eq rfl rfl rfl)
          (fun id rest => ⟨hnot id rest, by simp⟩) (Or.inl rfl) (Or.inr hready) htodo
  | cons e rest =>
      obtain ⟨f, j⟩ := e
      obtain ⟨hf, hp, hinv⟩ := Pool.startNext_eq h.pool hmain htodo hbatch
      simp only [hbatch, hp] at hstep
      obtain rfl := Option.some.inj hstep
      refine ⟨.start hmain (by simp [State.startsNext, hpc, hbatch]) htodo htodo (Or.inl ⟨hpc, hf⟩)
        (.of_update rfl rfl), ?_⟩
      refine Tidy.startJob (s := s.withPool _) ?_ f j
      exact ⟨hinv, Or.inl hpc, Or.inr hready, Or.inr htodo⟩

/-- `resumeReady()`. -/
lemma advance_ready {s s' : State} (h : Inv s) (hmain : s.pool.running = none)
    (hpc : s.pc = .resumeReady) (hstep : s.advance = some s') :
    Effect s .advance s' ∧ Tidy s' := by
  have hnot : ∀ id rest, s.pc ≠ .cancelRequest id rest := by simp [hpc]
  have htodo := h.todo_nil hnot
  have hstart : s.pool.startBatch = [] := h.starting.resolve_left (by simp [hpc])
  simp only [State.advance, hpc] at hstep
  cases hbatch : s.pool.readyBatch with
  | nil =>
      simp only [hbatch] at hstep
      split_ifs at hstep with hready
      obtain rfl := Option.some.inj hstep
      exact mainMoves_spec h.pool (.of_eq rfl rfl rfl) (fun id rest => ⟨hnot id rest, by simp⟩)
        (Or.inr hstart) (Or.inr hbatch) htodo
  | cons e rest =>
      obtain ⟨f, j | _⟩ := e
      · obtain ⟨hf, hp, hinv⟩ := Pool.resumeNext_job_eq h.pool hmain htodo hbatch
        simp only [hbatch, hp] at hstep
        obtain rfl := Option.some.inj hstep
        refine ⟨.start hmain (by simp [State.startsNext, hpc, hbatch]) htodo htodo
          (Or.inr ⟨hpc, hf⟩) (.of_update rfl rfl), ?_⟩
        refine Tidy.startJob (s := s.withPool _) ?_ f j
        exact ⟨hinv, Or.inr hstart, Or.inl hpc, Or.inr htodo⟩
      · obtain ⟨j, st, fut, hf, hp, hinv⟩ := Pool.resumeNext_wake_eq h.pool hmain htodo hbatch
        simp only [hbatch, hp] at hstep
        obtain rfl := Option.some.inj hstep
        refine ⟨?_, hinv, Or.inr hstart, Or.inl hpc, Or.inr htodo⟩
        have hstay : { s with pc := s.pc } = s := rfl
        rw [← hstay]
        exact .resume hmain htodo htodo hf (.of_update rfl rfl) fun id rest =>
          ⟨hnot id rest, hnot id rest⟩

/-! ## Polling and dispatching -/

/-- `ignis_poll()`. -/
lemma advance_collect {s s' : State} {done : List (Completion × ℤ)} {events : OrdMap Id Payload}
    (h : Inv s) (hmain : s.pool.running = none) (hpc : s.pc = .collecting done events)
    (hstep : s.advance = some s') : Effect s .advance s' ∧ Tidy s' := by
  have hplain : s.pc.plain = true := by simp [hpc, Pc.plain]
  obtain ⟨hstart, hready, htodo⟩ := h.locals_nil hplain
  cases done with
  | nil => simp [State.advance, hpc] at hstep
  | cons d done =>
      obtain ⟨c, ageUs⟩ := d
      simp only [State.advance, hpc] at hstep
      obtain rfl := Option.some.inj hstep
      unfold State.collect
      split_ifs with hparked
      · obtain ⟨f, hget⟩ := OrdMap.has_iff.mp (Bool.and_eq_true_iff.mp hparked).2
        obtain ⟨j, st, ids, hf, hp, hinv⟩ := Pool.resumeParked_eq h.pool hmain htodo hget
        rw [hp]
        refine ⟨.resume hmain htodo htodo hf (.of_update rfl rfl)
          (fun id rest => ⟨Pc.ne_cancel_of_plain hplain id rest, by simp⟩), ?_⟩
        exact ⟨hinv, Or.inr hstart, Or.inr hready, Or.inr htodo⟩
      · cases State.pollPayload ageUs c.outcome with
        | none => exact moveOn_same h hplain (by simp)
        | some payload => exact moveOn_same h hplain (by simp)

lemma cancelRequest_tidy {s : State} {deadlines deadlineOf : OrdMap Id Id} (h : Inv s)
    (hmain : s.pool.running = none) (hplain : s.pc.plain = true) (id : Id)
    (rest : List (Id × Payload)) :
    Tidy ({ s with deadlines := deadlines, deadlineOf := deadlineOf }.cancelRequest id rest) := by
  obtain ⟨hstart, hready, -⟩ := h.locals_nil hplain
  exact ⟨Pool.inv_cancelTargets h.pool hmain id, Or.inr hstart, Or.inr hready,
    Or.inl ⟨id, rest, rfl⟩⟩

/-- A completion for a timer, for a fiber, or for nobody. -/
lemma dispatchAwaited_spec {s : State} {id : Id} {rest : List (Id × Payload)} (h : Inv s)
    (hmain : s.pool.running = none) (hplain : s.pc.plain = true)
    (hnext : ∀ requestId, s.deadlines.get? id = some requestId → s.cancelsNext = some requestId) :
    Effect s .advance ({ s with pc := .dispatchEvents rest }.dispatchAwaited id rest)
      ∧ Tidy ({ s with pc := .dispatchEvents rest }.dispatchAwaited id rest) := by
  obtain ⟨hstart, hready, htodo⟩ := h.locals_nil hplain
  unfold State.dispatchAwaited
  cases hd : s.deadlines.get? id with
  | some requestId =>
      exact ⟨.cancel hmain htodo (hnext requestId hd),
        cancelRequest_tidy h hmain hplain requestId rest⟩
  | none =>
      cases hw : s.pool.waiting.get? id with
      | none => exact moveOn_same h hplain (by simp)
      | some w =>
          cases w with
          | throwaway =>
              have hp : s.pool.resumeOp id
                  = some { s.pool with waiting := s.pool.waiting.unset id } := by
                simp [Pool.resumeOp, hw]
              simp only [hp, State.withPool, if_true]
              exact moveOn_spec h hplain (by simp) (Pool.inv_throwaway h.pool id)
                (.of_eq rfl rfl rfl) rfl rfl
          | fiber f =>
              obtain ⟨j, st, hf, hp, hinv⟩ := Pool.resumeOp_eq h.pool hmain htodo hw
              simp only [hp]
              refine ⟨.resume hmain htodo htodo hf (.of_update rfl rfl)
                (fun id rest => ⟨Pc.ne_cancel_of_plain hplain id rest, by simp⟩), ?_⟩
              exact ⟨hinv, Or.inr hstart, Or.inr hready, Or.inr htodo⟩

/-- A request that has not arrived before has no handler. -/
lemma Inv.spawnable_handler {s : State} (h : Inv s) {id : Id}
    (hnew : id ∉ s.admission.arrivals.map Arrival.id) :
    s.pool.Spawnable (.handler id) none (some id) := by
  intro id' hid
  obtain rfl := Body.handler.inj hid
  refine ⟨rfl, rfl, fun f j hj hb => ?_⟩
  have hadm := List.count_pos_iff.mpr (h.handler_admitted f j id hj hb)
  have hf := h.admission.fates id
  rw [List.count_eq_zero.mpr hnew] at hf
  omega

lemma dispatchRequest_spec {s s' : State} {id : Id} {raw : IgnisRequest} {e : Id × Payload}
    {rest : List (Id × Payload)} (h : Inv s) (hmain : s.pool.running = none)
    (hpc : s.pc = .dispatchEvents (e :: rest))
    (hstep : { s with pc := .dispatchEvents rest }.dispatchRequest id raw = some s') :
    Effect s .advance s' ∧ Tidy s' := by
  obtain ⟨hstart, hready, htodo⟩ := h.locals_nil (by simp [hpc, Pc.plain])
  simp only [State.dispatchRequest] at hstep
  split_ifs at hstep with hnew hwait
  · obtain rfl := Option.some.inj hstep
    exact ⟨.queue hmain htodo hnew ⟨_, hpc⟩ hwait, tidy_of_nil h.pool hstart hready htodo⟩
  · obtain rfl := Option.some.inj hstep
    refine ⟨.letIn hmain htodo hnew ⟨_, hpc⟩ (by simpa using hwait), ?_⟩
    refine tidy_of_nil (Pool.inv_spawn h.pool (h.spawnable_handler hnew)) ?_ ?_ ?_
    · simpa using hstart
    · simpa using hready
    · simpa using htodo

/-- `dispatchEvents()`. -/
lemma advance_dispatch {s s' : State} {events : List (Id × Payload)} (h : Inv s)
    (hmain : s.pool.running = none) (hpc : s.pc = .dispatchEvents events)
    (hstep : s.advance = some s') : Effect s .advance s' ∧ Tidy s' := by
  have hplain : s.pc.plain = true := by simp [hpc, Pc.plain]
  obtain ⟨hstart, hready, htodo⟩ := h.locals_nil hplain
  cases events with
  | nil =>
      simp only [State.advance, hpc] at hstep
      obtain rfl := Option.some.inj hstep
      exact moveOn_same h hplain (by simp)
  | cons e rest =>
      obtain ⟨id, payload⟩ := e
      simp only [State.advance, hpc] at hstep
      cases eventStep_of_dispatchEvent hstep with
      | awaited hw =>
          refine dispatchAwaited_spec h hmain hplain fun requestId hd => ?_
          cases payload with
          | scalar v => simp only [State.cancelsNext, hpc, hd]
          | array a => simp only [State.cancelsNext, hpc, hw a rfl, if_true, hd]
      | malformed =>
          rw [unwind_eq (s := { s with pc := .dispatchEvents rest }) hstart hready htodo]
          exact moveOn_same h hplain (by simp)
      | ignored => exact moveOn_same h hplain (by simp)
      | cancel hw hu =>
          have hnext : s.cancelsNext = some id := by simp [State.cancelsNext, hpc, hw, hu]
          exact ⟨.cancel hmain htodo hnext, cancelRequest_tidy h hmain hplain id rest⟩
      | request hrequest => exact dispatchRequest_spec h hmain hpc hrequest

/-! ## Cancelling -/

/-- `cancelRequest()`. -/
lemma advance_cancel {s s' : State} {id : Id} {rest : List (Id × Payload)} (h : Inv s)
    (hmain : s.pool.running = none) (hpc : s.pc = .cancelRequest id rest)
    (hstep : s.advance = some s') : Effect s .advance s' ∧ Tidy s' := by
  have hstart : s.pool.startBatch = [] := h.starting.resolve_left (by simp [hpc])
  have hready : s.pool.readyBatch = [] := h.resuming.resolve_left (by simp [hpc])
  simp only [State.advance, hpc] at hstep
  obtain rfl := Option.some.inj hstep
  unfold State.cancelNext
  cases htodo : s.pool.todo with
  | nil => exact ⟨.callEnds hmain hpc htodo, tidy_of_nil h.pool hstart hready htodo⟩
  | cons f todo =>
      have hnd := h.pool.todo_nodup
      rw [htodo, List.nodup_cons] at hnd
      have hp : Pool.Inv { s.pool with todo := todo } := h.pool.withTodo hnd.2 fun g hg =>
        h.pool.todo_waits g (htodo ▸ List.mem_cons_of_mem _ hg)
      have hthrow := Pool.inv_throwInto (f := f) hp hmain hnd.1
      rcases Pool.throwInto_cases hp.toParks f with
        ⟨j, st, op, hf, he⟩ | ⟨j, st, ids, hf, he⟩ | ⟨hf, he⟩
      · rw [he] at hthrow
        simp only [he]
        exact ⟨.deliver hmain hpc htodo rfl hf (.of_update rfl rfl),
          hthrow, Or.inr hstart, Or.inr hready, Or.inl ⟨id, rest, hpc⟩⟩
      · rw [he] at hthrow
        simp only [he]
        exact ⟨.deliver hmain hpc htodo rfl hf (.of_update rfl rfl),
          hthrow, Or.inr hstart, Or.inr hready, Or.inl ⟨id, rest, hpc⟩⟩
      · simp only [he, State.withPool, if_true, Option.map_none, Option.toList_none,
          List.append_nil]
        exact ⟨.miss hmain hpc htodo hf, hp, Or.inr hstart, Or.inr hready, Or.inl ⟨id, rest, hpc⟩⟩

/-! ## Every step -/

lemma advance_spec {s s' : State} (h : Inv s) (hmain : s.pool.running = none)
    (hstep : s.advance = some s') : Effect s .advance s' ∧ Tidy s' := by
  cases hpc : s.pc with
  | startPending => exact advance_start h hmain hpc hstep
  | resumeReady => exact advance_ready h hmain hpc hstep
  | collecting done events => exact advance_collect h hmain hpc hstep
  | dispatchEvents events => exact advance_dispatch h hmain hpc hstep
  | cancelRequest id rest => exact advance_cancel h hmain hpc hstep
  | script | turn | testing | polling => simp [State.advance, hpc] at hstep

theorem stepMain_spec {s s' : State} {a : Action} (h : Inv s) (hmain : s.pool.running = none)
    (hstep : stepMain s a = some s') : Effect s a s' ∧ Tidy s' := by
  rcases stepMain_cases hstep with hstep | ⟨-, huser⟩
  · cases hstep with
    | run hpc | goesOn hpc | again hpc | waits hpc | poll hpc | dispatch hpc =>
        exact moveOn_same h (by simp [hpc, Pc.plain]) (by simp)
    | awaitOpFromMain hpc =>
        exact moveOn_spec h (by simp [hpc, Pc.plain]) (by simp)
          (Pool.inv_awaitOpFromMain h.pool _) (.of_eq rfl rfl rfl) rfl rfl
    | stops hpc | ends hpc | endsPolled hpc => exact leave_spec h (by simp [hpc, Pc.plain])
    | takeReady hpc hbatch _ hperm =>
        refine mainMoves_spec (Pool.inv_takeReady h.pool hbatch hperm) (.of_eq rfl rfl rfl)
          (fun id rest => ⟨by simp [hpc], by simp [hpc]⟩) (Or.inr ?_) (Or.inl hpc)
          (h.todo_nil (by simp [hpc]))
        exact h.starting.resolve_left (by simp [hpc])
    | advance hadvance => exact advance_spec h hmain hadvance
  · exact stepUser_spec h (Or.inr ⟨hmain, rfl, rfl⟩) huser

/-- **What a step can do.** -/
theorem step_effect {s s' : State} {a : Action} (h : Inv s) (hstep : step s a = some s') :
    Effect s a s' ∧ Tidy s' := by
  rcases step_cases hstep with ⟨f, j, st, hcur, hfiber⟩ | ⟨hmain, hstep⟩
  · exact stepFiber_spec h hcur hfiber
  · exact stepMain_spec h hmain hstep

end Loop

end Ignis
