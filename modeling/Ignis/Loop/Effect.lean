import Ignis.Loop.AdmissionInvariant
import Ignis.Loop.PoolRunning
import Ignis.Loop.PoolSwitch
import Ignis.Loop.State

/-!
# What a step can do

`step` has one branch for every way the code can go, and most of them do the same few things to the
parts a property speaks about.  `Effect` lists those: a job is spawned, starts, suspends, runs on,
ends; a request arrives, is cancelled, gives its slot back; a scope is written; and so on.
Every step from a good state is one of them (`step_effect`, in `MainSteps`), so a property of runs
is proved by looking at the effects and never at `step` itself.  This file has the effects and the
steps of user code.

A good state (`Loop.Inv`) is one in which the pool and the queue satisfy their invariants and the
two fit together: the locals of a loop function are empty outside it, a handler's job belongs to an
admitted request, and a fiber that cleans up after a request is attributed to none.
-/

namespace Ignis

namespace Loop

/-! ## Good states -/

/-- The pool is as it should be, and the locals of a loop function are empty outside it. -/
structure Tidy (s : State) : Prop where
  pool : s.pool.Inv
  starting : s.pc = .startPending ∨ s.pool.startBatch = []
  resuming : s.pc = .resumeReady ∨ s.pool.readyBatch = []
  walking : (∃ id rest, s.pc = .cancelRequest id rest) ∨ s.pool.todo = []

structure Inv (s : State) : Prop extends Tidy s where
  admission : s.admission.Inv
  handler_admitted : ∀ f j id, (s.pool.status f).job? = some j → j.body = .handler id →
    id ∈ s.admission.admissions.map Admitted.id
  clearing_scope : ∀ f, (s.pool.status f).stage? = some .clearing → s.currentRequestId f = none

lemma current_eq_some_iff {s : State} {f : FiberId} {j : Job} {st : Stage} :
    s.current = some (f, j, st) ↔ s.pool.running = some f ∧ s.pool.status f = .running j st := by
  unfold State.current
  cases hr : s.pool.running with
  | none => simp
  | some g =>
      cases hs : s.pool.status g with
      | running k st' =>
          simp only [hs, Option.some.injEq, Prod.mk.injEq]
          constructor
          · rintro ⟨rfl, rfl, rfl⟩
            exact ⟨rfl, hs⟩
          · rintro ⟨rfl, hf⟩
            rw [hs] at hf
            obtain ⟨rfl, rfl⟩ := Status.running.inj hf
            exact ⟨rfl, rfl, rfl⟩
      | absent | idle | terminated | pending _ | handed _ | blocked _ _ _ =>
          simp only [hs, reduceCtorEq, Option.some.injEq, false_iff, not_and]
          rintro rfl hf
          rw [hs] at hf
          exact absurd hf (by simp)

/-! ## What the next step of `{main}` will be -/

/-- The job that starts next, and the fiber it starts on. -/
def State.startsNext (s : State) : Option (FiberId × Job) :=
  match s.pc with
  | .startPending => s.pool.startBatch.head?
  | .resumeReady =>
      match s.pool.readyBatch.head? with
      | some (f, .job j) => some (f, j)
      | _ => none
  | _ => none

/-- The request that is cancelled next: its client went away, or its deadline passed. -/
def State.cancelsNext (s : State) : Option Id :=
  match s.pc with
  | .dispatchEvents ((id, .scalar _) :: _) => s.deadlines.get? id
  | .dispatchEvents ((id, .array a) :: _) =>
      if s.pool.waiting.has id then s.deadlines.get? id
      else
        match dispatchUnawaited a with
        | .ok (.cancel _) => some id
        | _ => none
  | _ => none

/-! ## Effects -/

/-- Nothing happens to a job, but that a future it awaits may settle. -/
structure Quiet (p q : Pool) : Prop where
  running : q.running = p.running
  todo : q.todo = p.todo
  status : ∀ g, q.status g = p.status g
    ∨ ∃ j st fut, p.status g = .blocked j st (.future fut) ∧ q.status g = .blocked j st (.woken fut)

/-- A switch or a change of stage: fiber `f` goes to status `t`, and nobody else moves. -/
structure Moves (p q : Pool) (f : FiberId) (t : Status) (running : Option FiberId) : Prop where
  running : q.running = running
  status : ∀ g, q.status g = if g = f then t else p.status g

lemma Quiet.of_eq {p q : Pool} (hrunning : q.running = p.running) (htodo : q.todo = p.todo)
    (hstatus : q.status = p.status) : Quiet p q :=
  ⟨hrunning, htodo, fun g => Or.inl (congrFun hstatus g)⟩

lemma Moves.of_update {p q : Pool} {f : FiberId} {t : Status} {running : Option FiberId}
    (hrunning : q.running = running) (hstatus : q.status = Function.update p.status f t) :
    Moves p q f t running :=
  ⟨hrunning, fun g => by rw [hstatus, Function.update_apply]⟩

inductive Effect (s : State) : Action → State → Prop
  /-- Bookkeeping of the loop. -/
  | quiet {a p pc deadlines deadlineOf serving stopping} (hp : Quiet s.pool p)
      (hpc : ∀ id rest, s.pc = .cancelRequest id rest ↔ pc = .cancelRequest id rest) :
      Effect s a { s with
        pool := p, pc := pc, deadlines := deadlines, deadlineOf := deadlineOf, serving := serving,
        stopping := stopping }
  | assign {a k} (n : Option ℕ) :
      Effect s a { s with superglobals := s.superglobals.assign k (n.map .assigned) }
  | readSuperglobal {a f j st k o} (hcur : s.current = some (f, j, st))
      (ho : s.superglobals.symbols k = some o) :
      Effect s a { s with
        log := { s.log with superglobalReads := s.log.superglobalReads ++ [(j, o)] } }
  | readScope {a f j st key stored} (hcur : s.current = some (f, j, st))
      (hget : (s.scopes f).get? key = some stored) (hne : stored.value ≠ .null) :
      Effect s a { s with log := { s.log with scopeReads := s.log.scopeReads ++ [(j, stored)] } }
  | writeScope {a f j st n value} (hcur : s.current = some (f, j, st)) :
      Effect s a (s.scopeSet f j (.user n) value)
  | clearScope {a f j st} (hcur : s.current = some (f, j, st)) : Effect s a (s.scopeClear f)
  | suspend {a f j st at' p} (hcur : s.current = some (f, j, st)) (htodo : p.todo = s.pool.todo)
      (hp : Moves s.pool p f (.blocked j st at') none) : Effect s a (s.withPool p)
  /-- A completion, or a settled future. -/
  | resume {f j st at' p pc} (hmain : s.pool.running = none) (htodo : s.pool.todo = [])
      (hptodo : p.todo = []) (hf : s.pool.status f = .blocked j st at')
      (hp : Moves s.pool p f (.running j st) (some f))
      (hpc : ∀ id rest, s.pc ≠ .cancelRequest id rest ∧ pc ≠ .cancelRequest id rest) :
      Effect s .advance ({ s with pc := pc }.withPool p)
  /-- The exception of `cancelRequest()` arrives. -/
  | deliver {f j st at' p id rest todo} (hmain : s.pool.running = none)
      (hpc : s.pc = .cancelRequest id rest) (htodo : s.pool.todo = f :: todo)
      (hptodo : p.todo = todo) (hf : s.pool.status f = .blocked j st at')
      (hp : Moves s.pool p f (.running j st) (some f)) :
      Effect s .advance { s.withPool p with
        log := { s.log with deliveries := s.log.deliveries ++ [⟨s.calls, id, j⟩] } }
  /-- `throwInto()` finds the fiber in no table. -/
  | miss {f id rest todo} (hmain : s.pool.running = none) (hpc : s.pc = .cancelRequest id rest)
      (htodo : s.pool.todo = f :: todo)
      (hf : ∀ j st at', s.pool.status f = .blocked j st at' →
        ∃ fut, at' = .future fut ∨ at' = .woken fut) :
      Effect s .advance { s with pool := { s.pool with todo := todo } }
  | callEnds {id rest} (hmain : s.pool.running = none) (hpc : s.pc = .cancelRequest id rest)
      (htodo : s.pool.todo = []) :
      Effect s .advance { s with pc := .dispatchEvents rest, cancelled := s.cancelled + 1 }
  | start {f j p} (hmain : s.pool.running = none) (hnext : s.startsNext = some (f, j))
      (htodo : s.pool.todo = []) (hptodo : p.todo = [])
      (hf : (s.pc = .startPending ∧ s.pool.status f = .pending j)
        ∨ (s.pc = .resumeReady ∧ s.pool.status f = .handed j))
      (hp : Moves s.pool p f (.running j (Pool.entryStage j)) (some f)) :
      Effect s .advance ((s.withPool p).startJob f j)
  | spawn {a requestId descends}
      (hby : (∃ f j st, s.current = some (f, j, st) ∧ requestId = s.currentRequestId f
          ∧ descends = j.descends)
        ∨ (s.pool.running = none ∧ requestId = none ∧ descends = none)) :
      Effect s a { s with pool := s.pool.spawn .user requestId descends }
  /-- A request arrives and is queued or shed. -/
  | queue {id raw rest} (hmain : s.pool.running = none) (htodo : s.pool.todo = [])
      (hnew : id ∉ s.admission.arrivals.map Arrival.id)
      (hpc : ∃ e, s.pc = .dispatchEvents (e :: rest))
      (hwait : s.admission.mustWait raw.uri = true) :
      Effect s .advance { s with
        pc := .dispatchEvents rest, admission := s.admission.dispatchRequest id raw }
  /-- A request arrives and is admitted. -/
  | letIn {id raw rest} (hmain : s.pool.running = none) (htodo : s.pool.todo = [])
      (hnew : id ∉ s.admission.arrivals.map Arrival.id)
      (hpc : ∃ e, s.pc = .dispatchEvents (e :: rest))
      (hwait : s.admission.mustWait raw.uri = false) :
      Effect s .advance { s with
        pc := .dispatchEvents rest
        admission := s.admission.dispatchRequest id raw
        pool := s.pool.spawn (.handler id) none (some id) }
  | cancel {id rest deadlines deadlineOf} (hmain : s.pool.running = none)
      (htodo : s.pool.todo = []) (hnext : s.cancelsNext = some id) :
      Effect s .advance ({ s with
        deadlines := deadlines, deadlineOf := deadlineOf }.cancelRequest id rest)
  /-- The handler has ended. -/
  | answer {f j id e} (hcur : s.current = some (f, j, .handler)) (hb : j.body = .handler id) :
      Effect s (.finish e)
        { (s.scopeSet f j .request .null).withPool (s.pool.setStage f j .answering) with
          log := { s.log with completed := s.log.completed ++ [id] } }
  /-- The answer is out. -/
  | release {f j id e deadlines deadlineOf} (hcur : s.current = some (f, j, .answering))
      (hb : j.body = .handler id) :
      Effect s (.finish e) (({ s with deadlines := deadlines, deadlineOf := deadlineOf }.withPool
        (s.pool.release f j id)).scopeClear f)
  /-- A job of user code has ended. -/
  | settle {f j e} (hcur : s.current = some (f, j, .body)) (hb : j.body = .user) :
      Effect s (.finish e) (s.settleJob f j (State.ended e))
  /-- The cleanup has ended, and the slot is given back. -/
  | slot {f j id} (hcur : s.current = some (f, j, .clearing)) (hb : j.body = .handler id) :
      Effect s (.finish none) ((s.releaseSlot f id).settleJob f j .resolved)
  /-- The cleanup has thrown. -/
  | cleanupThrew {f j id e} (hcur : s.current = some (f, j, .clearing))
      (hb : j.body = .handler id) :
      Effect s (.finish (some e))
        ({ s with log := { s.log with cleanupThrew := s.log.cleanupThrew ++ [id] } }.settleJob f j
          (.rejected e))

/-! ## The locals of the loop functions -/

/-- The locals are untouched, and `{main}` stays where it is. -/
lemma Tidy.keep {s s' : State} (h : Tidy s) (hpool : s'.pool.Inv) (hpc : s'.pc = s.pc)
    (hstart : s'.pool.startBatch = s.pool.startBatch)
    (hready : s'.pool.readyBatch = s.pool.readyBatch) (htodo : s'.pool.todo = s.pool.todo) :
    Tidy s' :=
  ⟨hpool, by rw [hpc, hstart]; exact h.starting, by rw [hpc, hready]; exact h.resuming,
    by rw [hpc, htodo]; exact h.walking⟩

/-- All locals are empty. -/
lemma tidy_of_nil {s : State} (hpool : s.pool.Inv) (hstart : s.pool.startBatch = [])
    (hready : s.pool.readyBatch = []) (htodo : s.pool.todo = []) : Tidy s :=
  ⟨hpool, Or.inr hstart, Or.inr hready, Or.inr htodo⟩

@[simp] lemma spawn_startBatch (p : Pool) (b : Body) (r d : Option Id) :
    (p.spawn b r d).startBatch = p.startBatch := by
  unfold Pool.spawn
  cases p.idle.getLast? <;> rfl

@[simp] lemma spawn_readyBatch (p : Pool) (b : Body) (r d : Option Id) :
    (p.spawn b r d).readyBatch = p.readyBatch := by
  unfold Pool.spawn
  cases p.idle.getLast? <;> rfl

@[simp] lemma spawn_todo (p : Pool) (b : Body) (r d : Option Id) :
    (p.spawn b r d).todo = p.todo := by
  unfold Pool.spawn
  cases p.idle.getLast? <;> rfl

@[simp] lemma spawn_running (p : Pool) (b : Body) (r d : Option Id) :
    (p.spawn b r d).running = p.running := by
  unfold Pool.spawn
  cases p.idle.getLast? <;> rfl

lemma spawnable_user (p : Pool) (r d : Option Id) : p.Spawnable .user r d :=
  fun _ h => absurd h (by simp)

/-! ## User code -/

lemma stepUser_spec {s s' : State} {a : Action} {requestId descends : Option Id} (h : Inv s)
    (hby : (∃ f j st, s.current = some (f, j, st) ∧ requestId = s.currentRequestId f
        ∧ descends = j.descends)
      ∨ (s.pool.running = none ∧ requestId = none ∧ descends = none))
    (hstep : stepUser s requestId descends a = some s') : Effect s a s' ∧ Tidy s' := by
  cases a with
  | async =>
      obtain rfl := Option.some.inj hstep
      exact ⟨.spawn hby, h.keep (Pool.inv_spawn h.pool (spawnable_user _ _ _)) rfl (by simp)
        (by simp) (by simp)⟩
  | newFuture =>
      obtain rfl := Option.some.inj hstep
      exact ⟨.quiet (.of_eq rfl rfl rfl) (fun _ _ => Iff.rfl),
        h.keep (Pool.inv_newFuture h.pool) rfl rfl rfl rfl⟩
  | settle fut result =>
      simp only [stepUser] at hstep
      split_ifs at hstep with hok
      obtain rfl := Option.some.inj hstep
      refine ⟨.quiet ⟨rfl, rfl, fun g => ?_⟩ (fun _ _ => Iff.rfl),
        h.keep (Pool.inv_settle h.pool hok.2.1 result) rfl rfl rfl rfl⟩
      rcases Pool.settle_status h.pool.toParks fut result g with ⟨hs, -⟩ | ⟨j, st, hs, hs'⟩
      · exact Or.inl hs
      · exact Or.inr ⟨j, st, fut, hs, hs'⟩
  | stop =>
      obtain rfl := Option.some.inj hstep
      exact ⟨.quiet (.of_eq rfl rfl rfl) (fun _ _ => Iff.rfl),
        h.keep h.pool rfl rfl rfl rfl⟩
  | assign k n =>
      obtain rfl := Option.some.inj hstep
      exact ⟨.assign n, h.keep h.pool rfl rfl rfl rfl⟩
  | _ => simp [stepUser] at hstep

/-- A step that changes nothing. -/
lemma Effect.refl (s : State) (a : Action) : Effect s a s := by
  have h : Effect s a { s with pool := s.pool, pc := s.pc } :=
    .quiet (.of_eq rfl rfl rfl) fun _ _ => Iff.rfl
  exact h

lemma disarmDeadline_eq (s : State) (id : Id) :
    s.disarmDeadline id = { s with
      deadlines := (s.disarmDeadline id).deadlines
      deadlineOf := (s.disarmDeadline id).deadlineOf } := by
  unfold State.disarmDeadline
  split <;> rfl

@[simp] lemma spawnHandlers_startBatch (p : Pool) (r : Option Id) (ids : List Id) :
    (p.spawnHandlers r ids).startBatch = p.startBatch := by
  induction ids generalizing p with
  | nil => rfl
  | cons id ids ih => rw [Pool.spawnHandlers, ih, spawn_startBatch]

@[simp] lemma spawnHandlers_readyBatch (p : Pool) (r : Option Id) (ids : List Id) :
    (p.spawnHandlers r ids).readyBatch = p.readyBatch := by
  induction ids generalizing p with
  | nil => rfl
  | cons id ids ih => rw [Pool.spawnHandlers, ih, spawn_readyBatch]

@[simp] lemma spawnHandlers_todo (p : Pool) (r : Option Id) (ids : List Id) :
    (p.spawnHandlers r ids).todo = p.todo := by
  induction ids generalizing p with
  | nil => rfl
  | cons id ids ih => rw [Pool.spawnHandlers, ih, spawn_todo]

@[simp] lemma spawnHandlers_running (p : Pool) (r : Option Id) (ids : List Id) :
    (p.spawnHandlers r ids).running = p.running := by
  induction ids generalizing p with
  | nil => rfl
  | cons id ids ih => rw [Pool.spawnHandlers, ih, spawn_running]

/-- A fiber that exists and does not park in `nextJob()` is not handed a job. -/
lemma spawn_elsewhere {p : Pool} {b : Body} {r d : Option Id} {g : FiberId} (hidle : g ∉ p.idle)
    (hlt : g < p.fibersCreated) : (p.spawn b r d).status g = p.status g
      ∧ g ∉ (p.spawn b r d).idle ∧ g < (p.spawn b r d).fibersCreated := by
  unfold Pool.spawn
  cases hlast : p.idle.getLast? with
  | some f =>
      have hne : g ≠ f := fun e => hidle (e ▸ List.mem_of_getLast? hlast)
      have hsub := (List.dropLast_sublist p.idle).subset
      exact ⟨Function.update_of_ne hne _ _, fun hg => hidle (hsub hg), hlt⟩
  | none =>
      exact ⟨Function.update_of_ne (Nat.ne_of_lt hlt) _ _, hidle, Nat.lt_succ_of_lt hlt⟩

/-- Whoever has a job keeps it while others get theirs. -/
lemma spawnHandlers_status {p : Pool} (h : p.Places) {r : Option Id} {ids : List Id} {g : FiberId}
    {j : Job} (hj : (p.status g).job? = some j) :
    (p.spawnHandlers r ids).status g = p.status g := by
  have hidle : g ∉ p.idle := by
    intro hmem
    rw [h.status_of_mem_idle hmem] at hj
    exact absurd hj (by simp [Status.job?])
  have hlt := h.lt_of_job? hj
  clear h hj
  induction ids generalizing p with
  | nil => rfl
  | cons id ids ih =>
      obtain ⟨hs, hidle', hlt'⟩ :=
        spawn_elsewhere (b := .handler id) (r := r) (d := some id) hidle hlt
      rw [Pool.spawnHandlers, ih hidle' hlt', hs]

@[simp] lemma finishJob_startBatch (p : Pool) (f : FiberId) (j : Job) (result : Result) :
    (p.finishJob f j result).startBatch = p.startBatch := by
  simp only [Pool.finishJob]
  rw [Pool.forgetChild_eq]
  rfl

@[simp] lemma finishJob_readyBatch (p : Pool) (f : FiberId) (j : Job) (result : Result) :
    (p.finishJob f j result).readyBatch = p.readyBatch := by
  simp only [Pool.finishJob]
  rw [Pool.forgetChild_eq]
  rfl

@[simp] lemma finishJob_todo (p : Pool) (f : FiberId) (j : Job) (result : Result) :
    (p.finishJob f j result).todo = p.todo := by
  simp only [Pool.finishJob]
  rw [Pool.forgetChild_eq]
  rfl

lemma settleJob_tidy {s : State} {f : FiberId} {j : Job} {st : Stage} (ht : Tidy s)
    (hf : s.pool.status f = .running j st) (hserving : (s.pool.status f).serving? = none)
    (result : Result) : Tidy (s.settleJob f j result) := by
  have hp := Pool.inv_finishJob ht.pool hf hserving result
  refine ⟨hp, ht.starting.imp_right ?_, ht.resuming.imp_right ?_, ht.walking.imp_right ?_⟩
  · exact (finishJob_startBatch s.pool f j result).trans
  · exact (finishJob_readyBatch s.pool f j result).trans
  · exact (finishJob_todo s.pool f j result).trans

/-- The requests a release admits have no job yet. -/
lemma Inv.drained_fresh {s : State} (h : Inv s) (id : Id) :
    (((s.admission.releaseSlot id).drainQueue.2).map Prod.fst).Nodup
      ∧ ∀ i ∈ ((s.admission.releaseSlot id).drainQueue.2).map Prod.fst,
          ∀ f j, (s.pool.status f).job? = some j → j.body ≠ .handler i := by
  have hnd := (Admission.inv_releaseSlot h.admission id).toCore.admissions_nodup
  rw [Admission.drainQueue_admissions] at hnd
  obtain ⟨-, hnodup, hdisj⟩ := List.nodup_append.mp hnd
  refine ⟨hnodup, fun i hi f j hj hb => ?_⟩
  exact hdisj i (h.handler_admitted f j i hj hb) i hi rfl

/-- The code that cleans up belongs to no request, so neither do the handlers it admits. -/
lemma Inv.releaseSlot_pool {s : State} {f : FiberId} {j : Job} (h : Inv s)
    (hf : s.pool.status f = .running j .clearing) (id : Id) :
    (s.releaseSlot f id).pool = s.pool.spawnHandlers none
      (((s.admission.releaseSlot id).drainQueue.2).map Prod.fst) := by
  simp only [State.releaseSlot, h.clearing_scope f (by rw [hf]; rfl)]

/-- A release admits requests, and the fiber that does it goes on. -/
lemma Inv.releaseSlot_tidy {s : State} {f : FiberId} {j : Job} (h : Inv s)
    (hf : s.pool.status f = .running j .clearing) (id : Id) :
    Tidy (s.releaseSlot f id) ∧ (s.releaseSlot f id).pool.status f = s.pool.status f := by
  obtain ⟨hnodup, hfresh⟩ := h.drained_fresh id
  have hpool := h.releaseSlot_pool hf id
  refine ⟨h.keep ?_ rfl ?_ ?_ ?_, ?_⟩
  · rw [hpool]
    exact (Pool.spawnHandlers_induction (P := fun _ => True) (fun _ _ _ _ => trivial) h.pool trivial
      hnodup hfresh).1
  · rw [hpool, spawnHandlers_startBatch]
  · rw [hpool, spawnHandlers_readyBatch]
  · rw [hpool, spawnHandlers_todo]
  · rw [hpool]
    exact spawnHandlers_status h.pool.toPlaces (j := j) (by rw [hf]; rfl)

lemma finish_spec {s s' : State} {f : FiberId} {j : Job} {st : Stage} {e : Option Exc} (h : Inv s)
    (hcur : s.current = some (f, j, st)) (hstep : s.finish f j st e = some s') :
    Effect s (.finish e) s' ∧ Tidy s' := by
  obtain ⟨hrun, hf⟩ := current_eq_some_iff.mp hcur
  have hserving : ∀ {j : Job} {st : Stage}, st = .body ∨ st = .clearing →
      (Status.running j st).serving? = none := by
    rintro ⟨_ | _, _, _, _⟩ st (rfl | rfl) <;> simp [Status.serving?]
  cases hb : j.body with
  | user =>
      cases st with
      | body =>
          simp only [State.finish, hb] at hstep
          obtain rfl := Option.some.inj hstep
          refine ⟨.settle hcur hb, settleJob_tidy h.toTidy hf ?_ _⟩
          rw [hf]
          exact hserving (Or.inl rfl)
      | handler | answering | clearing => simp [State.finish, hb] at hstep
  | handler id =>
      cases st with
      | body => simp [State.finish, hb] at hstep
      | handler =>
          simp only [State.finish, hb] at hstep
          obtain rfl := Option.some.inj hstep
          exact ⟨.answer hcur hb, h.keep (Pool.inv_answer h.pool hf) rfl rfl rfl rfl⟩
      | answering =>
          simp only [State.finish, hb] at hstep
          obtain rfl := Option.some.inj hstep
          rw [disarmDeadline_eq]
          exact ⟨.release hcur hb, h.keep (Pool.inv_release h.pool hf hb) rfl rfl rfl rfl⟩
      | clearing =>
          cases e with
          | none =>
              simp only [State.finish, hb] at hstep
              obtain rfl := Option.some.inj hstep
              refine ⟨.slot hcur hb, ?_⟩
              obtain ⟨ht', hstatus⟩ := h.releaseSlot_tidy hf id
              refine settleJob_tidy ht' (hstatus.trans hf) ?_ _
              rw [hstatus, hf]
              exact hserving (Or.inr rfl)
          | some e =>
              simp only [State.finish, hb] at hstep
              obtain rfl := Option.some.inj hstep
              refine ⟨.cleanupThrew hcur hb, ?_⟩
              refine settleJob_tidy
                (s := { s with log := { s.log with cleanupThrew := s.log.cleanupThrew ++ [id] } })
                (h.keep h.pool rfl rfl rfl rfl) hf ?_ _
              rw [hf]
              exact hserving (Or.inr rfl)

/-- The running job suspends. -/
lemma suspend_spec {s : State} {a : Action} {f : FiberId} {j : Job} {st : Stage} {at' : Park}
    {p : Pool} (h : Inv s) (hcur : s.current = some (f, j, st)) (hp : p.Inv)
    (hmoves : Moves s.pool p f (.blocked j st at') none)
    (hstart : p.startBatch = s.pool.startBatch) (hready : p.readyBatch = s.pool.readyBatch)
    (htodo : p.todo = s.pool.todo) : Effect s a (s.withPool p) ∧ Tidy (s.withPool p) :=
  ⟨.suspend hcur htodo hmoves, h.keep hp rfl hstart hready htodo⟩

theorem stepFiber_spec {s s' : State} {a : Action} {f : FiberId} {j : Job} {st : Stage} (h : Inv s)
    (hcur : s.current = some (f, j, st)) (hstep : stepFiber s f j st a = some s') :
    Effect s a s' ∧ Tidy s' := by
  obtain ⟨hrun, hf⟩ := current_eq_some_iff.mp hcur
  cases a with
  | readSuperglobal k =>
      simp only [stepFiber] at hstep
      split at hstep
      · obtain rfl := Option.some.inj hstep
        exact ⟨.refl s _, h.toTidy⟩
      · rename_i o ho
        obtain rfl := Option.some.inj hstep
        exact ⟨.readSuperglobal hcur ho, h.keep h.pool rfl rfl rfl rfl⟩
  | scopeSet n value =>
      obtain rfl := Option.some.inj hstep
      exact ⟨.writeScope hcur, h.keep h.pool rfl rfl rfl rfl⟩
  | scopeGet key =>
      simp only [stepFiber] at hstep
      split at hstep
      · rename_i stored hget
        split_ifs at hstep with hnull
        · obtain rfl := Option.some.inj hstep
          exact ⟨.refl s _, h.toTidy⟩
        · obtain rfl := Option.some.inj hstep
          exact ⟨.readScope hcur hget hnull, h.keep h.pool rfl rfl rfl rfl⟩
      · obtain rfl := Option.some.inj hstep
        exact ⟨.refl s _, h.toTidy⟩
  | scopeClear =>
      obtain rfl := Option.some.inj hstep
      exact ⟨.clearScope hcur, h.keep h.pool rfl rfl rfl rfl⟩
  | deadline op =>
      simp only [stepFiber] at hstep
      split at hstep
      · obtain rfl := Option.some.inj hstep
        exact ⟨.refl s _, h.toTidy⟩
      · rename_i id _
        obtain rfl := Option.some.inj hstep
        rw [disarmDeadline_eq]
        exact ⟨.quiet (.of_eq rfl rfl rfl) (fun _ _ => Iff.rfl),
          h.keep h.pool rfl rfl rfl rfl⟩
  | awaitOp op =>
      obtain rfl := Option.some.inj hstep
      exact suspend_spec h hcur (Pool.inv_parkOn h.pool hf op)
        (.of_update rfl rfl) rfl rfl rfl
  | await fut =>
      simp only [stepFiber] at hstep
      split_ifs at hstep with hfut hopen
      · obtain rfl := Option.some.inj hstep
        exact suspend_spec h hcur (Pool.inv_awaitFuture h.pool hf hfut)
          (.of_update rfl rfl) rfl rfl rfl
      · obtain rfl := Option.some.inj hstep
        have hsame : (s.pool.observe fut).running = s.pool.running
            ∧ (s.pool.observe fut).todo = s.pool.todo
            ∧ (s.pool.observe fut).status = s.pool.status
            ∧ (s.pool.observe fut).startBatch = s.pool.startBatch
            ∧ (s.pool.observe fut).readyBatch = s.pool.readyBatch := by
          unfold Pool.observe
          split <;> exact ⟨rfl, rfl, rfl, rfl, rfl⟩
        obtain ⟨h₁, h₂, h₃, h₄, h₅⟩ := hsame
        exact ⟨.quiet (.of_eq h₁ h₂ h₃) (fun _ _ => Iff.rfl),
          h.keep (Pool.inv_observe h.pool fut) rfl h₄ h₅ h₂⟩
  | park ids =>
      simp only [stepFiber] at hstep
      split_ifs at hstep with hok
      obtain rfl := Option.some.inj hstep
      exact suspend_spec h hcur (Pool.inv_parkInHook h.pool hf hok.1 hok.2)
        (.of_update rfl rfl) rfl rfl rfl
  | finish e => exact finish_spec h hcur hstep
  | async | newFuture | settle _ _ | stop | assign _ _ | run _ | awaitOpFromMain _ | turn _
  | takeReady _ | test _ _ | poll _ | dispatch _ _ | advance =>
      exact stepUser_spec h (Or.inl ⟨f, j, st, hcur, rfl, rfl⟩) hstep

end Loop

end Ignis
