import Ignis.Loop.Reachable

/-!
# Futures, the report and the table of ops

`Effect` follows the jobs and the fibers.  This file follows what a step does to the futures, to
`$unobserved`, and to the tables that say which fiber waits for which op: a future settles, or is
looked at, or is new; an op gains a waiter, or loses one to its completion or to a cancellation; or
the loop ends and the report is emptied (`Change`).  `frame_of_step` says that there is nothing
else, that a deadline is armed by `deadline()` only, and that `{main}` leaves the loop by the end of
`runUntil()` or by the exception of a malformed completion.
-/

namespace Ignis

/-- What `settle()` puts into the report: a rejection nobody waits for. -/
def Pool.unawaited (p : Pool) (fut : FutureId) : Result → Option Exc
  | .rejected e => if (p.futures fut).waiters = [] then some e else none
  | .resolved => none

namespace Loop

/-! ## Which step does what -/

/-- The future a step settles: one of user code, or that of the job that ends. -/
def State.settles (s : State) : Action → Option (FutureId × Result)
  | .settle fut result => some (fut, result)
  | .finish e =>
      match s.current with
      | some (_, j, .body) | some (_, j, .clearing) => some (j.future, State.ended e)
      | _ => none
  | _ => none

/-- The settled future whose outcome a fiber looks at. -/
def State.observes (s : State) : Action → Option FutureId
  | .await fut => if (s.pool.futures fut).result = none then none else some fut
  | _ => none

/-- The completion that is dispatched next does not pass its validation. -/
def State.malformed (s : State) : Bool :=
  match s.pc with
  | .dispatchEvents ((id, .array a) :: _) =>
      !s.pool.waiting.has id && (match dispatchUnawaited a with | .error _ => true | .ok _ => false)
  | _ => false

/-! ## Changes -/

/-- No future settles or is looked at, and the report is as it was. -/
structure SameFutures (p q : Pool) : Prop where
  report : q.unobserved = p.unobserved
  known : p.nextFuture ≤ q.nextFuture
  result : ∀ fut < p.nextFuture, (q.futures fut).result = (p.futures fut).result
  error : ∀ fut < p.nextFuture, (q.futures fut).unobservedError = (p.futures fut).unobservedError

/-- Nobody is entered into the tables of ops. -/
structure SameWaiting (p q : Pool) : Prop where
  waiting : q.waiting = p.waiting
  parkedOn : ∀ f op, q.parkedOn.get? f = some op → p.parkedOn.get? f = some op

lemma SameFutures.of_eq {p q : Pool} (hreport : q.unobserved = p.unobserved)
    (hnext : q.nextFuture = p.nextFuture) (hfutures : q.futures = p.futures) : SameFutures p q :=
  ⟨hreport, hnext.ge, fun fut _ => by rw [hfutures], fun fut _ => by rw [hfutures]⟩

lemma SameFutures.trans {p q r : Pool} (h : SameFutures p q) (h' : SameFutures q r) :
    SameFutures p r where
  report := h'.report.trans h.report
  known := h.known.trans h'.known
  result := fun fut hlt => (h'.result fut (hlt.trans_le h.known)).trans (h.result fut hlt)
  error := fun fut hlt => (h'.error fut (hlt.trans_le h.known)).trans (h.error fut hlt)

lemma SameWaiting.of_eq {p q : Pool} (hwaiting : q.waiting = p.waiting)
    (hparkedOn : q.parkedOn = p.parkedOn) : SameWaiting p q :=
  ⟨hwaiting, fun f op h => by rwa [hparkedOn] at h⟩

/-- A fiber leaves `$parkedOn`. -/
lemma sameWaiting_unset {p q : Pool} {f : FiberId} (hwaiting : q.waiting = p.waiting)
    (hparkedOn : q.parkedOn = p.parkedOn.unset f) : SameWaiting p q := by
  refine ⟨hwaiting, fun g op h => ?_⟩
  rw [hparkedOn, OrdMap.get?_unset] at h
  split_ifs at h
  exact h

/-- What a step does to the futures and to the tables of ops. -/
inductive Change (s : State) (a : Action) (q : Pool) : Prop
  | quiet (hsettles : s.settles a = none) (hobserves : s.observes a = none)
      (hleaves : s.leaves a = false) (hfutures : SameFutures s.pool q)
      (hwaiting : SameWaiting s.pool q)
  | settle {fut result} (hsettles : s.settles a = some (fut, result))
      (hlt : fut < s.pool.nextFuture) (hopen : (s.pool.futures fut).result = none)
      (hreport : q.unobserved = s.pool.unobserved ++ (s.pool.unawaited fut result).toList)
      (hknown : s.pool.nextFuture ≤ q.nextFuture)
      (hself : (q.futures fut).result = some result
        ∧ (q.futures fut).unobservedError = s.pool.unawaited fut result)
      (hother : ∀ g < s.pool.nextFuture, g ≠ fut →
        (q.futures g).result = (s.pool.futures g).result
          ∧ (q.futures g).unobservedError = (s.pool.futures g).unobservedError)
      (hwaiting : SameWaiting s.pool q)
  | observe {fut} (hobserves : s.observes a = some fut) (hq : q = s.pool.observe fut)
  | leave (hleaves : s.leaves a = true) (hq : q = { s.pool with unobserved := [] })
  /-- A completion for which somebody waits is dispatched. -/
  | deliver {op payload rest} (ha : a = .advance)
      (hpc : s.pc = .dispatchEvents ((op, payload) :: rest))
      (hdeadline : s.deadlines.get? op = none) (hfutures : SameFutures s.pool q)
      (hwaiting : SameWaiting { s.pool with waiting := s.pool.waiting.unset op } q)
  /-- `throwInto()` takes a fiber out of the table. -/
  | throw {f op} (ha : a = .advance) (hop : s.pool.parkedOn.get? f = some op)
      (hfutures : SameFutures s.pool q)
      (hwaiting : SameWaiting { s.pool with waiting := s.pool.waiting.unset op } q)
  | park {f op} (ha : a = .awaitOp op) (hfutures : SameFutures s.pool q)
      (hwaiting : SameWaiting { s.pool with
        waiting := s.pool.waiting.set op (.fiber f), parkedOn := s.pool.parkedOn.set f op } q)
  | throwaway {op} (ha : a = .awaitOpFromMain op)
      (hq : q = { s.pool with waiting := s.pool.waiting.set op .throwaway })

/-- Everything this file has to say about a step. -/
structure Frame (s : State) (a : Action) (s' : State) : Prop where
  change : Change s a s'.pool
  pc : a.ofMain = true ∨ s'.pc = s.pc
  deadlines : ∀ op id, s'.deadlines.get? op = some id →
    s.deadlines.get? op = some id ∨ a = .deadline op
  /-- `{main}` is outside the loop: it was, or the loop ends, or an exception leaves it. -/
  script : s'.pc = .script → s.pc = .script ∨ s.leaves a = true ∨ s.malformed = true

/-- A step that does not move `{main}`. -/
lemma Frame.of_pc {s s' : State} {a : Action} (hchange : Change s a s'.pool)
    (hdeadlines : ∀ op id, s'.deadlines.get? op = some id →
      s.deadlines.get? op = some id ∨ a = .deadline op) (hpc : s'.pc = s.pc) : Frame s a s' :=
  ⟨hchange, .inr hpc, hdeadlines, fun h => .inl (hpc ▸ h)⟩

lemma Frame.of_change {s s' : State} {a : Action} (hchange : Change s a s'.pool)
    (hdeadlines : s'.deadlines = s.deadlines) (hpc : s'.pc = s.pc) : Frame s a s' :=
  .of_pc hchange (fun _ _ h => .inl (hdeadlines ▸ h)) hpc

/-! ## The pool -/

/-- New futures leave the old ones alone. -/
lemma sameFutures_fresh {p q : Pool} {ofJob : Bool} (hreport : q.unobserved = p.unobserved)
    (hnext : q.nextFuture = p.nextFuture + 1)
    (hfutures : q.futures = Function.update p.futures p.nextFuture (.fresh ofJob)) :
    SameFutures p q := by
  have hold : ∀ fut < p.nextFuture, q.futures fut = p.futures fut := by
    intro fut hlt
    rw [hfutures, Function.update_of_ne (Nat.ne_of_lt hlt)]
  exact ⟨hreport, hnext ▸ Nat.le_succ _, fun fut hlt => by rw [hold fut hlt],
    fun fut hlt => by rw [hold fut hlt]⟩

lemma sameFutures_spawn (p : Pool) (b : Body) (r d : Option Id) :
    SameFutures p (p.spawn b r d) := by
  unfold Pool.spawn
  cases p.idle.getLast? <;> exact sameFutures_fresh rfl rfl rfl

lemma sameWaiting_spawn (p : Pool) (b : Body) (r d : Option Id) :
    SameWaiting p (p.spawn b r d) := by
  unfold Pool.spawn
  cases p.idle.getLast? <;> exact .of_eq rfl rfl

lemma SameWaiting.trans {p q r : Pool} (h : SameWaiting p q) (h' : SameWaiting q r) :
    SameWaiting p r where
  waiting := h'.waiting.trans h.waiting
  parkedOn := fun f op hop => h.parkedOn f op (h'.parkedOn f op hop)

lemma same_spawnHandlers (p : Pool) (r : Option Id) (ids : List Id) :
    SameFutures p (p.spawnHandlers r ids) ∧ SameWaiting p (p.spawnHandlers r ids) := by
  induction ids generalizing p with
  | nil => exact ⟨.of_eq rfl rfl rfl, .of_eq rfl rfl⟩
  | cons id ids ih =>
      obtain ⟨hfutures, hwaiting⟩ := ih (p.spawn (.handler id) r (some id))
      exact ⟨(sameFutures_spawn p _ _ _).trans hfutures, (sameWaiting_spawn p _ _ _).trans hwaiting⟩

lemma sameFutures_awaitFuture (p : Pool) (f : FiberId) (j : Job) (st : Stage) (fut : FutureId) :
    SameFutures p (p.awaitFuture f j st fut) := by
  have hold : ∀ g, ((p.awaitFuture f j st fut).futures g).result = (p.futures g).result
      ∧ ((p.awaitFuture f j st fut).futures g).unobservedError
        = (p.futures g).unobservedError := by
    intro g
    by_cases hg : g = fut
    · subst hg
      simp [Pool.awaitFuture]
    · simp [Pool.awaitFuture, Function.update_of_ne hg]
  exact ⟨rfl, le_refl _, fun g _ => (hold g).1, fun g _ => (hold g).2⟩

lemma settle_unobserved (p : Pool) (fut : FutureId) (result : Result) :
    (p.settle fut result).unobserved = p.unobserved ++ (p.unawaited fut result).toList := by
  cases result <;> rfl

lemma settle_futures_self (p : Pool) (fut : FutureId) (result : Result) :
    ((p.settle fut result).futures fut).result = some result
      ∧ ((p.settle fut result).futures fut).unobservedError = p.unawaited fut result := by
  cases result <;> simp [Pool.settle, Pool.unawaited]

lemma settle_futures_of_ne (p : Pool) {fut g : FutureId} (hne : g ≠ fut) (result : Result) :
    (p.settle fut result).futures g = p.futures g := by
  simp [Pool.settle, Function.update_of_ne hne]

/-- A future settles in a pool in which nothing else happens to the futures. -/
lemma change_settle {s : State} {a : Action} {fut : FutureId} {result : Result} {p q : Pool}
    (hsettles : s.settles a = some (fut, result)) (hlt : fut < s.pool.nextFuture)
    (hopen : (s.pool.futures fut).result = none) (hp : SameFutures s.pool p)
    (hunawaited : p.unawaited fut result = s.pool.unawaited fut result)
    (hpwaiting : SameWaiting s.pool p) (hreport : q.unobserved = (p.settle fut result).unobserved)
    (hnext : q.nextFuture = p.nextFuture) (hfutures : q.futures = (p.settle fut result).futures)
    (hwaiting : SameWaiting p q) : Change s a q := by
  refine .settle hsettles hlt hopen ?_ (hnext ▸ hp.known) ⟨?_, ?_⟩ (fun g hg hne => ?_)
    (hpwaiting.trans hwaiting)
  · rw [hreport, settle_unobserved, hp.report, hunawaited]
  · rw [hfutures, (settle_futures_self p fut result).1]
  · rw [hfutures, (settle_futures_self p fut result).2, hunawaited]
  · rw [hfutures, settle_futures_of_ne p hne, hp.result g hg, hp.error g hg]
    exact ⟨rfl, rfl⟩

/-- The job of a fiber ends. -/
lemma change_finishJob {s : State} {a : Action} {f : FiberId} {j : Job} {result : Result}
    {p : Pool} (hsettles : s.settles a = some (j.future, result))
    (hlt : j.future < s.pool.nextFuture) (hopen : (s.pool.futures j.future).result = none)
    (hp : SameFutures s.pool p)
    (hunawaited : p.unawaited j.future result = s.pool.unawaited j.future result)
    (hpwaiting : SameWaiting s.pool p) : Change s a (p.finishJob f j result) := by
  simp only [Pool.finishJob]
  rw [Pool.forgetChild_eq]
  exact change_settle hsettles hlt hopen hp hunawaited hpwaiting rfl rfl rfl (.of_eq rfl rfl)

/-! ## User code -/

lemma deadlines_disarm {s : State} {id op i : Id}
    (h : (s.disarmDeadline id).deadlines.get? op = some i) : s.deadlines.get? op = some i := by
  unfold State.disarmDeadline at h
  split at h
  · exact h
  · simp only [OrdMap.get?_unset] at h
    split_ifs at h
    exact h

lemma change_quiet {s : State} {a : Action} (hsettles : s.settles a = none)
    (hobserves : s.observes a = none) (hleaves : s.leaves a = false) : Change s a s.pool :=
  .quiet hsettles hobserves hleaves (.of_eq rfl rfl rfl) (.of_eq rfl rfl)

lemma stepUser_frame {s s' : State} {a : Action} {requestId descends : Option Id}
    (hstep : stepUser s requestId descends a = some s') : Frame s a s' := by
  cases a with
  | async =>
      obtain rfl := Option.some.inj hstep
      exact .of_change (.quiet rfl rfl rfl (sameFutures_spawn _ _ _ _) (sameWaiting_spawn _ _ _ _))
        rfl rfl
  | newFuture =>
      obtain rfl := Option.some.inj hstep
      exact .of_change (.quiet rfl rfl rfl (sameFutures_fresh rfl rfl rfl) (.of_eq rfl rfl)) rfl rfl
  | settle fut result =>
      simp only [stepUser] at hstep
      split_ifs at hstep with hok
      obtain rfl := Option.some.inj hstep
      exact .of_change (change_settle (p := s.pool) rfl hok.1 hok.2.2 (.of_eq rfl rfl rfl) rfl
        (.of_eq rfl rfl) rfl rfl rfl (.of_eq rfl rfl)) rfl rfl
  | stop | assign k n =>
      obtain rfl := Option.some.inj hstep
      exact .of_change (change_quiet rfl rfl rfl) rfl rfl
  | _ => simp [stepUser] at hstep

lemma finish_frame {s s' : State} {f : FiberId} {j : Job} {st : Stage} {e : Option Exc} (h : Inv s)
    (hcur : s.current = some (f, j, st)) (hstep : s.finish f j st e = some s') :
    Frame s (.finish e) s' := by
  obtain ⟨-, hf⟩ := current_eq_some_iff.mp hcur
  obtain ⟨hlt, hopen, -⟩ := h.pool.future_open f j (by rw [hf]; rfl)
  cases hb : j.body with
  | user =>
      cases st with
      | body =>
          simp only [State.finish, hb] at hstep
          obtain rfl := Option.some.inj hstep
          exact .of_change (change_finishJob (by simp [State.settles, hcur]) hlt hopen
            (.of_eq rfl rfl rfl) rfl (.of_eq rfl rfl)) rfl rfl
      | handler | answering | clearing => simp [State.finish, hb] at hstep
  | handler id =>
      cases st with
      | body => simp [State.finish, hb] at hstep
      | handler =>
          simp only [State.finish, hb] at hstep
          obtain rfl := Option.some.inj hstep
          exact .of_change (.quiet (by simp [State.settles, hcur]) rfl rfl (.of_eq rfl rfl rfl)
            (.of_eq rfl rfl)) rfl rfl
      | answering =>
          simp only [State.finish, hb] at hstep
          obtain rfl := Option.some.inj hstep
          refine .of_pc (.quiet (by simp [State.settles, hcur]) rfl rfl ?_ ?_)
            (fun op i hi => .inl (deadlines_disarm hi)) ?_
          · rw [disarmDeadline_eq]
            exact .of_eq rfl rfl rfl
          · rw [disarmDeadline_eq]
            exact .of_eq rfl rfl
          · rw [disarmDeadline_eq]
            rfl
      | clearing =>
          cases e with
          | none =>
              simp only [State.finish, hb] at hstep
              obtain rfl := Option.some.inj hstep
              obtain ⟨hfutures, hwaiting⟩ := same_spawnHandlers s.pool (s.currentRequestId f)
                (((s.admission.releaseSlot id).drainQueue.2).map Prod.fst)
              exact .of_change (change_finishJob (by simp [State.settles, hcur, State.ended]) hlt
                hopen hfutures rfl hwaiting) rfl rfl
          | some e =>
              simp only [State.finish, hb] at hstep
              obtain rfl := Option.some.inj hstep
              exact .of_change (change_finishJob (by simp [State.settles, hcur, State.ended]) hlt
                hopen (.of_eq rfl rfl rfl) rfl (.of_eq rfl rfl)) rfl rfl

lemma deadline_frame {s s' : State} {f : FiberId} {j : Job} {st : Stage} {op : Id}
    (hstep : stepFiber s f j st (.deadline op) = some s') : Frame s (.deadline op) s' := by
  simp only [stepFiber] at hstep
  split at hstep
  · obtain rfl := Option.some.inj hstep
    exact .of_change (change_quiet rfl rfl rfl) rfl rfl
  · rename_i id _
    obtain rfl := Option.some.inj hstep
    have hpool : (s.disarmDeadline id).pool = s.pool := by rw [disarmDeadline_eq]
    have hpc : (s.disarmDeadline id).pc = s.pc := by rw [disarmDeadline_eq]
    refine .of_pc ?_ (fun op' i hi => ?_) hpc
    · simp only [hpool]
      exact change_quiet rfl rfl rfl
    · by_cases hop : op' = op
      · exact .inr (by rw [hop])
      · simp only [OrdMap.get?_set, hop, if_false] at hi
        exact .inl (deadlines_disarm hi)

lemma stepFiber_frame {s s' : State} {a : Action} {f : FiberId} {j : Job} {st : Stage} (h : Inv s)
    (hcur : s.current = some (f, j, st)) (hstep : stepFiber s f j st a = some s') :
    Frame s a s' := by
  cases a with
  | readSuperglobal k =>
      simp only [stepFiber] at hstep
      split at hstep <;> obtain rfl := Option.some.inj hstep <;>
        exact .of_change (change_quiet rfl rfl rfl) rfl rfl
  | scopeSet n value | scopeClear =>
      obtain rfl := Option.some.inj hstep
      exact .of_change (change_quiet rfl rfl rfl) rfl rfl
  | scopeGet key =>
      simp only [stepFiber] at hstep
      split at hstep
      · split_ifs at hstep <;> obtain rfl := Option.some.inj hstep <;>
          exact .of_change (change_quiet rfl rfl rfl) rfl rfl
      · obtain rfl := Option.some.inj hstep
        exact .of_change (change_quiet rfl rfl rfl) rfl rfl
  | deadline op => exact deadline_frame hstep
  | awaitOp op =>
      obtain rfl := Option.some.inj hstep
      exact .of_change (.park (f := f) rfl (.of_eq rfl rfl rfl) (.of_eq rfl rfl)) rfl rfl
  | await fut =>
      simp only [stepFiber] at hstep
      split_ifs at hstep with hfut hopen
      · obtain rfl := Option.some.inj hstep
        exact .of_change (.quiet rfl (by simp [State.observes, hopen]) rfl
          (sameFutures_awaitFuture _ _ _ _ _) (.of_eq rfl rfl)) rfl rfl
      · obtain rfl := Option.some.inj hstep
        exact .of_change (.observe (by simp [State.observes, hopen]) rfl) rfl rfl
  | park ids =>
      simp only [stepFiber] at hstep
      split_ifs at hstep
      obtain rfl := Option.some.inj hstep
      exact .of_change (.quiet rfl rfl rfl (.of_eq rfl rfl rfl) (.of_eq rfl rfl)) rfl rfl
  | finish e => exact finish_frame h hcur hstep
  | async | newFuture | settle _ _ | stop | assign _ _ | run _ | awaitOpFromMain _ | turn _
  | takeReady _ | test _ _ | poll _ | dispatch _ _ | advance =>
      exact @stepUser_frame s s' _ (s.currentRequestId f) j.descends hstep

/-! ## `{main}` -/

/-- A step of `advance()` that settles nothing and loses no waiter. -/
lemma frame_advance {s s' : State} (hfutures : SameFutures s.pool s'.pool)
    (hwaiting : SameWaiting s.pool s'.pool)
    (hdeadlines : ∀ op id, s'.deadlines.get? op = some id → s.deadlines.get? op = some id)
    (hscript : s'.pc = .script → s.pc = .script ∨ s.malformed = true) : Frame s .advance s' where
  change := .quiet rfl rfl rfl hfutures hwaiting
  pc := .inl rfl
  deadlines := fun op id h => .inl (hdeadlines op id h)
  script := fun h => (hscript h).imp_right .inr

/-- A job starts. -/
lemma frame_startJob {s : State} {p : Pool} {f : FiberId} {j : Job}
    (hfutures : SameFutures s.pool p) (hwaiting : SameWaiting s.pool p) :
    Frame s .advance ((s.withPool p).startJob f j) := by
  refine frame_advance ?_ ?_ (fun op id h => ?_) fun h => .inl ?_
  · rw [startJob_pool]
    exact hfutures
  · rw [startJob_pool]
    exact hwaiting
  · rwa [(startJob_deadlines _ f j).1] at h
  · rwa [startJob_pc] at h

lemma starting_frame {s s' : State} (h : Inv s) (hmain : s.pool.running = none)
    (hpc : s.pc = .startPending) (hstep : s.advance = some s') : Frame s .advance s' := by
  have htodo := h.todo_nil (by simp [hpc])
  simp only [State.advance, hpc] at hstep
  cases hbatch : s.pool.startBatch with
  | nil =>
      simp only [hbatch] at hstep
      split_ifs at hstep <;> obtain rfl := Option.some.inj hstep
      · exact frame_advance (.of_eq rfl rfl rfl) (.of_eq rfl rfl) (fun _ _ h => h) (by simp)
      · exact frame_advance (.of_eq rfl rfl rfl) (.of_eq rfl rfl) (fun _ _ h => h) (by simp [hpc])
  | cons e rest =>
      obtain ⟨-, hp, -⟩ := Pool.startNext_eq h.pool hmain htodo hbatch
      simp only [hbatch, hp] at hstep
      obtain rfl := Option.some.inj hstep
      exact frame_startJob (.of_eq rfl rfl rfl) (.of_eq rfl rfl)

lemma resuming_frame {s s' : State} (h : Inv s) (hmain : s.pool.running = none)
    (hpc : s.pc = .resumeReady) (hstep : s.advance = some s') : Frame s .advance s' := by
  have htodo := h.todo_nil (by simp [hpc])
  simp only [State.advance, hpc] at hstep
  cases hbatch : s.pool.readyBatch with
  | nil =>
      simp only [hbatch] at hstep
      split_ifs at hstep
      obtain rfl := Option.some.inj hstep
      exact frame_advance (.of_eq rfl rfl rfl) (.of_eq rfl rfl) (fun _ _ h => h) (by simp)
  | cons e rest =>
      obtain ⟨f, j | _⟩ := e
      · obtain ⟨-, hp, -⟩ := Pool.resumeNext_job_eq h.pool hmain htodo hbatch
        simp only [hbatch, hp] at hstep
        obtain rfl := Option.some.inj hstep
        exact frame_startJob (.of_eq rfl rfl rfl) (.of_eq rfl rfl)
      · obtain ⟨j, st, fut, -, hp, -⟩ := Pool.resumeNext_wake_eq h.pool hmain htodo hbatch
        simp only [hbatch, hp] at hstep
        obtain rfl := Option.some.inj hstep
        exact frame_advance (.of_eq rfl rfl rfl) (.of_eq rfl rfl) (fun _ _ h => h) fun h => .inl h

lemma collecting_frame {s s' : State} {done : List (Completion × ℤ)} {events : OrdMap Id Payload}
    (h : Inv s) (hmain : s.pool.running = none) (hpc : s.pc = .collecting done events)
    (hstep : s.advance = some s') : Frame s .advance s' := by
  obtain ⟨-, -, htodo⟩ := h.locals_nil (by simp [hpc, Pc.plain])
  cases done with
  | nil => simp [State.advance, hpc] at hstep
  | cons d done =>
      obtain ⟨c, ageUs⟩ := d
      simp only [State.advance, hpc] at hstep
      obtain rfl := Option.some.inj hstep
      unfold State.collect
      split_ifs with hparked
      · obtain ⟨f, hget⟩ := OrdMap.has_iff.mp (Bool.and_eq_true_iff.mp hparked).2
        obtain ⟨j, st, ids, -, hp, -⟩ := Pool.resumeParked_eq h.pool hmain htodo hget
        rw [hp]
        exact frame_advance (.of_eq rfl rfl rfl) (.of_eq rfl rfl) (fun _ _ h => h)
          (fun h => by simp [State.withPool] at h)
      · cases State.pollPayload ageUs c.outcome with
        | none | some payload =>
            exact frame_advance (.of_eq rfl rfl rfl) (.of_eq rfl rfl) (fun _ _ h => h) (by simp)

lemma awaited_frame {s : State} {id : Id} {payload : Payload} {rest : List (Id × Payload)}
    (h : Inv s) (hmain : s.pool.running = none)
    (hpc : s.pc = .dispatchEvents ((id, payload) :: rest)) :
    Frame s .advance ({ s with pc := .dispatchEvents rest }.dispatchAwaited id rest) := by
  obtain ⟨-, -, htodo⟩ := h.locals_nil (by simp [hpc, Pc.plain])
  unfold State.dispatchAwaited
  cases hd : s.deadlines.get? id with
  | some requestId =>
      refine frame_advance (.of_eq rfl rfl rfl) (.of_eq rfl rfl) (fun op i hi => ?_)
        (by simp [State.cancelRequest])
      simp only [State.cancelRequest, OrdMap.get?_unset] at hi
      split_ifs at hi
      exact hi
  | none =>
      cases hw : s.pool.waiting.get? id with
      | none =>
          exact frame_advance (.of_eq rfl rfl rfl) (.of_eq rfl rfl) (fun _ _ h => h) (by simp)
      | some w =>
          cases w with
          | throwaway =>
              have hp : s.pool.resumeOp id
                  = some { s.pool with waiting := s.pool.waiting.unset id } := by
                simp [Pool.resumeOp, hw]
              simp only [hp]
              exact ⟨.deliver rfl hpc hd (.of_eq rfl rfl rfl) (.of_eq rfl rfl), .inl rfl,
                fun _ _ h => .inl h, by simp [State.withPool]⟩
          | fiber f =>
              obtain ⟨j, st, -, hp, -⟩ := Pool.resumeOp_eq h.pool hmain htodo hw
              simp only [hp]
              exact ⟨.deliver rfl hpc hd (.of_eq rfl rfl rfl) (sameWaiting_unset rfl rfl), .inl rfl,
                fun _ _ h => .inl h, by simp [State.withPool]⟩

lemma request_frame {s s' : State} {id : Id} {raw : IgnisRequest} {rest : List (Id × Payload)}
    (hstep : { s with pc := .dispatchEvents rest }.dispatchRequest id raw = some s') :
    Frame s .advance s' := by
  simp only [State.dispatchRequest] at hstep
  split_ifs at hstep <;> obtain rfl := Option.some.inj hstep
  · exact frame_advance (.of_eq rfl rfl rfl) (.of_eq rfl rfl) (fun _ _ h => h) (by simp)
  · exact frame_advance (sameFutures_spawn _ _ _ _) (sameWaiting_spawn _ _ _ _) (fun _ _ h => h)
      (by simp)

lemma dispatching_frame {s s' : State} {events : List (Id × Payload)} (h : Inv s)
    (hmain : s.pool.running = none) (hpc : s.pc = .dispatchEvents events)
    (hstep : s.advance = some s') : Frame s .advance s' := by
  cases events with
  | nil =>
      simp only [State.advance, hpc] at hstep
      obtain rfl := Option.some.inj hstep
      exact frame_advance (.of_eq rfl rfl rfl) (.of_eq rfl rfl) (fun _ _ h => h) (by simp)
  | cons e rest =>
      obtain ⟨id, payload⟩ := e
      simp only [State.advance, hpc] at hstep
      cases eventStep_of_dispatchEvent hstep with
      | awaited => exact awaited_frame h hmain hpc
      | malformed hw hu =>
          have hmalformed : s.malformed = true := by simp [State.malformed, hpc, hw, hu]
          exact frame_advance (.of_eq rfl rfl rfl) (.of_eq rfl rfl) (fun _ _ h => h)
            (fun _ => .inr hmalformed)
      | ignored =>
          exact frame_advance (.of_eq rfl rfl rfl) (.of_eq rfl rfl) (fun _ _ h => h) (by simp)
      | cancel =>
          exact frame_advance (.of_eq rfl rfl rfl) (.of_eq rfl rfl) (fun _ _ h => h)
            (by simp [State.cancelRequest])
      | request hrequest => exact request_frame hrequest

lemma cancelling_frame {s s' : State} {id : Id} {rest : List (Id × Payload)} (h : Inv s)
    (hpc : s.pc = .cancelRequest id rest) (hstep : s.advance = some s') : Frame s .advance s' := by
  simp only [State.advance, hpc] at hstep
  obtain rfl := Option.some.inj hstep
  unfold State.cancelNext
  cases htodo : s.pool.todo with
  | nil =>
      exact frame_advance (.of_eq rfl rfl rfl) (.of_eq rfl rfl) (fun _ _ h => h) (by simp)
  | cons f todo =>
      have hnd := h.pool.todo_nodup
      rw [htodo, List.nodup_cons] at hnd
      have hp : Pool.Inv { s.pool with todo := todo } := h.pool.withTodo hnd.2 fun g hg =>
        h.pool.todo_waits g (htodo ▸ List.mem_cons_of_mem _ hg)
      rcases Pool.throwInto_cases hp.toParks f with
        ⟨j, st, op, hf, he⟩ | ⟨j, st, ids, hf, he⟩ | ⟨hf, he⟩
      · have hop : s.pool.parkedOn.get? f = some op := by
          rw [h.pool.parkedOn_iff, show s.pool.status f = _ from hf]
          rfl
        simp only [he]
        exact ⟨.throw rfl hop (.of_eq rfl rfl rfl) (sameWaiting_unset rfl rfl), .inl rfl,
          fun _ _ h => .inl h, by simp [State.withPool, hpc]⟩
      · simp only [he]
        exact frame_advance (.of_eq rfl rfl rfl) (.of_eq rfl rfl) (fun _ _ h => h)
          (by simp [State.withPool, hpc])
      · simp only [he]
        exact frame_advance (.of_eq rfl rfl rfl) (.of_eq rfl rfl) (fun _ _ h => h)
          (by simp [State.withPool, hpc])

lemma ofMain_of_leaves {s : State} {a : Action} (h : s.leaves a = true) : a.ofMain = true := by
  cases a <;> first | rfl | simp [State.leaves] at h

/-- The loop ends. -/
lemma leave_frame {s : State} {a : Action} {stopping : Bool} (hleaves : s.leaves a = true) :
    Frame s a { s with stopping := stopping }.leave where
  change := .leave hleaves rfl
  pc := .inl (ofMain_of_leaves hleaves)
  deadlines := fun _ _ h => .inl h
  script := fun _ => .inr (.inl hleaves)

lemma advance_frame {s s' : State} (h : Inv s) (hmain : s.pool.running = none)
    (hstep : s.advance = some s') : Frame s .advance s' := by
  cases hpc : s.pc with
  | startPending => exact starting_frame h hmain hpc hstep
  | resumeReady => exact resuming_frame h hmain hpc hstep
  | collecting done events => exact collecting_frame h hmain hpc hstep
  | dispatchEvents events => exact dispatching_frame h hmain hpc hstep
  | cancelRequest id rest => exact cancelling_frame h hpc hstep
  | script | turn | testing | polling => simp [State.advance, hpc] at hstep

lemma stepMain_frame {s s' : State} {a : Action} (h : Inv s) (hmain : s.pool.running = none)
    (hstep : stepMain s a = some s') : Frame s a s' := by
  rcases stepMain_cases hstep with hstep | ⟨-, huser⟩
  · cases hstep with
    | run | goesOn | poll =>
        exact ⟨change_quiet rfl rfl rfl, .inl rfl, fun _ _ h => .inl h, by simp⟩
    | awaitOpFromMain => exact ⟨.throwaway rfl rfl, .inl rfl, fun _ _ h => .inl h, by simp⟩
    | takeReady =>
        exact .of_change (.quiet rfl rfl rfl (.of_eq rfl rfl rfl) (.of_eq rfl rfl)) rfl rfl
    | again _ hpending =>
        exact ⟨change_quiet rfl rfl (by simp [State.leaves, hpending]), .inl rfl,
          fun _ _ h => .inl h, by simp⟩
    | waits _ hstays | dispatch _ hstays =>
        exact ⟨change_quiet rfl rfl hstays, .inl rfl, fun _ _ h => .inl h, by simp⟩
    | stops => exact @leave_frame s _ s.stopping rfl
    | endsPolled _ hleaves => exact @leave_frame s _ s.stopping hleaves
    | ends _ hleaves => exact leave_frame hleaves
    | advance hadvance => exact advance_frame h hmain hadvance
  · exact @stepUser_frame s s' _ none none huser

/-- **What a step does to the futures and the tables of ops.** -/
theorem frame_of_step {s s' : State} {a : Action} (h : Inv s) (hstep : step s a = some s') :
    Frame s a s' := by
  rcases step_cases hstep with ⟨f, j, st, hcur, hfiber⟩ | ⟨hmain, hstep⟩
  · exact stepFiber_frame h hcur hfiber
  · exact stepMain_frame h hmain hstep

end Loop

end Ignis
