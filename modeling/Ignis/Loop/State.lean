import Ignis.Lib.StepSystem
import Ignis.Loop.Admission
import Ignis.Loop.Pool
import Ignis.Reactor.Dispatcher
import Ignis.Superglobals

/-!
# The loop

`Ignis\Loop`, driven from `{main}` and serving through `admitRequest()`, as one machine.  `{main}`
is the program of `runUntil()` with a program counter; a fiber runs when `{main}` switches to it and
gives the thread back when it suspends, so at any moment one of them runs.  What user code does
while it runs is not known: it is any sequence of the calls it can make, and each of them is an
action.  Everything the runtime answers (the completions of a poll, `ignis_inflight()`, the shuffles
of the chaos mode) is a parameter of an action too.  A run of the loop is then a list of actions,
and `step` says what each of them does.

Left out are what no decision of the loop reads (phase times, published stats, the collector, the
watched files), the answers to clients, and the classic mode, which hands requests to its caller.
User code does not write the key `ignis.request` itself, does not settle the future of a job, and
drives no fibers of its own.
-/

namespace Ignis

/-! ## Fiber-scoped values -/

/-- The keys of a scope: the two the runtime uses, and those of user code. -/
inductive ScopeKey where
  | request
  | body
  | user (n : ℕ)
  deriving DecidableEq, Repr

/-- The values of a scope. -/
inductive ScopeValue where
  | null
  | request (id : Id)
  | body (id : Id)
  | user (n : ℕ)
  deriving DecidableEq, Repr

/-- A value in a scope.  `writer` is ghost: the job that stored it. -/
structure Stored where
  value : ScopeValue
  writer : Job
  deriving DecidableEq, Repr

/-- The bag `Scope::$map` keeps for a fiber. -/
abbrev Bag := OrdMap ScopeKey Stored

/-- Where the array in a superglobal comes from: it was there when the thread started, installed
for a request, or written by user code. -/
inductive Origin where
  | startup
  | installed (id : Id)
  | assigned (n : ℕ)
  deriving DecidableEq, Repr

namespace Loop

/-! ## State -/

/-- Where `{main}` is. -/
inductive Pc where
  /-- Outside the loop. -/
  | script
  /-- The `while` of `runUntil()`. -/
  | turn
  | startPending
  | resumeReady
  /-- The tests between `resumeReady()` and the poll. -/
  | testing
  | polling
  /-- Inside `ignis_poll()`: what is left of the batch, and the array built so far. -/
  | collecting (done : List (Completion × ℤ)) (events : OrdMap Id Payload)
  | dispatchEvents (events : List (Id × Payload))
  /-- `cancelRequest()`; the fibers it has yet to visit are `Pool.todo`. -/
  | cancelRequest (requestId : Id) (rest : List (Id × Payload))

/-- An exception that `cancelRequest()` delivered. -/
structure Delivery where
  call : ℕ
  requestId : Id
  job : Job
  deriving DecidableEq, Repr

/-- Ghost: what happened, oldest first. -/
structure Log where
  /-- Requests that got as far as `enterRequest()`. -/
  entered : List Id
  /-- Requests whose handler has ended. -/
  completed : List Id
  /-- Requests that were cancelled after they arrived and before they entered. -/
  cancelledEarly : List Id
  deliveries : List Delivery
  /-- Jobs whose future has settled. -/
  settled : List Job
  /-- Requests whose `releaseRequest()` got past `drainQueue()`. -/
  drained : List Id
  /-- Requests whose `Scope::clear()` threw. -/
  cleanupThrew : List Id
  /-- What `Scope::get()` found, and the job that asked. -/
  scopeReads : List (Job × Stored)
  /-- The jobs started, each with the `ignis.request` its callable starts with. -/
  starts : List (Job × Option Id)
  /-- What was found in a superglobal, and the job that looked. -/
  superglobalReads : List (Job × Origin)

structure State where
  pool : Pool
  admission : Admission
  scopes : FiberId → Bag
  superglobals : Superglobals Origin
  deadlines : OrdMap Id Id
  deadlineOf : OrdMap Id Id
  /-- `$cancelled`: the calls of `cancelRequest()` that have returned. -/
  cancelled : ℕ
  pc : Pc
  /-- `Chaos::$on`. -/
  chaos : Bool
  /-- `$requestHandler !== null`. -/
  serving : Bool
  stopping : Bool
  /-- Ghost: the calls of `cancelRequest()` so far. -/
  calls : ℕ
  log : Log

/-- A worker thread before its script calls the loop. -/
def boot (fiberBudget queueDepth : ℤ) (budgetExempt : List PhpString) (chaos : Bool)
    (symbols : Superglobal → Bool) : State where
  pool := .init
  admission := .boot fiberBudget queueDepth budgetExempt
  scopes := fun _ => ∅
  superglobals := .init fun k => if symbols k then some .startup else none
  deadlines := ∅
  deadlineOf := ∅
  cancelled := 0
  pc := .script
  chaos := chaos
  serving := false
  stopping := false
  calls := 0
  log := ⟨[], [], [], [], [], [], [], [], [], []⟩

/-! ## Pieces -/

namespace State

/-- The job that runs now. -/
def current (s : State) : Option (FiberId × Job × Stage) :=
  match s.pool.running with
  | none => none
  | some f =>
      match s.pool.status f with
      | .running j st => some (f, j, st)
      | _ => none

/-- User code of `{main}`: the script itself, or a destructor the collector runs before a poll. -/
def mainCode (s : State) : Bool :=
  s.pool.running.isNone && (match s.pc with | .script | .polling => true | _ => false)

/-- A change of the pool.  When another fiber runs after it, PHP has switched contexts. -/
def withPool (s : State) (p : Pool) : State :=
  { s with
    pool := p
    superglobals :=
      if p.running = s.pool.running then s.superglobals else s.superglobals.onSwitch p.running }

/-- `currentRequestId()` on fiber `f`. -/
def currentRequestId (s : State) (f : FiberId) : Option Id :=
  match (s.scopes f).get? .request with
  | some ⟨.request id, _⟩ => some id
  | _ => none

/-- `Scope::set()` by the job on fiber `f`. -/
def scopeSet (s : State) (f : FiberId) (j : Job) (key : ScopeKey) (value : ScopeValue) : State :=
  { s with scopes := Function.update s.scopes f ((s.scopes f).set key ⟨value, j⟩) }

/-- `Scope::clear()` on fiber `f`; what the destructors do comes after it. -/
def scopeClear (s : State) (f : FiberId) : State :=
  { s with scopes := Function.update s.scopes f ∅ }

/-- An exception leaves `runUntil()`: its `finally` runs, and the locals of the frames are gone. -/
def unwind (s : State) : State :=
  { s with
    pool := { s.pool with startBatch := [], readyBatch := [], todo := [] }
    pc := .script }

/-- The loop ends; `reportUnobserved()` empties the report. -/
def leave (s : State) : State :=
  { s with pool := { s.pool with unobserved := [] }, pc := .script }

/-- `disarmDeadline`. -/
def disarmDeadline (s : State) (requestId : Id) : State :=
  match s.deadlineOf.get? requestId with
  | none => s
  | some op =>
      { s with
        deadlineOf := s.deadlineOf.unset requestId
        deadlines := s.deadlines.unset op }

/-- `attributedToRequest`: the first thing a job with a request does. -/
def attributedToRequest (s : State) (f : FiberId) (j : Job) : State :=
  match j.requestId with
  | none => s
  | some id => s.scopeSet f j .request (.request id)

/-- `enterRequest`, less the mapping of the fiber. -/
def enterRequest (s : State) (f : FiberId) (j : Job) (id : Id) : State :=
  let s := (s.scopeSet f j .request (.request id)).scopeSet f j .body (.body id)
  { s with
    superglobals := s.superglobals.setSuperglobals (some f) fun _ => some (.installed id)
    log := { s.log with entered := s.log.entered ++ [id] } }

/-- The callable of `j` is called on `f`; the pool already says so. -/
def startJob (s : State) (f : FiberId) (j : Job) : State :=
  let s := s.attributedToRequest f j
  let s := { s with log := { s.log with starts := s.log.starts ++ [(j, s.currentRequestId f)] } }
  match j.body with
  | .handler id => s.enterRequest f j id
  | .user => s

/-- `isIdle`. -/
def isIdle (s : State) (inflight : ℕ) : Bool :=
  s.pool.waiting.entries.isEmpty && !s.serving && s.pool.ready.isEmpty && s.pool.pending.isEmpty
    && inflight == 0

/-- `windingDown`, less the call that leaves the dispatch. -/
def windingDown (s : State) (inflight : ℕ) : Bool :=
  s.stopping && inflight == 0 && s.admission.inflightRequests == 0
    && s.pool.waiting.entries.isEmpty && s.pool.ready.isEmpty && s.pool.pending.isEmpty

/-- `dispatchRequest`.  The reactor hands out each id once (`next_id.fetch_add`), so a request
arrives once. -/
def dispatchRequest (s : State) (id : Id) (raw : IgnisRequest) : Option State :=
  if id ∈ s.admission.arrivals.map Arrival.id then none
  else
    let admission := s.admission.dispatchRequest id raw
    if s.admission.mustWait raw.uri then some { s with admission := admission }
    else some { s with admission := admission, pool := s.pool.spawn (.handler id) none (some id) }

/-- The start of `cancelRequest`, up to the first `throwInto()`. -/
def cancelRequest (s : State) (requestId : Id) (rest : List (Id × Payload)) : State :=
  { s with
    admission := s.admission.dispatchCancel requestId
    pool := { s.pool with todo := s.pool.cancelTargets requestId }
    pc := .cancelRequest requestId rest
    calls := s.calls + 1
    log :=
      if requestId ∈ s.admission.arrivals.map Arrival.id ∧ requestId ∉ s.log.entered then
        { s.log with cancelledEarly := s.log.cancelledEarly ++ [requestId] }
      else s.log }

/-- A completion somebody waits for, or the timer of a deadline. -/
def dispatchAwaited (s : State) (id : Id) (rest : List (Id × Payload)) : State :=
  match s.deadlines.get? id with
  | some requestId =>
      { s with
        deadlines := s.deadlines.unset id
        deadlineOf := s.deadlineOf.unset requestId }.cancelRequest requestId rest
  | none =>
      match s.pool.waiting.get? id with
      | none => s
      | some _ =>
          match s.pool.resumeOp id with
          | some p => s.withPool p
          | none => s.unwind

/-- One turn of the `foreach` of `dispatchEvents`; an exception from the validation of a payload
escapes the loop. -/
def dispatchEvent (s : State) (id : Id) (payload : Payload) (rest : List (Id × Payload)) :
    Option State :=
  let s := { s with pc := .dispatchEvents rest }
  match payload with
  | .scalar _ => some (s.dispatchAwaited id rest)
  | .array a =>
      if s.pool.waiting.has id then some (s.dispatchAwaited id rest)
      else
        match dispatchUnawaited a with
        | .error _ => some s.unwind
        | .ok .ignored => some s
        | .ok (.cancel _) => some (s.cancelRequest id rest)
        | .ok (.request raw) => s.dispatchRequest id raw

/-- One turn of the `foreach` of `cancelRequest`, or its end. -/
def cancelNext (s : State) (requestId : Id) (rest : List (Id × Payload)) : State :=
  match s.pool.todo with
  | [] => { s with pc := .dispatchEvents rest, cancelled := s.cancelled + 1 }
  | f :: todo =>
      let (p, job) := { s.pool with todo := todo }.throwInto f
      let s := s.withPool p
      { s with
        log := { s.log with
          deliveries := s.log.deliveries ++ (job.map fun j => ⟨s.calls, requestId, j⟩).toList } }

/-- `Outcome::Cancelled` as an array. -/
def cancelPayload (ageUs : ℤ) : Payload :=
  .array (((∅ : OrdMap ArrayKey Zval).set (.str (bytes "kind"))
    (.scalar (.string (bytes "cancel")))).set (.str (bytes "age_us")) (.scalar (.long ageUs)))

/-- `Outcome::Failed` as an array. -/
def failedPayload (message : PhpString) : Payload :=
  .array (((∅ : OrdMap ArrayKey Zval).set (.str (bytes "kind"))
    (.scalar (.string (bytes "error")))).set (.str (bytes "message")) (.scalar (.string message)))

/-- What `zif_ignis_poll` stores for a completion no fiber is parked on; nothing for an error. -/
def pollPayload (ageUs : ℤ) : Outcome → Option Payload
  | .error _ => none
  | .slept lateUs => some (.scalar (.long lateUs))
  | .ready => some (.scalar (.long 1))
  | .json document => some (.scalar (.string document))
  | .blob (some b) => some (.scalar (.string b))
  | .blob none => some (.scalar .null)
  | .failed message => some (failedPayload message)
  | .cancelled => some (cancelPayload ageUs)
  | .request req => some (.array (requestToZval req))

/-- The outcomes a fiber parked in a C hook is resumed with. -/
def resumesParked : Outcome → Bool
  | .error _ | .slept _ | .ready => true
  | _ => false

/-- One turn of the `for` of `zif_ignis_poll`. -/
def collect (s : State) (c : Completion) (ageUs : ℤ) (done : List (Completion × ℤ))
    (events : OrdMap Id Payload) : State :=
  if resumesParked c.outcome && s.pool.parked.has c.id then
    match s.pool.resumeParked c.id with
    | some p => { s with pc := .collecting done events }.withPool p
    | none => s.unwind
  else
    match pollPayload ageUs c.outcome with
    | none => { s with pc := .collecting done events }
    | some payload => { s with pc := .collecting done (events.set c.id payload) }

/-- What `{main}` does next where it has no choice. -/
def advance (s : State) : Option State :=
  match s.pc with
  | .startPending =>
      match s.pool.startBatch with
      | (f, j) :: _ =>
          match s.pool.startNext with
          | some p => some ((s.withPool p).startJob f j)
          | none => some s.unwind
      | [] =>
          if s.pool.pending = [] then some { s with pc := .resumeReady }
          else some { s with pool := s.pool.takePending }
  | .resumeReady =>
      match s.pool.readyBatch with
      | (f, .job j) :: _ =>
          match s.pool.resumeNext with
          | some p => some ((s.withPool p).startJob f j)
          | none => some s.unwind
      | (_, .wake) :: _ =>
          match s.pool.resumeNext with
          | some p => some (s.withPool p)
          | none => some s.unwind
      | [] => if s.pool.ready = [] then some { s with pc := .testing } else none
  | .collecting ((c, ageUs) :: done) events => some (s.collect c ageUs done events)
  | .dispatchEvents ((id, payload) :: rest) => s.dispatchEvent id payload rest
  | .dispatchEvents [] => some { s with pc := .turn }
  | .cancelRequest requestId rest => some (s.cancelNext requestId rest)
  | _ => none

/-- `releaseRequest` from the release of the slot on, in the job `j` of request `id`. -/
def releaseSlot (s : State) (f : FiberId) (id : Id) : State :=
  let (admission, admitted) := (s.admission.releaseSlot id).drainQueue
  { s with
    admission := admission
    pool := s.pool.spawnHandlers (s.currentRequestId f) (admitted.map Prod.fst)
    log := { s.log with drained := s.log.drained ++ [id] } }

/-- The callable of `j` has ended. -/
def settleJob (s : State) (f : FiberId) (j : Job) (result : Result) : State :=
  let s := s.withPool (s.pool.finishJob f j result)
  { s with log := { s.log with settled := s.log.settled ++ [j] } }

/-- How a piece of user code ends. -/
def ended : Option Exc → Result
  | none => .resolved
  | some e => .rejected e

/-- The user code `{main}` or the runtime called returns, or throws `e`.  A handler's exception
becomes an answer, and so does one of the answering; one of the cleanup skips the rest of
`releaseRequest()`. -/
def finish (s : State) (f : FiberId) (j : Job) (st : Stage) (e : Option Exc) : Option State :=
  match j.body, st with
  | .user, .body => some (s.settleJob f j (ended e))
  | .handler id, .handler =>
      let s := (s.scopeSet f j .request .null).withPool (s.pool.setStage f j .answering)
      some { s with log := { s.log with completed := s.log.completed ++ [id] } }
  | .handler id, .answering =>
      let s := s.disarmDeadline id
      some ((s.withPool (s.pool.release f j id)).scopeClear f)
  | .handler id, .clearing =>
      match e with
      | none => some ((s.releaseSlot f id).settleJob f j .resolved)
      | some e =>
          let s := { s with log := { s.log with cleanupThrew := s.log.cleanupThrew ++ [id] } }
          some (s.settleJob f j (.rejected e))
  | _, _ => none

end State

/-! ## Actions -/

inductive Action where
  /-- `{main}` enters the loop: `run()`, `serve()`, or `Future::await()` outside a fiber. -/
  | run (serve : Bool)
  | awaitOpFromMain (op : Id)
  /-- The test of the `while`, with what `$stop()` answers. -/
  | turn (stop : Bool)
  /-- `resumeReady()` takes a batch. -/
  | takeReady (batch : List (FiberId × Resume))
  /-- The tests before the poll, with what `ignis_inflight()` answers and whether the watcher asks
  for a reload. -/
  | test (inflight : ℕ) (reload : Bool)
  /-- `ignis_poll()` blocks until something completes.  A cancellation carries its age. -/
  | poll (done : List (Completion × ℤ))
  /-- `ignis_poll()` returns; the events are dispatched in this order. -/
  | dispatch (inflight : ℕ) (order : List Id)
  | advance
  -- the calls of user code
  | async
  | newFuture
  | settle (fut : FutureId) (result : Result)
  | stop
  | assign (k : Superglobal) (n : Option ℕ)
  | readSuperglobal (k : Superglobal)
  | scopeSet (n : ℕ) (value : ScopeValue)
  | scopeGet (key : ScopeKey)
  | scopeClear
  | deadline (op : Id)
  | awaitOp (op : Id)
  | await (fut : FutureId)
  /-- A call that parks inside a C hook on fresh ops. -/
  | park (ids : List Id)
  | finish (e : Option Exc)

/-- The calls any user code can make, `{main}`'s too. -/
def stepUser (s : State) (requestId descends : Option Id) : Action → Option State
  | .async => some { s with pool := s.pool.spawn .user requestId descends }
  | .newFuture => some { s with pool := s.pool.newFuture }
  | .settle fut result =>
      if fut < s.pool.nextFuture ∧ (s.pool.futures fut).ofJob = false
          ∧ (s.pool.futures fut).result = none then
        some { s with pool := s.pool.settle fut result }
      else none
  | .stop => some { s with stopping := true }
  | .assign k n =>
      some { s with superglobals := s.superglobals.assign k (n.map .assigned) }
  | _ => none

/-- The calls of the job `j` that runs on fiber `f`. -/
def stepFiber (s : State) (f : FiberId) (j : Job) (st : Stage) : Action → Option State
  | .readSuperglobal k =>
      match s.superglobals.symbols k with
      | none => some s
      | some o => some { s with
          log := { s.log with superglobalReads := s.log.superglobalReads ++ [(j, o)] } }
  | .scopeSet n value => some (s.scopeSet f j (.user n) value)
  | .scopeGet key =>
      match (s.scopes f).get? key with
      | some stored =>
          if stored.value = .null then some s
          else some { s with log := { s.log with scopeReads := s.log.scopeReads ++ [(j, stored)] } }
      | none => some s
  | .scopeClear => some (s.scopeClear f)
  | .deadline op =>
      match s.currentRequestId f with
      | none => some s
      | some requestId =>
          let s := s.disarmDeadline requestId
          some { s with
            deadlines := s.deadlines.set op requestId
            deadlineOf := s.deadlineOf.set requestId op }
  | .awaitOp op => some (s.withPool (s.pool.parkOn f j st op))
  | .await fut =>
      if fut < s.pool.nextFuture then
        if (s.pool.futures fut).result = none then some (s.withPool (s.pool.awaitFuture f j st fut))
        else some { s with pool := s.pool.observe fut }
      else none
  | .park ids =>
      if ids ≠ [] ∧ ∀ id ∈ ids, s.pool.parked.get? id = none then
        some (s.withPool (s.pool.parkInHook f j st ids))
      else none
  | .finish e => s.finish f j st e
  | a => stepUser s (s.currentRequestId f) j.descends a

/-- The steps of `{main}`. -/
def stepMain (s : State) : Action → Option State
  | .run serve =>
      match s.pc with
      | .script => some { s with pc := .turn, serving := s.serving || serve }
      | _ => none
  | .awaitOpFromMain op =>
      match s.pc with
      | .script => some { s with
          pool := { s.pool with waiting := s.pool.waiting.set op .throwaway }
          pc := .turn }
      | _ => none
  | .turn stop =>
      match s.pc with
      | .turn => if stop then some s.leave else some { s with pc := .startPending }
      | _ => none
  | .takeReady batch =>
      match s.pc with
      | .resumeReady =>
          if s.pool.readyBatch = [] ∧ s.pool.ready ≠ [] ∧
              (batch = s.pool.ready ∨ (s.chaos = true ∧ batch.isPerm s.pool.ready = true)) then
            some { s with pool := s.pool.takeReady batch }
          else none
      | _ => none
  | .test inflight reload =>
      match s.pc with
      | .testing =>
          if s.pool.pending ≠ [] then some { s with pc := .turn }
          else
            let s := { s with stopping := s.stopping || reload }
            if s.windingDown inflight || s.isIdle inflight then some s.leave
            else some { s with pc := .polling }
      | _ => none
  | .poll done =>
      match s.pc with
      | .polling => some { s with pc := .collecting done ∅ }
      | _ => none
  | .dispatch inflight order =>
      match s.pc with
      | .collecting [] events =>
          if events.entries = [] ∧ s.isIdle inflight then some s.leave
          else if order = events.keys ∨ (s.chaos = true ∧ order.isPerm events.keys = true) then
            let events := order.filterMap fun id => (events.get? id).map fun p => (id, p)
            some { s with pc := .dispatchEvents events }
          else none
      | _ => none
  | .advance => s.advance
  | a => if s.mainCode then stepUser s none none a else none

/-- One action of whoever runs. -/
def step (s : State) (a : Action) : Option State :=
  match s.pool.running with
  | none => stepMain s a
  | some _ =>
      match s.current with
      | some (f, j, st) => stepFiber s f j st a
      | none => none

end Loop

end Ignis
