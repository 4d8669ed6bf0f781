import Mathlib.Data.List.Nodup
import Mathlib.Logic.Function.Basic
import Ignis.Lib.OrdMap

/-!
# The fiber pool

The statics of `Ignis\Loop` that say where a fiber is: `$idle`, `$ready`, `$pending`, `$waiting`,
`$parkedOn`, `$requestFibers`, `$children`, the waiters of every `Future`, and the table `PARKED`
of fibers suspended inside a C hook (`wait.rs`).  Beside them stands what PHP itself knows about a
fiber (`Status`): not started, running, or suspended, and at which of the four places a pool fiber
suspends.

A fiber never returns: `poolBody()` runs one job after another and parks in `nextJob()` between
them, so a fiber changes hands without changing identity.  The functions of this file are the
bodies of the source functions restricted to these statics; they are total, and where PHP would
raise because a fiber is not where the caller believes it to be they answer `none`.
-/

namespace Ignis

/-- A reactor id: an op, or a request. -/
abbrev Id := ℕ

/-- `spl_object_id` of a fiber. -/
abbrev FiberId := ℕ

/-- The identity of a `Future` object. -/
abbrev FutureId := ℕ

/-- The exception objects of a run.  Those the loop throws itself are numbered by the call of
`cancelRequest()` that made them. -/
inductive Exc where
  | cancellation (call : ℕ)
  | user (n : ℕ)
  deriving DecidableEq, Repr

/-- The callable of a job: the closure of `admitRequest()`, or one handed to `Ignis\async()`. -/
inductive Body where
  | handler (id : Id)
  | user
  deriving DecidableEq, Repr

/-- `Job`: the callable, its future, and the request it is attributed to.  `descends` is ghost: the
request whose handler the job really descends from. -/
structure Job where
  body : Body
  future : FutureId
  requestId : Option Id
  descends : Option Id
  deriving DecidableEq, Repr

/-- How far a job is.  The closure of `admitRequest()` runs the handler, answers (a
`StreamedResponse` runs its producer there), and clears its scope; any other job is all `body`. -/
inductive Stage where
  | body
  | handler
  | answering
  | clearing
  deriving DecidableEq, Repr

/-- Where a job is suspended.  `woken` is a suspension in `Future::await()` whose future has
settled: the fiber has left the waiters and sits in `$ready`. -/
inductive Park where
  | op (id : Id)
  | future (fut : FutureId)
  | woken (fut : FutureId)
  | hook (ids : List Id)
  deriving DecidableEq, Repr

/-- What PHP knows about a fiber, and the job it was given. -/
inductive Status where
  | absent
  | pending (job : Job)
  | idle
  | handed (job : Job)
  | running (job : Job) (stage : Stage)
  | blocked (job : Job) (stage : Stage) (park : Park)
  | terminated
  deriving DecidableEq, Repr

namespace Status

/-- The job a fiber has, started or not. -/
def job? : Status → Option Job
  | pending j | handed j | running j _ | blocked j _ _ => some j
  | absent | idle | terminated => none

/-- The job a fiber has started. -/
def started? : Status → Option Job
  | running j _ | blocked j _ _ => some j
  | _ => none

def park? : Status → Option Park
  | blocked _ _ at' => some at'
  | _ => none

def stage? : Status → Option Stage
  | running _ st | blocked _ st _ => some st
  | _ => none

/-- The request a fiber is mapped to in `$requestFibers`: from `enterRequest()` to
`releaseRequest()`. -/
def serving? : Status → Option Id
  | running ⟨.handler id, _, _, _⟩ st | blocked ⟨.handler id, _, _, _⟩ st _ =>
      if st = .handler ∨ st = .answering then some id else none
  | _ => none

def isRunning : Status → Bool
  | running _ _ => true
  | _ => false

/-- In `$ready` because the future it awaited has settled. -/
def isWoken : Status → Bool
  | blocked _ _ (.woken _) => true
  | _ => false

/-- A fiber with a job it cannot get on with before somebody switches to it. -/
def isWaiting : Status → Bool
  | pending _ | handed _ | blocked _ _ _ => true
  | _ => false

/-- `Fiber::isSuspended()`. -/
def isSuspended : Status → Bool
  | idle | handed _ | blocked _ _ _ => true
  | _ => false

/-- The future a waiter stands at has settled. -/
def wake : Status → Status
  | blocked j st (.future fut) => blocked j st (.woken fut)
  | other => other

end Status

/-- How a future settled. -/
inductive Result where
  | resolved
  | rejected (e : Exc)
  deriving DecidableEq, Repr

/-- `Future`.  `ofJob` is ghost: made by `spawn()`, so settled by `poolBody()`. -/
structure Future where
  result : Option Result
  waiters : List FiberId
  unobservedError : Option Exc
  ofJob : Bool

/-- `new Future()`. -/
def Future.fresh (ofJob : Bool) : Future := ⟨none, [], none, ofJob⟩

/-- What a fiber in `$ready` is resumed with: its next job, or the `null` of `Future::settle()`. -/
inductive Resume where
  | job (j : Job)
  | wake
  deriving DecidableEq, Repr

/-- A value of `$waiting`: a pool fiber, or the throwaway fiber of `awaitOpFromMain()`. -/
inductive Waiter where
  | fiber (f : FiberId)
  | throwaway
  deriving DecidableEq, Repr

structure Pool where
  status : FiberId → Status
  /-- `EG(active_fiber)`; none is `{main}`. -/
  running : Option FiberId
  fibersCreated : ℕ
  /-- `$idle`; `array_pop()` takes from the end. -/
  idle : List FiberId
  ready : List (FiberId × Resume)
  pending : List (FiberId × Job)
  waiting : OrdMap Id Waiter
  parkedOn : OrdMap FiberId Id
  /-- `PARKED` of `wait.rs`. -/
  parked : OrdMap Id FiberId
  requestFibers : OrdMap Id FiberId
  children : OrdMap Id (OrdMap FiberId Unit)
  futures : FutureId → Future
  nextFuture : FutureId
  unobserved : List Exc
  /-- What `startPending()` has left of its `$batch`. -/
  startBatch : List (FiberId × Job)
  /-- What `resumeReady()` has left of its `$batch`. -/
  readyBatch : List (FiberId × Resume)
  /-- The fibers `cancelRequest()` has not thrown into yet. -/
  todo : List FiberId

namespace Pool

def init : Pool where
  status := fun _ => .absent
  running := none
  fibersCreated := 0
  idle := []
  ready := []
  pending := []
  waiting := ∅
  parkedOn := ∅
  parked := ∅
  requestFibers := ∅
  children := ∅
  futures := fun _ => .fresh false
  nextFuture := 0
  unobserved := []
  startBatch := []
  readyBatch := []
  todo := []

/-! ## `spawn` -/

/-- `$children[$requestId] ?? []`, in spawn order. -/
def childrenOf (p : Pool) (id : Id) : List FiberId := ((p.children.get? id).getD ∅).keys

/-- `self::$children[$requestId][\spl_object_id($fiber)] = $fiber`, for a job with a request. -/
def adopt (children : OrdMap Id (OrdMap FiberId Unit)) (requestId : Option Id) (f : FiberId) :
    OrdMap Id (OrdMap FiberId Unit) :=
  match requestId with
  | none => children
  | some id => children.set id (((children.get? id).getD ∅).set f ())

/-- The job `spawn()` makes. -/
def newJob (p : Pool) (body : Body) (requestId descends : Option Id) : Job :=
  ⟨body, p.nextFuture, requestId, descends⟩

/-- `spawn`: the fiber parked last is handed the job through `$ready`; with none parked, a new one
will be started with it. -/
def spawn (p : Pool) (body : Body) (requestId descends : Option Id) : Pool :=
  let job := p.newJob body requestId descends
  let futures := Function.update p.futures p.nextFuture (.fresh true)
  match p.idle.getLast? with
  | some f =>
      { p with
        futures := futures
        nextFuture := p.nextFuture + 1
        idle := p.idle.dropLast
        ready := p.ready ++ [(f, .job job)]
        status := Function.update p.status f (.handed job)
        children := adopt p.children requestId f }
  | none =>
      { p with
        futures := futures
        nextFuture := p.nextFuture + 1
        fibersCreated := p.fibersCreated + 1
        pending := p.pending ++ [(p.fibersCreated, job)]
        status := Function.update p.status p.fibersCreated (.pending job)
        children := adopt p.children requestId p.fibersCreated }

/-- The jobs `admitRequest()` spawns, one after another. -/
def spawnHandlers (p : Pool) (requestId : Option Id) : List Id → Pool
  | [] => p
  | id :: ids => (p.spawn (.handler id) requestId (some id)).spawnHandlers requestId ids

/-! ## Switching to a fiber -/

/-- `$batch = self::$pending; self::$pending = [];` of `startPending()`. -/
def takePending (p : Pool) : Pool := { p with startBatch := p.pending, pending := [] }

/-- `$batch = self::$ready; self::$ready = [];` of `resumeReady()`; the chaos mode shuffles the
batch. -/
def takeReady (p : Pool) (batch : List (FiberId × Resume)) : Pool :=
  { p with readyBatch := batch, ready := [] }

/-- The first stage of a job. -/
def entryStage (j : Job) : Stage :=
  match j.body with
  | .handler _ => .handler
  | .user => .body

/-- The job starts on `f`; the closure of `admitRequest()` gets as far as `enterRequest()`. -/
def enter (p : Pool) (f : FiberId) (j : Job) : Pool :=
  { p with
    status := Function.update p.status f (.running j (entryStage j))
    running := some f
    requestFibers :=
      match j.body with
      | .handler id => p.requestFibers.set id f
      | .user => p.requestFibers }

/-- The fiber runs on from where it was suspended. -/
def resume (p : Pool) (f : FiberId) (j : Job) (st : Stage) : Pool :=
  { p with
    status := Function.update p.status f (.running j st)
    running := some f }

/-- One turn of the `foreach` of `startPending()`: `start()` on a fiber that has not started. -/
def startNext (p : Pool) : Option Pool :=
  match p.startBatch with
  | [] => none
  | (f, j) :: rest =>
      match p.status f with
      | .pending _ => some ({ p with startBatch := rest }.enter f j)
      | _ => none

/-- One turn of the `foreach` of `resumeReady()`: a job goes to a fiber parked in `nextJob()`, a
`null` to one suspended in `Future::await()`. -/
def resumeNext (p : Pool) : Option Pool :=
  match p.readyBatch with
  | [] => none
  | (f, .job j) :: rest =>
      match p.status f with
      | .idle | .handed _ => some ({ p with readyBatch := rest }.enter f j)
      | _ => none
  | (f, .wake) :: rest =>
      match p.status f with
      | .blocked j st (.future _) | .blocked j st (.woken _) =>
          some ({ p with readyBatch := rest }.resume f j st)
      | _ => none

/-- The `finally` of `parkOn()` and the way out of `await_any()`: the fiber leaves the tables of
the place it was suspended at. -/
def leavePark (p : Pool) (f : FiberId) : Park → Pool
  | .op _ => { p with parkedOn := p.parkedOn.unset f }
  | .hook ids => { p with parked := ids.foldl OrdMap.unset p.parked }
  | .future _ | .woken _ => p

/-- `dispatchEvents()` for a completion somebody waits for. -/
def resumeOp (p : Pool) (op : Id) : Option Pool :=
  match p.waiting.get? op with
  | none => none
  | some .throwaway => some { p with waiting := p.waiting.unset op }
  | some (.fiber f) =>
      match p.status f with
      | .blocked j st at' =>
          some (({ p with waiting := p.waiting.unset op }.leavePark f at').resume f j st)
      | _ => none

/-- `resume_parked`. -/
def resumeParked (p : Pool) (id : Id) : Option Pool :=
  match p.parked.get? id with
  | none => none
  | some f =>
      match p.status f with
      | .blocked j st at' =>
          some (({ p with parked := p.parked.unset id }.leavePark f at').resume f j st)
      | _ => none

/-! ## Throwing into a fiber -/

/-- `$fiber->throw()`: the exception surfaces where the fiber is suspended, and the job runs on from
there.  In `nextJob()` there is no job to catch it, and the fiber unwinds. -/
def interrupt (p : Pool) (f : FiberId) : Pool × Option Job :=
  match p.status f with
  | .blocked j st at' => ((p.leavePark f at').resume f j st, some j)
  | _ => ({ p with status := Function.update p.status f .terminated }, none)

/-- The op a fiber is suspended on, as `throwInto()` finds it: in `$parkedOn`, else by a scan of
`$waiting`. -/
def opOf (p : Pool) (f : FiberId) : Option Id :=
  match p.parkedOn.get? f with
  | some op => some op
  | none => (p.waiting.entries.find? fun e => e.2 = .fiber f).map Prod.fst

/-- `throwInto`, with `cancelCPark` for a fiber only Rust can find.  The second component is the
job the exception was delivered to, if there was one. -/
def throwInto (p : Pool) (f : FiberId) : Pool × Option Job :=
  if (p.status f).isSuspended then
    match p.opOf f with
    | some op => { p with waiting := p.waiting.unset op }.interrupt f
    | none => if p.parked.entries.any (fun e => e.2 = f) then p.interrupt f else (p, none)
  else (p, none)

/-- The snapshot `cancelRequest()` walks: the children in reverse spawn order, then the handler. -/
def cancelTargets (p : Pool) (id : Id) : List FiberId :=
  (p.childrenOf id).reverse ++ (p.requestFibers.get? id).toList

/-! ## What a running job does to the pool -/

/-- `parkOn`. -/
def parkOn (p : Pool) (f : FiberId) (j : Job) (st : Stage) (op : Id) : Pool :=
  { p with
    waiting := p.waiting.set op (.fiber f)
    parkedOn := p.parkedOn.set f op
    status := Function.update p.status f (.blocked j st (.op op))
    running := none }

/-- The suspension of `await_op` and `await_any`. -/
def parkInHook (p : Pool) (f : FiberId) (j : Job) (st : Stage) (ids : List Id) : Pool :=
  { p with
    parked := ids.foldl (fun m id => m.set id f) p.parked
    status := Function.update p.status f (.blocked j st (.hook ids))
    running := none }

/-- `Future::await` on an unsettled future. -/
def awaitFuture (p : Pool) (f : FiberId) (j : Job) (st : Stage) (fut : FutureId) : Pool :=
  { p with
    futures := Function.update p.futures fut
      { p.futures fut with waiters := (p.futures fut).waiters ++ [f] }
    status := Function.update p.status f (.blocked j st (.future fut))
    running := none }

/-- `new Future()` in user code. -/
def newFuture (p : Pool) : Pool :=
  { p with
    futures := Function.update p.futures p.nextFuture (.fresh false)
    nextFuture := p.nextFuture + 1 }

/-- `Future::await` on a settled one: awaiting a rejection is observing it. -/
def observe (p : Pool) (fut : FutureId) : Pool :=
  match (p.futures fut).unobservedError with
  | none => p
  | some e =>
      { p with
        futures := Function.update p.futures fut { p.futures fut with unobservedError := none }
        unobserved := p.unobserved.filter (· ≠ e) }

/-- `Future::settle` on an unsettled future. -/
def settle (p : Pool) (fut : FutureId) (result : Result) : Pool :=
  let future := p.futures fut
  let error : Option Exc :=
    match result with
    | .rejected e => if future.waiters = [] then some e else none
    | .resolved => none
  { p with
    futures := Function.update p.futures fut
      { future with
        result := some result
        waiters := []
        unobservedError := error }
    unobserved := p.unobserved ++ error.toList
    ready := p.ready ++ future.waiters.map fun g => (g, .wake)
    status := fun g => if g ∈ future.waiters then (p.status g).wake else p.status g }

/-- `forgetChild`. -/
def forgetChild (p : Pool) (requestId : Option Id) (f : FiberId) : Pool :=
  match requestId with
  | none => p
  | some id =>
      match p.children.get? id with
      | none => p
      | some fibers => { p with children := p.children.set id (fibers.unset f) }

/-- The rest of the `for` of `poolBody()` once the callable has ended: the future settles, the
child is forgotten, and the fiber parks in `nextJob()`. -/
def finishJob (p : Pool) (f : FiberId) (j : Job) (result : Result) : Pool :=
  let p := (p.settle j.future result).forgetChild j.requestId f
  { p with
    idle := p.idle ++ [f]
    status := Function.update p.status f .idle
    running := none }

/-- The job of `f` is at stage `st` now. -/
def setStage (p : Pool) (f : FiberId) (j : Job) (st : Stage) : Pool :=
  { p with status := Function.update p.status f (.running j st) }

/-- `unset(self::$requestFibers[$id], self::$children[$id])` of `releaseRequest()`, from which on
the fiber runs cleanup code. -/
def release (p : Pool) (f : FiberId) (j : Job) (id : Id) : Pool :=
  { p with
    requestFibers := p.requestFibers.unset id
    children := p.children.unset id }.setStage f j .clearing

end Pool

end Ignis
