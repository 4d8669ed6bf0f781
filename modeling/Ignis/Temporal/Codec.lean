import Ignis.Lib.Fallible
import Ignis.Temporal.Values

/-!
# The codec between sdk-core and sdk-php

`CoreCodec` keeps, per run, the numbers under which sdk-core knows the commands of sdk-php, and
translates in both directions.  `decodeActivation` turns the jobs of an activation into requests and
responses for sdk-php; `encodeCompletion` turns what sdk-php answers into the commands of a
completion.  Both change the maps of the run as they go, and what they have changed stays changed
when a later job or command throws.

A job is read in two stages: `Job.ofDocument` takes the fields through the readers, and `decodeJob`
acts on them.  A payload list that does not read is an `error` inside the job, so that it is thrown
where the source reads it, after the maps have been changed.
-/

namespace Ignis

namespace Temporal

/-! ## State -/

/-- `ACTIVITY`, `LOCAL_ACTIVITY`, `TIMER`, `CHILD`. -/
inductive Kind where
  | activity
  | localActivity
  | timer
  | child
  deriving DecidableEq, Repr

/-- `['id' => $id, 'kind' => $kind]`. -/
structure BySeq where
  id : ReqId
  kind : Kind
  deriving DecidableEq, Repr

/-- `['seq' => $seq, 'kind' => $kind]`. -/
structure ById where
  seq : ℕ
  kind : Kind
  deriving DecidableEq, Repr

/-- The entry of a run.  One that was made by `['queries'][] =` or `['updates'][..] =` alone has no
other fields yet; they are read through `??` and count as empty. -/
structure Run where
  seq : ℕ
  bySeq : OrdMap ℤ BySeq
  byId : OrdMap ArrayKey ById
  childStart : OrdMap ℤ ReqId
  queries : List PhpString
  updates : OrdMap PhpString PhpString

def emptyRun : Run := ⟨0, ∅, ∅, ∅, [], ∅⟩

/-- `CoreCodec`. -/
structure CoreCodec where
  runs : OrdMap PhpString Run
  runId : PhpString
  taskToken : Option PhpString

def CoreCodec.init : CoreCodec := ⟨∅, [], none⟩

def forBatch (c : CoreCodec) : CoreCodec := { c with runId := [], taskToken := none }

/-- The run as `$this->runs[$runId][..] ?? ..` reads it. -/
def CoreCodec.run (c : CoreCodec) (runId : PhpString) : Run := (c.runs.get? runId).getD emptyRun

def CoreCodec.setRun (c : CoreCodec) (runId : PhpString) (r : Run) : CoreCodec :=
  { c with runs := c.runs.set runId r }

lemma CoreCodec.get?_setRun_of_ne (c : CoreCodec) {runId other : PhpString} (r : Run)
    (hne : other ≠ runId) : (c.setRun runId r).runs.get? other = c.runs.get? other := by
  show (c.runs.set runId r).get? other = _
  rw [OrdMap.get?_set, if_neg hne]

@[simp] lemma CoreCodec.run_setRun (c : CoreCodec) (runId : PhpString) (r : Run) :
    (c.setRun runId r).run runId = r := by
  simp [CoreCodec.run, CoreCodec.setRun]

def reset (c : CoreCodec) (runId : PhpString) : CoreCodec := c.setRun runId emptyRun

def nextSeq (c : CoreCodec) (runId : PhpString) (id : ReqId) (kind : Kind) : CoreCodec × ℕ :=
  let r := c.run runId
  let seq := r.seq + 1
  (c.setRun runId
    { r with
      seq := seq
      bySeq := r.bySeq.set seq ⟨id, kind⟩
      byId := r.byId.set id.key ⟨seq, kind⟩ },
    seq)

def takeId (c : CoreCodec) (runId : PhpString) (seq : ℤ) : CoreCodec × Option ReqId :=
  let r := c.run runId
  match r.bySeq.get? seq with
  | none => (c, none)
  | some entry =>
      (c.setRun runId { r with bySeq := r.bySeq.unset seq, byId := r.byId.unset entry.id.key },
        some entry.id)

/-! ## Activations -/

/-- The body of a response that resolves a request of sdk-php. -/
inductive Resolution where
  | success (payloads : List WirePayload)
  /-- A child workflow that has started. -/
  | started (workflowId runId : PhpString)
  | failure (canceled : Bool) (message : PhpString)
  deriving DecidableEq, Repr

/-- The routes of sdk-php's worker, with the options the codec fills in from the job. -/
inductive Route where
  | startWorkflow (arguments : List WirePayload)
  | invokeSignal (name : PhpString) (input : List WirePayload)
  | invokeQuery (name : PhpString) (arguments : List WirePayload)
  | invokeUpdate (updateId name : PhpString) (replay : Bool) (input : List WirePayload)
  | cancelWorkflow (details : List WirePayload)
  | destroyWorkflow
  deriving DecidableEq, Repr

/-- `ServerRequest`, `SuccessResponse` and `FailureResponse`.  The id of a request is the run id. -/
inductive ServerCommand where
  | request (route : Route)
  | response (id : ReqId) (r : Resolution)
  deriving DecidableEq, Repr

/-- A job, with its fields as they are read. -/
inductive Job where
  | initializeWorkflow (arguments : Except Throwable (List WirePayload))
  | fireTimer (seq : ℤ)
  | resolveActivity (seq : ℤ) (result : Except Throwable Resolution)
  | resolveChildWorkflowExecutionStart (seq : ℤ) (outcome : Resolution)
  | resolveChildWorkflowExecution (seq : ℤ) (result : Except Throwable Resolution)
  | signalWorkflow (name : PhpString) (input : Except Throwable (List WirePayload))
  | queryWorkflow (queryId queryType : PhpString) (arguments : Except Throwable (List WirePayload))
  | doUpdate (id protocolInstanceId name : PhpString) (replay : Bool)
      (input : Except Throwable (List WirePayload))
  | cancelWorkflow (details : Except Throwable (List WirePayload))
  | removeFromCache

/-- `resolution`. -/
def resolution (result : Val) : Except Throwable Resolution :=
  if result.isset "completed" then
    match (arrayField result "completed").get "result" with
    | .null => .ok (.success [])
    | payload => (payloadOf payload "result").map fun p => .success [p]
  else
    let kind := (result.entries.head?.map Prod.fst).getD (key "failed")
    let body := (OrdMap.lookup kind result.entries).getD .null
    let message := (stringField (arrayField (.arr body.entries) "failure") "message").getD
      (bytes "activity " ++ ArrayKey.text kind)
    .ok (.failure (kind == key "cancelled") message)

/-- The outcome in a `resolveChildWorkflowExecutionStart` job. -/
def childStartOutcome (data : Val) : Resolution :=
  let succeeded := arrayField data "succeeded"
  if data.isset "succeeded" then
    .started ((stringField succeeded "childWorkflowId").getD [])
      ((stringField succeeded "runId").getD [])
  else
    .failure false
      (((stringField (arrayField data "failed") "failure").orElse fun _ =>
        stringField (arrayField data "cancelled") "failure").getD
          (bytes "child workflow did not start"))

/-- One job of the list: its first key names it, other names have no case. -/
def Job.ofDocument (host : Host) (job : Val) : Option Job :=
  match job.entries.head? with
  | none => none
  | some (name, body) =>
      let data : Val := .arr body.entries
      let seq := (intField host data "seq").getD 0
      if name = key "initializeWorkflow" then
        some (.initializeWorkflow
          (payloadListField data "arguments" "jobs.initializeWorkflow.arguments"))
      else if name = key "fireTimer" then some (.fireTimer seq)
      else if name = key "resolveActivity" then
        some (.resolveActivity seq (resolution (arrayField data "result")))
      else if name = key "resolveChildWorkflowExecutionStart" then
        some (.resolveChildWorkflowExecutionStart seq (childStartOutcome data))
      else if name = key "resolveChildWorkflowExecution" then
        some (.resolveChildWorkflowExecution seq (resolution (arrayField data "result")))
      else if name = key "signalWorkflow" then
        some (.signalWorkflow ((stringField data "signalName").getD [])
          (payloadListField data "input" "jobs.signalWorkflow.input"))
      else if name = key "queryWorkflow" then
        some (.queryWorkflow ((stringField data "queryId").getD [])
          ((stringField data "queryType").getD [])
          (payloadListField data "arguments" "jobs.queryWorkflow.arguments"))
      else if name = key "doUpdate" then
        let updateId := (stringField data "id").getD []
        -- `isReplay`: a validator is run unless core says otherwise
        let replay := data.isset "runValidator" && !(data.get "runValidator").truthy
        some (.doUpdate updateId ((stringField data "protocolInstanceId").getD updateId)
          ((stringField data "name").getD []) replay
          (payloadListField data "input" "jobs.doUpdate.input"))
      else if name = key "cancelWorkflow" then
        some (.cancelWorkflow (payloadListField data "details" "jobs.cancelWorkflow.details"))
      else if name = key "removeFromCache" then some .removeFromCache
      else none

/-- A request whose payloads may not read. -/
def requestOf (payloads : Except Throwable (List WirePayload)) (route : List WirePayload → Route) :
    Except Throwable (List ServerCommand) :=
  payloads.map fun ps => [.request (route ps)]

/-- A response to the request with the id, if there is one. -/
def respondTo (id : Option ReqId) (r : Except Throwable Resolution) :
    Except Throwable (List ServerCommand) :=
  match id with
  | none => .ok []
  | some id => r.map fun body => [.response id body]

/-- One turn of the loop of `decodeActivation`. -/
def decodeJob (c : CoreCodec) (runId : PhpString) :
    Job → CoreCodec × Except Throwable (List ServerCommand)
  | .initializeWorkflow arguments => (reset c runId, requestOf arguments .startWorkflow)
  | .fireTimer seq =>
      let (c, id) := takeId c runId seq
      (c, respondTo id (.ok (.success [])))
  | .resolveActivity seq result =>
      let (c, id) := takeId c runId seq
      (c, respondTo id result)
  | .resolveChildWorkflowExecutionStart seq outcome =>
      let r := c.run runId
      match r.childStart.get? seq with
      | none => (c, .ok [])
      | some id =>
          (c.setRun runId { r with childStart := r.childStart.unset seq },
            respondTo id (.ok outcome))
  | .resolveChildWorkflowExecution seq result =>
      let (c, id) := takeId c runId seq
      (c, respondTo id result)
  | .signalWorkflow name input => (c, requestOf input (.invokeSignal name))
  | .queryWorkflow queryId queryType arguments =>
      let r := c.run runId
      (c.setRun runId { r with queries := r.queries ++ [queryId] },
        requestOf arguments (.invokeQuery queryType))
  | .doUpdate id protocolInstanceId name replay input =>
      let r := c.run runId
      (c.setRun runId { r with updates := r.updates.set id protocolInstanceId },
        requestOf input (.invokeUpdate id name replay))
  | .cancelWorkflow details => (c, requestOf details .cancelWorkflow)
  | .removeFromCache => ({ c with runs := c.runs.unset runId }, .ok [.request .destroyWorkflow])

def decodeJobs (c : CoreCodec) (runId : PhpString) (jobs : List Job) :
    CoreCodec × Except Throwable (List ServerCommand) :=
  Fallible.forEach (fun c job => decodeJob c runId job) c jobs

/-- `required`. -/
def required (name : Val) (field : String) : Except Throwable PhpString :=
  let value := (stringOrNull name).getD []
  if value = [] then .error (logicException ("the core document has no \"" ++ field ++ "\""))
  else .ok value

def decodeActivation (host : Host) (c : CoreCodec) (activation : Val) :
    CoreCodec × Except Throwable (List ServerCommand) :=
  match required (activation.get "runId") "runId" with
  | .error e => (c, .error e)
  | .ok runId =>
      decodeJobs { c with runId := runId } runId
        ((listOfArraysField activation "jobs").filterMap (Job.ofDocument host))

/-! ## Completions -/

/-- `Temporal\Api\Common\V1\Payload`; its metadata is a map with string keys. -/
structure Payload where
  metadata : OrdMap PhpString PhpString
  data : PhpString

/-- What `getFailure()` returns; `canceled` is `instanceof CanceledFailure`. -/
structure Failure where
  canceled : Bool
  message : PhpString
  deriving DecidableEq, Repr

/-- What the data converter makes of values when `payloads` asks for them: it may throw. -/
abbrev Converted := Except Throwable (List Payload)

/-- What sdk-php gives to `encode`. -/
inductive Command where
  | request (name : PhpString) (id : ReqId) (options : Val) (payloads : Converted)
      (failure : Option Failure)
  /-- `UpdateResponse`: `UpdateValidated` or `UpdateCompleted`. -/
  | updateResponse (options : Val) (validated : Bool) (failure : Option Failure)
      (payloads : Option Converted)
  /-- Any other response: to a query, or the acknowledgement of another request. -/
  | response (failure : Option Failure) (payloads : Option Converted)

/-- The fields that the schedule commands share, as they are read from the options. -/
structure Schedule where
  seq : ℕ
  type : PhpString
  payloads : List Payload
  /-- The name of each timeout and its value. -/
  timeouts : List (String × Option PhpString)
  retryPolicy : Option Val

inductive UpdateOutcome where
  | rejected (message : PhpString)
  | accepted
  | completed (payload : Option Payload)

inductive QueryOutcome where
  | failed (message : PhpString)
  | succeeded (response : Option Payload)

/-- A command of the completion. -/
inductive CoreCommand where
  | scheduleActivity (s : Schedule) (taskQueue : PhpString)
  | scheduleLocalActivity (s : Schedule)
  | startTimer (seq : ℕ) (startToFireTimeout : PhpString)
  | startChildWorkflowExecution (s : Schedule) (workflowId taskQueue : PhpString)
  | cancelTimer (seq : ℕ)
  | requestCancelActivity (seq : ℕ)
  | requestCancelLocalActivity (seq : ℕ)
  | cancelChildWorkflowExecution (seq : ℕ)
  | completeWorkflowExecution (result : Option Payload)
  | cancelWorkflowExecution
  | failWorkflowExecution (message : PhpString)
  | updateResponse (protocolInstanceId : PhpString) (outcome : UpdateOutcome)
  | respondToQuery (queryId : PhpString) (outcome : QueryOutcome)

/-- `duration`: nanoseconds to protojson seconds. -/
def duration (host : Host) (nanoseconds : Val) (defaultSeconds : Option ℕ) : Option PhpString :=
  let ns := (intOrNull host nanoseconds).getD 0
  if ns ≤ 0 then defaultSeconds.map fun n => intText n ++ bytes "s"
  else some (host.decimal 9 ns 1000000000 ++ bytes "s")

def durationMs (host : Host) (ms : ℤ) : PhpString := host.decimal 3 ms 1000 ++ bytes "s"

def Val.ofString : Option PhpString → Val
  | some s => .str s
  | none => .null

/-- `$value ?: null`. -/
def Val.orNull (v : Val) : Val := if v.truthy then v else .null

/-- `retryPolicy`. -/
def retryPolicy (host : Host) (policy : Val) : Option Val :=
  match policy with
  | .arr _ =>
      let out := assocFiltered [
        ("initialInterval", .ofString (duration host (policy.get "InitialInterval") none)),
        ("backoffCoefficient", (policy.get "BackoffCoefficient").orNull),
        ("maximumInterval", .ofString (duration host (policy.get "MaximumInterval") none)),
        ("maximumAttempts", (policy.get "MaximumAttempts").orNull),
        ("nonRetryableErrorTypes", policy.get "NonRetryableErrorTypes")]
      if out.entries.isEmpty then none else some out
  | _ => none

/-- `cancelOf`. -/
def cancelOf (c : CoreCodec) (runId : PhpString) (id : ReqId) : Option CoreCommand :=
  ((c.run runId).byId.get? id.key).map fun entry =>
    match entry.kind with
    | .timer => .cancelTimer entry.seq
    | .activity => .requestCancelActivity entry.seq
    | .localActivity => .requestCancelLocalActivity entry.seq
    | .child => .cancelChildWorkflowExecution entry.seq

/-- `$values === null ? null : ($this->payloads($values)[0] ?? null)`. -/
def firstPayload : Option Converted → Except Throwable (Option Payload)
  | none => .ok none
  | some payloads => payloads.map List.head?

/-- `updateResponse`. -/
def updateResponse (c : CoreCodec) (runId : PhpString) (options : Val) (validated : Bool)
    (failure : Option Failure) (payloads : Option Converted) : Except Throwable CoreCommand :=
  let updateId := (stringField options "id").getD []
  let instance' := ((c.run runId).updates.get? updateId).getD updateId
  match failure with
  | some f => .ok (.updateResponse instance' (.rejected f.message))
  | none =>
      if validated then .ok (.updateResponse instance' .accepted)
      else (firstPayload payloads).map fun p => .updateResponse instance' (.completed p)

/-- `queryResult`. -/
def queryResult (queryId : PhpString) (failure : Option Failure) (payloads : Option Converted) :
    Except Throwable CoreCommand :=
  match failure with
  | some f => .ok (.respondToQuery queryId (.failed f.message))
  | none => (firstPayload payloads).map fun p => .respondToQuery queryId (.succeeded p)

/-- `encodeIfQueryResponse`: a response is taken for the answer to the first query in the list,
which is off the list before the answer is read. -/
def encodeIfQueryResponse (c : CoreCodec) (runId : PhpString) (failure : Option Failure)
    (payloads : Option Converted) : CoreCodec × Except Throwable (List CoreCommand) :=
  let r := c.run runId
  match r.queries with
  | [] => (c, .ok [])
  | queryId :: queries =>
      (c.setRun runId { r with queries := queries },
        (queryResult queryId failure payloads).map fun command => [command])

/-- `rememberChildStartWaiter`. -/
def rememberChildStartWaiter (c : CoreCodec) (runId : PhpString) (options : Val) (id : ReqId) :
    CoreCodec :=
  let r := c.run runId
  match r.byId.get? (.ofSymtable ((stringField options "id").getD [])) with
  | none => c
  | some entry => c.setRun runId { r with childStart := r.childStart.set entry.seq id }

/-- `CompleteWorkflow`. -/
def completion (failure : Option Failure) (payloads : List Payload) : CoreCommand :=
  match failure with
  | none => .completeWorkflowExecution payloads.head?
  | some f => if f.canceled then .cancelWorkflowExecution else .failWorkflowExecution f.message

/-- The requests that schedule something, by their names. -/
def scheduleKind (name : PhpString) : Option Kind :=
  if name = bytes "ExecuteActivity" then some .activity
  else if name = bytes "ExecuteLocalActivity" then some .localActivity
  else if name = bytes "NewTimer" then some .timer
  else if name = bytes "ExecuteChildWorkflow" then some .child
  else none

/-- The command of a request that schedules something, under the seq it was given. -/
def scheduleCommand (host : Host) (kind : Kind) (seq : ℕ) (options : Val)
    (payloads : List Payload) : CoreCommand :=
  let sub := arrayField options "options"
  let type := (stringField options "name").getD []
  let taskQueue := (stringField sub "TaskQueueName").getD host.taskQueue
  let timeout := fun (name : String) => duration host (sub.get name) none
  let retry := retryPolicy host (sub.get "RetryPolicy")
  match kind with
  | .activity =>
      .scheduleActivity ⟨seq, type, payloads,
        [("startToCloseTimeout", duration host (sub.get "StartToCloseTimeout") (some 30)),
          ("scheduleToCloseTimeout", timeout "ScheduleToCloseTimeout"),
          ("scheduleToStartTimeout", timeout "ScheduleToStartTimeout"),
          ("heartbeatTimeout", timeout "HeartbeatTimeout")], retry⟩ taskQueue
  | .localActivity =>
      .scheduleLocalActivity ⟨seq, type, payloads,
        [("startToCloseTimeout", duration host (sub.get "StartToCloseTimeout") (some 30)),
          ("scheduleToCloseTimeout", timeout "ScheduleToCloseTimeout")], retry⟩
  | .timer => .startTimer seq (durationMs host ((intField host options "ms").getD 0))
  | .child =>
      .startChildWorkflowExecution ⟨seq, type, payloads,
        [("workflowExecutionTimeout", timeout "WorkflowExecutionTimeout"),
          ("workflowRunTimeout", timeout "WorkflowRunTimeout"),
          ("workflowTaskTimeout", timeout "WorkflowTaskTimeout")], retry⟩
        ((stringField sub "WorkflowID").getD host.uniqid) taskQueue

/-- A timer has no use for its payloads and does not ask for them. -/
def schedule (host : Host) (kind : Kind) (seq : ℕ) (options : Val) (payloads : Converted) :
    Except Throwable CoreCommand :=
  match kind with
  | .timer => .ok (scheduleCommand host .timer seq options [])
  | kind => payloads.map (scheduleCommand host kind seq options)

lemma schedule_ok {host : Host} {kind : Kind} {seq : ℕ} {options : Val} {payloads : Converted}
    {command : CoreCommand} (h : schedule host kind seq options payloads = .ok command) :
    ∃ ps, command = scheduleCommand host kind seq options ps ∧
      (kind = .timer ∨ payloads = .ok ps) := by
  cases kind with
  | timer => exact ⟨_, (Except.ok.inj h).symm, Or.inl rfl⟩
  | _ =>
      obtain ⟨ps, rfl, rfl⟩ := Fallible.of_map_eq_ok h
      exact ⟨ps, rfl, Or.inr rfl⟩

/-- `rejectUntranslatedCommand`. -/
def rejectUntranslatedCommand (name : PhpString) : Throwable :=
  logicException ("sdk-php asked the host for \"" ++ text name ++
    "\"; this core transport does not translate it (research 35 §3).")

/-- One turn of the loop of `encodeCompletion`. -/
def encodeCommand (host : Host) (c : CoreCodec) (runId : PhpString) :
    Command → CoreCodec × Except Throwable (List CoreCommand)
  | .updateResponse options validated failure payloads =>
      (c, (updateResponse c runId options validated failure payloads).map fun out => [out])
  | .response failure payloads => encodeIfQueryResponse c runId failure payloads
  | .request name id options payloads failure =>
      match scheduleKind name with
      | some kind =>
          let (c, seq) := nextSeq c runId id kind
          (c, (schedule host kind seq options payloads).map fun out => [out])
      | none =>
          if name = bytes "GetChildWorkflowExecution" then
            (rememberChildStartWaiter c runId options id, .ok [])
          else if name = bytes "Cancel" then
            (c, .ok ((listOfKeysField options "ids").filterMap (cancelOf c runId)))
          else if name = bytes "CompleteWorkflow" then
            (c, payloads.map fun ps => [completion failure ps])
          else if name = bytes "Panic" then
            (c, .ok [.failWorkflowExecution ((failure.map Failure.message).getD
              (bytes "workflow panic"))])
          else
            (c, .error (rejectUntranslatedCommand name))

def encodeCommands (host : Host) (c : CoreCodec) (runId : PhpString) (commands : List Command) :
    CoreCodec × Except Throwable (List CoreCommand) :=
  Fallible.forEach (fun c command => encodeCommand host c runId command) c commands

/-- `encodeCompletion`, up to the document. -/
def encodeCompletion (host : Host) (c : CoreCodec) (commands : List Command) :
    CoreCodec × Except Throwable (List CoreCommand) :=
  encodeCommands host c c.runId commands

/-! ## One run at a time -/

/-- No operation on one run touches another: its entry is the same before and after. -/
lemma takeId_other {c : CoreCodec} {runId other : PhpString} (s : ℤ) (hne : other ≠ runId) :
    (takeId c runId s).1.runs.get? other = c.runs.get? other := by
  simp only [takeId]
  split
  · rfl
  · exact c.get?_setRun_of_ne _ hne

lemma decodeJob_other {c : CoreCodec} {runId other : PhpString} (job : Job)
    (hne : other ≠ runId) : (decodeJob c runId job).1.runs.get? other = c.runs.get? other := by
  cases job with
  | initializeWorkflow _ => exact c.get?_setRun_of_ne _ hne
  | fireTimer s => exact takeId_other s hne
  | resolveActivity s _ => exact takeId_other s hne
  | resolveChildWorkflowExecution s _ => exact takeId_other s hne
  | resolveChildWorkflowExecutionStart s _ =>
      simp only [decodeJob]
      split
      · rfl
      · exact c.get?_setRun_of_ne _ hne
  | signalWorkflow _ _ => rfl
  | queryWorkflow _ _ _ => exact c.get?_setRun_of_ne _ hne
  | doUpdate _ _ _ _ _ => exact c.get?_setRun_of_ne _ hne
  | cancelWorkflow _ => rfl
  | removeFromCache =>
      show (c.runs.unset runId).get? other = _
      rw [OrdMap.get?_unset, if_neg hne]

lemma encodeCommand_other {host : Host} {c : CoreCodec} {runId other : PhpString}
    (command : Command) (hne : other ≠ runId) :
    (encodeCommand host c runId command).1.runs.get? other = c.runs.get? other := by
  cases command with
  | updateResponse _ _ _ _ => rfl
  | response _ _ =>
      simp only [encodeCommand, encodeIfQueryResponse]
      split
      · rfl
      · exact c.get?_setRun_of_ne _ hne
  | request name id options payloads failure =>
      simp only [encodeCommand]
      split
      · exact c.get?_setRun_of_ne _ hne
      · split_ifs
        · simp only [rememberChildStartWaiter]
          split
          · rfl
          · exact c.get?_setRun_of_ne _ hne
        all_goals rfl

lemma run_eq_of_get? {c c' : CoreCodec} {runId : PhpString}
    (h : c'.runs.get? runId = c.runs.get? runId) : c'.run runId = c.run runId := by
  simp only [CoreCodec.run, h]

/-- The run id stays the one of the activation. -/
lemma takeId_runId {c : CoreCodec} {runId : PhpString} (s : ℤ) :
    (takeId c runId s).1.runId = c.runId := by
  simp only [takeId]
  split <;> rfl

lemma decodeJob_runId {c : CoreCodec} {runId : PhpString} (job : Job) :
    (decodeJob c runId job).1.runId = c.runId := by
  cases job with
  | fireTimer s => exact takeId_runId s
  | resolveActivity s _ => exact takeId_runId s
  | resolveChildWorkflowExecution s _ => exact takeId_runId s
  | resolveChildWorkflowExecutionStart s _ =>
      simp only [decodeJob]
      split <;> rfl
  | _ => rfl

lemma encodeCommand_runId {host : Host} {c : CoreCodec} {runId : PhpString} (command : Command) :
    (encodeCommand host c runId command).1.runId = c.runId := by
  cases command with
  | updateResponse _ _ _ _ => rfl
  | response _ _ =>
      simp only [encodeCommand, encodeIfQueryResponse]
      split <;> rfl
  | request name id options payloads failure =>
      simp only [encodeCommand]
      split
      · rfl
      · split_ifs
        · simp only [rememberChildStartWaiter]
          split <;> rfl
        all_goals rfl

/-! The same over the lists. -/

lemma decodeJobs_other (c : CoreCodec) {runId other : PhpString} (jobs : List Job)
    (hne : other ≠ runId) : (decodeJobs c runId jobs).1.runs.get? other = c.runs.get? other :=
  Fallible.forEach_invariant (I := fun d : CoreCodec => d.runs.get? other = c.runs.get? other)
    (fun _ job _ hd => (decodeJob_other job hne).trans hd) rfl

lemma decodeJobs_runId (c : CoreCodec) (runId : PhpString) (jobs : List Job) :
    (decodeJobs c runId jobs).1.runId = c.runId :=
  Fallible.forEach_invariant (I := fun d : CoreCodec => d.runId = c.runId)
    (fun _ job _ hd => (decodeJob_runId job).trans hd) rfl

lemma encodeCommands_other (host : Host) (c : CoreCodec) {runId other : PhpString}
    (commands : List Command) (hne : other ≠ runId) :
    (encodeCommands host c runId commands).1.runs.get? other = c.runs.get? other :=
  Fallible.forEach_invariant (I := fun d : CoreCodec => d.runs.get? other = c.runs.get? other)
    (fun _ command _ hd => (encodeCommand_other command hne).trans hd) rfl

end Temporal

end Ignis
