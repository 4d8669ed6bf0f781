import Ignis.Temporal.Activities
import Ignis.Temporal.Queries

/-!
# The completions as protojson

`json_encode` decides from the keys of a PHP array whether it is a list or an object, and a field
that core declares as a message or a map is refused as a list.  So every array that stands for a
message has to have a member with a name, and an empty one has to be a `stdClass`; and an array that
stands for a list must not have a key of its own.

`Message` is as much of core's declarations as the completions of the codec use, and `conforms` is
what is asked of a document: a message or a map is an object, a repeated message a list of objects,
and a repeated scalar a list.  `completions_conform_iff` says for which commands that is so: the
arrays that come out empty are the result of a workflow and the answer to a query, where there is no
payload, and the metadata of a payload that has none; a metadata map with the keys 0, 1, … is a list
as well; and the error types of a retry policy are passed on with whatever keys they have.
-/

namespace Ignis

namespace Temporal

/-! ## The documents -/

def base64Alphabet : PhpString :=
  bytes "ABCDEFGHIJKLMNOPQRSTUVWXYZabcdefghijklmnopqrstuvwxyz0123456789+/"

def base64Char (n : ℕ) : UInt8 := base64Alphabet.getD (n % 64) 0

/-- `base64_encode`. -/
def base64Encode : PhpString → PhpString
  | a :: b :: c :: rest =>
      let n := a.toNat * 65536 + b.toNat * 256 + c.toNat
      base64Char (n / 262144) :: base64Char (n / 4096) :: base64Char (n / 64) :: base64Char n ::
        base64Encode rest
  | [a, b] =>
      let n := a.toNat * 65536 + b.toNat * 256
      [base64Char (n / 262144), base64Char (n / 4096), base64Char (n / 64), 61]
  | [a] =>
      let n := a.toNat * 65536
      [base64Char (n / 262144), base64Char (n / 4096), 61, 61]
  | [] => []

/-- The metadata as a PHP array: a name that spells an `int` becomes one. -/
def Payload.metadataEntries (p : Payload) : List (ArrayKey × Val) :=
  p.metadata.entries.map fun e => (ArrayKey.ofSymtable e.1, .str (base64Encode e.2))

def payloadDoc (p : Payload) : Val :=
  assoc [("metadata", .arr p.metadataEntries), ("data", .str (base64Encode p.data))]

/-- `payloads`. -/
def payloadsDoc (ps : List Payload) : Val := listVal (ps.map payloadDoc)

/-- The `array_filter` of the schedule commands: `head` is what follows the seq. -/
def Schedule.doc (s : Schedule) (head : List (String × Val)) (arguments : String) : Val :=
  assocFiltered ([("seq", Val.int s.seq)] ++ head ++ [(arguments, payloadsDoc s.payloads)] ++
    s.timeouts.map (fun t => (t.1, Val.ofString t.2)) ++
    [("retryPolicy", Val.ofOption s.retryPolicy)])

/-- `array_filter([name => $payload])`. -/
def optionalDoc (name : String) (p : Option Payload) : Val :=
  match p with
  | none => .arr []
  | some p => assoc [(name, payloadDoc p)]

def messageDoc (message : PhpString) : Val := assoc [("message", .str message)]

/-- `['failure' => ['message' => ...]]`. -/
def failureDoc (message : PhpString) : Val := assoc [("failure", messageDoc message)]

def seqDoc (seq : ℕ) : Val := assoc [("seq", .int seq)]

def UpdateOutcome.member : UpdateOutcome → String × Val
  | .rejected message => ("rejected", messageDoc message)
  | .accepted => ("accepted", .stdClass)
  | .completed none => ("completed", .stdClass)
  | .completed (some p) => ("completed", payloadDoc p)

def QueryOutcome.member : QueryOutcome → String × Val
  | .failed message => ("failed", messageDoc message)
  | .succeeded response => ("succeeded", optionalDoc "response" response)

def CoreCommand.doc : CoreCommand → Val
  | .scheduleActivity s taskQueue => assoc [("scheduleActivity",
      s.doc [("activityId", .str (intText s.seq)), ("activityType", .str s.type),
        ("taskQueue", .str taskQueue)] "arguments")]
  | .scheduleLocalActivity s => assoc [("scheduleLocalActivity",
      s.doc [("activityId", .str (intText s.seq)), ("activityType", .str s.type)] "arguments")]
  | .startTimer seq timeout => assoc [("startTimer",
      assoc [("seq", .int seq), ("startToFireTimeout", .str timeout)])]
  | .startChildWorkflowExecution s workflowId taskQueue => assoc [("startChildWorkflowExecution",
      s.doc [("workflowId", .str workflowId), ("workflowType", .str s.type),
        ("taskQueue", .str taskQueue)] "input")]
  | .cancelTimer seq => assoc [("cancelTimer", seqDoc seq)]
  | .requestCancelActivity seq => assoc [("requestCancelActivity", seqDoc seq)]
  | .requestCancelLocalActivity seq => assoc [("requestCancelLocalActivity", seqDoc seq)]
  | .cancelChildWorkflowExecution seq => assoc [("cancelChildWorkflowExecution",
      assoc [("childWorkflowSeq", .int seq), ("reason", .str (bytes "cancelled by the workflow"))])]
  | .completeWorkflowExecution result =>
      assoc [("completeWorkflowExecution", optionalDoc "result" result)]
  | .cancelWorkflowExecution => assoc [("cancelWorkflowExecution", .stdClass)]
  | .failWorkflowExecution message => assoc [("failWorkflowExecution", failureDoc message)]
  | .updateResponse protocolInstanceId outcome => assoc [("updateResponse",
      assoc [("protocolInstanceId", .str protocolInstanceId), outcome.member])]
  | .respondToQuery queryId outcome => assoc [("respondToQuery",
      assoc [("queryId", .str queryId), outcome.member])]

/-- The document of `encodeCompletion`. -/
def completionDoc (runId : PhpString) (commands : List CoreCommand) : Val :=
  assoc [("runId", .str runId),
    ("successful", assoc [("commands", listVal (commands.map CoreCommand.doc))])]

def ActivityResult.member : ActivityResult → String × Val
  | .completed none => ("completed", .stdClass)
  | .completed (some p) => ("completed", assoc [("result", payloadDoc p)])
  | .failed message => ("failed", failureDoc message)

/-- The document of `encodeActivityResult`. -/
def ActivityCompletion.doc (a : ActivityCompletion) : Val :=
  assoc [("taskToken", .ofString a.taskToken), ("result", assoc [a.result.member])]

/-! ## What core declares -/

/-- The messages of the completions.  `leaf` is any whose fields are all scalars; a `Duration` is a
string in protojson and counts as one. -/
inductive Message where
  | workflowActivationCompletion
  | success
  | workflowCommand
  | schedule
  | retryPolicy
  | completeWorkflowExecution
  | failure
  | updateResponse
  | queryResult
  | querySuccess
  | activityTaskCompletion
  | activityExecutionResult
  | payload
  | leaf
  deriving DecidableEq, Repr

inductive Field where
  /-- A scalar, of which nothing is asked. -/
  | any
  | message (m : Message)
  | map
  | repeated (m : Message)
  /-- A repeated scalar, of whose items nothing is asked. -/
  | scalars
  deriving DecidableEq, Repr

/-- The fields that are not single scalars. -/
def Message.fields : Message → List (String × Field)
  | .workflowActivationCompletion => [("successful", .message .success)]
  | .success => [("commands", .repeated .workflowCommand)]
  | .workflowCommand => [
      ("scheduleActivity", .message .schedule), ("scheduleLocalActivity", .message .schedule),
      ("startTimer", .message .leaf), ("startChildWorkflowExecution", .message .schedule),
      ("cancelTimer", .message .leaf), ("requestCancelActivity", .message .leaf),
      ("requestCancelLocalActivity", .message .leaf),
      ("cancelChildWorkflowExecution", .message .leaf),
      ("completeWorkflowExecution", .message .completeWorkflowExecution),
      ("cancelWorkflowExecution", .message .leaf), ("failWorkflowExecution", .message .failure),
      ("updateResponse", .message .updateResponse), ("respondToQuery", .message .queryResult)]
  | .schedule => [("arguments", .repeated .payload), ("input", .repeated .payload),
      ("retryPolicy", .message .retryPolicy)]
  | .retryPolicy => [("nonRetryableErrorTypes", .scalars)]
  | .completeWorkflowExecution => [("result", .message .payload)]
  | .failure => [("failure", .message .leaf)]
  | .updateResponse => [("rejected", .message .leaf), ("accepted", .message .leaf),
      ("completed", .message .payload)]
  | .queryResult => [("failed", .message .leaf), ("succeeded", .message .querySuccess)]
  | .querySuccess => [("response", .message .payload)]
  | .activityTaskCompletion => [("result", .message .activityExecutionResult)]
  | .activityExecutionResult =>
      [("completed", .message .completeWorkflowExecution), ("failed", .message .failure)]
  | .payload => [("metadata", .map)]
  | .leaf => []

def Message.field (m : Message) (name : PhpString) : Field :=
  ((m.fields.find? fun f => bytes f.1 == name).map Prod.snd).getD .any

mutual

/-- A message and a map are objects, a repeated field is a list. -/
def conforms : Field → Json → Bool
  | .any, _ => true
  | .map, .object _ => true
  | .message m, .object members => conformMembers m members
  | .repeated m, .list items => conformItems m items
  | .scalars, .list _ => true
  | _, _ => false

def conformMembers (m : Message) : List (PhpString × Json) → Bool
  | [] => true
  | (name, json) :: members => conforms (m.field name) json && conformMembers m members

def conformItems (m : Message) : List Json → Bool
  | [] => true
  | json :: items => conforms (.message m) json && conformItems m items

end

/-! ## The condition -/

/-- The metadata is not a list: it is not empty, and its names are not 0, 1, … in order. -/
def Payload.keyed (p : Payload) : Bool := !isList p.metadataEntries

/-- Every payload has such metadata. -/
def allKeyed : Converted → Bool
  | .ok payloads => payloads.all Payload.keyed
  | .error _ => true

/-- The first payload, if there is one, has such metadata. -/
def firstKeyed : Converted → Bool
  | .ok payloads => payloads.head?.all Payload.keyed
  | .error _ => true

/-- There is a first payload, with such metadata. -/
def presentKeyed : Converted → Bool
  | .ok payloads => payloads.head?.any Payload.keyed
  | .error _ => true

/-- The error types of a retry policy are a list, if there are any. -/
def listedTypes : Val → Bool
  | .null => true
  | .arr entries => isList entries
  | _ => false

/-- The retry policy in the options of a request, if it has one, has such error types. -/
def listedPolicy (options : Val) : Bool :=
  listedTypes (((arrayField options "options").get "RetryPolicy").get "NonRetryableErrorTypes")

/-- The commands that are encoded as core declares it; a response may be the answer to a query. -/
def Command.shaped (answering : Bool) : Command → Bool
  | .request name _ options payloads failure =>
      match scheduleKind name with
      | some .timer => true
      | some _ => allKeyed payloads && listedPolicy options
      | none => name != bytes "CompleteWorkflow" || failure.isSome || presentKeyed payloads
  | .updateResponse _ validated failure payloads =>
      failure.isSome || validated || payloads.all firstKeyed
  | .response failure payloads =>
      !answering || failure.isSome || payloads.any presentKeyed

/-- The same for a list, with the number of queries that wait for an answer. -/
def shapedFrom : ℕ → List Command → Bool
  | _, [] => true
  | waiting, command :: commands =>
      command.shaped (0 < waiting) &&
        shapedFrom (if Queries.isPlain command then waiting - 1 else waiting) commands

/-- The payload that completes an activity: the first of the last command that has any, unless a
command before has failed. -/
def activityPayload (p : Option Payload) : List Command → Option Payload
  | [] => p
  | command :: commands =>
      match command.failure with
      | some _ => none
      | none =>
          match command.values with
          | some (.ok payloads) => activityPayload payloads.head? commands
          | _ => activityPayload p commands

/-! ## Arrays with names -/

lemma membersJson_eq (entries : List (ArrayKey × Val)) :
    membersJson entries = entries.map fun e => (ArrayKey.text e.1, e.2.json) := by
  induction entries with
  | nil => rfl
  | cons e entries ih => rw [membersJson, ih, List.map_cons]

lemma itemsJson_eq (entries : List (ArrayKey × Val)) :
    itemsJson entries = entries.map fun e => e.2.json := by
  induction entries with
  | nil => rfl
  | cons e entries ih => rw [itemsJson, ih, List.map_cons]

@[simp] lemma conforms_any (json : Json) : conforms .any json = true := by
  cases json <;> rfl

lemma conformMembers_eq (m : Message) (members : List (PhpString × Json)) :
    conformMembers m members = members.all fun e => conforms (m.field e.1) e.2 := by
  induction members with
  | nil => rfl
  | cons e members ih => rw [conformMembers, ih, List.all_cons]

lemma conformItems_eq (m : Message) (items : List Json) :
    conformItems m items = items.all (conforms (.message m)) := by
  induction items with
  | nil => rfl
  | cons json items ih => rw [conformItems, ih, List.all_cons]

/-- An array with a first name is an object, and its members are looked at one by one. -/
lemma conforms_assoc (m : Message) (e : String × Val) (members : List (String × Val)) :
    conforms (.message m) (assoc (e :: members)).json
      = (e :: members).all fun e => conforms (m.field (bytes e.1)) e.2.json := by
  have hlist : isList ((key e.1, e.2) :: members.map fun m => (key m.1, m.2)) = false := rfl
  rw [assoc, List.map_cons, Val.json, hlist]
  simp only [Bool.false_eq_true, if_false, conforms, conformMembers_eq, membersJson_eq,
    ← List.map_cons (f := fun m : String × Val => (key m.1, m.2)), List.all_map]
  rfl

lemma isListFrom_zipIdx (vs : List Val) (n : ℕ) :
    isListFrom n ((vs.zipIdx n).map fun (v, i) => (ArrayKey.int i, v)) = true := by
  induction vs generalizing n with
  | nil => rfl
  | cons v vs ih =>
      have := ih (n + 1)
      simpa [isListFrom] using this

lemma conforms_listVal (m : Message) (vs : List Val) :
    conforms (.repeated m) (listVal vs).json = vs.all fun v => conforms (.message m) v.json := by
  have hlist : isList (vs.zipIdx.map fun (v, i) => (ArrayKey.int i, v)) = true :=
    isListFrom_zipIdx vs 0
  rw [listVal, Val.json, hlist]
  simp only [if_true, conforms, conformItems_eq, itemsJson_eq, List.map_map, List.all_map]
  conv_rhs => rw [← List.zipIdx_map_fst 0 vs, List.all_map]
  rfl

/-! ## Payloads -/

lemma conforms_payloadDoc (p : Payload) :
    conforms (.message .payload) (payloadDoc p).json = p.keyed := by
  have hmap : conforms .map (Val.arr p.metadataEntries).json = p.keyed := by
    rw [Val.json, Payload.keyed]
    cases isList p.metadataEntries <;> rfl
  have hmetadata : Message.field .payload (bytes "metadata") = .map := by decide
  have hdata : Message.field .payload (bytes "data") = .any := by decide
  rw [payloadDoc, conforms_assoc]
  simp [hmetadata, hdata, hmap]

lemma conforms_payloadsDoc (ps : List Payload) :
    conforms (.repeated .payload) (payloadsDoc ps).json = ps.all Payload.keyed := by
  rw [payloadsDoc, conforms_listVal, List.all_map]
  exact List.all_congr rfl conforms_payloadDoc

/-- A message whose fields are all scalars asks for a name only. -/
lemma conforms_leaf (e : String × Val) (members : List (String × Val)) :
    conforms (.message .leaf) (assoc (e :: members)).json = true := by
  rw [conforms_assoc]
  exact List.all_eq_true.2 fun e _ => conforms_any e.2.json

lemma conforms_stdClass (m : Message) : conforms (.message m) Val.stdClass.json = true := rfl

/-- The same of a member that `array_filter` may have dropped. -/
def conformsKept (f : Field) (v : Val) : Bool := !v.kept || conforms f v.json

@[simp] lemma conformsKept_any (v : Val) : conformsKept .any v = true := by
  rw [conformsKept, conforms_any, Bool.or_true]

/-- What `array_filter` leaves of an array, where it leaves anything. -/
lemma conforms_assocFiltered (m : Message) {members : List (String × Val)}
    (hkept : members.filter (fun e => e.2.kept) ≠ []) :
    conforms (.message m) (assocFiltered members).json
      = members.all fun e => conformsKept (m.field (bytes e.1)) e.2 := by
  obtain ⟨e, rest, hfilter⟩ := List.exists_cons_of_ne_nil hkept
  rw [assocFiltered, hfilter, conforms_assoc, ← hfilter, List.all_filter]
  rfl

/-- An array that is written only where the filter leaves anything of it. -/
lemma conformsKept_ofFiltered (m : Message) (members : List (String × Val)) :
    conformsKept (.message m) (.ofOption (if (assocFiltered members).entries.isEmpty then none
        else some (assocFiltered members)))
      = members.all fun e => conformsKept (m.field (bytes e.1)) e.2 := by
  cases hfilter : members.filter fun e => e.2.kept with
  | nil =>
      have hdropped : ∀ e ∈ members, conformsKept (m.field (bytes e.1)) e.2 = true := fun e he => by
        simp [conformsKept, List.filter_eq_nil_iff.1 hfilter e he]
      rw [List.all_eq_true.2 hdropped, assocFiltered, hfilter]
      rfl
  | cons e rest =>
      rw [← conforms_assocFiltered m (by simp [hfilter]), assocFiltered, hfilter]
      rfl

lemma conformsKept_types (types : Val) : conformsKept .scalars types = listedTypes types := by
  cases types with
  | arr entries =>
      cases entries with
      | nil => rfl
      | cons e entries =>
          rw [conformsKept, Val.json, listedTypes]
          cases isList (e :: entries) <;> rfl
  | _ => rfl

/-- A retry policy asks something of its error types only. -/
lemma conformsKept_retryPolicy (host : Host) (policy : Val) :
    conformsKept (.message .retryPolicy) (.ofOption (retryPolicy host policy))
      = listedTypes (policy.get "NonRetryableErrorTypes") := by
  have hany : ∀ name ∈ ["initialInterval", "backoffCoefficient", "maximumInterval",
      "maximumAttempts"], Message.field .retryPolicy (bytes name) = .any := by decide +kernel
  have htypes : Message.field .retryPolicy (bytes "nonRetryableErrorTypes") = .scalars := by decide
  cases policy with
  | arr entries =>
      refine (conformsKept_ofFiltered .retryPolicy _).trans ?_
      simp [hany, htypes, conformsKept_types]
  | _ => rfl

/-! ## Commands -/

/-- The fields of a schedule command, whichever it is: those that are not filtered out are a seq,
texts, the payloads and the retry policy, and only the last two ask for something. -/
lemma conforms_schedule {s : Schedule} {head : List (String × Val)} {arguments : String}
    (hhead : ∀ name ∈ head.map Prod.fst, Message.field .schedule (bytes name) = .any)
    (harguments : Message.field .schedule (bytes arguments) = .repeated .payload)
    (htimeouts : ∀ name ∈ s.timeouts.map Prod.fst, Message.field .schedule (bytes name) = .any) :
    conforms (.message .schedule) (s.doc head arguments).json
      = (s.payloads.all Payload.keyed
        && conformsKept (.message .retryPolicy) (.ofOption s.retryPolicy)) := by
  have hseq : Message.field .schedule (bytes "seq") = .any := by decide
  have hpolicy : Message.field .schedule (bytes "retryPolicy") = .message .retryPolicy := by decide
  have hheads : (head.all fun e =>
      conformsKept (Message.field .schedule (bytes e.1)) e.2) = true :=
    List.all_eq_true.2 fun e he => by simp [hhead _ (List.mem_map_of_mem he)]
  have htimes : ((s.timeouts.map fun t => (t.1, Val.ofString t.2)).all fun e =>
      conformsKept (Message.field .schedule (bytes e.1)) e.2) = true := by
    rw [List.all_map]
    exact List.all_eq_true.2 fun t ht => by
      simp [htimeouts _ (List.mem_map_of_mem ht)]
  have hpayloads : conformsKept (.repeated .payload) (payloadsDoc s.payloads)
      = s.payloads.all Payload.keyed := by
    rw [conformsKept, conforms_payloadsDoc]
    cases s.payloads <;> rfl
  rw [Schedule.doc, conforms_assocFiltered .schedule (by simp [Val.kept])]
  simp only [List.all_cons, List.all_append, List.all_nil, hheads, htimes, hpolicy, hseq,
    harguments, hpayloads, conformsKept_any, Bool.true_and, Bool.and_true]

/-- No two fields of a message have one name, so each name of the list finds its own field. -/
lemma Message.field_of_mem {m : Message} {name : String} {f : Field} (h : (name, f) ∈ m.fields) :
    m.field (bytes name) = f := by
  have hfields : ∀ e ∈ m.fields, m.field (bytes e.1) = e.2 := by
    cases m <;> decide +kernel
  exact hfields (name, f) h

/-- One command of the list, by its body. -/
lemma conforms_command {name : String} (m : Message) (v : Val)
    (h : (name, .message m) ∈ Message.fields .workflowCommand) :
    conforms (.message .workflowCommand) (assoc [(name, v)]).json
      = conforms (.message m) v.json := by
  rw [conforms_assoc]
  simp [Message.field_of_mem h]

lemma conforms_optionalDoc {m : Message} {name : String} (p : Option Payload)
    (h : Message.field m (bytes name) = .message .payload) :
    conforms (.message m) (optionalDoc name p).json = p.any Payload.keyed := by
  cases p with
  | none => rfl
  | some p =>
      show conforms (.message m) (assoc [(name, payloadDoc p)]).json = p.keyed
      rw [conforms_assoc]
      simp [h, conforms_payloadDoc]

/-- The commands of a request that schedules something. -/
lemma conforms_scheduleCommand (host : Host) (kind : Kind) (seq : ℕ) (options : Val)
    (payloads : List Payload) :
    conforms (.message .workflowCommand) (scheduleCommand host kind seq options payloads).doc.json
      = (kind == .timer || payloads.all Payload.keyed && listedPolicy options) := by
  have hpolicy := conformsKept_retryPolicy host ((arrayField options "options").get "RetryPolicy")
  cases kind with
  | timer => exact (conforms_command _ _ (by simp [Message.fields])).trans (conforms_leaf _ _)
  | activity =>
      refine (conforms_command _ _ (by simp [Message.fields])).trans
        ((conforms_schedule ?_ (by decide) ?_).trans (congrArg _ hpolicy))
      · show ∀ name ∈ ["activityId", "activityType", "taskQueue"], _
        decide +kernel
      · show ∀ name ∈ ["startToCloseTimeout", "scheduleToCloseTimeout", "scheduleToStartTimeout",
          "heartbeatTimeout"], _
        decide +kernel
  | localActivity =>
      refine (conforms_command _ _ (by simp [Message.fields])).trans
        ((conforms_schedule ?_ (by decide) ?_).trans (congrArg _ hpolicy))
      · show ∀ name ∈ ["activityId", "activityType"], _
        decide +kernel
      · show ∀ name ∈ ["startToCloseTimeout", "scheduleToCloseTimeout"], _
        decide +kernel
  | child =>
      refine (conforms_command _ _ (by simp [Message.fields])).trans
        ((conforms_schedule ?_ (by decide) ?_).trans (congrArg _ hpolicy))
      · show ∀ name ∈ ["workflowId", "workflowType", "taskQueue"], _
        decide +kernel
      · show ∀ name ∈ ["workflowExecutionTimeout", "workflowRunTimeout", "workflowTaskTimeout"], _
        decide +kernel

lemma conforms_failureDoc (message : PhpString) :
    conforms (.message .failure) (failureDoc message).json = true := by
  have hfailure : Message.field .failure (bytes "failure") = .message .leaf := by decide
  rw [failureDoc, conforms_assoc]
  simp [hfailure, messageDoc, conforms_leaf]

lemma conforms_fail (message : PhpString) :
    conforms (.message .workflowCommand) (CoreCommand.failWorkflowExecution message).doc.json
      = true :=
  (conforms_command .failure _ (by simp [Message.fields])).trans (conforms_failureDoc message)

lemma conforms_cancelOf {c : CoreCodec} {runId : PhpString} {id : ReqId} {command : CoreCommand}
    (h : cancelOf c runId id = some command) :
    conforms (.message .workflowCommand) command.doc.json = true := by
  obtain ⟨⟨seq, kind⟩, -, rfl⟩ := Option.map_eq_some_iff.1 h
  cases kind <;> exact (conforms_command _ _ (by simp [Message.fields])).trans (conforms_leaf _ _)

lemma conforms_completion (failure : Option Failure) (payloads : List Payload) :
    conforms (.message .workflowCommand) (completion failure payloads).doc.json
      = (failure.isSome || payloads.head?.any Payload.keyed) := by
  cases failure with
  | none =>
      exact (conforms_command .completeWorkflowExecution _ (by simp [Message.fields])).trans
        (conforms_optionalDoc payloads.head? (by decide))
  | some f =>
      simp only [completion]
      split_ifs
      · exact (conforms_command _ _ (by simp [Message.fields])).trans (conforms_stdClass .leaf)
      · exact conforms_fail f.message

/-- The payloads in an answer to an update and in the result of an activity. -/
def UpdateOutcome.payload : UpdateOutcome → Option Payload
  | .completed p => p
  | _ => none

def ActivityResult.payload : ActivityResult → Option Payload
  | .completed p => p
  | .failed _ => none

/-- The answer to an update: a message beside the id of the protocol instance. -/
lemma conforms_updateResponse (protocolInstanceId : PhpString) (outcome : UpdateOutcome) :
    conforms (.message .workflowCommand)
        (CoreCommand.updateResponse protocolInstanceId outcome).doc.json
      = outcome.payload.all Payload.keyed := by
  have hinstance : Message.field .updateResponse (bytes "protocolInstanceId") = .any := by decide
  have hrejected : Message.field .updateResponse (bytes "rejected") = .message .leaf := by decide
  have haccepted : Message.field .updateResponse (bytes "accepted") = .message .leaf := by decide
  have hcompleted : Message.field .updateResponse (bytes "completed") = .message .payload := by
    decide
  refine (conforms_command .updateResponse _ (by simp [Message.fields])).trans ?_
  rw [conforms_assoc]
  cases outcome with
  | rejected message =>
      simp [hinstance, hrejected, UpdateOutcome.member, messageDoc, conforms_leaf,
        UpdateOutcome.payload]
  | accepted =>
      simp [hinstance, haccepted, UpdateOutcome.member, conforms_stdClass, UpdateOutcome.payload]
  | completed p =>
      cases p with
      | none =>
          simp [hinstance, hcompleted, UpdateOutcome.member, conforms_stdClass,
            UpdateOutcome.payload]
      | some p =>
          simp [hinstance, hcompleted, UpdateOutcome.member, conforms_payloadDoc,
            UpdateOutcome.payload]

lemma conforms_respondToQuery (queryId : PhpString) (outcome : QueryOutcome) :
    conforms (.message .workflowCommand) (CoreCommand.respondToQuery queryId outcome).doc.json
      = match outcome with
        | .failed _ => true
        | .succeeded response => response.any Payload.keyed := by
  have hid : Message.field .queryResult (bytes "queryId") = .any := by decide
  have hfailed : Message.field .queryResult (bytes "failed") = .message .leaf := by decide
  have hsucceeded : Message.field .queryResult (bytes "succeeded") = .message .querySuccess := by
    decide
  have hresponse : Message.field .querySuccess (bytes "response") = .message .payload := by decide
  refine (conforms_command .queryResult _ (by simp [Message.fields])).trans ?_
  rw [conforms_assoc]
  cases outcome with
  | failed message => simp [hid, hfailed, QueryOutcome.member, messageDoc, conforms_leaf]
  | succeeded response =>
      simp [hid, hsucceeded, QueryOutcome.member, conforms_optionalDoc response hresponse]

/-! ## Completions -/

lemma conforms_update {c : CoreCodec} {runId : PhpString} {options : Val} {validated : Bool}
    {failure : Option Failure} {payloads : Option Converted} {core : CoreCommand}
    (h : updateResponse c runId options validated failure payloads = .ok core) :
    conforms (.message .workflowCommand) core.doc.json
      = (failure.isSome || validated || payloads.all firstKeyed) := by
  cases failure with
  | some f =>
      cases h
      exact conforms_updateResponse _ _
  | none =>
      cases validated with
      | true =>
          cases h
          exact conforms_updateResponse _ _
      | false =>
          obtain ⟨p, hp, rfl⟩ := Fallible.of_map_eq_ok h
          rw [conforms_updateResponse]
          cases payloads with
          | none =>
              cases hp
              rfl
          | some payloads =>
              obtain ⟨ps, rfl, rfl⟩ := Fallible.of_map_eq_ok hp
              rfl

lemma conforms_queryResult {queryId : PhpString} {failure : Option Failure}
    {payloads : Option Converted} {core : CoreCommand}
    (h : queryResult queryId failure payloads = .ok core) :
    conforms (.message .workflowCommand) core.doc.json
      = (failure.isSome || payloads.any presentKeyed) := by
  cases failure with
  | some f =>
      cases h
      exact conforms_respondToQuery _ _
  | none =>
      obtain ⟨p, hp, rfl⟩ := Fallible.of_map_eq_ok h
      rw [conforms_respondToQuery]
      cases payloads with
      | none =>
          cases hp
          rfl
      | some payloads =>
          obtain ⟨ps, rfl, rfl⟩ := Fallible.of_map_eq_ok hp
          rfl

lemma conforms_scheduled {host : Host} {kind : Kind} {seq : ℕ} {options : Val}
    {payloads : Converted} {core : CoreCommand}
    (h : schedule host kind seq options payloads = .ok core) :
    conforms (.message .workflowCommand) core.doc.json
      = (kind == .timer || allKeyed payloads && listedPolicy options) := by
  obtain ⟨ps, rfl, rfl | rfl⟩ := schedule_ok h
  · exact conforms_scheduleCommand host .timer seq options ps
  · exact conforms_scheduleCommand host kind seq options ps

/-- What one command is encoded to. -/
lemma conforms_encodeCommand {host : Host} {c : CoreCodec} {runId : PhpString} {command : Command}
    {out : List CoreCommand} (h : (encodeCommand host c runId command).2 = .ok out) :
    (out.all fun core => conforms (.message .workflowCommand) core.doc.json)
      = command.shaped (0 < (c.run runId).queries.length) := by
  cases command with
  | updateResponse options validated failure payloads =>
      obtain ⟨core, hcore, rfl⟩ := Fallible.of_map_eq_ok h
      rw [List.all_cons, List.all_nil, Bool.and_true, conforms_update hcore]
      rfl
  | response failure payloads =>
      simp only [encodeCommand, encodeIfQueryResponse] at h
      split at h
      next hnil =>
        cases h
        simp [Command.shaped, hnil]
      next hcons =>
        obtain ⟨core, hcore, rfl⟩ := Fallible.of_map_eq_ok h
        rw [List.all_cons, List.all_nil, Bool.and_true, conforms_queryResult hcore, hcons]
        simp [Command.shaped]
  | request name id options payloads failure =>
      simp only [encodeCommand] at h
      simp only [Command.shaped]
      cases hkind : scheduleKind name with
      | some kind =>
          rw [hkind] at h
          obtain ⟨core, hcore, rfl⟩ := Fallible.of_map_eq_ok h
          rw [List.all_cons, List.all_nil, Bool.and_true, conforms_scheduled hcore]
          cases kind <;> rfl
      | none =>
          rw [hkind] at h
          simp only at h ⊢
          -- of the other requests only `CompleteWorkflow` has a payload to send
          split_ifs at h with hget hcancel hcomplete hpanic
          · cases h
            have hne : bytes "GetChildWorkflowExecution" ≠ bytes "CompleteWorkflow" := by decide
            simp [hget, hne]
          · cases h
            have hne : bytes "Cancel" ≠ bytes "CompleteWorkflow" := by decide
            rw [hcancel, bne_iff_ne.2 hne, Bool.true_or, Bool.true_or, List.all_eq_true]
            intro core hmem
            obtain ⟨target, -, hof⟩ := List.mem_filterMap.1 hmem
            exact conforms_cancelOf hof
          · obtain ⟨ps, rfl, rfl⟩ := Fallible.of_map_eq_ok h
            rw [List.all_cons, List.all_nil, Bool.and_true, conforms_completion, hcomplete]
            simp [presentKeyed]
          · cases h
            have hne : bytes "Panic" ≠ bytes "CompleteWorkflow" := by decide
            rw [List.all_cons, List.all_nil, Bool.and_true, hpanic, bne_iff_ne.2 hne]
            exact conforms_fail _

lemma conforms_encodeCommands {host : Host} {c : CoreCodec} {runId : PhpString}
    {commands : List Command} {out : List CoreCommand}
    (h : (encodeCommands host c runId commands).2 = .ok out) :
    (out.all fun core => conforms (.message .workflowCommand) core.doc.json)
      = shapedFrom (c.run runId).queries.length commands := by
  induction commands generalizing c out with
  | nil =>
      cases h
      rfl
  | cons command commands ih =>
      rw [encodeCommands] at h
      obtain ⟨first, rest, hfirst, hrest, rfl⟩ := Fallible.of_forEach_cons_eq_ok h
      rw [List.all_append, conforms_encodeCommand hfirst, ih hrest,
        Queries.encodeCommand_queries, shapedFrom, Queries.dequeue]
      split_ifs
      · rw [List.length_tail]
      · rfl

lemma conforms_completionDoc (runId : PhpString) (commands : List CoreCommand) :
    conforms (.message .workflowActivationCompletion) (completionDoc runId commands).json
      = commands.all fun core => conforms (.message .workflowCommand) core.doc.json := by
  have hrunId : Message.field .workflowActivationCompletion (bytes "runId") = .any := by decide
  have hsuccessful : Message.field .workflowActivationCompletion (bytes "successful")
      = .message .success := by decide
  have hcommands : Message.field .success (bytes "commands") = .repeated .workflowCommand := by
    decide
  rw [completionDoc, conforms_assoc]
  simp only [List.all_cons, List.all_nil, hrunId, hsuccessful, conforms_any, Bool.true_and,
    Bool.and_true]
  rw [conforms_assoc]
  simp only [List.all_cons, List.all_nil, hcommands, Bool.and_true, conforms_listVal, List.all_map]
  rfl

/-! ## Activities -/

lemma conforms_activity (token : Option PhpString) (result : ActivityResult) :
    conforms (.message .activityTaskCompletion) (ActivityCompletion.doc ⟨token, result⟩).json
      = result.payload.all Payload.keyed := by
  have htoken : Message.field .activityTaskCompletion (bytes "taskToken") = .any := by decide
  have hresult : Message.field .activityTaskCompletion (bytes "result")
      = .message .activityExecutionResult := by decide
  have hcompleted : Message.field .activityExecutionResult (bytes "completed")
      = .message .completeWorkflowExecution := by decide
  have hfailed : Message.field .activityExecutionResult (bytes "failed") = .message .failure := by
    decide
  have hpayload : Message.field .completeWorkflowExecution (bytes "result")
      = .message .payload := by decide
  rw [ActivityCompletion.doc, conforms_assoc]
  simp only [List.all_cons, List.all_nil, htoken, hresult, conforms_any, Bool.true_and,
    Bool.and_true, conforms_assoc]
  cases result with
  | failed message =>
      simp [ActivityResult.member, hfailed, conforms_failureDoc, ActivityResult.payload]
  | completed p =>
      cases p with
      | none => simp [ActivityResult.member, hcompleted, conforms_stdClass, ActivityResult.payload]
      | some p =>
          simp [ActivityResult.member, hcompleted, conforms_assoc, hpayload, conforms_payloadDoc,
            ActivityResult.payload]

/-- The payload that is sent. -/
lemma activityResult_payload {p : Option Payload} {commands : List Command}
    {result : ActivityResult} (h : activityResult (.completed p) commands = .ok result) :
    result.payload = activityPayload p commands := by
  induction commands generalizing p with
  | nil =>
      cases h
      rfl
  | cons command commands ih =>
      rw [activityResult] at h
      rw [activityPayload]
      cases hfailure : command.failure with
      | some f =>
          rw [hfailure] at h
          cases h
          rfl
      | none =>
          rw [hfailure] at h
          cases hvalues : command.values with
          | none =>
              rw [hvalues] at h
              exact ih h
          | some payloads =>
              rw [hvalues] at h
              cases payloads with
              | error e => cases h
              | ok payloads => exact ih h

/-- **Which completions are as core declares them.**  Those of a list of commands with a payload for
every result of a workflow and every answer to a query, with metadata that is not a list in every
payload that is sent, and with error types that are a list in every retry policy; and those of an
activity whose payload, if any, has such metadata. -/
theorem completions_conform_iff (host : Host) (c : CoreCodec) (commands : List Command) :
    (∀ out, (encodeCompletion host c commands).2 = .ok out →
      (conforms (.message .workflowActivationCompletion) (completionDoc c.runId out).json = true ↔
        shapedFrom (c.run c.runId).queries.length commands = true)) ∧
    (∀ completion, encodeActivityResult c commands = .ok completion →
      (conforms (.message .activityTaskCompletion) completion.doc.json = true ↔
        (activityPayload none commands).all Payload.keyed = true)) := by
  refine ⟨fun out hout => ?_, fun completion hcompletion => ?_⟩
  · rw [conforms_completionDoc, conforms_encodeCommands hout]
  · obtain ⟨result, hresult, rfl⟩ := Fallible.of_map_eq_ok hcompletion
    rw [conforms_activity, activityResult_payload hresult]

/-- `{"metadata": {"encoding": ...}, "data": ...}`. -/
def plainPayload : Payload :=
  ⟨(∅ : OrdMap PhpString PhpString).set (bytes "encoding") (bytes "json/plain"), bytes "1"⟩

def completeWith (payloads : List Payload) : Command :=
  .request (bytes "CompleteWorkflow") (.int 1) (.arr []) (.ok payloads) none

/-- A workflow that returns a value, and an activity that does. -/
theorem completions_conform_with_result (host : Host) :
    conforms (.message .workflowActivationCompletion)
        (completionDoc [] [.completeWorkflowExecution (some plainPayload)]).json = true ∧
      conforms (.message .activityTaskCompletion)
        (ActivityCompletion.doc ⟨none, .completed (some plainPayload)⟩).json = true := by
  have h := completions_conform_iff host .init [completeWith [plainPayload]]
  exact ⟨(h.1 _ rfl).2 (by decide), (h.2 _ rfl).2 (by decide)⟩

/-- A workflow that returns nothing: its result is encoded as `[]`. -/
theorem void_result_is_a_list :
    ¬ ∀ host c commands out, (encodeCompletion host c commands).2 = .ok out →
      conforms (.message .workflowActivationCompletion)
        (completionDoc c.runId out).json = true := by
  intro h
  have hvoid := h ⟨[], fun _ => none, fun _ _ _ => [], []⟩ .init [completeWith []] _ rfl
  exact absurd hvoid (by decide)

end Temporal

end Ignis
