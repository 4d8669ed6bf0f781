import Ignis.Lib.StepSystem
import Ignis.Temporal.Codec

/-!
# The answers to queries

A query has no id on the side of sdk-php.  `decodeActivation` appends its `queryId` to the list of
the run, and `encodeCompletion` takes every response that is neither a request nor an update
response for the answer to the first query of the list.  So the list has to be empty when a batch
begins, and the responses of the batch have to begin with the answers to its queries, in order.

The list outlives a batch.  It is shortened by `encodeCompletion` alone: a batch that fails, in
`decode`, in sdk-php or in `encode` itself, is answered by `encodeFailure`, which leaves the list as
it is.  `queries_paired_iff` says that the answers are paired with their queries exactly in the runs
in which no failing batch leaves a query behind and the responses come in that order.
-/

namespace Ignis

namespace Temporal

namespace Queries

/-! ## Definitions -/

/-- A command of sdk-php, and for a response to a query the `queryId` of the query. -/
structure Reply where
  command : Command
  query : Option PhpString

/-- A workflow task: the activation that is polled, and what sdk-php makes of what `decode` gives
it, unless it throws. -/
structure Batch where
  activation : Val
  replies : Option (List Reply)

/-- The codec, and each `respondToQuery` that was sent: the id it carries, and the query whose
response it encodes. -/
structure World where
  codec : CoreCodec
  answers : List (PhpString × Option PhpString)

def World.init : World := ⟨.init, []⟩

/-- The `queryId` of a `respondToQuery`. -/
def respondsTo : CoreCommand → Option PhpString
  | .respondToQuery queryId _ => some queryId
  | _ => none

/-- The `respondToQuery` commands that the replies are encoded to. -/
def answersOf (host : Host) (runId : PhpString) :
    CoreCodec → List Reply → List (PhpString × Option PhpString)
  | _, [] => []
  | c, reply :: replies =>
      match encodeCommand host c runId reply.command with
      | (_, .error _) => []
      | (c, .ok out) =>
          (out.filterMap respondsTo).map (fun queryId => (queryId, reply.query)) ++
            answersOf host runId c replies

/-- One turn of the loop of sdk-php: `waitBatch`, then `send` of what `encode` gives, or `error`. -/
def answer (host : Host) (w : World) (b : Batch) : World :=
  match decodeActivation host (forBatch w.codec) b.activation with
  | (c, .error _) => { w with codec := c }
  | (c, .ok _) =>
      match b.replies with
      | none => { w with codec := c }
      | some replies =>
          match encodeCompletion host c (replies.map Reply.command) with
          | (c', .error _) => { w with codec := c' }
          | (c', .ok _) => ⟨c', w.answers ++ answersOf host c.runId c replies⟩

/-- Between batches no query is on a list, and every answer went to its query. -/
structure World.Paired (w : World) : Prop where
  queries : ∀ runId, (w.codec.run runId).queries = []
  answers : ∀ a ∈ w.answers, a.2 = some a.1

/-! ### The condition -/

/-- What a job does to the list of its run. -/
def queue (queries : List PhpString) : Job → List PhpString
  | .initializeWorkflow _ | .removeFromCache => []
  | .queryWorkflow queryId _ _ => queries ++ [queryId]
  | _ => queries

/-- The responses that `encodeIfQueryResponse` is asked about. -/
def isPlain : Command → Bool
  | .response _ _ => true
  | _ => false

/-- The list that `decode` leaves to `encode`: the jobs up to the first that throws, from the list
that the run has. -/
def Batch.pending (host : Host) (w : World) (b : Batch) : List PhpString :=
  match required (b.activation.get "runId") "runId" with
  | .error _ => []
  | .ok runId =>
      (Fallible.reached (fun c job => decodeJob c runId job)
        { forBatch w.codec with runId := runId }
        ((listOfArraysField b.activation "jobs").filterMap (Job.ofDocument host))).foldl queue
        (w.codec.run runId).queries

/-- A batch that is answered by `encodeFailure` leaves no query on the list; the plain responses of
any other begin with the answers to the queries on the list, in their order. -/
def Batch.InOrder (host : Host) (w : World) (b : Batch) : Prop :=
  match decodeActivation host (forBatch w.codec) b.activation, b.replies with
  | (c, .ok _), some replies =>
      match (encodeCompletion host c (replies.map Reply.command)).2 with
      | .ok _ =>
          (b.pending host w).map some <+:
            (replies.filter fun reply => isPlain reply.command).map Reply.query
      | .error _ =>
          -- the responses up to the command that is refused have been taken for answers
          (b.pending host w).length ≤
            (Fallible.reached (fun d command => encodeCommand host d c.runId command) c
              (replies.map Reply.command)).countP isPlain
  | _, _ => b.pending host w = []

/-! ## The list of a run -/

lemma decodeJob_queries (c : CoreCodec) (runId : PhpString) (job : Job) :
    ((decodeJob c runId job).1.run runId).queries = queue (c.run runId).queries job := by
  have htake : ∀ s, ((takeId c runId s).1.run runId).queries = (c.run runId).queries := by
    intro s
    simp only [takeId]
    split <;> simp
  cases job with
  | initializeWorkflow _ => simp [decodeJob, reset, emptyRun, queue]
  | fireTimer s => exact htake s
  | resolveActivity s _ => exact htake s
  | resolveChildWorkflowExecution s _ => exact htake s
  | resolveChildWorkflowExecutionStart s _ =>
      simp only [decodeJob, queue]
      split <;> simp
  | queryWorkflow _ _ _ => simp [decodeJob, queue]
  | doUpdate _ _ _ _ _ => simp [decodeJob, queue]
  | signalWorkflow _ _ => rfl
  | cancelWorkflow _ => rfl
  | removeFromCache => simp [decodeJob, queue, CoreCodec.run, emptyRun]

/-- What a command does to the list. -/
def dequeue (queries : List PhpString) (command : Command) : List PhpString :=
  if isPlain command then queries.tail else queries

lemma encodeCommand_queries (host : Host) (c : CoreCodec) (runId : PhpString) (command : Command) :
    ((encodeCommand host c runId command).1.run runId).queries
      = dequeue (c.run runId).queries command := by
  cases command with
  | updateResponse _ _ _ _ => rfl
  | response _ _ =>
      simp only [encodeCommand, encodeIfQueryResponse, dequeue, isPlain, if_true]
      split
      next hnil => simp [hnil]
      next hcons => simp [hcons]
  | request name id options payloads failure =>
      simp only [encodeCommand, dequeue, isPlain, Bool.false_eq_true, if_false]
      split
      · simp [nextSeq]
      · split_ifs
        · simp only [rememberChildStartWaiter]
          split <;> simp
        all_goals rfl

lemma foldl_dequeue (commands : List Command) (queries : List PhpString) :
    commands.foldl dequeue queries = queries.drop (commands.countP isPlain) := by
  induction commands generalizing queries with
  | nil => rfl
  | cons command commands ih =>
      rw [List.foldl_cons, ih, List.countP_cons]
      cases hplain : isPlain command with
      | false => simp [dequeue, hplain]
      | true => simp [dequeue, hplain, ← List.drop_one, Nat.add_comm]

/-! ## Batches -/

/-- What `decode` leaves: the list of the run it is about, and nothing of the others. -/
lemma decode_queries (host : Host) {w : World} (h : w.Paired) (b : Batch) :
    let c := (decodeActivation host (forBatch w.codec) b.activation).1
    (c.run c.runId).queries = b.pending host w ∧
      ∀ other, other ≠ c.runId → (c.run other).queries = [] := by
  simp only [decodeActivation, Batch.pending]
  cases required (b.activation.get "runId") "runId" with
  | error e => exact ⟨h.queries _, fun other _ => h.queries other⟩
  | ok runId =>
      generalize (listOfArraysField b.activation "jobs").filterMap (Job.ofDocument host) = jobs
      have hrunId := decodeJobs_runId { forBatch w.codec with runId := runId } runId jobs
      rw [hrunId]
      refine ⟨?_, fun other hne => ?_⟩
      · exact Fallible.view_forEach (fun c : CoreCodec => (c.run runId).queries)
          (fun c job => decodeJob_queries c runId job) _ jobs
      · rw [run_eq_of_get? (decodeJobs_other _ jobs hne)]
        exact h.queries other

/-- What `encode` leaves. -/
lemma encode_queries (host : Host) (c : CoreCodec) (commands : List Command) :
    ((encodeCompletion host c commands).1.run c.runId).queries
      = (c.run c.runId).queries.drop
          ((Fallible.reached (fun d command => encodeCommand host d c.runId command) c
            commands).countP isPlain) := by
  rw [← foldl_dequeue]
  exact Fallible.view_forEach (fun d : CoreCodec => (d.run c.runId).queries)
    (fun d command => encodeCommand_queries host d c.runId command) c commands

lemma encode_other (host : Host) (c : CoreCodec) (commands : List Command) {other : PhpString}
    (hne : other ≠ c.runId) : (encodeCompletion host c commands).1.run other = c.run other :=
  run_eq_of_get? (encodeCommands_other host c commands hne)

/-! ## Answers -/

lemma respondsTo_schedule {host : Host} {kind : Kind} {seq : ℕ} {options : Val}
    {payloads : Converted} {command : CoreCommand}
    (h : schedule host kind seq options payloads = .ok command) : respondsTo command = none := by
  obtain ⟨ps, rfl, -⟩ := schedule_ok h
  cases kind <;> rfl

lemma respondsTo_completion (failure : Option Failure) (payloads : List Payload) :
    respondsTo (completion failure payloads) = none := by
  cases failure with
  | none => rfl
  | some f =>
      simp only [completion]
      split_ifs <;> rfl

lemma respondsTo_cancelOf {c : CoreCodec} {runId : PhpString} {id : ReqId} {command : CoreCommand}
    (h : cancelOf c runId id = some command) : respondsTo command = none := by
  obtain ⟨⟨seq, kind⟩, -, rfl⟩ := Option.map_eq_some_iff.1 h
  cases kind <;> rfl

lemma respondsTo_updateResponse {c : CoreCodec} {runId : PhpString} {options : Val}
    {validated : Bool} {failure : Option Failure} {payloads : Option Converted}
    {command : CoreCommand}
    (h : updateResponse c runId options validated failure payloads = .ok command) :
    respondsTo command = none := by
  cases failure with
  | some f =>
      cases h
      rfl
  | none =>
      simp only [updateResponse] at h
      split_ifs at h
      · cases h
        rfl
      · obtain ⟨p, -, rfl⟩ := Fallible.of_map_eq_ok h
        rfl

lemma respondsTo_queryResult {queryId : PhpString} {failure : Option Failure}
    {payloads : Option Converted} {command : CoreCommand}
    (h : queryResult queryId failure payloads = .ok command) :
    respondsTo command = some queryId := by
  cases failure with
  | some f =>
      cases h
      rfl
  | none =>
      obtain ⟨p, -, rfl⟩ := Fallible.of_map_eq_ok h
      rfl

/-- Nothing but a response is encoded to a `respondToQuery`, and it takes the first of the list. -/
lemma respondsTo_encode {host : Host} {c : CoreCodec} {runId : PhpString} {command : Command}
    {out : List CoreCommand} (h : (encodeCommand host c runId command).2 = .ok out) :
    out.filterMap respondsTo
      = if isPlain command then (c.run runId).queries.take 1 else [] := by
  cases command with
  | updateResponse options validated failure payloads =>
      obtain ⟨command, hcommand, rfl⟩ := Fallible.of_map_eq_ok h
      simp [isPlain, respondsTo_updateResponse hcommand]
  | response failure payloads =>
      simp only [encodeCommand, encodeIfQueryResponse] at h
      split at h
      next hnil =>
        cases h
        simp [hnil]
      next hcons =>
        obtain ⟨command, hcommand, rfl⟩ := Fallible.of_map_eq_ok h
        simp [isPlain, hcons, respondsTo_queryResult hcommand]
  | request name id options payloads failure =>
      simp only [encodeCommand] at h
      split at h
      · obtain ⟨command, hcommand, rfl⟩ := Fallible.of_map_eq_ok h
        simp [isPlain, respondsTo_schedule hcommand]
      · split_ifs at h
        · cases h
          rfl
        · cases h
          refine List.filterMap_eq_nil_iff.2 fun command hmem => ?_
          obtain ⟨target, -, hof⟩ := List.mem_filterMap.1 hmem
          exact respondsTo_cancelOf hof
        · obtain ⟨ps, -, rfl⟩ := Fallible.of_map_eq_ok h
          simp [isPlain, respondsTo_completion]
        · cases h
          rfl

/-- The list and the plain responses are gone through side by side. -/
lemma answersOf_eq {host : Host} {runId : PhpString} {c : CoreCodec} {replies : List Reply}
    {out : List CoreCommand}
    (h : (encodeCommands host c runId (replies.map Reply.command)).2 = .ok out) :
    answersOf host runId c replies = (c.run runId).queries.zip
      ((replies.filter fun reply => isPlain reply.command).map Reply.query) := by
  induction replies generalizing c out with
  | nil => simp [answersOf]
  | cons reply replies ih =>
      rw [List.map_cons, encodeCommands] at h
      obtain ⟨first, rest, hreply, hrest, -⟩ := Fallible.of_forEach_cons_eq_ok h
      have hnext := ih hrest
      rw [encodeCommand_queries] at hnext
      have hfirst := respondsTo_encode hreply
      have hunfold : answersOf host runId c (reply :: replies)
          = (first.filterMap respondsTo).map (fun queryId => (queryId, reply.query)) ++
            answersOf host runId (encodeCommand host c runId reply.command).1 replies := by
        rw [answersOf]
        generalize encodeCommand host c runId reply.command = r at hreply
        obtain ⟨d, o⟩ := r
        obtain rfl : o = .ok first := hreply
        rfl
      rw [hunfold, hnext, hfirst]
      cases hplain : isPlain reply.command with
      | false => simp [dequeue, hplain]
      | true =>
          cases (c.run runId).queries with
          | nil => simp [dequeue, hplain]
          | cons q qs => simp [dequeue, hplain]

/-- Pairs that agree, with none left over on the left. -/
lemma forall_zip_iff_prefix {α : Type*} (as : List α) (bs : List (Option α)) :
    (as.length ≤ bs.length ∧ ∀ p ∈ as.zip bs, p.2 = some p.1) ↔ as.map some <+: bs := by
  induction as generalizing bs with
  | nil => simp
  | cons a as ih =>
      cases bs with
      | nil => simp
      | cons b bs =>
          rw [List.map_cons, List.cons_prefix_cons, ← ih]
          simp only [List.length_cons, Nat.add_le_add_iff_right, List.zip_cons_cons,
            List.forall_mem_cons]
          constructor
          · rintro ⟨hle, hb, hrest⟩
            exact ⟨hb.symm, hle, hrest⟩
          · rintro ⟨hb, hle, hrest⟩
            exact ⟨hle, hb.symm, hrest⟩

/-! ## Runs -/

/-- Only the list of the run that was worked on, and the answers that were added, are in
question. -/
lemma paired_iff {c : CoreCodec} {runId : PhpString} (answers : List (PhpString × Option PhpString))
    (hother : ∀ other, other ≠ runId → (c.run other).queries = []) :
    World.Paired ⟨c, answers⟩ ↔ (c.run runId).queries = [] ∧ ∀ a ∈ answers, a.2 = some a.1 := by
  constructor
  · intro h
    exact ⟨h.queries runId, h.answers⟩
  · rintro ⟨hnil, hanswers⟩
    refine ⟨fun other => ?_, hanswers⟩
    by_cases hne : other = runId
    · rw [hne]
      exact hnil
    · exact hother other hne

lemma answer_paired_iff {host : Host} {w : World} (h : w.Paired) (b : Batch) :
    (answer host w b).Paired ↔ b.InOrder host w := by
  obtain ⟨hrun, hother⟩ := decode_queries host h b
  simp only [answer, Batch.InOrder]
  generalize decodeActivation host (forBatch w.codec) b.activation = r at hrun hother
  obtain ⟨c, decoded⟩ := r
  simp only at hrun hother
  have hfailed : World.Paired ⟨c, w.answers⟩ ↔ b.pending host w = [] := by
    rw [paired_iff w.answers hother, hrun]
    exact and_iff_left h.answers
  cases decoded with
  | error e => exact hfailed
  | ok requests =>
      cases b.replies with
      | none => exact hfailed
      | some replies =>
          simp only
          have hencode := encode_queries host c (replies.map Reply.command)
          have hrest : ∀ other, other ≠ c.runId →
              ((encodeCompletion host c (replies.map Reply.command)).1.run other).queries = [] := by
            intro other hne
            rw [encode_other host c _ hne]
            exact hother other hne
          generalize hr : encodeCompletion host c (replies.map Reply.command) = r at hencode hrest ⊢
          obtain ⟨d, out⟩ := r
          simp only at hencode hrest ⊢
          cases out with
          | error e =>
              rw [paired_iff w.answers hrest, hencode, hrun, List.drop_eq_nil_iff]
              exact and_iff_left h.answers
          | ok out =>
              have hok : (encodeCompletion host c (replies.map Reply.command)).2 = .ok out := by
                rw [hr]
              have hcount : (replies.map Reply.command).countP isPlain =
                  ((replies.filter fun reply => isPlain reply.command).map
                    Reply.query).length := by
                rw [List.length_map, ← List.countP_eq_length_filter, List.countP_map]
                rfl
              rw [paired_iff _ hrest, hencode, hrun, List.drop_eq_nil_iff,
                Fallible.reached_of_ok hok, answersOf_eq hok, hrun, hcount, ← forall_zip_iff_prefix]
              refine and_congr_right fun _ => ?_
              simp only [List.forall_mem_append]
              exact and_iff_right h.answers

/-- In a run the answers are paired with their queries throughout exactly when every batch leaves
no query behind and has its responses in order. -/
theorem queries_paired_iff (host : Host) (batches : List Batch) :
    StepSystem.Always (fun w b => some (answer host w b)) World.Paired World.init batches ↔
      StepSystem.Along (fun w b => some (answer host w b)) (fun w b => b.InOrder host w)
        World.init batches := by
  have hinit : World.init.Paired := ⟨fun _ => rfl, by simp [World.init]⟩
  refine StepSystem.always_iff_along _ (I := fun _ => True) (fun _ _ _ _ _ => trivial) ?_ trivial
    hinit (StepSystem.runFrom_total (answer host) World.init batches)
  intro w b w' _ hw hstep
  cases hstep
  exact answer_paired_iff hw b

/-- A query whose activation does not decode is not answered, and the next query gets its id. -/
def strayBatches : List Batch :=
  [⟨assoc [("runId", .str (bytes "r")), ("jobs", listVal [
        assoc [("queryWorkflow", assoc [("queryId", .str (bytes "q1"))])],
        assoc [("signalWorkflow", assoc [("input", .bool true)])]])], none⟩,
    ⟨assoc [("runId", .str (bytes "r")), ("jobs", listVal [
        assoc [("queryWorkflow", assoc [("queryId", .str (bytes "q2"))])]])],
      some [⟨.response none (some (.ok [])), some (bytes "q2")⟩]⟩]

theorem query_answered_under_another :
    ¬ ∀ host batches, StepSystem.Always (fun w b => some (answer host w b)) World.Paired
      World.init batches := by
  intro h
  have hrun := h ⟨[], fun _ => none, fun _ _ _ => [], []⟩ strayBatches strayBatches _
    (List.prefix_refl _) (StepSystem.runFrom_total _ _ _)
  have hanswer := hrun.answers (bytes "q1", some (bytes "q2")) (by decide)
  exact absurd hanswer (by decide)

end Queries

end Temporal

end Ignis
