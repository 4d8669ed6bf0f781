import Mathlib.Algebra.GroupWithZero.Nat
import Mathlib.Data.List.Basic
import Ignis.Lib.Places
import Ignis.Lib.StepSystem
import Ignis.Temporal.Codec

/-!
# Activities

Each fiber that serves activities has a host and a codec of its own.  A start task is decoded to one
request and the fiber runs the activity; a cancellation notice, which carries the token of a running
activity and may be polled by any idle fiber, is decoded to nothing.  The loop of sdk-php encodes
what it has for every batch it decoded, and `encodeActivityResult` makes a completion of nothing at
all.  A document that core refuses comes back to the loop as an exception, and `error` sends it as a
failure.

`Completed` says what core may rely on: the documents it was sent and took are those of the
executions that are over, one for each.  `completed_iff_no_cancellation` shows that a run keeps to
it exactly as long as no cancellation notice is polled.
-/

namespace Ignis

namespace Temporal

/-! ## Activity tasks -/

/-- The request that a start task is decoded to, less the times of its `ActivityInfo`. -/
structure ActivityRequest where
  name : PhpString
  taskToken : PhpString
  activityId : PhpString
  activityType : PhpString
  workflowType : PhpString
  workflowId : PhpString
  runId : PhpString
  attempt : ℤ
  payloads : List WirePayload
  deriving DecidableEq, Repr

/-- `isActivityCancellation`. -/
def isActivityCancellation (task : Val) : Bool := !task.isset "start"

/-- `activityRouteName`. -/
def activityRouteName (start : Val) : PhpString :=
  if (start.get "isLocal").truthy then bytes "InvokeLocalActivity" else bytes "InvokeActivity"

def decodeActivityTask (host : Host) (c : CoreCodec) (task : Val) :
    CoreCodec × Except Throwable (List ActivityRequest) :=
  let c := { c with taskToken := stringField task "taskToken" }
  if isActivityCancellation task then (c, .ok [])
  else
    let start := arrayField task "start"
    let execution := arrayField start "workflowExecution"
    match required (start.get "activityId") "start.activityId" with
    | .error e => (c, .error e)
    | .ok activityId =>
        (c, (payloadListField start "input" "start.input").map fun payloads =>
          [{ name := activityRouteName start
             taskToken := c.taskToken.getD []
             activityId := activityId
             activityType := (stringField start "activityType").getD []
             workflowType := (stringField start "workflowType").getD []
             workflowId := (stringField execution "workflowId").getD []
             runId := (stringField execution "runId").getD []
             attempt := (intField host start "attempt").getD 1
             payloads := payloads }])

inductive ActivityResult where
  | completed (result : Option Payload)
  | failed (message : PhpString)

/-- A completion of an activity, up to the text. -/
structure ActivityCompletion where
  taskToken : Option PhpString
  result : ActivityResult

/-- `failureOf`. -/
def Command.failure : Command → Option Failure
  | .request _ _ _ _ failure | .updateResponse _ _ failure _ | .response failure _ => failure

/-- The payloads of a command that has the method; of those only an `UpdateResponse` may have no
values to give, and `payloads` does not take `null`. -/
def Command.values : Command → Option Converted
  | .request _ _ _ payloads _ => some payloads
  | .updateResponse _ _ _ none =>
      some (.error ⟨.typeError, "payloads(): Argument #1 ($values) must be of type " ++
        "Temporal\\DataConverter\\ValuesInterface, null given"⟩)
  | .updateResponse _ _ _ payloads => payloads
  | .response _ payloads => payloads

/-- The loop of `encodeActivityResult`. -/
def activityResult (result : ActivityResult) : List Command → Except Throwable ActivityResult
  | [] => .ok result
  | command :: commands =>
      match command.failure with
      | some f => .ok (.failed f.message)
      | none =>
          match command.values with
          | none => activityResult result commands
          | some (.error e) => .error e
          | some (.ok payloads) => activityResult (.completed payloads.head?) commands

def encodeActivityResult (c : CoreCodec) (commands : List Command) :
    Except Throwable ActivityCompletion :=
  (activityResult (.completed none) commands).map fun result => ⟨c.taskToken, result⟩

/-- `encodeFailure`. -/
def encodeActivityFailure (c : CoreCodec) (e : Throwable) : ActivityCompletion :=
  ⟨c.taskToken, .failed (bytes e.message)⟩

/-! ## The fibers -/

namespace Activities

/-- What the activity's code came to: the commands that sdk-php has for it, or what it threw. -/
abbrev Outcome := Except Throwable (List Command)

/-- A fiber of `serve` with its host: it waits in `waitBatch`, or runs the activity of the token. -/
structure Fiber where
  codec : CoreCodec
  running : Option (Option PhpString)

/-- Core behind `complete`: what it throws for a document, if it refuses it.  A failure that the
codec makes is a token and a text, and core takes it. -/
structure Core where
  refuses : ActivityCompletion → Option Throwable
  takes_failures : ∀ token (message : String),
    refuses ⟨token, .failed (bytes message)⟩ = none

/-- The fibers; the tokens of the start tasks that were polled; the executions that are over, with
their outcome; and the documents that were sent and taken. -/
structure State where
  fibers : List Fiber
  starts : List (Option PhpString)
  ended : List (Option PhpString × Outcome)
  sent : List ActivityCompletion

def init (activityFibers : ℕ) : State :=
  ⟨List.replicate activityFibers ⟨.init, none⟩, [], [], []⟩

inductive Event where
  /-- `waitBatch` of a fiber returns a task. -/
  | poll (fiber : ℕ) (task : Val)
  /-- The activity that a fiber runs is over. -/
  | finish (fiber : ℕ) (outcome : Outcome)

/-- `error`: what core has of it.  If core refused this document too, the exception would leave the
loop of the fiber. -/
def failureSent (core : Core) (c : CoreCodec) (e : Throwable) : List ActivityCompletion :=
  match core.refuses (encodeActivityFailure c e) with
  | none => [encodeActivityFailure c e]
  | some _ => []

/-- `send` of what `encode` gives, and `error` of what either throws. -/
def completion (core : Core) (c : CoreCodec) (outcome : Outcome) : List ActivityCompletion :=
  match outcome.bind (encodeActivityResult c) with
  | .error e => failureSent core c e
  | .ok document =>
      match core.refuses document with
      | none => [document]
      | some e => failureSent core c e

def step (host : Host) (core : Core) (s : State) : Event → Option State
  | .poll i task =>
      match s.fibers[i]? with
      | some ⟨c, none⟩ =>
          let token := stringField task "taskToken"
          let starts := if isActivityCancellation task then s.starts else s.starts ++ [token]
          match decodeActivityTask host (forBatch c) task with
          -- a start task that does not read: its activity is over before it began
          | (c, .error e) =>
              some ⟨s.fibers.set i ⟨c, none⟩, starts, s.ended ++ [(token, .error e)],
                s.sent ++ completion core c (.error e)⟩
          -- nothing to dispatch, and `encode` of no commands
          | (c, .ok []) =>
              some ⟨s.fibers.set i ⟨c, none⟩, starts, s.ended,
                s.sent ++ completion core c (.ok [])⟩
          | (c, .ok (_ :: _)) =>
              some ⟨s.fibers.set i ⟨c, some token⟩, starts, s.ended, s.sent⟩
      | _ => none
  | .finish i outcome =>
      match s.fibers[i]? with
      | some ⟨c, some token⟩ =>
          some ⟨s.fibers.set i ⟨c, none⟩, s.starts, s.ended ++ [(token, outcome)],
            s.sent ++ completion core c outcome⟩
      | _ => none

/-- The document that an execution is to be completed by, whoever sends it. -/
def document (core : Core) (token : Option PhpString) (outcome : Outcome) : ActivityCompletion :=
  match outcome.bind fun commands => activityResult (.completed none) commands with
  | .ok result =>
      match core.refuses ⟨token, result⟩ with
      | none => ⟨token, result⟩
      | some e => ⟨token, .failed (bytes e.message)⟩
  | .error e => ⟨token, .failed (bytes e.message)⟩

/-- Every start task has one execution, which runs or is over; and the documents sent are those of
the executions that are over, one for each. -/
structure State.Completed (core : Core) (s : State) : Prop where
  once : ∀ token, s.starts.count token
    = s.fibers.countP (fun f => f.running == some token) + (s.ended.map Prod.fst).count token
  sent : s.sent = s.ended.map fun e => document core e.1 e.2

/-- The task polled, if any, is a start task. -/
def NoCancellation (_ : State) : Event → Prop
  | .poll _ task => isActivityCancellation task = false
  | .finish _ _ => True

instance (s : State) : ∀ event, Decidable (NoCancellation s event)
  | .poll _ task => inferInstanceAs (Decidable (isActivityCancellation task = false))
  | .finish _ _ => .isTrue trivial

/-! ## One task -/

/-- The codec keeps the token of the task it decoded. -/
lemma decodeActivityTask_taskToken (host : Host) (c : CoreCodec) (task : Val) :
    (decodeActivityTask host c task).1.taskToken = stringField task "taskToken" := by
  simp only [decodeActivityTask]
  split_ifs
  · rfl
  · split <;> rfl

lemma decodeActivityTask_cancellation {host : Host} {c : CoreCodec} {task : Val}
    (h : isActivityCancellation task = true) : (decodeActivityTask host c task).2 = .ok [] := by
  simp [decodeActivityTask, h]

/-- A start task that reads is one request. -/
lemma decodeActivityTask_start {host : Host} {c : CoreCodec} {task : Val}
    (h : isActivityCancellation task = false) : (decodeActivityTask host c task).2 ≠ .ok [] := by
  intro hok
  simp only [decodeActivityTask, h, Bool.false_eq_true, if_false] at hok
  split at hok
  · cases hok
  · obtain ⟨payloads, -, hcons⟩ := Fallible.of_map_eq_ok hok
    cases hcons

lemma failureSent_eq (core : Core) (c : CoreCodec) (e : Throwable) :
    failureSent core c e = [⟨c.taskToken, .failed (bytes e.message)⟩] := by
  have htakes := core.takes_failures c.taskToken e.message
  simp only [failureSent, encodeActivityFailure, htakes]

/-- A codec completes the task whose token it keeps, with one document. -/
lemma completion_eq (core : Core) (c : CoreCodec) (outcome : Outcome) :
    completion core c outcome = [document core c.taskToken outcome] := by
  cases outcome with
  | error e => exact failureSent_eq core c e
  | ok commands =>
      simp only [completion, document, Except.bind, encodeActivityResult]
      cases activityResult (.completed none) commands with
      | error e => exact failureSent_eq core c e
      | ok result =>
          simp only [Except.map]
          cases core.refuses ⟨c.taskToken, result⟩ with
          | none => rfl
          | some e => exact failureSent_eq core c e

/-! ## Runs -/

/-- A fiber that runs an activity has its token in the codec. -/
def Kept (fibers : List Fiber) : Prop :=
  ∀ f ∈ fibers, ∀ token, f.running = some token → f.codec.taskToken = token

structure State.Inv (s : State) : Prop where
  kept : Kept s.fibers
  once : ∀ token, s.starts.count token
    = s.fibers.countP (fun f => f.running == some token) + (s.ended.map Prod.fst).count token

lemma Kept.set {fibers : List Fiber} (h : Kept fibers) (i : ℕ) {f : Fiber}
    (hf : ∀ token, f.running = some token → f.codec.taskToken = token) : Kept (fibers.set i f) := by
  intro g hg
  rcases List.mem_or_eq_of_mem_set hg with hg | rfl
  · exact h g hg
  · exact hf

lemma Kept.set_idle {fibers : List Fiber} (h : Kept fibers) (i : ℕ) (c : CoreCodec) :
    Kept (fibers.set i ⟨c, none⟩) :=
  h.set i fun _ hrunning => nomatch hrunning

/-- One fiber changes what it runs. -/
lemma countP_set_running {fibers : List Fiber} {i : ℕ} {f g : Fiber} (hi : fibers[i]? = some f)
    (token : Option PhpString) :
    (fibers.set i g).countP (fun f => f.running == some token)
        + (if f.running = some token then 1 else 0)
      = fibers.countP (fun f => f.running == some token)
        + (if g.running = some token then 1 else 0) := by
  have hcount := Places.countP_set (fun f : Fiber => f.running == some token) g hi
  have htoNat : ∀ f : Fiber,
      (f.running == some token).toNat = if f.running = some token then 1 else 0 := fun f => by
    split_ifs with hf <;> simp [hf]
  simpa only [htoNat] using hcount

lemma init_inv (activityFibers : ℕ) : (init activityFibers).Inv := by
  refine ⟨?_, fun token => ?_⟩
  · intro f hf token hrunning
    obtain rfl := List.eq_of_mem_replicate hf
    cases hrunning
  · simp [init, List.countP_replicate]

/-- A task is polled: the fiber runs it, or its execution is over, or it is a notice. -/
lemma poll_cases {host : Host} {core : Core} {s s' : State} {i : ℕ} {task : Val}
    (h : step host core s (.poll i task) = some s') :
    ∃ c d, s.fibers[i]? = some ⟨c, none⟩ ∧ d.taskToken = stringField task "taskToken" ∧
      (isActivityCancellation task = false ∧
          s' = ⟨s.fibers.set i ⟨d, some (stringField task "taskToken")⟩,
            s.starts ++ [stringField task "taskToken"], s.ended, s.sent⟩ ∨
        (∃ e, isActivityCancellation task = false ∧
          s' = ⟨s.fibers.set i ⟨d, none⟩, s.starts ++ [stringField task "taskToken"],
            s.ended ++ [(stringField task "taskToken", .error e)],
            s.sent ++ completion core d (.error e)⟩) ∨
        isActivityCancellation task = true ∧
          s' = ⟨s.fibers.set i ⟨d, none⟩, s.starts, s.ended,
            s.sent ++ completion core d (.ok [])⟩) := by
  simp only [step] at h
  split at h
  next c hi =>
    have htoken := decodeActivityTask_taskToken host (forBatch c) task
    have hstart := @decodeActivityTask_start host (forBatch c) task
    have hcancel := @decodeActivityTask_cancellation host (forBatch c) task
    generalize decodeActivityTask host (forBatch c) task = r at h htoken hstart hcancel
    obtain ⟨d, decoded⟩ := r
    refine ⟨c, d, hi, htoken, ?_⟩
    cases hkind : isActivityCancellation task with
    | true =>
        obtain rfl : decoded = .ok [] := hcancel hkind
        simp only [hkind, if_true, Option.some.injEq] at h
        exact Or.inr (Or.inr ⟨rfl, h.symm⟩)
    | false =>
        simp only [hkind, Bool.false_eq_true, if_false] at h
        cases decoded with
        | error e => exact Or.inr (Or.inl ⟨e, rfl, (Option.some.inj h).symm⟩)
        | ok requests =>
            cases requests with
            | nil => exact absurd rfl (hstart hkind)
            | cons request requests => exact Or.inl ⟨rfl, (Option.some.inj h).symm⟩
  next => cases h

lemma finish_cases {host : Host} {core : Core} {s s' : State} {i : ℕ} {outcome : Outcome}
    (h : step host core s (.finish i outcome) = some s') :
    ∃ c token, s.fibers[i]? = some ⟨c, some token⟩ ∧
      s' = ⟨s.fibers.set i ⟨c, none⟩, s.starts, s.ended ++ [(token, outcome)],
        s.sent ++ completion core c outcome⟩ := by
  simp only [step] at h
  split at h
  next c token hi => exact ⟨c, token, hi, (Option.some.inj h).symm⟩
  next => cases h

lemma step_inv {host : Host} {core : Core} {s s' : State} {event : Event} (h : s.Inv)
    (hstep : step host core s event = some s') : s'.Inv := by
  cases event with
  | poll i task =>
      obtain ⟨c, d, hi, htoken, hcases⟩ := poll_cases hstep
      have hcount := fun g token => @countP_set_running s.fibers i ⟨c, none⟩ g hi token
      rcases hcases with ⟨-, rfl⟩ | ⟨e, -, rfl⟩ | ⟨-, rfl⟩
      · refine ⟨h.kept.set i fun token hrunning => ?_, fun token => ?_⟩
        · exact htoken.trans (Option.some.inj hrunning)
        · have := h.once token
          have := hcount ⟨d, some (stringField task "taskToken")⟩ token
          simp only [List.count_append, List.count_singleton, Option.some.injEq, reduceCtorEq,
            if_false, beq_iff_eq] at this ⊢
          omega
      · refine ⟨h.kept.set_idle i d, fun token => ?_⟩
        have := h.once token
        have := hcount ⟨d, none⟩ token
        simp only [List.count_append, List.map_append, List.map_singleton, reduceCtorEq,
          if_false] at this ⊢
        omega
      · refine ⟨h.kept.set_idle i d, fun token => ?_⟩
        have := h.once token
        have := hcount ⟨d, none⟩ token
        simp only [reduceCtorEq, if_false] at this ⊢
        omega
  | finish i outcome =>
      obtain ⟨c, running, hi, rfl⟩ := finish_cases hstep
      refine ⟨h.kept.set_idle i c, fun token => ?_⟩
      have := h.once token
      have := @countP_set_running s.fibers i ⟨c, some running⟩ ⟨c, none⟩ hi token
      simp only [List.count_append, List.map_append, List.map_singleton, List.count_singleton,
        Option.some.injEq, reduceCtorEq, if_false, beq_iff_eq] at this ⊢
      omega

/-- The documents are right after a step exactly if it polled no cancellation notice. -/
lemma step_sent_iff {host : Host} {core : Core} {s s' : State} {event : Event} (h : s.Inv)
    (hsent : s.sent = s.ended.map fun e => document core e.1 e.2)
    (hstep : step host core s event = some s') :
    (s'.sent = s'.ended.map fun e => document core e.1 e.2) ↔ NoCancellation s event := by
  cases event with
  | poll i task =>
      obtain ⟨c, d, -, htoken, hcases⟩ := poll_cases hstep
      simp only [NoCancellation]
      rcases hcases with ⟨hstart, rfl⟩ | ⟨e, hstart, rfl⟩ | ⟨hcancel, rfl⟩
      · exact iff_of_true hsent hstart
      · refine iff_of_true ?_ hstart
        show s.sent ++ completion core d (.error e) = _
        rw [completion_eq, htoken, hsent, List.map_append]
        rfl
      · -- one document more than executions
        refine iff_of_false (fun heq => ?_) (by simp [hcancel])
        have hlength := congrArg List.length heq
        simp only [completion_eq, hsent, List.length_append, List.length_map,
          List.length_singleton] at hlength
        omega
  | finish i outcome =>
      obtain ⟨c, token, hi, rfl⟩ := finish_cases hstep
      refine iff_of_true ?_ trivial
      have hkept : c.taskToken = token := h.kept _ (List.mem_of_getElem? hi) token rfl
      show s.sent ++ completion core c outcome = _
      rw [completion_eq, hkept, hsent, List.map_append]
      rfl

/-- Over a run the activities are completed by their own executions, one document for each that is
over, exactly as long as no cancellation notice is polled. -/
theorem completed_iff_no_cancellation (host : Host) (core : Core) (activityFibers : ℕ)
    (events : List Event) (s : State)
    (h : StepSystem.runFrom (step host core) (init activityFibers) events = some s) :
    StepSystem.Always (step host core) (State.Completed core) (init activityFibers) events ↔
      StepSystem.Along (step host core) NoCancellation (init activityFibers) events := by
  refine StepSystem.always_iff_along (step host core) (fun _ _ _ hs ht => step_inv hs ht) ?_
    (init_inv activityFibers) ⟨(init_inv activityFibers).once, rfl⟩ h
  intro s event s' hinv hcompleted hstep
  rw [← step_sent_iff hinv hcompleted.sent hstep]
  constructor
  · intro hcompleted'
    exact hcompleted'.sent
  · intro hsent
    exact ⟨(step_inv hinv hstep).once, hsent⟩

/-! ## A cancellation -/

def startTask : Val :=
  assoc [("taskToken", .str (bytes "dG9r")), ("start", assoc [("activityId", .str (bytes "1"))])]

def cancelTask : Val :=
  assoc [("taskToken", .str (bytes "dG9r")), ("cancel", assoc [])]

def someHost : Host := ⟨[], fun _ => none, fun _ _ _ => [], []⟩

/-- Core that takes what it is sent. -/
def someCore : Core := ⟨fun _ => none, fun _ _ => rfl⟩

/-- One fiber runs an activity to its end and then a second one, with the same token. -/
theorem completed_iff_no_cancellation_in_turn :
    StepSystem.Always (step someHost someCore) (State.Completed someCore) (init 1)
      [.poll 0 startTask, .finish 0 (.ok [.response none (some (.ok []))]), .poll 0 startTask] := by
  refine (completed_iff_no_cancellation someHost someCore 1 _ _ rfl).mpr ?_
  decide

/-- A cancellation notice that another fiber polls completes the activity while it runs. -/
theorem completed_by_cancellation :
    ¬ ∀ host core activityFibers events s,
      StepSystem.runFrom (step host core) (init activityFibers) events = some s →
        s.Completed core := by
  intro h
  have hsent := (h someHost someCore 2 [.poll 0 startTask, .poll 1 cancelTask] _ rfl).sent
  exact absurd (congrArg List.length hsent) (by decide)

end Activities

end Temporal

end Ignis
