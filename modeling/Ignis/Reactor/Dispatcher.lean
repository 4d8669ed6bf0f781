import Mathlib.Logic.Function.Basic
import Ignis.Http.Request
import Ignis.Lib.StepSystem

/-!
# The dispatcher and the tasks it spawns

`Reactor::new` starts one tokio task that receives the submitted ops and spawns a task for each
timer, each fd watch and each custom future.  A timer or a watch can be called off by
`Op::CancelWatch`, and then two parties race to announce the same op: the task, which may be past
its last await point, and the dispatcher, which has just aborted it.  `CancellableTask.completed`
is the claim that decides between them.

Every arrow of the race is a step of its own here, so a run of `step` is an arbitrary interleaving:
the dispatcher between receiving an op and inserting the entry of its task, the task between its
last await, the removal of its entry, the swap of the claim and the send.  `abort()` is a request
(`abortRequested`); it takes effect only while the task stands at an await point.

The invariant is a conservation law: for each id, completions sent plus parties still owing one is
one if the id was submitted and zero otherwise (`Dispatcher.Conserved`).
-/

namespace Ignis

/-- `reactor::Op`.  A custom future is opaque to the dispatcher; it only awaits it. -/
inductive Op where
  | sleep (us : ℕ)
  | watch (fd : ℤ) (write : Bool)
  | cancelWatch (target : ℕ)
  | custom
  deriving DecidableEq, Repr

/-- `reactor::Outcome`, less the instants that only feed a clock. -/
inductive Outcome where
  | slept (lateUs : ℕ)
  | request (req : HttpRequest)
  | ready
  | cancelled
  | json (document : PhpString)
  | failed (message : PhpString)
  | blob (b : Option PhpString)
  | error (message : PhpString)
  deriving DecidableEq, Repr

/-- `reactor::Completion`. -/
structure Completion where
  id : ℕ
  outcome : Outcome
  deriving DecidableEq, Repr

namespace Dispatcher

/-! ## State -/

/-- What a cancellable task waits for. -/
inductive Wait where
  | timer
  | fd
  deriving DecidableEq, Repr

/-- Where a spawned task stands.  A cancellable task goes `waiting → woken → unlisted`, then swaps
the claim, and sends if it won (`claimed`); a custom one only awaits its future and sends. -/
inductive Task where
  | unspawned
  | waiting (on : Wait)
  | woken (outcome : Outcome)
  | unlisted (outcome : Outcome)
  | claimed (outcome : Outcome)
  | custom
  | customDone (outcome : Outcome)
  | finished
  | aborted
  deriving DecidableEq, Repr

/-- Where the dispatcher stands between two `recv().await`s.  From `abort` to `announce` it holds
the lock of the table, because the guard lives as long as the `if let` that took the entry. -/
inductive Pc where
  | recv
  | insert (id : ℕ)
  | abort (id target : ℕ)
  | claim (id target : ℕ)
  | announce (id target : ℕ)
  | ack (id : ℕ)
  deriving DecidableEq, Repr

structure State where
  nextId : ℕ
  /-- `to_tokio`: submitted, not yet received by the dispatcher. -/
  inbox : List (ℕ × Op)
  pc : Pc
  /-- `cancellable_tasks_by_op`; the abort handle and the claim of an entry are those of the task
  spawned for its key. -/
  cancellableTasksByOp : OrdMap ℕ Unit
  tasks : ℕ → Task
  completed : ℕ → Bool
  abortRequested : ℕ → Bool
  /-- Everything sent on `done_tx` so far, oldest first. -/
  sent : List Completion
  /-- Ghost: the ids `submit` returned. -/
  submitted : List ℕ

def init : State where
  nextId := 1
  inbox := []
  pc := .recv
  cancellableTasksByOp := ∅
  tasks := fun _ => .unspawned
  completed := fun _ => false
  abortRequested := fun _ => false
  sent := []
  submitted := []

/-- One step of somebody: PHP submits, another producer takes an id, the dispatcher moves on, a
task moves on, or the runtime carries out an abort. -/
inductive Action where
  | submit (op : Op)
  | reserve
  | dispatch
  | wake (id : ℕ) (outcome : Outcome)
  | proceed (id : ℕ)
  | stop (id : ℕ)
  deriving DecidableEq, Repr

/-! ## Steps -/

/-- What `sleep_until` and `watch_fd` can come back with. -/
def Wait.yields : Wait → Outcome → Bool
  | .timer, .slept _ => true
  | .fd, .ready => true
  | .fd, .error _ => true
  | _, _ => false

def send (s : State) (id : ℕ) (outcome : Outcome) : State :=
  { s with sent := s.sent ++ [⟨id, outcome⟩] }

def cancelledError : Outcome := .error (bytes "cancelled")

/-- A cancellable task is spawned with a claim of its own; its entry is inserted one step later. -/
def spawnCancellable (s : State) (id : ℕ) (on : Wait) : State :=
  { s with
    tasks := Function.update s.tasks id (.waiting on)
    completed := Function.update s.completed id false
    abortRequested := Function.update s.abortRequested id false
    pc := .insert id }

/-- The dispatcher's `match op`. -/
def receive (s : State) (id : ℕ) : Op → State
  | .sleep 0 => send s id (.slept 0)
  | .sleep (_ + 1) => spawnCancellable s id .timer
  | .custom => { s with tasks := Function.update s.tasks id .custom }
  | .watch _ _ => spawnCancellable s id .fd
  | .cancelWatch target =>
      if s.cancellableTasksByOp.has target then
        { s with
          cancellableTasksByOp := s.cancellableTasksByOp.unset target
          pc := .abort id target }
      else { s with pc := .ack id }

/-- The dispatcher's next step.  It does not await between two `recv`s. -/
def dispatch (s : State) : Option State :=
  match s.pc with
  | .recv =>
      match s.inbox with
      | [] => none
      | (id, op) :: rest => some (receive { s with inbox := rest } id op)
  | .insert id =>
      some { s with cancellableTasksByOp := s.cancellableTasksByOp.set id (), pc := .recv }
  | .abort id target =>
      some { s with
        abortRequested := Function.update s.abortRequested target true
        pc := .claim id target }
  | .claim id target =>
      if s.completed target then some { s with pc := .ack id }
      else some { s with
        completed := Function.update s.completed target true
        pc := .announce id target }
  | .announce id target => some { send s target cancelledError with pc := .ack id }
  | .ack id => some { send s id cancelledError with pc := .recv }

/-- Whether the dispatcher holds the lock of the table. -/
def Pc.locked : Pc → Bool
  | .abort _ _ | .claim _ _ | .announce _ _ => true
  | _ => false

/-- The next step of the task of `id` once it is past its await: drop the entry, swap the claim,
send if the swap was won. -/
def proceed (s : State) (id : ℕ) : Option State :=
  match s.tasks id with
  | .woken outcome =>
      if s.pc.locked then none
      else some { s with
        cancellableTasksByOp := s.cancellableTasksByOp.unset id
        tasks := Function.update s.tasks id (.unlisted outcome) }
  | .unlisted outcome =>
      if s.completed id then some { s with tasks := Function.update s.tasks id .finished }
      else some { s with
        completed := Function.update s.completed id true
        tasks := Function.update s.tasks id (.claimed outcome) }
  | .claimed outcome | .customDone outcome =>
      some { send s id outcome with tasks := Function.update s.tasks id .finished }
  | _ => none

def step (s : State) : Action → Option State
  | .submit op => some { s with
      nextId := s.nextId + 1
      inbox := s.inbox ++ [(s.nextId, op)]
      submitted := s.submitted ++ [s.nextId] }
  | .reserve => some { s with nextId := s.nextId + 1 }
  | .dispatch => dispatch s
  | .wake id outcome =>
      match s.tasks id with
      | .waiting on =>
          if on.yields outcome then
            some { s with tasks := Function.update s.tasks id (.woken outcome) }
          else none
      | .custom => some { s with tasks := Function.update s.tasks id (.customDone outcome) }
      | _ => none
  | .proceed id => proceed s id
  | .stop id =>
      match s.tasks id with
      | .waiting _ =>
          if s.abortRequested id then some { s with tasks := Function.update s.tasks id .aborted }
          else none
      | _ => none

/-! ## What a step can do -/

/-- The steps of the dispatcher. -/
inductive Dispatches (s : State) : State → Prop where
  | receive {id : ℕ} {op : Op} {rest : List (ℕ × Op)} (hpc : s.pc = .recv)
      (hin : s.inbox = (id, op) :: rest) :
      Dispatches s (receive { s with inbox := rest } id op)
  | insert {id : ℕ} (hpc : s.pc = .insert id) :
      Dispatches s { s with cancellableTasksByOp := s.cancellableTasksByOp.set id (), pc := .recv }
  | abort {id target : ℕ} (hpc : s.pc = .abort id target) :
      Dispatches s { s with
        abortRequested := Function.update s.abortRequested target true
        pc := .claim id target }
  | claimLost {id target : ℕ} (hpc : s.pc = .claim id target)
      (hcomp : s.completed target = true) : Dispatches s { s with pc := .ack id }
  | claimWon {id target : ℕ} (hpc : s.pc = .claim id target)
      (hcomp : s.completed target = false) :
      Dispatches s { s with
        completed := Function.update s.completed target true
        pc := .announce id target }
  | announce {id target : ℕ} (hpc : s.pc = .announce id target) :
      Dispatches s { send s target cancelledError with pc := .ack id }
  | ack {id : ℕ} (hpc : s.pc = .ack id) :
      Dispatches s { send s id cancelledError with pc := .recv }

lemma dispatches_of_dispatch {s s' : State} (h : dispatch s = some s') : Dispatches s s' := by
  simp only [dispatch] at h
  split at h
  · rename_i hpc
    split at h
    · cases h
    · rename_i id op rest hin
      cases h
      exact .receive hpc hin
  · rename_i id hpc
    cases h
    exact .insert hpc
  · rename_i id target hpc
    cases h
    exact .abort hpc
  · rename_i id target hpc
    split_ifs at h with hcomp
    · cases h
      exact .claimLost hpc hcomp
    · cases h
      exact .claimWon hpc (by simpa using hcomp)
  · rename_i id target hpc
    cases h
    exact .announce hpc
  · rename_i id hpc
    cases h
    exact .ack hpc

/-- The steps of the task of `id` past its await. -/
inductive Proceeds (s : State) (id : ℕ) : State → Prop where
  | unlist {o : Outcome} (ht : s.tasks id = .woken o) (hlock : s.pc.locked = false) :
      Proceeds s id { s with
        cancellableTasksByOp := s.cancellableTasksByOp.unset id
        tasks := Function.update s.tasks id (.unlisted o) }
  | claimLost {o : Outcome} (ht : s.tasks id = .unlisted o) (hcomp : s.completed id = true) :
      Proceeds s id { s with tasks := Function.update s.tasks id .finished }
  | claimWon {o : Outcome} (ht : s.tasks id = .unlisted o) (hcomp : s.completed id = false) :
      Proceeds s id { s with
        completed := Function.update s.completed id true
        tasks := Function.update s.tasks id (.claimed o) }
  | announce {o : Outcome} (ht : s.tasks id = .claimed o ∨ s.tasks id = .customDone o) :
      Proceeds s id { send s id o with tasks := Function.update s.tasks id .finished }

lemma proceeds_of_proceed {s s' : State} {id : ℕ} (h : proceed s id = some s') :
    Proceeds s id s' := by
  unfold proceed at h
  cases ht : s.tasks id with
  | woken o =>
      simp only [ht] at h
      split_ifs at h with hlock
      cases h
      exact .unlist ht (by simpa using hlock)
  | unlisted o =>
      simp only [ht] at h
      split_ifs at h with hcomp
      · cases h
        exact .claimLost ht hcomp
      · cases h
        exact .claimWon ht (by simpa using hcomp)
  | claimed o =>
      simp only [ht] at h
      cases h
      exact .announce (Or.inl ht)
  | customDone o =>
      simp only [ht] at h
      cases h
      exact .announce (Or.inr ht)
  | _ => simp [ht] at h

lemma wake_cases {s s' : State} {id : ℕ} {o : Outcome} (h : step s (.wake id o) = some s') :
    (∃ on, s.tasks id = .waiting on ∧
      s' = { s with tasks := Function.update s.tasks id (.woken o) }) ∨
    (s.tasks id = .custom ∧
      s' = { s with tasks := Function.update s.tasks id (.customDone o) }) := by
  cases ht : s.tasks id with
  | waiting on =>
      simp only [step, ht] at h
      split_ifs at h
      exact Or.inl ⟨on, rfl, (Option.some.inj h).symm⟩
  | custom =>
      simp only [step, ht] at h
      exact Or.inr ⟨rfl, (Option.some.inj h).symm⟩
  | _ => simp [step, ht] at h

lemma stop_cases {s s' : State} {id : ℕ} (h : step s (.stop id) = some s') :
    (∃ on, s.tasks id = .waiting on) ∧ s.abortRequested id = true ∧
      s' = { s with tasks := Function.update s.tasks id .aborted } := by
  cases ht : s.tasks id with
  | waiting on =>
      simp only [step, ht] at h
      split_ifs at h with habort
      exact ⟨⟨on, rfl⟩, habort, (Option.some.inj h).symm⟩
  | _ => simp [step, ht] at h

/-! ## The conservation law -/

/-- Completions sent for `id`. -/
def sentCount (s : State) (id : ℕ) : ℕ := (s.sent.map Completion.id).count id

/-- Completions the dispatcher is about to send for `id`. -/
def Pc.owes (id : ℕ) : Pc → ℕ
  | .recv | .insert _ => 0
  | .abort i _ | .claim i _ | .ack i => if i = id then 1 else 0
  | .announce i t => (if i = id then 1 else 0) + (if t = id then 1 else 0)

/-- Whether an announcement is still owed on behalf of a task: until the claim is taken somebody
will take it, and the task that took it sends next. -/
def Task.owes (completed : Bool) : Task → ℕ
  | .unspawned | .finished => 0
  | .waiting _ | .woken _ | .unlisted _ | .aborted => if completed then 0 else 1
  | .claimed _ | .custom | .customDone _ => 1

def owed (s : State) (id : ℕ) : ℕ :=
  (s.inbox.map Prod.fst).count id + s.pc.owes id + (s.tasks id).owes (s.completed id)

/-- **Conservation**: an id has been announced, or somebody owes its announcement, but not both and
not twice; an id nobody submitted is neither. -/
def Conserved (s : State) : Prop :=
  ∀ id, sentCount s id + owed s id = if id ∈ s.submitted then 1 else 0

/-- A task `Op::CancelWatch` may find: spawned cancellable, and past the claim only if the claim
is taken. -/
def Task.cancellable (completed : Bool) : Task → Prop
  | .waiting _ | .woken _ | .unlisted _ | .aborted => True
  | .claimed _ | .finished => completed = true
  | .unspawned | .custom | .customDone _ => False

/-- The task whose entry the dispatcher holds in its hands. -/
def Pc.handles (id : ℕ) : Pc → Prop
  | .insert i => i = id
  | .abort _ t | .claim _ t => t = id
  | _ => False

structure Inv (s : State) : Prop where
  conserved : Conserved s
  submitted_lt : ∀ id ∈ s.submitted, id < s.nextId
  inbox_unspawned : ∀ p ∈ s.inbox, s.tasks p.1 = .unspawned ∧ p.1 ∈ s.submitted
  spawned_submitted : ∀ id, s.tasks id ≠ .unspawned → id ∈ s.submitted
  inbox_nodup : (s.inbox.map Prod.fst).Nodup
  listed : ∀ id, s.cancellableTasksByOp.has id = true →
    (s.tasks id).cancellable (s.completed id)
  handled : ∀ id, s.pc.handles id → (s.tasks id).cancellable (s.completed id)
  aborting : ∀ id, s.abortRequested id = true → s.completed id = true ∨ ∃ i, s.pc = .claim i id
  stopped : ∀ id, s.tasks id = .aborted → s.abortRequested id = true

end Dispatcher

end Ignis
