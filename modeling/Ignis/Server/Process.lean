import Ignis.Reactor.CallIds

/-!
# The process: threads, the registry and the drain

A process runs PHP threads, and each has a reactor of its own.  A thread that serves puts its
reactor into the registry; the front door picks one for every request, collects the body, which
takes as long as the client likes, and delivers.  A thread leaves the registry for a reload, with
its requests still its own to finish, or when its script is over, and then the requests it still
owes are failed.  The drain sums the requests that are owed over the registry and returns when the
sum is zero.

Each reactor is the machine of `Ignis.Reactor.Calls`, and its steps are steps of the process.  Only
two of its methods are called from here, because it matters who calls them: the deliveries, by a
request that has picked the reactor, and `fail_pending`, by the thread whose script is over.

The lock of the registry is held during a whole pass of the drain (`totals`), so nothing is
registered, picked or removed meanwhile; the reactors do not stop for it.
-/

namespace Ignis

namespace Process

/-! ## Data -/

/-- Where a PHP thread stands.  A thread that is respawned is a new thread here. -/
inductive Thread where
  | unborn
  | running
  /-- The script has ended, normally or by a fatal error. -/
  | ended
  /-- `unregister` has removed the reactor from the registry; `fail_pending` comes next. -/
  | removed
  /-- The shutdown steps are done. -/
  | down
  deriving DecidableEq, Repr

/-- A request between `pick` and the delivery: the reactor it picked, how it will be delivered, and
what will be delivered once the body is there. -/
structure Task where
  reactor : ℕ
  answer : Reactor.Answer
  req : HttpRequest
  deriving DecidableEq, Repr

/-- The methods a task may deliver with. -/
def Task.method (task : Task) : Reactor.Method :=
  match task.answer with
  | .grpc => .deliverStreamRequest task.req
  | _ => .deliverRequestWithId task.req

/-- Where `drain` stands, from the moment it waits for the requests in flight. -/
inductive Drain where
  | idle
  /-- Between two passes. -/
  | waiting
  /-- In `totals`, with the lock: the reactors still to be read, and the sum so far. -/
  | summing (rest : List ℕ) (pending : ℕ)
  | summed (pending : ℕ)
  | returned (pending : ℕ)
  deriving DecidableEq, Repr

structure State where
  /-- `Registry::reactors`. -/
  registry : List ℕ
  /-- `Registry::next`. -/
  next : ℕ
  reactors : ℕ → Reactor.State
  threads : ℕ → Thread
  tasks : List Task
  drain : Drain

def init (spinUs : ℕ) : State where
  registry := []
  next := 0
  reactors := fun _ => Reactor.init spinUs
  threads := fun _ => .unborn
  tasks := []
  drain := .idle

/-! ## `Registry::pick` -/

/-- `usize::MAX`. -/
def usizeMax : ℕ := 18446744073709551615

/-- `fetch_add(1)` on a `usize`. -/
def fetchAdd (next : ℕ) : ℕ := (next + 1) % (usizeMax + 1)

/-- The loop of `pick` over the offsets from `start`, with the best position so far and its load. -/
def pickLoop (n start : ℕ) (load : ℕ → ℕ) : List ℕ → ℕ → ℕ → ℕ
  | [], best, _ => best
  | k :: ks, best, bestLoad =>
      let i := (start + k) % n
      if load i < bestLoad then
        if load i = 0 then i else pickLoop n start load ks i (load i)
      else pickLoop n start load ks best bestLoad

/-- `Registry::pick`: the registered reactor with the fewest unanswered requests, ties rotating.
The loads are read one after another while requests come and go, so they are arbitrary here. -/
def pick (registry : List ℕ) (next : ℕ) (load : ℕ → ℕ) : Option ℕ :=
  let n := registry.length
  if n = 0 then none
  else registry[pickLoop n (next % n) load (List.range n) (next % n) usizeMax]?

/-! ## Steps -/

inductive Action where
  /-- A PHP thread starts its script. -/
  | run (i : ℕ)
  /-- `ignis_serve`: the thread's reactor is registered. -/
  | serve (i : ℕ)
  /-- `ignis_stop_accepting`. -/
  | leaveDispatch (i : ℕ)
  | scriptEnd (i : ℕ)
  /-- The first half of `unregister`. -/
  | unregister (i : ℕ)
  /-- The second half of `unregister`. -/
  | failPending (i : ℕ)
  /-- Thread 0 of an unsupervised run has no shutdown steps. -/
  | finish (i : ℕ)
  /-- A request arrives and picks a reactor. -/
  | request (load : ℕ → ℕ) (answer : Reactor.Answer) (req : HttpRequest)
  /-- The body of the `k`-th request is there and its delivery begins. -/
  | deliver (k : ℕ)
  /-- The body of the `k`-th request is refused, or its client is gone. -/
  | abandon (k : ℕ)
  /-- A step of a reactor. -/
  | reactor (i : ℕ) (a : Reactor.Action)
  | drainStart
  | drainLock
  | drainRead
  | drainUnlock
  /-- After a pass: return, or sleep and look again. -/
  | drainDecide (timedOut : Bool)

/-- The calls that are made by steps of the process only. -/
def reserved : Reactor.Action → Bool
  | .call (.deliverRequestWithId _) | .call (.deliverStreamRequest _) | .call .failPending => true
  | _ => false

/-- The drain holds the lock of the registry. -/
def Drain.locked : Drain → Bool
  | .summing _ _ => true
  | _ => false

def State.setReactor (s : State) (i : ℕ) (r : Reactor.State) : State :=
  { s with reactors := Function.update s.reactors i r }

def State.setThread (s : State) (i : ℕ) (t : Thread) : State :=
  { s with threads := Function.update s.threads i t }

/-- `retain(|r| !Arc::ptr_eq(r, reactor))`. -/
def State.retain (s : State) (i : ℕ) : State :=
  { s with registry := s.registry.filter fun j => j ≠ i }

/-- Thread 0 runs the script itself, and is not a spawned worker, unless the run is supervised. -/
def isMain (supervised : Bool) (i : ℕ) : Bool := !supervised && i = 0

/-- `fail_pending` is one lock section. -/
def callFailPending (r : Reactor.State) : Option Reactor.State := do
  let r' ← Reactor.step r (.call .failPending)
  Reactor.step r' (.advance r.calls.length)

def step (supervised : Bool) (s : State) : Action → Option State
  | .run i =>
      -- a supervised thread 0 stays idle
      if s.threads i = .unborn ∧ ¬ (supervised ∧ i = 0) then some (s.setThread i .running) else none
  | .serve i =>
      if s.threads i = .running ∧ s.drain.locked = false then
        some { s with registry := s.registry ++ [i] }
      else none
  | .leaveDispatch i =>
      if s.threads i = .running ∧ s.drain.locked = false then some (s.retain i) else none
  | .scriptEnd i =>
      if s.threads i = .running then some (s.setThread i .ended) else none
  | .unregister i =>
      if s.threads i = .ended ∧ isMain supervised i = false ∧ s.drain.locked = false then
        some ((s.retain i).setThread i .removed)
      else none
  | .failPending i =>
      if s.threads i = .removed then do
        let r ← callFailPending (s.reactors i)
        some ((s.setReactor i r).setThread i .down)
      else none
  | .finish i =>
      if s.threads i = .ended ∧ isMain supervised i then some (s.setThread i .down) else none
  | .request load answer req =>
      if s.drain.locked then none
      else
        match pick s.registry s.next load with
        | none => some s
        | some i => some { s with next := fetchAdd s.next, tasks := s.tasks ++ [⟨i, answer, req⟩] }
  | .deliver k => do
      let task ← s.tasks[k]?
      let r ← Reactor.step (s.reactors task.reactor) (.call task.method)
      some ({ s with tasks := s.tasks.eraseIdx k }.setReactor task.reactor r)
  | .abandon k => if k < s.tasks.length then some { s with tasks := s.tasks.eraseIdx k } else none
  | .reactor i a =>
      if reserved a then none
      else do
        let r ← Reactor.step (s.reactors i) a
        some (s.setReactor i r)
  | .drainStart => if s.drain = .idle then some { s with drain := .waiting } else none
  | .drainLock =>
      if s.drain = .waiting then some { s with drain := .summing s.registry 0 } else none
  | .drainRead =>
      match s.drain with
      | .summing (i :: rest) pending => some { s with
          drain := .summing rest (pending + (s.reactors i).answers.keys.card) }
      | _ => none
  | .drainUnlock =>
      match s.drain with
      | .summing [] pending => some { s with drain := .summed pending }
      | _ => none
  | .drainDecide timedOut =>
      match s.drain with
      | .summed pending =>
          if pending = 0 ∨ timedOut then some { s with drain := .returned pending }
          else some { s with drain := .waiting }
      | _ => none

/-! ## What a step can be -/

/-- The effects of a step, with what the step has found. -/
inductive Effect (supervised : Bool) (s : State) : Action → State → Prop where
  | run {i : ℕ} (hi : s.threads i = .unborn) :
      Effect supervised s (.run i) (s.setThread i .running)
  | serve {i : ℕ} (hi : s.threads i = .running) (hlock : s.drain.locked = false) :
      Effect supervised s (.serve i) { s with registry := s.registry ++ [i] }
  | leaveDispatch {i : ℕ} (hlock : s.drain.locked = false) :
      Effect supervised s (.leaveDispatch i) (s.retain i)
  | scriptEnd {i : ℕ} (hi : s.threads i = .running) :
      Effect supervised s (.scriptEnd i) (s.setThread i .ended)
  | unregister {i : ℕ} (hi : s.threads i = .ended) (hmain : isMain supervised i = false)
      (hlock : s.drain.locked = false) :
      Effect supervised s (.unregister i) ((s.retain i).setThread i .removed)
  | failPending {i : ℕ} {r : Reactor.State} (hi : s.threads i = .removed)
      (hr : callFailPending (s.reactors i) = some r) :
      Effect supervised s (.failPending i) ((s.setReactor i r).setThread i .down)
  | finish {i : ℕ} (hi : s.threads i = .ended) (hmain : isMain supervised i = true) :
      Effect supervised s (.finish i) (s.setThread i .down)
  | turnedAway {load : ℕ → ℕ} {answer : Reactor.Answer} {req : HttpRequest} :
      Effect supervised s (.request load answer req) s
  | picked {load : ℕ → ℕ} {answer : Reactor.Answer} {req : HttpRequest} {i : ℕ}
      (hpick : pick s.registry s.next load = some i) :
      Effect supervised s (.request load answer req)
        { s with next := fetchAdd s.next, tasks := s.tasks ++ [⟨i, answer, req⟩] }
  | deliver {k : ℕ} {task : Task} {r : Reactor.State} (htask : s.tasks[k]? = some task)
      (hr : Reactor.step (s.reactors task.reactor) (.call task.method) = some r) :
      Effect supervised s (.deliver k)
        ({ s with tasks := s.tasks.eraseIdx k }.setReactor task.reactor r)
  | abandon {k : ℕ} : Effect supervised s (.abandon k) { s with tasks := s.tasks.eraseIdx k }
  | reactor {i : ℕ} {a : Reactor.Action} {r : Reactor.State} (ha : reserved a = false)
      (hr : Reactor.step (s.reactors i) a = some r) :
      Effect supervised s (.reactor i a) (s.setReactor i r)
  | drainStart : Effect supervised s .drainStart { s with drain := .waiting }
  | drainLock : Effect supervised s .drainLock { s with drain := .summing s.registry 0 }
  | drainRead {i : ℕ} {rest : List ℕ} {pending : ℕ}
      (hdrain : s.drain = .summing (i :: rest) pending) :
      Effect supervised s .drainRead
        { s with drain := .summing rest (pending + (s.reactors i).answers.keys.card) }
  | drainUnlock {pending : ℕ} (hdrain : s.drain = .summing [] pending) :
      Effect supervised s .drainUnlock { s with drain := .summed pending }
  | drainReturn {pending : ℕ} {timedOut : Bool} (hdrain : s.drain = .summed pending) :
      Effect supervised s (.drainDecide timedOut) { s with drain := .returned pending }
  | drainAgain {timedOut : Bool} :
      Effect supervised s (.drainDecide timedOut) { s with drain := .waiting }

theorem effect_of_step {supervised : Bool} {s s' : State} {a : Action}
    (h : step supervised s a = some s') : Effect supervised s a s' := by
  cases a with
  | run i =>
      simp only [step] at h
      split_ifs at h with hi
      cases h
      exact .run hi.1
  | serve i =>
      simp only [step] at h
      split_ifs at h with hi
      cases h
      exact .serve hi.1 hi.2
  | leaveDispatch i =>
      simp only [step] at h
      split_ifs at h with hi
      cases h
      exact .leaveDispatch hi.2
  | scriptEnd i =>
      simp only [step] at h
      split_ifs at h with hi
      cases h
      exact .scriptEnd hi
  | unregister i =>
      simp only [step] at h
      split_ifs at h with hi
      cases h
      exact .unregister hi.1 hi.2.1 hi.2.2
  | failPending i =>
      simp only [step] at h
      split_ifs at h with hi
      simp only [Option.bind_eq_bind, Option.bind_eq_some_iff, Option.some.injEq] at h
      obtain ⟨r, hr, rfl⟩ := h
      exact .failPending hi hr
  | finish i =>
      simp only [step] at h
      split_ifs at h with hi
      cases h
      exact .finish hi.1 hi.2
  | request load answer req =>
      simp only [step] at h
      split_ifs at h
      split at h
      · cases h
        exact .turnedAway
      · rename_i i hpick
        cases h
        exact .picked hpick
  | deliver k =>
      simp only [step, Option.bind_eq_bind, Option.bind_eq_some_iff, Option.some.injEq] at h
      obtain ⟨task, htask, r, hr, rfl⟩ := h
      exact .deliver htask hr
  | abandon k =>
      simp only [step] at h
      split_ifs at h
      cases h
      exact .abandon
  | reactor i b =>
      simp only [step] at h
      split_ifs at h with hb
      simp only [Option.bind_eq_bind, Option.bind_eq_some_iff, Option.some.injEq] at h
      obtain ⟨r, hr, rfl⟩ := h
      exact .reactor (by simpa using hb) hr
  | drainStart =>
      simp only [step] at h
      split_ifs at h
      cases h
      exact .drainStart
  | drainLock =>
      simp only [step] at h
      split_ifs at h
      cases h
      exact .drainLock
  | drainRead =>
      simp only [step] at h
      split at h
      · rename_i hdrain
        cases h
        exact .drainRead hdrain
      · cases h
  | drainUnlock =>
      simp only [step] at h
      split at h
      · rename_i hdrain
        cases h
        exact .drainUnlock hdrain
      · cases h
  | drainDecide timedOut =>
      simp only [step] at h
      split at h
      · rename_i hdrain
        split_ifs at h
        · cases h
          exact .drainReturn hdrain
        · cases h
          exact .drainAgain
      · cases h

end Process

end Ignis
