import Mathlib.Logic.Relation
import Ignis.Lib.Fallible
import Ignis.Reactor.CallIds

/-!
# The Revolt driver

`Ignis\Revolt\IgnisDriver` keeps a one-shot watch at the reactor for each enabled stream callback:
`arm` takes one unless it believes there is one, and only a completion that `ignis_poll` returns, or
`deactivate`, ends that belief.  `dispatch` arms what has no watch, polls, and enqueues the
callbacks whose watches came back.

The other side is the reactor with its dispatcher (`Ignis.Reactor.Dispatcher`), and `zif_ignis_poll`
between them: it resumes the fibers that are parked in C on what has completed, and an error that no
fiber waits for ends there.  A resumed fiber may call the driver in the middle of the poll, so
`ignis_poll` is several steps here.  What Revolt keeps itself, the queue of timers and the deferred
callbacks, is not modelled; they decide how long `dispatch` waits (`timeoutMs`).

`Move` says what a step is made of (`moves_of_step`); the invariants go by it.
-/

namespace Ignis

/-- `submit` with a dispatcher that receives. -/
def Dispatcher.State.submit (d : Dispatcher.State) (op : Op) : Dispatcher.State :=
  { d with
    nextId := d.nextId + 1
    inbox := d.inbox ++ [(d.nextId, op)]
    submitted := d.submitted ++ [d.nextId] }

/-- An id is taken and nothing submitted. -/
def Dispatcher.State.reserve (d : Dispatcher.State) : Dispatcher.State :=
  { d with nextId := d.nextId + 1 }

namespace Revolt

open StepSystem Fallible

abbrev CallbackId := PhpString

/-- `StreamReadableCallback` or `StreamWritableCallback`; the stream is the number of a resource. -/
structure StreamCallback where
  id : CallbackId
  stream : ℕ
  writable : Bool
  deriving DecidableEq, Repr

/-- `DriverCallback`, by the classes `activate` and `deactivate` tell apart. -/
inductive DriverCallback where
  | stream (c : StreamCallback)
  | timer
  | signal
  | unknown
  deriving DecidableEq, Repr

/-- What `is_resource`, the cast to a descriptor and `poll(2)` find of a stream. -/
inductive Look where
  | closed
  | noDescriptor
  | ready
  | notReady (fd : ℤ)
  deriving DecidableEq, Repr

/-- Where the PHP thread stands. -/
inductive Pc where
  | outside
  /-- In `Reactor::poll`. -/
  | blocked
  /-- In the loop of `zif_ignis_poll`, with what is left of the batch and the array so far. -/
  | delivering (todo : List Completion) (events : OrdMap ℕ Outcome)

def Pc.todo : Pc → List Completion
  | .delivering todo _ => todo
  | _ => []

def Pc.events : Pc → OrdMap ℕ Outcome
  | .delivering _ events => events
  | _ => ∅

structure State where
  /-- Enabled stream callbacks by id. -/
  streamCallbacks : OrdMap CallbackId StreamCallback
  /-- Pending watch op id to callback id. -/
  pendingWatch : OrdMap ℕ CallbackId
  /-- Callback id to pending watch op id. -/
  watchOf : OrdMap CallbackId ℕ
  pc : Pc
  disp : Dispatcher.State
  /-- The runtime is shutting down: the receiver of `to_tokio` has been dropped. -/
  gone : Bool
  /-- `done_tx` to `from_tokio`: sent, not yet received. -/
  channel : List Completion
  /-- Ids that others have taken with `reserve_op` and not completed. -/
  reserved : List ℕ
  /-- `wait::is_parked`: the ops a fiber is parked on in C. -/
  parked : List ℕ
  /-- Ghost: every watch `arm` took, with the callback it was for. -/
  armed : List (ℕ × CallbackId)
  /-- Ghost: the calls of `enqueueCallback`, with the op that was returned. -/
  enqueued : List (ℕ × StreamCallback)
  /-- Ghost: watches that `deactivate` found pending. -/
  calledOff : List ℕ
  /-- Ghost: what `zif_ignis_poll` has gone through. -/
  delivered : List Completion

def init : State where
  streamCallbacks := ∅
  pendingWatch := ∅
  watchOf := ∅
  pc := .outside
  disp := Dispatcher.init
  gone := false
  channel := []
  reserved := []
  parked := []
  armed := []
  enqueued := []
  calledOff := []
  delivered := []

/-! ## The reactor -/

/-- `Reactor::submit`.  With the dispatcher gone the op is dropped. -/
def State.submit (s : State) (op : Op) : State :=
  { s with disp := if s.gone then s.disp.reserve else s.disp.submit op }

/-- `reserve_op` and `complete`. -/
def State.completeNew (s : State) (outcome : Outcome) : State :=
  { s with disp := s.disp.reserve, channel := s.channel ++ [⟨s.disp.nextId, outcome⟩] }

/-! ## `IgnisDriver` -/

/-- `$this->pendingWatch[$id] = $callback->id; $this->watchOf[$callback->id] = $id;`. -/
def State.watched (s : State) (op : ℕ) (c : StreamCallback) : State :=
  { s with
    pendingWatch := s.pendingWatch.set op c.id
    watchOf := s.watchOf.set c.id op
    armed := s.armed ++ [(op, c.id)] }

/-- `IgnisDriver::arm`, with `ignis_watch`. -/
def arm (look : StreamCallback → Look) (s : State) (c : StreamCallback) :
    State × Except PhpString (List ℕ) :=
  if s.watchOf.has c.id then (s, .ok [])
  else
    match look c with
    | .closed => (s, .ok [])
    | .noDescriptor =>
        (s, .error (bytes "ignis_watch(): stream has no selectable file descriptor"))
    | .ready => ((s.completeNew .ready).watched s.disp.nextId c, .ok [s.disp.nextId])
    | .notReady fd =>
        ((s.submit (.watch fd c.writable)).watched s.disp.nextId c, .ok [s.disp.nextId])

/-- A turn of the loop of `IgnisDriver::activate`. -/
def activateOne (look : StreamCallback → Look) (s : State) :
    DriverCallback → State × Except PhpString (List ℕ)
  | .stream c => arm look { s with streamCallbacks := s.streamCallbacks.set c.id c } c
  | .timer => (s, .ok [])
  | .signal => (s, .error (bytes "Signals are not supported by IgnisDriver yet"))
  | .unknown => (s, .error (bytes "Unknown callback type"))

/-- `IgnisDriver::deactivate`. -/
def deactivate (s : State) : DriverCallback → State
  | .stream c =>
      let s := { s with streamCallbacks := s.streamCallbacks.unset c.id }
      match s.watchOf.get? c.id with
      | none => s
      | some op =>
          { s with
            pendingWatch := s.pendingWatch.unset op
            watchOf := s.watchOf.unset c.id
            calledOff := s.calledOff ++ [op] }.submit (.cancelWatch op)
  | _ => s

/-- The first loop of `IgnisDriver::dispatch`. -/
def armAll (look : StreamCallback → Look) (s : State) : State × Except PhpString (List ℕ) :=
  forEach (arm look) s (s.streamCallbacks.entries.map Prod.snd)

/-- A turn of the loop over the events. -/
def dispatchEvent (s : State) (op : ℕ) : State :=
  match s.pendingWatch.get? op with
  | none => s
  | some id =>
      let s := { s with
        pendingWatch := s.pendingWatch.unset op
        watchOf := s.watchOf.unset id }
      match s.streamCallbacks.get? id with
      | none => s
      | some c => { s with enqueued := s.enqueued ++ [(op, c)] }

/-! ## `zif_ignis_poll` -/

/-- A turn of its loop.  A parked fiber is resumed; an error without one is dropped. -/
def hear (s : State) (c : Completion) (todo : List Completion) (events : OrdMap ℕ Outcome) :
    State :=
  let resumed := { s with
    delivered := s.delivered ++ [c]
    parked := s.parked.filter fun id => id ≠ c.id
    pc := .delivering todo events }
  let returned := { s with
    delivered := s.delivered ++ [c]
    pc := .delivering todo (events.set c.id c.outcome) }
  match c.outcome with
  | .error _ => resumed
  | .slept _ | .ready => if c.id ∈ s.parked then resumed else returned
  | _ => returned

/-! ## Steps -/

inductive Action where
  | activate (look : StreamCallback → Look) (callbacks : List DriverCallback)
  | deactivate (callback : DriverCallback)
  /-- `dispatch`, up to `ignis_poll`. -/
  | dispatch (look : StreamCallback → Look) (timeoutMs : ℤ)
  /-- `Reactor::poll` returns with a batch of `n`. -/
  | poll (n : ℕ)
  /-- The next completion of the batch. -/
  | hear
  /-- `ignis_poll` returns, and `dispatch` goes through the events. -/
  | finish
  /-- Somebody else submits an op, or takes an id and completes it later. -/
  | submit (op : Op)
  | reserve
  | complete (c : Completion)
  /-- A fiber parks in C on an op of its own. -/
  | park (id : ℕ)
  /-- The dispatcher or one of its tasks moves on. -/
  | tokio (a : Dispatcher.Action)
  /-- The runtime shuts down. -/
  | shutDown

/-- While the thread is blocked no PHP code runs. -/
def Pc.runs : Pc → Bool
  | .blocked => false
  | _ => true

def step (s : State) : Action → Option State
  | .activate look callbacks =>
      if s.pc.runs then some (forEach (activateOne look) s callbacks).1 else none
  | .deactivate callback => if s.pc.runs then some (deactivate s callback) else none
  | .dispatch look timeoutMs =>
      match s.pc with
      | .outside =>
          match armAll look s with
          | (s, .error _) => some s
          | (s, .ok _) =>
              if timeoutMs ≠ 0 ∨ s.pendingWatch.entries ≠ [] then some { s with pc := .blocked }
              else some s
      | _ => none
  | .poll n =>
      match s.pc with
      | .blocked => some { s with
          channel := s.channel.drop n
          pc := .delivering (s.channel.take n) ∅ }
      | _ => none
  | .hear =>
      match s.pc with
      | .delivering (c :: todo) events => some (hear s c todo events)
      | _ => none
  | .finish =>
      match s.pc with
      | .delivering [] events => some { events.keys.foldl dispatchEvent s with pc := .outside }
      | _ => none
  | .submit op => some (s.submit op)
  | .reserve => some { s with
      disp := s.disp.reserve
      reserved := s.reserved ++ [s.disp.nextId] }
  | .complete c =>
      if c.id ∈ s.reserved then
        some { s with
          reserved := s.reserved.filter fun id => id ≠ c.id
          channel := s.channel ++ [c] }
      else none
  | .park id =>
      if id < s.disp.nextId ∧ id ∉ s.armed.map Prod.fst then
        some { s with parked := s.parked ++ [id] }
      else none
  | .tokio a =>
      if a.isTokio ∧ ¬ (s.gone ∧ a = .dispatch) then
        (Dispatcher.step s.disp a).map fun d =>
          { s with disp := d, channel := s.channel ++ d.sent.drop s.disp.sent.length }
      else none
  | .shutDown => some { s with gone := true }

/-! ## What a step is made of -/

/-- The smallest changes; `hear` and `shutDown` are steps of their own. -/
inductive Move : State → State → Prop where
  | enable {s : State} (c : StreamCallback) :
      Move s { s with streamCallbacks := s.streamCallbacks.set c.id c }
  | disable {s : State} (c : StreamCallback) (hno : s.watchOf.get? c.id = none) :
      Move s { s with streamCallbacks := s.streamCallbacks.unset c.id }
  | watchReady {s : State} (c : StreamCallback) (hno : s.watchOf.get? c.id = none)
      (hon : s.streamCallbacks.has c.id = true) :
      Move s ((s.completeNew .ready).watched s.disp.nextId c)
  | watch {s : State} (c : StreamCallback) (op : Op) (hno : s.watchOf.get? c.id = none)
      (hon : s.streamCallbacks.has c.id = true) :
      Move s ((s.submit op).watched s.disp.nextId c)
  | callOff {s : State} {op : ℕ} (c : StreamCallback) (hop : s.watchOf.get? c.id = some op) :
      Move s { s with
        streamCallbacks := s.streamCallbacks.unset c.id
        pendingWatch := s.pendingWatch.unset op
        watchOf := s.watchOf.unset c.id
        calledOff := s.calledOff ++ [op] }
  | enqueue {s : State} {op : ℕ} {id : CallbackId} {c : StreamCallback}
      (hop : s.pendingWatch.get? op = some id) (hc : s.streamCallbacks.get? id = some c) :
      Move s { s with
        pendingWatch := s.pendingWatch.unset op
        watchOf := s.watchOf.unset id
        enqueued := s.enqueued ++ [(op, c)] }
  | release {s : State} {op : ℕ} {id : CallbackId} (hop : s.pendingWatch.get? op = some id)
      (hoff : s.streamCallbacks.get? id = none) :
      Move s { s with
        pendingWatch := s.pendingWatch.unset op
        watchOf := s.watchOf.unset id }
  | block {s : State} (hpc : s.pc = .outside) : Move s { s with pc := .blocked }
  | poll {s : State} (n : ℕ) (hpc : s.pc = .blocked) :
      Move s { s with channel := s.channel.drop n, pc := .delivering (s.channel.take n) ∅ }
  | finish {s : State} {events : OrdMap ℕ Outcome} (hpc : s.pc = .delivering [] events)
      (hdone : ∀ op, events.has op = true → s.pendingWatch.get? op = none) :
      Move s { s with pc := .outside }
  | submit {s : State} (op : Op) : Move s (s.submit op)
  | reserve {s : State} :
      Move s { s with disp := s.disp.reserve, reserved := s.reserved ++ [s.disp.nextId] }
  | complete {s : State} (c : Completion) (hid : c.id ∈ s.reserved) :
      Move s { s with
        reserved := s.reserved.filter fun id => id ≠ c.id
        channel := s.channel ++ [c] }
  | park {s : State} (id : ℕ) (hlt : id < s.disp.nextId) (hid : id ∉ s.armed.map Prod.fst) :
      Move s { s with parked := s.parked ++ [id] }
  | tokio {s : State} {a : Dispatcher.Action} {d : Dispatcher.State} (ha : a.isTokio = true)
      (hd : Dispatcher.step s.disp a = some d) :
      Move s { s with disp := d, channel := s.channel ++ d.sent.drop s.disp.sent.length }

abbrev Moves : State → State → Prop := Relation.ReflTransGen Move

lemma has_eq_false_iff {κ α : Type} [DecidableEq κ] {m : OrdMap κ α} {k : κ} :
    m.has k = false ↔ m.get? k = none := by
  rw [OrdMap.has, Option.isSome_eq_false_iff, Option.isNone_iff_eq_none]

lemma moves_arm {look : StreamCallback → Look} {s : State} {c : StreamCallback}
    (hon : s.streamCallbacks.has c.id = true) : Moves s (arm look s c).1 := by
  rw [arm]
  by_cases hwatch : s.watchOf.has c.id = true
  · rw [if_pos hwatch]
  · rw [if_neg hwatch]
    have hno : s.watchOf.get? c.id = none := has_eq_false_iff.mp (Bool.not_eq_true _ ▸ hwatch)
    cases look c with
    | closed => exact .refl
    | noDescriptor => exact .refl
    | ready => exact .single (.watchReady c hno hon)
    | notReady fd => exact .single (.watch c _ hno hon)

/-- `arm` does not touch what is enabled. -/
lemma frame_arm (look : StreamCallback → Look) (s : State) (c : StreamCallback) :
    (arm look s c).1.streamCallbacks = s.streamCallbacks ∧ (arm look s c).1.pc = s.pc := by
  rw [arm]
  split_ifs
  · exact ⟨rfl, rfl⟩
  · cases look c <;> exact ⟨rfl, rfl⟩

lemma moves_activateOne (look : StreamCallback → Look) (s : State) (callback : DriverCallback) :
    Moves s (activateOne look s callback).1 := by
  cases callback with
  | stream c =>
      have hon : (s.streamCallbacks.set c.id c).has c.id = true :=
        OrdMap.has_iff.mpr ⟨c, OrdMap.get?_set_self _ _ _⟩
      exact .head (.enable c) (moves_arm hon)
  | timer => exact .refl
  | signal => exact .refl
  | unknown => exact .refl

lemma moves_deactivate (s : State) (callback : DriverCallback) :
    Moves s (deactivate s callback) := by
  cases callback with
  | stream c =>
      rw [deactivate]
      cases hop : s.watchOf.get? c.id with
      | none =>
          exact .single (.disable c hop)
      | some op =>
          exact .head (.callOff c hop) (.single (.submit _))
  | timer => exact .refl
  | signal => exact .refl
  | unknown => exact .refl

/-- Every callback stands under its id. -/
def State.Keyed (s : State) : Prop := ∀ id c, s.streamCallbacks.get? id = some c → c.id = id

lemma frame_armAll (look : StreamCallback → Look) (s : State) :
    (armAll look s).1.streamCallbacks = s.streamCallbacks ∧ (armAll look s).1.pc = s.pc :=
  forEach_invariant (I := fun t => t.streamCallbacks = s.streamCallbacks ∧ t.pc = s.pc)
    (fun t c _ ht => ⟨(frame_arm look t c).1.trans ht.1, (frame_arm look t c).2.trans ht.2⟩)
    ⟨rfl, rfl⟩

lemma moves_armAll {s : State} (h : s.Keyed) (look : StreamCallback → Look) :
    Moves s (armAll look s).1 := by
  have hkept : Moves s (armAll look s).1
      ∧ (armAll look s).1.streamCallbacks = s.streamCallbacks := by
    refine forEach_invariant (I := fun t => Moves s t ∧ t.streamCallbacks = s.streamCallbacks)
      (fun t c hc ht => ⟨ht.1.trans (moves_arm ?_), (frame_arm look t c).1.trans ht.2⟩)
      ⟨.refl, rfl⟩
    obtain ⟨⟨id, c⟩, he, rfl⟩ := List.mem_map.mp hc
    have hget := OrdMap.mem_entries_iff.mp he
    rw [ht.2, h id c hget]
    exact OrdMap.has_iff.mpr ⟨c, hget⟩
  exact hkept.1

/-- `dispatch` gets to `ignis_poll` only if the loop over the callbacks ends. -/
lemma dispatch_cases {s s' : State} {look : StreamCallback → Look} {timeoutMs : ℤ}
    (h : step s (.dispatch look timeoutMs) = some s') :
    s.pc = .outside ∧ (s' = (armAll look s).1
      ∨ ∃ out, (armAll look s).2 = .ok out ∧ s' = { (armAll look s).1 with pc := .blocked }) := by
  simp only [step] at h
  split at h
  · rename_i hpc
    refine ⟨hpc, ?_⟩
    generalize armAll look s = r at h
    obtain ⟨t, out⟩ := r
    cases out with
    | error e => exact Or.inl (Option.some.inj h).symm
    | ok out =>
        dsimp only at h
        split_ifs at h
        · exact Or.inr ⟨out, rfl, (Option.some.inj h).symm⟩
        · exact Or.inl (Option.some.inj h).symm
  · cases h

lemma moves_dispatchEvent (s : State) (op : ℕ) : Moves s (dispatchEvent s op) := by
  rw [dispatchEvent]
  cases hop : s.pendingWatch.get? op with
  | none => exact .refl
  | some id =>
      cases hc : s.streamCallbacks.get? id with
      | none =>
          simp only [hc]
          exact .single (.release hop hc)
      | some c =>
          simp only [hc]
          exact .single (.enqueue hop hc)

lemma get?_dispatchEvent (s : State) (k op : ℕ) :
    (dispatchEvent s k).pendingWatch.get? op = if op = k then none else s.pendingWatch.get? op := by
  rw [dispatchEvent]
  cases hk : s.pendingWatch.get? k with
  | none =>
      split_ifs with heq
      · exact heq ▸ hk
      · rfl
  | some id =>
      dsimp only
      split
      · exact OrdMap.get?_unset _ _ _
      · exact OrdMap.get?_unset _ _ _

lemma pc_dispatchEvent (s : State) (k : ℕ) : (dispatchEvent s k).pc = s.pc := by
  rw [dispatchEvent]
  cases s.pendingWatch.get? k with
  | none => rfl
  | some id =>
      dsimp only
      split <;> rfl

/-- The loop over the events. -/
lemma moves_foldl_dispatchEvent (ops : List ℕ) (s : State) :
    Moves s (ops.foldl dispatchEvent s) ∧ (ops.foldl dispatchEvent s).pc = s.pc
      ∧ ∀ op, (ops.foldl dispatchEvent s).pendingWatch.get? op
          = if op ∈ ops then none else s.pendingWatch.get? op := by
  induction ops generalizing s with
  | nil => exact ⟨.refl, rfl, fun op => (if_neg List.not_mem_nil).symm⟩
  | cons k ops ih =>
      obtain ⟨hmoves, hpc, hget⟩ := ih (dispatchEvent s k)
      refine ⟨(moves_dispatchEvent s k).trans hmoves, hpc.trans (pc_dispatchEvent s k),
        fun op => ?_⟩
      rw [List.foldl_cons, hget, get?_dispatchEvent]
      by_cases hk : op = k
      · simp [hk]
      · simp [hk]

/-- **What a step can be**: small changes, one completion that is heard, or the end of the
runtime. -/
theorem step_cases {s s' : State} {a : Action} (hkeyed : s.Keyed) (h : step s a = some s') :
    Moves s s'
      ∨ (∃ c todo events, a = .hear ∧ s.pc = .delivering (c :: todo) events
        ∧ s' = hear s c todo events)
      ∨ (a = .shutDown ∧ s' = { s with gone := true }) := by
  cases a with
  | activate look callbacks =>
      simp only [step] at h
      split_ifs at h
      obtain rfl := Option.some.inj h
      exact Or.inl (forEach_invariant (I := fun t => Moves s t)
        (fun t c _ ht => ht.trans (moves_activateOne look t c)) .refl)
  | deactivate callback =>
      simp only [step] at h
      split_ifs at h
      obtain rfl := Option.some.inj h
      exact Or.inl (moves_deactivate s callback)
  | dispatch look timeoutMs =>
      have hmoves := moves_armAll hkeyed look
      obtain ⟨hpc, rfl | ⟨out, -, rfl⟩⟩ := dispatch_cases h
      · exact Or.inl hmoves
      · exact Or.inl (hmoves.tail (.block ((frame_armAll look s).2.trans hpc)))
  | poll n =>
      simp only [step] at h
      split at h
      · rename_i hpc
        obtain rfl := Option.some.inj h
        exact Or.inl (.single (.poll n hpc))
      · cases h
  | hear =>
      simp only [step] at h
      split at h
      · rename_i c todo events hpc
        exact Or.inr (Or.inl ⟨c, todo, events, rfl, hpc, (Option.some.inj h).symm⟩)
      · cases h
  | finish =>
      simp only [step] at h
      split at h
      · rename_i events hpc
        obtain rfl := Option.some.inj h
        obtain ⟨hmoves, hpc', hget⟩ := moves_foldl_dispatchEvent events.keys s
        refine Or.inl (hmoves.tail (.finish (hpc'.trans hpc) fun op hop => ?_))
        rw [hget, if_pos (OrdMap.mem_keys_iff.mpr (OrdMap.has_iff.mp hop))]
      · cases h
  | submit op => exact Or.inl (Option.some.inj h ▸ .single (.submit op))
  | reserve => exact Or.inl (Option.some.inj h ▸ .single .reserve)
  | complete c =>
      simp only [step] at h
      split_ifs at h with hid
      exact Or.inl (Option.some.inj h ▸ .single (.complete c hid))
  | park id =>
      simp only [step] at h
      split_ifs at h with hid
      exact Or.inl (Option.some.inj h ▸ .single (.park id hid.1 hid.2))
  | tokio b =>
      simp only [step] at h
      split_ifs at h with hb
      obtain ⟨d, hd, rfl⟩ := Option.map_eq_some_iff.mp h
      exact Or.inl (.single (.tokio hb.1 hd))
  | shutDown => exact Or.inr (Or.inr ⟨rfl, (Option.some.inj h).symm⟩)

end Revolt

end Ignis
