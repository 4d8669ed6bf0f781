import Ignis.Loop.Unobserved

/-!
# What `{main}` gets back

`{main}` has no fiber to park.  `run()`, `Future::await()` and `awaitOp()` called there drive the
loop, each with its own `$stop`, and what the call returns or throws is decided when `runUntil()`
has ended: by `reportUnobserved()` first, and only then by what the call was made for.

So `await()` throws the rejection of another future when there is one (`other_rejection_thrown`);
it means what it means in a fiber exactly as long as nothing else is reported before its own outcome
(`await_main_iff`).
-/

namespace Ignis

namespace Loop

open StepSystem

/-! ## Calls of `{main}` -/

/-- `awaitOpFromMain()`. -/
structure OpWait where
  id : Id
  /-- `$done` in `static fn(): bool => $done`: a copy, made before the op could complete. -/
  captured : Bool
  /-- `$result`, once the throwaway fiber has been resumed and has set `$done`. -/
  result : Option Payload
  /-- Ghost: a batch had the completion of the op. -/
  polled : Bool
  deriving DecidableEq

/-- `$done = false`, and the closures are made. -/
def OpWait.start (id : Id) : OpWait := ⟨id, false, none, false⟩

/-- A call in which `{main}` drives the loop. -/
inductive Call where
  | run
  | awaitOp (w : OpWait)
  | await (fut : FutureId)
  deriving DecidableEq

/-- How a call ends. -/
inductive Ending (ν : Type) where
  | ran
  | payload (result : Option Payload)
  | value (v : Option ν)
  | threw (e : Exc)
  /-- `LogicException('Loop already running')`. -/
  | alreadyRunning
  /-- The `LogicException` of `driveLoopUntilSettled()`. -/
  | unsettled
  /-- The exception of a malformed completion. -/
  | escaped
  deriving DecidableEq

/-- The rest of `Future::await()` once the future has settled, on `{main}` as in a fiber. -/
def outcome {ν : Type} : Result → Option ν → Ending ν
  | .rejected e, _ => .threw e
  | .resolved, v => .value v

/-- A call that is over.  `logged` is what `reportUnobserved()` logged, and `settled` the future
that was awaited as it was then. -/
structure End (ν : Type) where
  call : Call
  ending : Ending ν
  logged : List Exc
  settled : Option (Result × Option ν)
  deriving DecidableEq

/-- An `await()` returns the value of the future or throws its rejection, which is not logged
besides; where the loop has stopped without it, the call says so. -/
def End.Faithful {ν : Type} (x : End ν) : Prop :=
  match x.call, x.settled with
  | .await _, some (result, v) =>
      x.ending = outcome result v ∧ ∀ e, result = .rejected e → e ∉ x.logged
  | .await _, none => x.ending = .unsettled
  | _, _ => True

/-- A loop, the values of its futures, and `{main}`. -/
structure Driver (ν : Type) where
  loop : State
  /-- `Future::$value`. -/
  values : FutureId → Option ν
  /-- The call that drives the loop. -/
  call : Option Call
  ends : List (End ν)

inductive Act (ν : Type) where
  /-- A step of the loop; if a future resolves, with this value. -/
  | loop (a : Action) (value : Option ν)
  /-- `run()` or `serve()`. -/
  | run (serve : Bool)
  | awaitOp (id : Id)
  | await (fut : FutureId)

def Pc.isScript : Pc → Bool
  | .script => true
  | _ => false

/-- The completion `dispatchEvents()` comes to with the step. -/
def State.dispatches (s : State) : Action → Option (Id × Payload)
  | .advance =>
      match s.pc with
      | .dispatchEvents (e :: _) => some e
      | _ => none
  | _ => none

/-- The exception of a malformed completion leaves the loop with the step. -/
def State.escapes (s : State) : Action → Bool
  | .advance => s.malformed
  | _ => false

/-- A batch that contains the completion of `op`. -/
def Action.completes (op : Id) : Action → Bool
  | .poll done => done.any fun c => c.1.id == op
  | _ => false

/-- The throwaway fiber of the call, if it is this one's turn, is resumed with the payload. -/
def OpWait.after (w : OpWait) (s : State) (a : Action) : OpWait where
  id := w.id
  captured := w.captured
  result :=
    match s.dispatches a with
    | some (id, payload) =>
        if id = w.id ∧ s.deadlines.get? id = none
            ∧ s.pool.waiting.get? id = some .throwaway then
          some payload
        else w.result
    | none => w.result
  polled := w.polled || a.completes w.id

namespace Call

/-- What `$stop()` answers. -/
def stop (s : State) : Call → Bool
  | .run => false
  | .awaitOp w => w.captured
  | .await fut => (s.pool.futures fut).result.isSome

def after (s : State) (a : Action) : Call → Call
  | .awaitOp w => .awaitOp (w.after s a)
  | call => call

end Call

/-- `observeError()`, in an `await()` of `{main}`. -/
def State.lookAt (s : State) : Call → State
  | .await fut => { s with pool := s.pool.observe fut }
  | _ => s

namespace Driver

variable {ν : Type}

def boot (s : State) : Driver ν := ⟨s, fun _ => none, none, []⟩

/-- The steps of the loop that are not calls of `{main}`, with the answer of `$stop()`. -/
def allows (d : Driver ν) : Action → Bool
  | .run _ | .awaitOpFromMain _ => false
  | .turn stop => d.call.any fun call => stop == call.stop d.loop
  | _ => true

/-- `Future::$value` after a step. -/
def valuesAfter (d : Driver ν) (a : Action) (value : Option ν) : FutureId → Option ν :=
  match d.loop.settles a with
  | some (fut, .resolved) => Function.update d.values fut value
  | _ => d.values

/-- What the call comes to by itself. -/
def own (d : Driver ν) : Call → Ending ν
  | .run => .ran
  | .awaitOp w => .payload w.result
  | .await fut =>
      match (d.loop.pool.futures fut).result with
      | some result => outcome result (d.values fut)
      | none => .unsettled

/-- The awaited future, as it is now. -/
def settled (d : Driver ν) : Call → Option (Result × Option ν)
  | .await fut => (d.loop.pool.futures fut).result.map fun result => (result, d.values fut)
  | _ => none

def close (d : Driver ν) (call : Call) (ending : Ending ν) (logged : List Exc) : Driver ν :=
  { d with call := none, ends := d.ends ++ [⟨call, ending, logged, d.settled call⟩] }

/-- `reportUnobserved()` at the end of `runUntil()`, and what the call does if it does not throw. -/
def leave (d : Driver ν) (call : Call) (errors : List Exc) : Driver ν :=
  match reportUnobserved errors with
  | (some e, logged) => d.close call (.threw e) logged
  | (none, logged) => { d.close call (d.own call) logged with loop := d.loop.lookAt call }

/-- The step of the loop, before `{main}` comes to the end of a call. -/
def moved (d : Driver ν) (a : Action) (value : Option ν) (s : State) : Driver ν :=
  { d with
    loop := s
    values := d.valuesAfter a value
    call := d.call.map (Call.after d.loop a) }

def stepLoop (d : Driver ν) (a : Action) (value : Option ν) : Option (Driver ν) :=
  if d.allows a then
    (Loop.step d.loop a).map fun s =>
      match d.call with
      | none => d.moved a value s
      | some call =>
          if d.loop.leaves a then
            (d.moved a value s).leave (call.after d.loop a) d.loop.pool.unobserved
          else if s.pc.isScript then
            (d.moved a value s).close (call.after d.loop a) .escaped []
          else d.moved a value s
  else none

/-- `awaitOp()`.  Where the loop runs already the throwaway fiber stays registered. -/
def stepAwaitOp (d : Driver ν) (id : Id) : Option (Driver ν) :=
  if d.loop.mainCode then
    if d.loop.pc.isScript then
      (Loop.step d.loop (.awaitOpFromMain id)).map fun s =>
        { d with loop := s, call := some (.awaitOp (.start id)) }
    else some { d with
      loop := { d.loop with
        pool := { d.loop.pool with waiting := d.loop.pool.waiting.set id .throwaway } }
      ends := d.ends ++ [⟨.awaitOp (.start id), .alreadyRunning, [], none⟩] }
  else none

/-- `Future::await()`. -/
def stepAwait (d : Driver ν) (fut : FutureId) : Option (Driver ν) :=
  if d.loop.mainCode ∧ fut < d.loop.pool.nextFuture then
    match (d.loop.pool.futures fut).result with
    | some result => some { d with
        loop := d.loop.lookAt (.await fut)
        ends := d.ends ++
          [⟨.await fut, outcome result (d.values fut), [], some (result, d.values fut)⟩] }
    | none =>
        if d.loop.pc.isScript then
          (Loop.step d.loop (.run false)).map fun s =>
            { d with loop := s, call := some (.await fut) }
        else some { d with ends := d.ends ++ [⟨.await fut, .alreadyRunning, [], none⟩] }
  else none

def step (d : Driver ν) : Act ν → Option (Driver ν)
  | .loop a value => d.stepLoop a value
  | .run serve =>
      (Loop.step d.loop (.run serve)).map fun s => { d with loop := s, call := some .run }
  | .awaitOp id => d.stepAwaitOp id
  | .await fut => d.stepAwait fut

end Driver

/-! ## Where `{main}` is -/

lemma mainStep_of_step {s s' : State} {a : Action} (h : Loop.step s a = some s')
    (ha : a.ofMain = true) : s.pool.running = none ∧ MainStep s a s' := by
  rcases step_cases h with ⟨f, j, st, -, hf⟩ | ⟨hrunning, hmain⟩
  · cases a with
    | run _ | awaitOpFromMain _ | turn _ | takeReady _ | test _ _ | poll _ | dispatch _ _
    | advance => simp [stepFiber, stepUser] at hf
    | _ => simp [Action.ofMain] at ha
  · exact ⟨hrunning, (stepMain_cases hmain).resolve_right (by simp [ha])⟩

/-- `runUntil()` ends: the report is empty, and `{main}` is out of the loop. -/
lemma leaves_spec {s s' : State} {a : Action} (h : Loop.step s a = some s')
    (hleaves : s.leaves a = true) :
    s'.pc = .script ∧ s'.pool = { s.pool with unobserved := [] } := by
  cases (mainStep_of_step h (ofMain_of_leaves hleaves)).2 with
  | stops | ends | endsPolled => exact ⟨rfl, rfl⟩
  | again _ hpending => simp [State.leaves, hpending] at hleaves
  | waits _ hstays | dispatch _ hstays => simp [hstays] at hleaves
  | _ => simp [State.leaves] at hleaves

/-- Outside the loop nothing but a call leads into it. -/
lemma script_step {s s' : State} {a : Action} (hi : Loop.Inv s) (h : Loop.step s a = some s')
    (hpc : s.pc = .script) (hrun : ∀ serve, a ≠ .run serve) (hop : ∀ op, a ≠ .awaitOpFromMain op) :
    s'.pc = .script := by
  rcases (frame_of_step hi h).pc with ha | hsame
  · cases (mainStep_of_step h ha).2 with
    | @run serve => exact absurd rfl (hrun serve)
    | @awaitOpFromMain op => exact absurd rfl (hop op)
    | advance hstep => simp [State.advance, hpc] at hstep
    | stops hat | goesOn hat | takeReady hat | again hat | ends hat | waits hat | poll hat
    | endsPolled hat | dispatch hat => simp [hpc] at hat
  · rw [hsame, hpc]

lemma pc_of_malformed {s : State} (h : s.malformed = true) :
    ∃ id a rest, s.pc = .dispatchEvents ((id, .array a) :: rest)
      ∧ s.pool.waiting.has id = false ∧ ∃ e, dispatchUnawaited a = .error e := by
  unfold State.malformed at h
  split at h
  · rename_i id a rest hpc
    cases hu : dispatchUnawaited a with
    | ok u => simp [hu] at h
    | error e => exact ⟨id, a, rest, hpc, by simpa [hu] using h, e, hu⟩
  · cases h

/-- Inside the loop `{main}` leaves it otherwise only with the exception of a malformed
completion. -/
lemma escapes_iff {s s' : State} {a : Action} (hi : Loop.Inv s) (h : Loop.step s a = some s')
    (hin : s.pc ≠ .script) (hleaves : s.leaves a = false) :
    s'.pc = .script ↔ s.escapes a = true := by
  have hframe := frame_of_step hi h
  constructor
  · intro hpc'
    have hbad : s.malformed = true := by
      rcases hframe.script hpc' with hold | hl | hbad
      · exact absurd hold hin
      · simp [hl] at hleaves
      · exact hbad
    have ha : a.ofMain = true := hframe.pc.resolve_right fun hsame => hin (hsame.symm.trans hpc')
    obtain ⟨id, arr, rest, hpc, -⟩ := pc_of_malformed hbad
    cases (mainStep_of_step h ha).2 with
    | advance => exact hbad
    | run hat | awaitOpFromMain hat | stops hat | goesOn hat | takeReady hat | again hat
    | ends hat | waits hat | poll hat | endsPolled hat | dispatch hat => simp [hpc] at hat
  · intro hescapes
    cases a with
    | advance =>
        obtain ⟨-, hmain⟩ := mainStep_of_step h rfl
        obtain ⟨id, arr, rest, hpc, hwaiting, e, he⟩ := pc_of_malformed hescapes
        cases hmain with
        | advance hstep =>
            simp only [State.advance, hpc, State.dispatchEvent, hwaiting, he, Bool.false_eq_true,
              if_false] at hstep
            obtain rfl := Option.some.inj hstep
            rfl
    | _ => simp [State.escapes] at hescapes

/-! ## Good states -/

/-- A pool in which every fiber is where it was. -/
lemma inv_pool {s : State} (h : Loop.Inv s) {q : Pool} (hq : q.Inv)
    (hstatus : q.status = s.pool.status) (hstart : q.startBatch = s.pool.startBatch)
    (hready : q.readyBatch = s.pool.readyBatch) (htodo : q.todo = s.pool.todo) :
    Loop.Inv { s with pool := q } := by
  refine ⟨h.keep hq rfl hstart hready htodo, h.admission, fun f j id hj hb => ?_, fun f hf => ?_⟩
  · simp only [hstatus] at hj
    exact h.handler_admitted f j id hj hb
  · simp only [hstatus] at hf
    exact h.clearing_scope f hf

lemma inv_lookAt {s : State} (h : Loop.Inv s) (call : Call) : Loop.Inv (s.lookAt call) := by
  cases call with
  | run | awaitOp w => exact h
  | await fut =>
      refine inv_pool h (Pool.inv_observe h.pool fut) ?_ ?_ ?_ ?_ <;>
        · unfold Pool.observe
          split <;> rfl

lemma lookAt_pc (s : State) (call : Call) : (s.lookAt call).pc = s.pc := by
  cases call <;> rfl

namespace Driver

variable {ν : Type}

/-- The loop is in a good state, and `{main}` is in a call exactly while it drives the loop. -/
structure Inv (d : Driver ν) : Prop where
  loop : Loop.Inv d.loop
  calling : d.call = none ↔ d.loop.pc = .script

lemma inv_boot {s : State} (h : Loop.Inv s) (hpc : s.pc = .script) : Inv (boot (ν := ν) s) :=
  ⟨h, iff_of_true rfl hpc⟩

lemma isScript_iff {pc : Pc} : pc.isScript = true ↔ pc = .script := by
  cases pc <;> simp [Pc.isScript]

/-- What a step of the loop does to the call: it goes on, or `runUntil()` ends, or an exception
leaves it. -/
inductive Moves (d : Driver ν) (a : Action) (value : Option ν) : Driver ν → Prop
  | outside {s} (hs : Loop.step d.loop a = some s) (hcall : d.call = none) (hpc : s.pc = .script) :
      Moves d a value (d.moved a value s)
  | inside {s call} (hs : Loop.step d.loop a = some s) (hcall : d.call = some call)
      (hallows : d.allows a = true) (hleaves : d.loop.leaves a = false) (hpc : s.pc ≠ .script)
      (hgood : d.loop.escapes a = false) : Moves d a value (d.moved a value s)
  | leaves {s call} (hs : Loop.step d.loop a = some s) (hcall : d.call = some call)
      (hallows : d.allows a = true) (hleaves : d.loop.leaves a = true) (hpc : s.pc = .script)
      (hpool : s.pool = { d.loop.pool with unobserved := [] }) :
      Moves d a value ((d.moved a value s).leave (call.after d.loop a) d.loop.pool.unobserved)
  | escapes {s call} (hs : Loop.step d.loop a = some s) (hcall : d.call = some call)
      (hpc : s.pc = .script) (hbad : d.loop.escapes a = true) :
      Moves d a value ((d.moved a value s).close (call.after d.loop a) .escaped [])

lemma moves_of_stepLoop {d d' : Driver ν} {a : Action} {value : Option ν} (h : Inv d)
    (hstep : d.stepLoop a value = some d') : Moves d a value d' := by
  unfold stepLoop at hstep
  by_cases hallows : d.allows a = true
  · rw [if_pos hallows] at hstep
    obtain ⟨s, hs, rfl⟩ := Option.map_eq_some_iff.mp hstep
    cases hcall : d.call with
    | none =>
        refine .outside hs hcall (script_step h.loop hs (h.calling.mp hcall) ?_ ?_)
        · rintro serve rfl
          simp [allows] at hallows
        · rintro op rfl
          simp [allows] at hallows
    | some call =>
        have hin : d.loop.pc ≠ .script := fun hpc => by simp [h.calling.mpr hpc] at hcall
        simp only
        split_ifs with hleaves hpc
        · obtain ⟨hpc, hpool⟩ := leaves_spec hs hleaves
          exact .leaves hs hcall hallows hleaves hpc hpool
        · have hout := isScript_iff.mp hpc
          have hbad := (escapes_iff h.loop hs hin (by simpa using hleaves)).mp hout
          exact .escapes hs hcall hout hbad
        · have hstays : s.pc ≠ .script := fun e => hpc (isScript_iff.mpr e)
          have hgood := (escapes_iff h.loop hs hin (by simpa using hleaves)).not.mp hstays
          exact .inside hs hcall hallows (by simpa using hleaves) hstays (by simpa using hgood)
  · rw [if_neg hallows] at hstep
    cases hstep

lemma leave_eq (d : Driver ν) (call : Call) (errors : List Exc) :
    (∃ e rest, errors = e :: rest ∧ d.leave call errors = d.close call (.threw e) rest)
      ∨ (errors = [] ∧ d.leave call errors
        = { d.close call (d.own call) [] with loop := d.loop.lookAt call }) := by
  cases errors with
  | nil => exact .inr ⟨rfl, rfl⟩
  | cons e rest => exact .inl ⟨e, rest, rfl, rfl⟩

lemma inv_leave {d : Driver ν} (hloop : Loop.Inv d.loop) (hpc : d.loop.pc = .script) (call : Call)
    (errors : List Exc) : Inv (d.leave call errors) := by
  rcases leave_eq d call errors with ⟨e, rest, -, heq⟩ | ⟨-, heq⟩
  · rw [heq]
    exact ⟨hloop, iff_of_true rfl hpc⟩
  · rw [heq]
    exact ⟨inv_lookAt hloop call, iff_of_true rfl ((lookAt_pc d.loop call).trans hpc)⟩

lemma inv_stepLoop {d d' : Driver ν} {a : Action} {value : Option ν} (h : Inv d)
    (hstep : d.stepLoop a value = some d') : Inv d' := by
  cases moves_of_stepLoop h hstep with
  | outside hs hcall hpc => exact ⟨inv_step h.loop hs, iff_of_true (by simp [moved, hcall]) hpc⟩
  | inside hs hcall _ _ hpc _ =>
      exact ⟨inv_step h.loop hs, iff_of_false (by simp [moved, hcall]) hpc⟩
  | leaves hs _ _ _ hpc _ => exact inv_leave (inv_step h.loop hs) hpc _ _
  | escapes hs _ hpc _ => exact ⟨inv_step h.loop hs, iff_of_true rfl hpc⟩

/-- A call that enters the loop. -/
lemma enter_spec {d : Driver ν} {s : State} {a : Action} {call : Call} (h : Inv d)
    (ha : (∃ serve, a = .run serve) ∨ ∃ op, a = .awaitOpFromMain op)
    (hs : Loop.step d.loop a = some s) :
    d.call = none ∧ s.pc = .turn ∧ Inv { d with loop := s, call := some call } := by
  have hpc : d.loop.pc = .script ∧ s.pc = .turn := by
    rcases ha with ⟨serve, rfl⟩ | ⟨op, rfl⟩
    · cases (mainStep_of_step hs rfl).2 with
      | run hpc => exact ⟨hpc, rfl⟩
    · cases (mainStep_of_step hs rfl).2 with
      | awaitOpFromMain hpc => exact ⟨hpc, rfl⟩
  exact ⟨h.calling.mpr hpc.1, hpc.2, inv_step h.loop hs, iff_of_false (by simp) (by simp [hpc.2])⟩

/-- What `awaitOp()` does: it enters the loop, or the loop runs already. -/
lemma awaitOp_cases {d d' : Driver ν} {id : Id} (h : d.stepAwaitOp id = some d') :
    (∃ s, Loop.step d.loop (.awaitOpFromMain id) = some s
        ∧ d' = { d with loop := s, call := some (.awaitOp (.start id)) })
      ∨ (d.loop.mainCode = true ∧ d.loop.pc ≠ .script ∧ d' = { d with
          loop := { d.loop with
            pool := { d.loop.pool with waiting := d.loop.pool.waiting.set id .throwaway } }
          ends := d.ends ++ [⟨.awaitOp (.start id), .alreadyRunning, [], none⟩] }) := by
  unfold stepAwaitOp at h
  split_ifs at h with hmain hpc
  · obtain ⟨s, hs, rfl⟩ := Option.map_eq_some_iff.mp h
    exact .inl ⟨s, hs, rfl⟩
  · exact .inr ⟨hmain, fun e => hpc (isScript_iff.mpr e), (Option.some.inj h).symm⟩

/-- What `await()` does: it looks at a settled future, enters the loop, or the loop runs already. -/
lemma await_cases {d d' : Driver ν} {fut : FutureId} (h : d.stepAwait fut = some d') :
    (∃ result, (d.loop.pool.futures fut).result = some result ∧ d' = { d with
        loop := d.loop.lookAt (.await fut)
        ends := d.ends ++
          [⟨.await fut, outcome result (d.values fut), [], some (result, d.values fut)⟩] })
      ∨ ((d.loop.pool.futures fut).result = none ∧ ∃ s, Loop.step d.loop (.run false) = some s
        ∧ d' = { d with loop := s, call := some (.await fut) })
      ∨ ((d.loop.pool.futures fut).result = none ∧ d.loop.pc ≠ .script
        ∧ d' = { d with ends := d.ends ++ [⟨.await fut, .alreadyRunning, [], none⟩] }) := by
  unfold stepAwait at h
  by_cases hok : d.loop.mainCode = true ∧ fut < d.loop.pool.nextFuture
  · rw [if_pos hok] at h
    cases hresult : (d.loop.pool.futures fut).result with
    | some result =>
        simp only [hresult] at h
        exact .inl ⟨result, rfl, (Option.some.inj h).symm⟩
    | none =>
        simp only [hresult] at h
        by_cases hpc : d.loop.pc.isScript = true
        · rw [if_pos hpc] at h
          obtain ⟨s, hs, rfl⟩ := Option.map_eq_some_iff.mp h
          exact .inr (.inl ⟨rfl, s, hs, rfl⟩)
        · rw [if_neg hpc] at h
          exact .inr (.inr ⟨rfl, fun e => hpc (isScript_iff.mpr e), (Option.some.inj h).symm⟩)
  · rw [if_neg hok] at h
    cases h

theorem Inv.step {d d' : Driver ν} {a : Act ν} (h : Inv d) (hstep : d.step a = some d') :
    Inv d' := by
  cases a with
  | loop a value => exact inv_stepLoop h hstep
  | run serve =>
      obtain ⟨s, hs, rfl⟩ := Option.map_eq_some_iff.mp hstep
      exact (enter_spec h (.inl ⟨serve, rfl⟩) hs).2.2
  | awaitOp id =>
      rcases awaitOp_cases hstep with ⟨s, hs, rfl⟩ | ⟨-, -, rfl⟩
      · exact (enter_spec h (.inr ⟨id, rfl⟩) hs).2.2
      · exact ⟨inv_pool h.loop (Pool.inv_awaitOpFromMain h.loop.pool id) rfl rfl rfl rfl, h.calling⟩
  | await fut =>
      rcases await_cases hstep with ⟨result, -, rfl⟩ | ⟨-, s, hs, rfl⟩ | ⟨-, -, rfl⟩
      · exact ⟨inv_lookAt h.loop (.await fut), h.calling⟩
      · exact (enter_spec h (.inl ⟨false, rfl⟩) hs).2.2
      · exact ⟨h.loop, h.calling⟩

/-! ## `Future::await()` -/

/-- The report has nothing to say but the rejection of the future, once. -/
def OwnReport (errors : List Exc) : Option Result → Prop
  | some (.rejected e) => (∀ e' ∈ errors.head?, e' = e) ∧ e ∉ errors.drop 1
  | _ => errors = []

instance (errors : List Exc) : ∀ result, Decidable (OwnReport errors result)
  | some (.rejected _) => inferInstanceAs (Decidable (_ ∧ _))
  | some .resolved | none => inferInstanceAs (Decidable (errors = []))

/-- A step of the loop in the call: when the loop stops for `await()`, nothing else is reported, and
no exception leaves it. -/
def Undisturbed (s : State) (a : Action) : Call → Prop
  | .await fut =>
      (s.leaves a = true → OwnReport s.pool.unobserved (s.pool.futures fut).result)
        ∧ s.escapes a = false
  | .run | .awaitOp _ => True

instance (s : State) (a : Action) : ∀ call, Decidable (Undisturbed s a call)
  | .await _ => inferInstanceAs (Decidable (_ ∧ _))
  | .run | .awaitOp _ => inferInstanceAs (Decidable True)

/-- Nothing comes between `await()` and the future: the loop does not run already, and the steps in
the call are undisturbed. -/
def Alone (d : Driver ν) : Act ν → Prop
  | .await fut => (d.loop.pool.futures fut).result ≠ none ∨ d.loop.pc.isScript = true
  | .loop a _ => ∀ call ∈ d.call, Undisturbed d.loop a call
  | .run _ | .awaitOp _ => True

instance (d : Driver ν) : ∀ a, Decidable (Alone d a)
  | .await _ => inferInstanceAs (Decidable (_ ∨ _))
  | .loop _ _ => inferInstanceAs (Decidable (∀ _ ∈ _, _))
  | .run _ | .awaitOp _ => inferInstanceAs (Decidable True)

/-- A call that has ended since. -/
lemma forall_ends_iff {P : End ν → Prop} {ends : List (End ν)} (h : ∀ x ∈ ends, P x) (x : End ν) :
    (∀ y ∈ ends ++ [x], P y) ↔ P x := by
  simp only [List.mem_append, List.mem_singleton]
  exact ⟨fun hall => hall x (.inr rfl), fun hx y hy => hy.elim (h y) fun e => e ▸ hx⟩

/-- What the call returns or throws at the end of the loop. -/
lemma leave_faithful_iff {d : Driver ν} (h : ∀ x ∈ d.ends, x.Faithful) (fut : FutureId)
    (errors : List Exc) :
    (∀ x ∈ (d.leave (.await fut) errors).ends, x.Faithful)
      ↔ OwnReport errors (d.loop.pool.futures fut).result := by
  rcases leave_eq d (.await fut) errors with ⟨e, rest, rfl, heq⟩ | ⟨rfl, heq⟩
  · rw [heq]
    refine (forall_ends_iff h _).trans ?_
    cases hresult : (d.loop.pool.futures fut).result with
    | none => simp [End.Faithful, OwnReport, settled, hresult]
    | some result => cases result <;> simp [End.Faithful, OwnReport, settled, hresult, outcome]
  · rw [heq]
    refine (forall_ends_iff h _).trans ?_
    cases hresult : (d.loop.pool.futures fut).result with
    | none => simp [End.Faithful, OwnReport, settled, own, hresult]
    | some result => cases result <;> simp [End.Faithful, OwnReport, settled, own, hresult]

/-- The other calls. -/
lemma faithful_of_other {x : End ν} (h : ∀ fut, x.call ≠ .await fut) : x.Faithful := by
  unfold End.Faithful
  split
  · rename_i hcall _
    exact absurd hcall (h _)
  · rename_i hcall _
    exact absurd hcall (h _)
  · trivial

lemma leave_ends_other {d : Driver ν} (h : ∀ x ∈ d.ends, x.Faithful) {call : Call}
    (hcall : ∀ fut, call ≠ .await fut) (errors : List Exc) :
    ∀ x ∈ (d.leave call errors).ends, x.Faithful := by
  rcases leave_eq d call errors with ⟨e, rest, -, heq⟩ | ⟨-, heq⟩ <;>
    · rw [heq]
      exact (forall_ends_iff h _).mpr (faithful_of_other hcall)

/-- **The step lemma.** -/
lemma faithful_step {d d' : Driver ν} {a : Act ν} (hi : Inv d) (h : ∀ x ∈ d.ends, x.Faithful)
    (hstep : d.step a = some d') : (∀ x ∈ d'.ends, x.Faithful) ↔ Alone d a := by
  cases a with
  | run serve =>
      obtain ⟨s, -, rfl⟩ := Option.map_eq_some_iff.mp hstep
      exact iff_of_true h trivial
  | awaitOp id =>
      rcases awaitOp_cases hstep with ⟨s, -, rfl⟩ | ⟨-, -, rfl⟩
      · exact iff_of_true h trivial
      · exact iff_of_true ((forall_ends_iff h _).mpr (faithful_of_other nofun)) trivial
  | await fut =>
      rcases await_cases hstep with ⟨result, hresult, rfl⟩ | ⟨-, s, hs, rfl⟩ | ⟨hresult, hpc, rfl⟩
      · refine iff_of_true ((forall_ends_iff h _).mpr ?_) (.inl (by simp [hresult]))
        exact ⟨rfl, fun _ _ => List.not_mem_nil⟩
      · have hcall := (@enter_spec _ _ _ _ (.await fut) hi (.inl ⟨false, rfl⟩) hs).1
        exact iff_of_true h (.inr (isScript_iff.mpr (hi.calling.mp hcall)))
      · refine iff_of_false (fun hall => ?_) ?_
        · have hnew := (forall_ends_iff h _).mp hall
          cases (show Ending.alreadyRunning = Ending.unsettled from hnew)
        · rintro (hsettled | hscript)
          · exact hsettled hresult
          · exact hpc (isScript_iff.mp hscript)
  | loop a value =>
      cases moves_of_stepLoop hi hstep with
      | outside hs hcall hpc => exact iff_of_true h (by simp [Alone, hcall])
      | @inside s call hs hcall _ hleaves hpc hgood =>
          refine iff_of_true h fun call' hcall' => ?_
          obtain rfl := Option.some.inj (hcall.symm.trans hcall')
          cases call with
          | run | awaitOp w => trivial
          | await fut => exact ⟨fun hl => by simp [hl] at hleaves, hgood⟩
      | @leaves s call hs hcall _ hleaves hpc hpool =>
          have hescapes : d.loop.escapes a = false := by
            cases a <;> first | rfl | simp [State.leaves] at hleaves
          cases call with
          | run | awaitOp w =>
              refine iff_of_true (leave_ends_other (d := d.moved a value s) h ?_ _) ?_
              · simp [Call.after]
              · simp [Alone, hcall, Undisturbed]
          | await fut =>
              refine (leave_faithful_iff (d := d.moved a value s) h fut _).trans ?_
              simp [Alone, hcall, Undisturbed, hescapes, hleaves, moved, hpool]
      | @escapes s call hs hcall hpc hbad =>
          cases call with
          | run | awaitOp w =>
              refine iff_of_true ((forall_ends_iff h _).mpr ?_) ?_
              · exact faithful_of_other (by simp [Call.after])
              · simp [Alone, hcall, Undisturbed]
          | await fut =>
              refine iff_of_false (fun hall => ?_) (by simp [Alone, hcall, Undisturbed, hbad])
              have hnew := (forall_ends_iff h _).mp hall
              cases hresult : (s.pool.futures fut).result with
              | none => simp [End.Faithful, Call.after, settled, moved, hresult] at hnew
              | some result =>
                  cases result <;>
                    simp [End.Faithful, Call.after, settled, moved, hresult, outcome] at hnew

/-- **On `{main}` `await()` means what it means in a fiber**, exactly as long as nothing comes
between it and the future. -/
theorem await_main_iff {fiberBudget queueDepth : ℤ} {budgetExempt : List PhpString} {chaos : Bool}
    {symbols : Superglobal → Bool} {d : Driver ν} {as : List (Act ν)}
    (h : runFrom step (boot (Loop.boot fiberBudget queueDepth budgetExempt chaos symbols)) as
      = some d) :
    Always step (fun d => ∀ x ∈ d.ends, x.Faithful)
        (boot (Loop.boot fiberBudget queueDepth budgetExempt chaos symbols)) as
      ↔ Along step Alone (boot (Loop.boot fiberBudget queueDepth budgetExempt chaos symbols)) as :=
  always_iff_along step (fun _ _ _ => Inv.step) (fun _ _ _ => faithful_step)
    (inv_boot (Loop.inv_boot _ _ _ _ _) rfl) (fun _ hx => absurd hx List.not_mem_nil) h

/-- `{main}` spawns two jobs and awaits the second, and both end in one turn. -/
def awaitsSecond (e : Option Exc) (v : Option ℕ) (e' : Option Exc) (v' : Option ℕ) :
    List (Act ℕ) :=
  [.loop .async none, .loop .async none, .await 1, .loop (.turn false) none, .loop .advance none,
    .loop .advance none, .loop (.finish e) v, .loop .advance none, .loop (.finish e') v',
    .loop .advance none, .loop .advance none, .loop (.test 0 false) none]

/-- The second job fails, and its own exception is thrown. -/
theorem await_main_iff_own : ∃ d,
    runFrom step (boot (worker 0)) (awaitsSecond none (some 7) (some (.user 2)) none) = some d
    ∧ Always step (fun d => ∀ x ∈ d.ends, x.Faithful) (boot (worker 0))
      (awaitsSecond none (some 7) (some (.user 2)) none)
    ∧ d.ends = [⟨.await 1, .threw (.user 2), [], some (.rejected (.user 2), none)⟩] := by
  obtain ⟨d, hrun, hd⟩ := Option.map_eq_some_iff.mp
    (show (runFrom step (boot (worker 0))
        (awaitsSecond none (some 7) (some (.user 2)) none)).map ends
      = some [⟨.await 1, .threw (.user 2), [], some (.rejected (.user 2), none)⟩]
      by decide +kernel)
  exact ⟨d, hrun, (await_main_iff hrun).mpr (by decide +kernel), hd⟩

/-- The first job fails, and the second ends with a value: the exception of the first is thrown, and
the value is gone. -/
theorem other_rejection_thrown : ∃ d,
    runFrom step (boot (worker 0)) (awaitsSecond (some (.user 1)) none none (some 7)) = some d
    ∧ d.ends = [⟨.await 1, .threw (.user 1), [], some (.resolved, some 7)⟩]
    ∧ ¬ ∀ x ∈ d.ends, x.Faithful := by
  obtain ⟨d, hrun, hd⟩ := Option.map_eq_some_iff.mp
    (show (runFrom step (boot (worker 0))
        (awaitsSecond (some (.user 1)) none none (some 7))).map ends
      = some [⟨.await 1, .threw (.user 1), [], some (.resolved, some 7)⟩] by decide +kernel)
  refine ⟨d, hrun, hd, fun h => ?_⟩
  have hfaithful := h _ (hd ▸ List.mem_singleton_self _)
  cases hfaithful.1

end Driver

end Loop

end Ignis
