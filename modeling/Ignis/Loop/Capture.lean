import Ignis.Loop.Frames

/-!
# Captured output

`output.rs` once more, now with all the fibers of a thread: what a fiber writes goes to the response
it is bound to, else into the innermost buffer it captures with, else to stdout.  The buffers are a
stack for each fiber, so captures nest and do not mix.

`wants` is the same stack as the users of `Output::capture` think of it, where an open capture has
everything its fiber writes.  The two differ in one case: `ub_write` looks at `BOUND` before it
looks at `SINKS`, so what a streaming fiber captures goes to the client (`capture_exact_iff`).
-/

namespace Ignis.Capture

open Caller StepSystem Reactor Answering

/-! ## The functions -/

/-- The output of the fibers of one thread. -/
structure State where
  /-- `SINKS`, the innermost buffer first. -/
  sinks : OrdMap ℕ (List PhpString)
  /-- `BOUND`. -/
  bound : OrdMap ℕ Bound
  stdout : PhpString
  /-- The frames that were handed over to responses, with their ids. -/
  sent : List (ℕ × PhpString)

def init : State := ⟨∅, ∅, [], []⟩

/-- The buffers a fiber is filling. -/
def State.buffers (s : State) (key : ℕ) : List PhpString := (s.sinks.get? key).getD []

/-- The frames among the calls of a program that the response has taken. -/
def frames (log : List (Frames.Call × Frames.Result)) : List (ℕ × PhpString) :=
  log.filterMap fun
    | (.trySend id frame, .sent .fits) => some (id, frame)
    | (.submitSend id chunk, _) => some (id, chunk)
    | _ => none

/-- A function of the binding of a fiber, with what the reactor and the queue answer. -/
def withBound (s : State) (key : ℕ) (program : Bound → Frames.Fiber Bound)
    (results : List Frames.Result) : Option State :=
  match s.bound.get? key with
  | none => some s
  | some b => ((program b).replay results).map fun (b', log) =>
      { s with bound := s.bound.set key b', sent := s.sent ++ frames log }

/-- `ub_write`.  Of what goes to stdout `written` bytes get out. -/
def ubWrite (frameBytes : ℕ) (s : State) (key : ℕ) (str : PhpString)
    (results : List Frames.Result) (written : ℕ) : Option State :=
  if str = [] then some s
  else if s.bound.has key then
    withBound s key (fun b => Frames.ubWrite frameBytes b str) results
  else
    match s.buffers key with
    | buf :: rest => some { s with sinks := s.sinks.set key ((buf ++ str) :: rest) }
    | [] => some { s with stdout := s.stdout ++ str.take written }

/-- `ignis_capture_start`. -/
def captureStart (s : State) (key : ℕ) : State :=
  { s with sinks := s.sinks.set key ([] :: s.buffers key) }

/-- `ignis_capture_take`: a stack that is empty afterwards is removed. -/
def captureTake (s : State) (key : ℕ) : State × PhpString :=
  match s.buffers key with
  | [] => ({ s with sinks := s.sinks.unset key }, [])
  | [buf] => ({ s with sinks := s.sinks.unset key }, buf)
  | buf :: rest => ({ s with sinks := s.sinks.set key rest }, buf)

/-- `ignis_capture_reset`, and `on_fiber_destroy`, which does the same for a fiber that dies. -/
def captureReset (s : State) (key : ℕ) : State :=
  { s with sinks := s.sinks.unset key, bound := s.bound.unset key }

/-- `ignis_stream_unbind`: what is pending is pushed first, and the binding is removed. -/
def streamUnbind (s : State) (key : ℕ) (results : List Frames.Result) : Option State :=
  (withBound s key (fun b => if b.pending = [] then pure b else Frames.pushPending b) results).map
    fun s => { s with bound := s.bound.unset key }

/-! ## Runs -/

/-- What a fiber does.  The results are those of the calls it makes in doing it. -/
inductive Action where
  | captureStart (key : ℕ)
  | captureTake (key : ℕ)
  | captureReset (key : ℕ)
  | write (key : ℕ) (str : PhpString) (results : List Frames.Result) (written : ℕ)
  | flush (key : ℕ) (results : List Frames.Result)
  | streamBind (key id : ℕ) (status : ℤ) (headers : PhpHeaders)
  | streamWrite (key : ℕ) (str : PhpString) (results : List Frames.Result)
  | streamUnbind (key : ℕ) (results : List Frames.Result)

/-- The output, and what the open captures of each fiber should hold. -/
structure Traced where
  state : State
  wants : ℕ → List PhpString

def start : Traced := ⟨init, fun _ => []⟩

/-- What an open capture should have after its fiber has written. -/
def gather (str : PhpString) : List PhpString → List PhpString
  | [] => []
  | buf :: rest => (buf ++ str) :: rest

/-- Captures are properly nested: what is taken has been started. -/
def step (frameBytes : ℕ) (t : Traced) : Action → Option Traced
  | .captureStart key =>
      some ⟨captureStart t.state key, Function.update t.wants key ([] :: t.wants key)⟩
  | .captureTake key =>
      if t.wants key = [] then none
      else some ⟨(captureTake t.state key).1, Function.update t.wants key (t.wants key).tail⟩
  | .captureReset key => some ⟨captureReset t.state key, Function.update t.wants key []⟩
  | .write key str results written =>
      (ubWrite frameBytes t.state key str results written).map fun s =>
        ⟨s, Function.update t.wants key (gather str (t.wants key))⟩
  | .flush key results =>
      (withBound t.state key Frames.flush results).map fun s => ⟨s, t.wants⟩
  | .streamBind key id status headers =>
      some ⟨{ t.state with
        bound := t.state.bound.set key (Answering.streamBind id status headers) }, t.wants⟩
  | .streamWrite key str results =>
      (withBound t.state key (fun b => do
        let (b, _) ← Frames.streamWrite b str
        return b) results).map fun s => ⟨s, t.wants⟩
  | .streamUnbind key results =>
      (streamUnbind t.state key results).map fun s => ⟨s, t.wants⟩

/-! ## What the functions do to the buffers -/

lemma gather_ne {str : PhpString} {stack : List PhpString} (hstr : str ≠ []) (hstack : stack ≠ []) :
    gather str stack ≠ stack := by
  cases stack with
  | nil => exact absurd rfl hstack
  | cons buf rest => simp [gather, hstr]

lemma gather_eq {str : PhpString} {stack : List PhpString} (h : str = [] ∨ stack = []) :
    gather str stack = stack := by
  rcases h with rfl | rfl
  · cases stack <;> simp [gather]
  · rfl

section Buffers

variable {s s' : State} {key : ℕ}

lemma buffers_set (key' : ℕ) (stack : List PhpString) (k : ℕ) :
    { s with sinks := s.sinks.set key' stack }.buffers k
      = if k = key' then stack else s.buffers k := by
  simp only [State.buffers, OrdMap.get?_set]
  split_ifs <;> rfl

lemma buffers_unset (key' k : ℕ) :
    ((s.sinks.unset key').get? k).getD [] = if k = key' then [] else s.buffers k := by
  simp only [State.buffers, OrdMap.get?_unset]
  split_ifs <;> rfl

lemma buffers_captureTake (k : ℕ) :
    (captureTake s key).1.buffers k = if k = key then (s.buffers key).tail else s.buffers k := by
  unfold captureTake
  cases hstack : s.buffers key with
  | nil => exact buffers_unset key k
  | cons buf rest =>
      cases rest with
      | nil => exact buffers_unset key k
      | cons buf' rest => exact buffers_set key _ k

lemma captureTake_snd : (captureTake s key).2 = (s.buffers key).headD [] := by
  unfold captureTake
  cases s.buffers key with
  | nil => rfl
  | cons buf rest => cases rest <;> rfl

/-- What is done to a binding does not touch the buffers. -/
lemma withBound_fields {program : Bound → Frames.Fiber Bound} {results : List Frames.Result}
    (h : withBound s key program results = some s') :
    s'.sinks = s.sinks ∧ s'.stdout = s.stdout := by
  unfold withBound at h
  split at h
  · obtain rfl := Option.some.inj h
    exact ⟨rfl, rfl⟩
  · obtain ⟨⟨b', log⟩, -, rfl⟩ := Option.map_eq_some_iff.mp h
    exact ⟨rfl, rfl⟩

lemma buffers_eq (h : s'.sinks = s.sinks) (k : ℕ) : s'.buffers k = s.buffers k := by
  rw [State.buffers, h, State.buffers]

variable {frameBytes written : ℕ} {str : PhpString} {results : List Frames.Result}

/-- `ub_write` of a fiber that is bound leaves its captures out. -/
lemma ubWrite_bound (hbound : s.bound.has key = true)
    (h : ubWrite frameBytes s key str results written = some s') : s'.sinks = s.sinks := by
  unfold ubWrite at h
  split_ifs at h
  · obtain rfl := Option.some.inj h
    rfl
  · exact (withBound_fields h).1

/-- `ub_write` of a fiber that is not: an open capture gets the bytes, and nothing else does. -/
lemma ubWrite_unbound (hbound : s.bound.has key = false)
    (h : ubWrite frameBytes s key str results written = some s') :
    (∀ k, s'.buffers k = if k = key then gather str (s.buffers key) else s.buffers k) ∧
      s'.bound = s.bound ∧ s'.sent = s.sent ∧
      (s.buffers key ≠ [] → s'.stdout = s.stdout) := by
  have hsame : ∀ k, s.buffers k = if k = key then s.buffers key else s.buffers k := by
    intro k
    split_ifs with hk
    · rw [hk]
    · rfl
  unfold ubWrite at h
  split_ifs at h with hempty hhas
  · obtain rfl := Option.some.inj h
    rw [gather_eq (.inl hempty)]
    exact ⟨hsame, rfl, rfl, fun _ => rfl⟩
  · exact absurd (hbound.symm.trans hhas) (by decide)
  · split at h
    · rename_i buf rest hstack
      obtain rfl := Option.some.inj h
      rw [hstack]
      exact ⟨buffers_set key _, rfl, rfl, fun _ => rfl⟩
    · rename_i hstack
      obtain rfl := Option.some.inj h
      rw [gather_eq (.inr hstack)]
      exact ⟨hsame, rfl, rfl, fun hopen => absurd hstack hopen⟩

end Buffers

/-! ## Exactly what was written -/

/-- The step keeps captures exact: afterwards every open buffer of every fiber holds what its fiber
wrote into that capture, a take returns it, and what is written in a capture goes nowhere else: not
to stdout, to a response or to the buffers of another fiber. -/
def Exact (frameBytes : ℕ) (t : Traced) (a : Action) : Prop :=
  ∀ t', step frameBytes t a = some t' →
    (∀ key, t'.state.buffers key = t'.wants key) ∧
    match a with
    | .captureTake key => (captureTake t.state key).2 = (t.wants key).headD []
    | .write key _ _ _ => t.wants key ≠ [] →
        t'.state.stdout = t.state.stdout ∧ t'.state.bound = t.state.bound ∧
          t'.state.sent = t.state.sent ∧
          ∀ other, other ≠ key → t'.state.buffers other = t.state.buffers other
    | _ => True

/-- A fiber that captures and writes is not bound to a response. -/
def Unbound (t : Traced) : Action → Prop
  | .write key str _ _ => str ≠ [] → t.wants key ≠ [] → t.state.bound.has key = false
  | _ => True

instance (t : Traced) : ∀ a, Decidable (Unbound t a)
  | .write key str _ _ =>
      inferInstanceAs (Decidable (str ≠ [] → t.wants key ≠ [] → t.state.bound.has key = false))
  | .captureStart _ | .captureTake _ | .captureReset _ | .flush _ _ | .streamBind _ _ _ _
  | .streamWrite _ _ _ | .streamUnbind _ _ => isTrue trivial

lemma exact_write_iff {frameBytes : ℕ} {t t' : Traced} {key written : ℕ} {str : PhpString}
    {results : List Frames.Result} (hI : ∀ key, t.state.buffers key = t.wants key)
    (h : step frameBytes t (.write key str results written) = some t') :
    Exact frameBytes t (.write key str results written) ↔
      Unbound t (.write key str results written) := by
  obtain ⟨s, hs, rfl⟩ := Option.map_eq_some_iff.mp h
  cases hbound : t.state.bound.has key with
  | true =>
      have hsinks := buffers_eq (ubWrite_bound hbound hs)
      constructor
      · -- the buffers have not changed, so nothing should have been written into one
        intro hexact hstr hopen
        have hbuffers := (hexact _ h).1 key
        simp only [Function.update_self] at hbuffers
        rw [hsinks, hI] at hbuffers
        exact absurd hbuffers.symm (gather_ne hstr hopen)
      · intro hok t' ht'
        obtain rfl := Option.some.inj (h.symm.trans ht')
        have hgather : gather str (t.wants key) = t.wants key := by
          by_cases hstr : str = []
          · exact gather_eq (.inl hstr)
          · by_cases hopen : t.wants key = []
            · exact gather_eq (.inr hopen)
            · exact absurd (hbound.symm.trans (hok hstr hopen)) (by decide)
        refine ⟨fun k => ?_, fun hopen => ?_⟩
        · rw [hgather, Function.update_eq_self, hsinks, hI]
        · have hstr : str = [] := by
            by_contra hstr
            exact absurd hgather (gather_ne hstr hopen)
          rw [hstr, ubWrite, if_pos rfl] at hs
          obtain rfl := Option.some.inj hs
          exact ⟨rfl, rfl, rfl, fun _ _ => rfl⟩
  | false =>
      obtain ⟨hbuffers, hbound', hsent, hstdout⟩ := ubWrite_unbound hbound hs
      refine iff_of_true (fun t' ht' => ?_) (fun _ _ => hbound)
      obtain rfl := Option.some.inj (h.symm.trans ht')
      refine ⟨fun k => ?_,
        fun hopen => ⟨hstdout (by rwa [hI]), hbound', hsent, fun other hne => ?_⟩⟩
      · rw [hbuffers]
        by_cases hk : k = key
        · simp [hk, hI]
        · simp [hk, hI]
      · rw [hbuffers, if_neg hne]

/-- Every other step keeps captures exact. -/
lemma exact_of_not_write {frameBytes : ℕ} {t : Traced} {a : Action}
    (hI : ∀ key, t.state.buffers key = t.wants key)
    (ha : ∀ key str results written, a ≠ .write key str results written) :
    Exact frameBytes t a := by
  intro t' h
  have hsinks : t'.state.sinks = t.state.sinks → t'.wants = t.wants →
      ∀ key, t'.state.buffers key = t'.wants key := by
    intro hsame hwants key
    rw [buffers_eq hsame, hwants, hI]
  cases a with
  | captureStart key =>
      obtain rfl := Option.some.inj h
      refine ⟨fun k => ?_, trivial⟩
      show (captureStart t.state key).buffers k = Function.update t.wants key _ k
      rw [captureStart, buffers_set, Function.update_apply, hI, hI]
  | captureTake key =>
      simp only [step] at h
      split_ifs at h
      obtain rfl := Option.some.inj h
      refine ⟨fun k => ?_, ?_⟩
      · show (captureTake t.state key).1.buffers k = Function.update t.wants key _ k
        rw [buffers_captureTake, Function.update_apply, hI, hI]
      · show (captureTake t.state key).2 = (t.wants key).headD []
        rw [captureTake_snd, hI]
  | captureReset key =>
      obtain rfl := Option.some.inj h
      refine ⟨fun k => ?_, trivial⟩
      show ((t.state.sinks.unset key).get? k).getD [] = Function.update t.wants key _ k
      rw [buffers_unset, Function.update_apply, hI]
  | write key str results written => exact absurd rfl (ha key str results written)
  | flush key results =>
      obtain ⟨s, hs, rfl⟩ := Option.map_eq_some_iff.mp h
      exact ⟨hsinks (withBound_fields hs).1 rfl, trivial⟩
  | streamBind key id status headers =>
      obtain rfl := Option.some.inj h
      exact ⟨hsinks rfl rfl, trivial⟩
  | streamWrite key str results =>
      obtain ⟨s, hs, rfl⟩ := Option.map_eq_some_iff.mp h
      exact ⟨hsinks (withBound_fields hs).1 rfl, trivial⟩
  | streamUnbind key results =>
      obtain ⟨s, hs, rfl⟩ := Option.map_eq_some_iff.mp h
      obtain ⟨s', hs', rfl⟩ := Option.map_eq_some_iff.mp hs
      exact ⟨hsinks (withBound_fields hs').1 rfl, trivial⟩

/-- **When captures are exact.**  In every run of any number of fibers, every step keeps captures
exact if and only if no fiber writes a byte while it is capturing and bound to a response. -/
theorem capture_exact_iff {frameBytes : ℕ} {as : List Action} {t : Traced}
    (h : runFrom (step frameBytes) start as = some t) :
    Along (step frameBytes) (Exact frameBytes) start as ↔
      Along (step frameBytes) Unbound start as := by
  refine along_congr (step frameBytes)
    (I := fun t => ∀ key, t.state.buffers key = t.wants key) (fun t a t' hI ht => ?_)
    (fun t a t' _ hexact ht => (hexact t' ht).1) (fun _ => rfl) h
  cases a with
  | write key str results written => exact exact_write_iff hI ht
  | captureStart | captureTake | captureReset | flush | streamBind | streamWrite | streamUnbind =>
      refine iff_of_true (exact_of_not_write hI ?_) trivial
      rintro _ _ _ _ ⟨⟩

/-- Two fibers capture at the same time, one of them twice over, and a third streams. -/
def interleaved : List Action :=
  [.streamBind 7 1 200 [], .captureStart 5, .write 5 [1] [] 0, .captureStart 6, .write 6 [9] [] 0,
    .write 7 [8] [] 0, .captureStart 5, .write 5 [2] [] 0, .captureTake 5, .write 5 [3] [] 0]

theorem capture_exact_interleaved : ∃ t, runFrom (step 8192) start interleaved = some t ∧
    Along (step 8192) (Exact 8192) start interleaved ∧
    (captureTake t.state 5).2 = [1, 3] ∧ (captureTake t.state 6).2 = [9] := by
  have hrun : ∃ t, runFrom (step 8192) start interleaved = some t ∧
      (captureTake t.state 5).2 = [1, 3] ∧ (captureTake t.state 6).2 = [9] :=
    ⟨_, rfl, rfl, rfl⟩
  obtain ⟨t, hrun, htake⟩ := hrun
  exact ⟨t, hrun, (capture_exact_iff hrun).mpr (by decide), htake⟩

/-- A producer that renders a fragment with `Output::capture`: the fragment goes to the client, and
the capture comes back empty. -/
theorem captured_fragment_is_sent : ∃ t t', runFrom (step 0) start
      [.streamBind 7 1 200 [], .captureStart 7] = some t ∧
    step 0 t (.write 7 [1, 2] [.ret (.bool true), .sent .fits] 0) = some t' ∧
    (captureTake t'.state 7).2 = [] ∧ t'.state.sent = [(1, [1, 2])] ∧
    ¬ Exact 0 t (.write 7 [1, 2] [.ret (.bool true), .sent .fits] 0) := by
  refine ⟨_, _, rfl, rfl, rfl, rfl, fun hexact => ?_⟩
  have hbuffers := (hexact _ rfl).1 7
  cases hbuffers

end Ignis.Capture
