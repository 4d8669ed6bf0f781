import Ignis.Loop.Ledger

/-!
# Rejections nobody awaits

`Future::settle()` puts a rejection into `$unobserved` when no fiber waits for the future, `await()`
takes it out again, and when the loop ends `reportUnobserved()` throws the first of what is left and
logs the rest.

`poolBody()` makes a rejection of whatever leaves a job, the exception of a cancellation included:
`throwAndAbsorb()` never sees it.  The exception of a call stays out of `$unobserved` exactly as
long as no future that nobody awaits is rejected with it (`injected_unobserved_iff`).

`observeError()` finds the entry of a future by the exception object.  If two futures were rejected
with one object, awaiting one of them takes out both (`shared_exception_lost`); as long as that does
not happen, the report has one entry for every rejection that was never awaited, and no others
(`report_exact_iff`).
-/

namespace Ignis

namespace Loop

open StepSystem

/-! ## The exception of a cancellation -/

/-- A future that nobody awaits is not rejected with the exception of this call. -/
def Caught (call : ℕ) (s : State) (a : Action) : Prop :=
  match s.settles a with
  | some (fut, .rejected e) => e = .cancellation call → (s.pool.futures fut).waiters ≠ []
  | _ => True

instance (call : ℕ) (s : State) (a : Action) : Decidable (Caught call s a) := by
  unfold Caught
  split <;> infer_instance

lemma settles_of_observes {s : State} {a : Action} {fut : FutureId}
    (h : s.observes a = some fut) : s.settles a = none := by
  cases a <;> first | rfl | simp [State.observes] at h

lemma settles_of_leaves {s : State} {a : Action} (h : s.leaves a = true) :
    s.settles a = none ∧ s.observes a = none := by
  cases a <;> first | exact ⟨rfl, rfl⟩ | simp [State.leaves] at h

lemma caught_of_not_settles {call : ℕ} {s : State} {a : Action} (h : s.settles a = none) :
    Caught call s a := by
  simp [Caught, h]

/-- Looking at a rejection takes entries out of the report. -/
lemma mem_observe {p : Pool} {fut : FutureId} {e : Exc} (h : e ∈ (p.observe fut).unobserved) :
    e ∈ p.unobserved := by
  unfold Pool.observe at h
  split at h
  · exact h
  · exact (List.mem_filter.mp h).1

/-- **The step lemma.** -/
lemma injected_step {call : ℕ} {s s' : State} {a : Action} (hi : Inv s)
    (hs : Exc.cancellation call ∉ s.pool.unobserved) (hstep : step s a = some s') :
    Exc.cancellation call ∉ s'.pool.unobserved ↔ Caught call s a := by
  cases (frame_of_step hi hstep).change with
  | quiet hsettles _ _ hfutures _ =>
      rw [hfutures.report]
      exact iff_of_true hs (caught_of_not_settles hsettles)
  | @settle fut result hsettles _ _ hreport _ _ _ _ =>
      rw [hreport, List.mem_append, or_iff_right hs, Option.mem_toList]
      cases result with
      | resolved => simp [Caught, hsettles, Pool.unawaited]
      | rejected e =>
          simp only [Caught, hsettles, Pool.unawaited]
          split_ifs with hwaiters
          · simp [hwaiters]
          · simp [hwaiters]
  | observe hobserves hq =>
      refine iff_of_true (fun hmem => hs ?_) (caught_of_not_settles (settles_of_observes hobserves))
      rw [hq] at hmem
      exact mem_observe hmem
  | leave hleaves hq =>
      rw [hq]
      exact iff_of_true (List.not_mem_nil) (caught_of_not_settles (settles_of_leaves hleaves).1)
  | deliver ha _ _ hfutures _ | throw ha _ hfutures _ | park ha hfutures _ =>
      rw [hfutures.report]
      exact iff_of_true hs (caught_of_not_settles (by rw [ha]; rfl))
  | throwaway ha hq =>
      rw [hq]
      exact iff_of_true hs (caught_of_not_settles (by rw [ha]; rfl))

/-- **A cancellation is no unobserved rejection**, exactly as long as nobody makes it one. -/
theorem injected_unobserved_iff {fiberBudget queueDepth : ℤ} {budgetExempt : List PhpString}
    {chaos : Bool} {symbols : Superglobal → Bool} {s : State} {as : List Action} (call : ℕ)
    (h : runFrom step (boot fiberBudget queueDepth budgetExempt chaos symbols) as = some s) :
    Always step (fun t => Exc.cancellation call ∉ t.pool.unobserved)
        (boot fiberBudget queueDepth budgetExempt chaos symbols) as
      ↔ Along step (Caught call) (boot fiberBudget queueDepth budgetExempt chaos symbols) as :=
  always_iff_along step (fun _ _ _ => inv_step) (fun _ _ _ => injected_step)
    (inv_boot _ _ _ _ _) List.not_mem_nil h

/-- Request `1` waits for an op and its child for another one; the client goes away. -/
def childWaits : List Action :=
  List.flatten [handlerStarts 1, [.async, .awaitOp 50, .advance, .advance], awaits 60,
    [.poll [(⟨1, .cancelled⟩, 0)], .advance, .dispatch 1 [1], .advance]]

/-- The child catches the exception, the handler does not. -/
theorem injected_unobserved_iff_caught : ∃ s,
    runFrom step (worker 0)
      (childWaits ++ [.advance, .finish none, .advance, .finish (some (.cancellation 1))]) = some s
    ∧ Always step (fun t => Exc.cancellation 1 ∉ t.pool.unobserved) (worker 0)
      (childWaits ++ [.advance, .finish none, .advance, .finish (some (.cancellation 1))]) := by
  obtain ⟨s, hrun, -⟩ := Option.map_eq_some_iff.mp
    (show (runFrom step (worker 0)
      (childWaits ++ [.advance, .finish none, .advance, .finish (some (.cancellation 1))])).map
        (fun _ => ()) = some () by decide +kernel)
  exact ⟨s, hrun, (injected_unobserved_iff 1 hrun).mpr (by decide +kernel)⟩

/-- Neither of them does.  The handler answers and is released, and the loop stops for a reload:
what it throws is the exception that was injected. -/
theorem injected_rethrown : ∃ s,
    runFrom step (worker 0) (childWaits ++ [.advance, .finish (some (.cancellation 1)), .advance,
      .finish (some (.cancellation 1)), .finish none, .finish none, .advance, .advance, .turn false,
      .advance, .advance]) = some s
    ∧ s.cancelled = 1 ∧ s.pool.unobserved = [.cancellation 1]
    ∧ s.leaves (.test 0 true) = true := by
  obtain ⟨s, hrun, hs⟩ := Option.map_eq_some_iff.mp
    (show (runFrom step (worker 0) (childWaits ++ [.advance, .finish (some (.cancellation 1)),
      .advance, .finish (some (.cancellation 1)), .finish none, .finish none, .advance, .advance,
      .turn false, .advance, .advance])).map
        (fun s => (s.cancelled, s.pool.unobserved, s.leaves (.test 0 true)))
      = some (1, [.cancellation 1], true) by decide +kernel)
  simp only [Prod.mk.injEq] at hs
  exact ⟨s, hrun, hs⟩

/-! ## What the loop reports -/

/-- `reportUnobserved`: what is thrown, and what is logged. -/
def reportUnobserved (errors : List Exc) : Option Exc × List Exc := (errors.head?, errors.drop 1)

/-- What a `runUntil()` has reported, and `owed` at that moment. -/
structure Stop where
  owed : List (FutureId × Exc)
  thrown : Option Exc
  logged : List Exc
  deriving DecidableEq, Repr

/-- Every rejection that is owed is reported once, and nothing else is. -/
def Stop.Exact (stop : Stop) : Prop :=
  stop.thrown.toList ++ stop.logged = stop.owed.map Prod.snd

instance (stop : Stop) : Decidable stop.Exact := inferInstanceAs (Decidable (_ = _))

/-- A loop and the account of its rejections. -/
structure Account where
  loop : State
  /-- Ghost: the futures rejected while nobody awaited them that have been neither awaited nor
  reported since, with their exceptions. -/
  owed : List (FutureId × Exc)
  stops : List Stop

namespace Account

def boot (s : State) : Account := ⟨s, [], []⟩

/-- What is owed after a step. -/
def owedAfter (x : Account) (a : Action) : List (FutureId × Exc) :=
  match x.loop.settles a with
  | some (fut, result) =>
      x.owed ++ ((x.loop.pool.unawaited fut result).map fun e => (fut, e)).toList
  | none =>
      match x.loop.observes a with
      | some fut => x.owed.filter fun o => o.1 ≠ fut
      | none => if x.loop.leaves a then [] else x.owed

/-- The stops after a step. -/
def stopsAfter (x : Account) (a : Action) : List Stop :=
  if x.loop.leaves a then
    let (thrown, logged) := reportUnobserved x.loop.pool.unobserved
    x.stops ++ [⟨x.owed, thrown, logged⟩]
  else x.stops

def step (x : Account) (a : Action) : Option Account :=
  (Loop.step x.loop a).map fun s => ⟨s, x.owedAfter a, x.stopsAfter a⟩

/-- The report has an entry for each rejection that is owed, and so had every stop. -/
structure Balanced (x : Account) : Prop where
  report : x.loop.pool.unobserved = x.owed.map Prod.snd
  stops : ∀ stop ∈ x.stops, stop.Exact

/-- No other rejection that is owed has the exception of the future that is awaited. -/
def OwnException (x : Account) (a : Action) : Prop :=
  ∀ fut ∈ x.loop.observes a, ∀ o ∈ x.owed, o.1 ≠ fut →
    (x.loop.pool.futures fut).unobservedError ≠ some o.2

instance (x : Account) (a : Action) : Decidable (OwnException x a) :=
  inferInstanceAs (Decidable (∀ _ ∈ _, ∀ _ ∈ _, _ → _))

/-- What is owed is known to the futures. -/
structure Inv (x : Account) : Prop where
  loop : Loop.Inv x.loop
  nodup : (x.owed.map Prod.fst).Nodup
  known : ∀ o ∈ x.owed, o.1 < x.loop.pool.nextFuture
    ∧ (x.loop.pool.futures o.1).result ≠ none
    ∧ (x.loop.pool.futures o.1).unobservedError = some o.2

lemma inv_boot {s : State} (h : Loop.Inv s) : Inv (boot s) := ⟨h, List.nodup_nil, nofun⟩

/-- The futures keep what is owed. -/
lemma known_of_same {p q : Pool} (hfutures : SameFutures p q) {owed : List (FutureId × Exc)}
    (h : ∀ o ∈ owed, o.1 < p.nextFuture ∧ (p.futures o.1).result ≠ none
      ∧ (p.futures o.1).unobservedError = some o.2) :
    ∀ o ∈ owed, o.1 < q.nextFuture ∧ (q.futures o.1).result ≠ none
      ∧ (q.futures o.1).unobservedError = some o.2 := by
  intro o ho
  obtain ⟨hlt, hsettled, herror⟩ := h o ho
  rw [hfutures.result o.1 hlt, hfutures.error o.1 hlt]
  exact ⟨hlt.trans_le hfutures.known, hsettled, herror⟩

lemma owedAfter_of_quiet {x : Account} {a : Action} (hsettles : x.loop.settles a = none)
    (hobserves : x.loop.observes a = none) (hleaves : x.loop.leaves a = false) :
    x.owedAfter a = x.owed ∧ x.stopsAfter a = x.stops := by
  simp [owedAfter, stopsAfter, hsettles, hobserves, hleaves]

lemma leaves_of_settles {s : State} {a : Action} {r : FutureId × Result}
    (h : s.settles a = some r) : s.leaves a = false ∧ s.observes a = none := by
  cases a <;> first | exact ⟨rfl, rfl⟩ | simp [State.settles] at h

lemma leaves_of_observes {s : State} {a : Action} {fut : FutureId}
    (h : s.observes a = some fut) : s.leaves a = false := by
  cases a <;> first | rfl | simp [State.observes] at h

/-- What looking at a future does to the others. -/
lemma observe_futures (p : Pool) {fut g : FutureId} (hne : g ≠ fut) :
    (p.observe fut).futures g = p.futures g := by
  unfold Pool.observe
  split
  · rfl
  · exact Function.update_of_ne hne _ _

lemma observe_nextFuture (p : Pool) (fut : FutureId) :
    (p.observe fut).nextFuture = p.nextFuture := by
  unfold Pool.observe
  split <;> rfl

theorem Inv.step {x x' : Account} {a : Action} (h : Inv x) (hstep : x.step a = some x') :
    Inv x' := by
  obtain ⟨s, hs, rfl⟩ := Option.map_eq_some_iff.mp hstep
  have hloop := inv_step h.loop hs
  have hkeep : x.owedAfter a = x.owed → SameFutures x.loop.pool s.pool →
      Inv ⟨s, x.owedAfter a, x.stopsAfter a⟩ := by
    intro howed hfutures
    refine ⟨hloop, ?_, ?_⟩
    · simp only [howed]
      exact h.nodup
    · simp only [howed]
      exact known_of_same hfutures h.known
  cases (frame_of_step h.loop hs).change with
  | quiet hsettles hobserves hleaves hfutures _ =>
      exact hkeep (owedAfter_of_quiet hsettles hobserves hleaves).1 hfutures
  | @settle fut result hsettles hlt hopen _ hknown hself hother _ =>
      have howed : x.owedAfter a
          = x.owed ++ ((x.loop.pool.unawaited fut result).map fun e => (fut, e)).toList := by
        simp [owedAfter, hsettles]
      -- a future settles once, so it is not owed yet
      have hnew : ∀ o ∈ x.owed, o.1 ≠ fut := by
        rintro o ho rfl
        exact (h.known o ho).2.1 hopen
      refine ⟨hloop, ?_, ?_⟩
      · simp only [howed, List.map_append]
        refine List.nodup_append.mpr ⟨h.nodup, ?_, ?_⟩
        · cases x.loop.pool.unawaited fut result <;> simp
        · intro g hg g' hg'
          obtain ⟨o, ho, rfl⟩ := List.mem_map.mp hg
          have hfut : g' = fut := by
            cases hu : x.loop.pool.unawaited fut result <;> simp_all
          exact hfut ▸ hnew o ho
      · simp only [howed, List.mem_append]
        rintro o (ho | ho)
        · obtain ⟨hlt', hsettled, herror⟩ := h.known o ho
          obtain ⟨hresult, herror'⟩ := hother o.1 hlt' (hnew o ho)
          rw [hresult, herror']
          exact ⟨hlt'.trans_le hknown, hsettled, herror⟩
        · simp only [Option.mem_toList, Option.map_eq_some_iff] at ho
          obtain ⟨e, he, rfl⟩ := ho
          exact ⟨hlt.trans_le hknown, by simp [hself.1], hself.2.trans he⟩
  | @observe fut hobserves hq =>
      have howed : x.owedAfter a = x.owed.filter fun o => o.1 ≠ fut := by
        simp [owedAfter, settles_of_observes hobserves, hobserves]
      refine ⟨hloop, ?_, ?_⟩
      · simp only [howed]
        exact (List.filter_sublist.map Prod.fst).nodup h.nodup
      · simp only [howed, hq]
        intro o ho
        obtain ⟨hmem, hne⟩ := List.mem_filter.mp ho
        rw [observe_futures _ (by simpa using hne), observe_nextFuture]
        exact h.known o hmem
  | leave hleaves hq =>
      have howed : x.owedAfter a = [] := by
        simp [owedAfter, settles_of_leaves hleaves, hleaves]
      refine ⟨hloop, ?_, ?_⟩
      · simp only [howed]
        exact List.nodup_nil
      · simp only [howed]
        exact nofun
  | deliver ha _ _ hfutures _ | throw ha _ hfutures _ | park ha hfutures _ =>
      exact hkeep (owedAfter_of_quiet (by rw [ha]; rfl) (by rw [ha]; rfl) (by rw [ha]; rfl)).1
        hfutures
  | throwaway ha hq =>
      exact hkeep (owedAfter_of_quiet (by rw [ha]; rfl) (by rw [ha]; rfl) (by rw [ha]; rfl)).1
        (hq ▸ .of_eq rfl rfl rfl)

/-- Awaiting a rejected future takes its own entry out, and only its own, if no other has its
exception. -/
lemma observe_balanced_iff {x : Account} (h : Inv x) (hreport : x.loop.pool.unobserved
    = x.owed.map Prod.snd) (fut : FutureId) :
    (x.loop.pool.observe fut).unobserved = (x.owed.filter fun o => o.1 ≠ fut).map Prod.snd
      ↔ ∀ o ∈ x.owed, o.1 ≠ fut → (x.loop.pool.futures fut).unobservedError ≠ some o.2 := by
  cases herror : (x.loop.pool.futures fut).unobservedError with
  | none =>
      have hall : ∀ o ∈ x.owed, o.1 ≠ fut := by
        rintro o ho rfl
        exact absurd (herror.symm.trans (h.known o ho).2.2) (by simp)
      have hfilter : (x.owed.filter fun o => o.1 ≠ fut) = x.owed :=
        List.filter_eq_self.mpr fun o ho => by simpa using hall o ho
      simp only [Pool.observe, herror, hfilter]
      exact iff_of_true hreport (by simp)
  | some e =>
      simp only [Pool.observe, herror, hreport, List.filter_map]
      constructor
      · intro heq o ho hne hshared
        have hmem : o.2 ∈ (x.owed.filter fun o => o.1 ≠ fut).map Prod.snd :=
          List.mem_map_of_mem (List.mem_filter.mpr ⟨ho, by simpa using hne⟩)
        rw [← heq] at hmem
        obtain ⟨o', ho', heq'⟩ := List.mem_map.mp hmem
        have hne' := (List.mem_filter.mp ho').2
        simp only [heq', Function.comp_apply, ne_eq, decide_not, Bool.not_eq_true',
          decide_eq_false_iff_not] at hne'
        exact hne' (Option.some.inj hshared).symm
      · intro hown
        refine congrArg (List.map Prod.snd) (List.filter_congr fun o ho => ?_)
        by_cases ho1 : o.1 = fut
        · have hsame : o.2 = e := Option.some.inj ((h.known o ho).2.2.symm.trans (ho1 ▸ herror))
          simp [ho1, hsame]
        · have hdiff : o.2 ≠ e := fun he => hown o ho ho1 (congrArg some he.symm)
          simp [ho1, hdiff]

/-- A stop reports what it finds. -/
lemma exact_of_report {owed : List (FutureId × Exc)} {errors : List Exc}
    (h : errors = owed.map Prod.snd) :
    Stop.Exact ⟨owed, (reportUnobserved errors).1, (reportUnobserved errors).2⟩ := by
  rw [Stop.Exact, ← h]
  cases errors <;> rfl

/-- **The step lemma.** -/
lemma balanced_step {x x' : Account} {a : Action} (hi : Inv x) (h : Balanced x)
    (hstep : x.step a = some x') : Balanced x' ↔ OwnException x a := by
  obtain ⟨s, hs, rfl⟩ := Option.map_eq_some_iff.mp hstep
  have hquiet : s.pool.unobserved = x.loop.pool.unobserved → x.loop.settles a = none →
      x.loop.observes a = none → x.loop.leaves a = false →
      (Balanced ⟨s, x.owedAfter a, x.stopsAfter a⟩ ↔ OwnException x a) := by
    intro hreport hsettles hobserves hleaves
    obtain ⟨howed, hstops⟩ := owedAfter_of_quiet hsettles hobserves hleaves
    rw [howed, hstops]
    exact iff_of_true ⟨hreport.trans h.report, h.stops⟩ (by simp [OwnException, hobserves])
  cases (frame_of_step hi.loop hs).change with
  | quiet hsettles hobserves hleaves hfutures _ =>
      exact hquiet hfutures.report hsettles hobserves hleaves
  | @settle fut result hsettles _ _ hreport _ _ _ _ =>
      obtain ⟨hleaves, hobserves⟩ := leaves_of_settles hsettles
      refine iff_of_true ⟨?_, ?_⟩ (by simp [OwnException, hobserves])
      · simp only [owedAfter, hsettles, List.map_append]
        rw [hreport, h.report]
        cases x.loop.pool.unawaited fut result <;> rfl
      · simp only [stopsAfter, hleaves]
        exact h.stops
  | @observe fut hobserves hq =>
      have howed : x.owedAfter a = x.owed.filter fun o => o.1 ≠ fut := by
        simp [owedAfter, settles_of_observes hobserves, hobserves]
      have hstops : x.stopsAfter a = x.stops := by
        simp [stopsAfter, leaves_of_observes hobserves]
      have hown : OwnException x a ↔ ∀ o ∈ x.owed, o.1 ≠ fut →
          (x.loop.pool.futures fut).unobservedError ≠ some o.2 := by
        simp [OwnException, hobserves]
      rw [howed, hstops, hown, ← observe_balanced_iff hi h.report fut, ← hq]
      exact ⟨fun hb => hb.report, fun hr => ⟨hr, h.stops⟩⟩
  | leave hleaves hq =>
      obtain ⟨hsettles, hobserves⟩ := settles_of_leaves hleaves
      refine iff_of_true ⟨?_, ?_⟩ (by simp [OwnException, hobserves])
      · simp [owedAfter, hsettles, hobserves, hleaves, hq]
      · simp only [stopsAfter, hleaves, if_true, List.mem_append, List.mem_singleton]
        rintro stop (hold | rfl)
        · exact h.stops stop hold
        · exact exact_of_report h.report
  | deliver ha _ _ hfutures _ | throw ha _ hfutures _ | park ha hfutures _ =>
      exact hquiet hfutures.report (by rw [ha]; rfl) (by rw [ha]; rfl) (by rw [ha]; rfl)
  | throwaway ha hq =>
      exact hquiet (by rw [hq]) (by rw [ha]; rfl) (by rw [ha]; rfl) (by rw [ha]; rfl)

/-- **Every rejection nobody awaits is reported once**, exactly as long as no future is awaited
whose exception is that of another rejection nobody has awaited. -/
theorem report_exact_iff {fiberBudget queueDepth : ℤ} {budgetExempt : List PhpString}
    {chaos : Bool} {symbols : Superglobal → Bool} {x : Account} {as : List Action}
    (h : runFrom step (boot (Loop.boot fiberBudget queueDepth budgetExempt chaos symbols)) as
      = some x) :
    Always step Balanced (boot (Loop.boot fiberBudget queueDepth budgetExempt chaos symbols)) as
      ↔ Along step OwnException
        (boot (Loop.boot fiberBudget queueDepth budgetExempt chaos symbols)) as :=
  always_iff_along step (fun _ _ _ => Inv.step) (fun _ _ _ => balanced_step)
    (inv_boot (Loop.inv_boot _ _ _ _ _)) ⟨rfl, fun _ hx => absurd hx List.not_mem_nil⟩ h

/-- A job rejects two futures of its own, with these exceptions, and awaits the first of them before
the loop ends. -/
def rejectsTwo (e e' : Exc) : List Action :=
  [.async, .run false, .turn false, .advance, .advance, .newFuture, .newFuture,
    .settle 1 (.rejected e), .settle 2 (.rejected e'), .await 1, .finish none, .advance, .advance,
    .test 0 false]

/-- The other one is reported. -/
theorem report_exact_iff_two : ∃ x,
    runFrom step (boot (worker 0)) (rejectsTwo (.user 7) (.user 8)) = some x
    ∧ Always step Balanced (boot (worker 0)) (rejectsTwo (.user 7) (.user 8))
    ∧ x.stops = [⟨[(2, .user 8)], some (.user 8), []⟩] := by
  obtain ⟨x, hrun, hx⟩ := Option.map_eq_some_iff.mp
    (show (runFrom step (boot (worker 0)) (rejectsTwo (.user 7) (.user 8))).map stops
      = some [⟨[(2, .user 8)], some (.user 8), []⟩] by decide +kernel)
  exact ⟨x, hrun, (report_exact_iff hrun).mpr (by decide +kernel), hx⟩

/-- With one exception object for both, nothing is. -/
theorem shared_exception_lost : ∃ x,
    runFrom step (boot (worker 0)) (rejectsTwo (.user 7) (.user 7)) = some x
    ∧ x.stops = [⟨[(2, .user 7)], none, []⟩] ∧ ¬ Balanced x := by
  obtain ⟨x, hrun, hx⟩ := Option.map_eq_some_iff.mp
    (show (runFrom step (boot (worker 0)) (rejectsTwo (.user 7) (.user 7))).map stops
      = some [⟨[(2, .user 7)], none, []⟩] by decide +kernel)
  refine ⟨x, hrun, hx, fun h => ?_⟩
  have hexact : Stop.Exact ⟨[(2, .user 7)], none, []⟩ := h.stops _ (hx ▸ List.mem_singleton_self _)
  exact absurd hexact (by decide)

end Account

end Loop

end Ignis
