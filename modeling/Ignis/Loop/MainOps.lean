import Ignis.Loop.Completions

/-!
# Waiting for an op on `{main}`

`awaitOpFromMain()` runs the loop until `static fn(): bool => $done` says so.  An arrow function has
its variables by value, and this one is made before the op can complete: the throwaway fiber sets
the `$done` of the frame, and `$stop()` goes on to answer what it answered before.  The call returns
when the loop has nothing left to do, and that is up to everybody else.

The completion is followed from its batch to the throwaway fiber, and `{main}` from there to the end
of the call.  `awaitOp_main_iff` says when the call returns the payload without another poll and
before any other fiber runs; `payload_held_back` is a run in which it does not.
-/

namespace Ignis

namespace Loop

open StepSystem

/-! ## The way out -/

/-- No fiber runs, and there is none to start or to resume. -/
structure State.Still (s : State) : Prop where
  running : s.pool.running = none
  pending : s.pool.pending = []
  ready : s.pool.ready = []
  startBatch : s.pool.startBatch = []
  readyBatch : s.pool.readyBatch = []

/-- `{main}` has the rest of the batch to dispatch, and then nothing to do but to leave. -/
def State.Returning (s : State) : Prop :=
  match s.pc with
  | .dispatchEvents _ | .cancelRequest _ _ | .turn => True
  | .startPending | .resumeReady | .testing => s.Still
  | .script | .polling | .collecting _ _ => False

/-- After a turn of the loop in which nothing is started or resumed, it ends, with nothing to
report. -/
def State.Idles (s : State) : Action → Prop
  | .turn _ => s.pool.pending = [] ∧ s.pool.ready = []
  | .test inflight reload => s.leaves (.test inflight reload) = true ∧ s.pool.unobserved = []
  | _ => True

instance (s : State) : ∀ a, Decidable (s.Idles a) := by
  intro a
  cases a <;> unfold State.Idles <;> infer_instance

/-- Elsewhere there is nothing to ask for. -/
lemma idles_of_pc {s s' : State} {a : Action} (h : Loop.step s a = some s') (hturn : s.pc ≠ .turn)
    (htest : s.pc ≠ .testing) : s.Idles a := by
  cases a with
  | turn stop =>
      cases (mainStep_of_step h rfl).2 with
      | stops hpc | goesOn hpc => exact absurd hpc hturn
  | test inflight reload =>
      cases (mainStep_of_step h rfl).2 with
      | again hpc | ends hpc | waits hpc => exact absurd hpc htest
  | _ => trivial

/-- Where no fiber runs and user code has no say, `{main}` takes the step. -/
lemma still_main {s s' : State} {a : Action} (hs : s.Still) (hcode : s.mainCode = false)
    (h : Loop.step s a = some s') : MainStep s a s' := by
  have ha : a.ofMain = true := by
    rcases step_cases h with ⟨f, j, st, hcur, -⟩ | ⟨-, hmain⟩
    · simp [State.current, hs.running] at hcur
    · cases a <;> first | rfl | simp [stepMain, hcode] at hmain
  exact (mainStep_of_step h ha).2

lemma still_startPending {s s' : State} {a : Action} (hs : s.Still) (hpc : s.pc = .startPending)
    (h : Loop.step s a = some s') : s' = { s with pc := .resumeReady } := by
  cases still_main hs (by simp [State.mainCode, hpc]) h with
  | advance hstep =>
      simp only [State.advance, hpc, hs.startBatch, hs.pending, if_true] at hstep
      exact (Option.some.inj hstep).symm
  | run hat | awaitOpFromMain hat | stops hat | goesOn hat | takeReady hat | again hat
  | ends hat | waits hat | poll hat | endsPolled hat | dispatch hat => simp [hpc] at hat

lemma still_resumeReady {s s' : State} {a : Action} (hs : s.Still) (hpc : s.pc = .resumeReady)
    (h : Loop.step s a = some s') : s' = { s with pc := .testing } := by
  cases still_main hs (by simp [State.mainCode, hpc]) h with
  | advance hstep =>
      simp only [State.advance, hpc, hs.readyBatch, hs.ready, if_true] at hstep
      exact (Option.some.inj hstep).symm
  | takeReady _ _ hready => exact absurd hs.ready hready
  | run hat | awaitOpFromMain hat | stops hat | goesOn hat | again hat | ends hat | waits hat
  | poll hat | endsPolled hat | dispatch hat => simp [hpc] at hat

lemma still_testing {s s' : State} {a : Action} (hs : s.Still) (hpc : s.pc = .testing)
    (hleaves : s.leaves a = false) (h : Loop.step s a = some s') :
    (∃ inflight reload, a = .test inflight reload) ∧ s'.pc = .polling := by
  cases still_main hs (by simp [State.mainCode, hpc]) h with
  | again _ hpending => exact absurd hs.pending hpending
  | ends _ hends => simp [hends] at hleaves
  | @waits inflight reload => exact ⟨⟨inflight, reload, rfl⟩, rfl⟩
  | advance hstep => simp [State.advance, hpc] at hstep
  | run hat | awaitOpFromMain hat | stops hat | goesOn hat | takeReady hat | poll hat
  | endsPolled hat | dispatch hat => simp [hpc] at hat

/-- At the `while` the loop goes on. -/
lemma turn_step {s s' : State} {a : Action} (hi : Loop.Inv s) (hpc : s.pc = .turn)
    (hleaves : s.leaves a = false) (h : Loop.step s a = some s') :
    s'.pc = .turn ∧ s.Idles a
      ∨ a = .turn false ∧ s.pool.running = none ∧ s' = { s with pc := .startPending } := by
  cases ha : a.ofMain with
  | false =>
      have hsame := (frame_of_step hi h).pc.resolve_left (by simp [ha])
      refine .inl ⟨hsame.trans hpc, ?_⟩
      cases a with
      | turn _ | test _ _ => cases ha
      | _ => trivial
  | true =>
      obtain ⟨hrunning, hmain⟩ := mainStep_of_step h ha
      cases hmain with
      | goesOn => exact .inr ⟨rfl, hrunning, rfl⟩
      | stops => simp [State.leaves] at hleaves
      | advance hstep => simp [State.advance, hpc] at hstep
      | run hat | awaitOpFromMain hat | takeReady hat | again hat | ends hat | waits hat | poll hat
      | endsPolled hat | dispatch hat => simp [hpc] at hat

/-- **`{main}` stays on its way out** exactly when the loop has nothing left to do. -/
lemma returning_step {s s' : State} {a : Action} (hi : Loop.Inv s) (hs : s.Returning)
    (h : Loop.step s a = some s') (hleaves : s.leaves a = false) (hpc' : s'.pc ≠ .script) :
    s'.Returning ↔ s.Idles a := by
  have hgoes := goes_of_step hi h hpc'
  cases hpc : s.pc with
  | script | polling | collecting done events => simp [State.Returning, hpc] at hs
  | dispatchEvents events =>
      refine iff_of_true ?_ (idles_of_pc h (by simp [hpc]) (by simp [hpc]))
      unfold State.Returning
      cases hgoes with
      | stays hsame => rw [hsame, hpc]; trivial
      | dispatches _ _ hto =>
          rcases hto with hto | ⟨requestId, hto⟩ <;>
            · rw [hto]
              trivial
      | dispatched _ _ hto =>
          rw [hto]
          trivial
      | turns hfrom => simp [hpc, Pc.batch] at hfrom
      | polls _ hfrom | collects _ hfrom | receives _ hfrom | cancels _ hfrom =>
          simp [hpc] at hfrom
  | cancelRequest requestId rest =>
      refine iff_of_true ?_ (idles_of_pc h (by simp [hpc]) (by simp [hpc]))
      unfold State.Returning
      cases hgoes with
      | stays hsame => rw [hsame, hpc]; trivial
      | cancels _ _ hto =>
          rcases hto with hto | hto <;>
            · rw [hto]
              trivial
      | turns hfrom => simp [hpc, Pc.batch] at hfrom
      | polls _ hfrom | collects _ hfrom | receives _ hfrom | dispatches _ hfrom
      | dispatched _ hfrom => simp [hpc] at hfrom
  | turn =>
      rcases turn_step hi hpc hleaves h with ⟨hsame, hidles⟩ | ⟨rfl, hrunning, rfl⟩
      · exact iff_of_true (by rw [State.Returning, hsame]; trivial) hidles
      · obtain ⟨hstart, hready, -⟩ := hi.locals_nil (by simp [hpc, Pc.plain])
        exact ⟨fun hstill => ⟨hstill.pending, hstill.ready⟩,
          fun hidles => ⟨hrunning, hidles.1, hidles.2, hstart, hready⟩⟩
  | startPending =>
      have hstill : s.Still := by simpa [State.Returning, hpc] using hs
      obtain rfl := still_startPending hstill hpc h
      refine iff_of_true ?_ (idles_of_pc h (by simp [hpc]) (by simp [hpc]))
      exact ⟨hstill.running, hstill.pending, hstill.ready, hstill.startBatch, hstill.readyBatch⟩
  | resumeReady =>
      have hstill : s.Still := by simpa [State.Returning, hpc] using hs
      obtain rfl := still_resumeReady hstill hpc h
      refine iff_of_true ?_ (idles_of_pc h (by simp [hpc]) (by simp [hpc]))
      exact ⟨hstill.running, hstill.pending, hstill.ready, hstill.startBatch, hstill.readyBatch⟩
  | testing =>
      have hstill : s.Still := by simpa [State.Returning, hpc] using hs
      obtain ⟨⟨inflight, reload, rfl⟩, hpolling⟩ := still_testing hstill hpc hleaves h
      refine iff_of_false (by simp [State.Returning, hpolling]) ?_
      rintro ⟨htrue, -⟩
      simp [hleaves] at htrue

/-! ## The call -/

/-- An `awaitOp()` returns the payload of its op. -/
def End.Delivered {ν : Type} (x : End ν) : Prop :=
  match x.call with
  | .awaitOp w => ∃ payload, w.result = some payload ∧ x.ending = .payload (some payload)
  | .run | .await _ => True

/-- The op has no other waiter, and its throwaway fiber is where the dispatch looks for it. -/
structure Registered (s : State) (op : Id) : Prop where
  waiting : s.pool.waiting.get? op = some .throwaway
  deadline : s.deadlines.get? op = none
  parkedOn : ∀ f, s.pool.parkedOn.get? f ≠ some op

/-- What is true of the call while it drives the loop. -/
structure Waiting (s : State) (w : OpWait) : Prop where
  captured : w.captured = false
  registered : w.result = none → Registered s w.id
  polled : s.pc.carries w.id ∨ w.result ≠ none → w.polled = true

lemma Registered.of_same {s : State} {op : Id} {p q : Pool}
    (hr : Registered { s with pool := p } op) (hwaiting : SameWaiting p q) {s' : State}
    (hq : s'.pool = q)
    (hdeadlines : ∀ id, s'.deadlines.get? op = some id → s.deadlines.get? op = some id) :
    Registered s' op where
  waiting := by
    rw [hq, hwaiting.waiting]
    exact hr.waiting
  deadline := by
    cases hget : s'.deadlines.get? op with
    | none => rfl
    | some id => exact absurd ((hdeadlines id hget).symm.trans hr.deadline) (by simp)
  parkedOn := fun f hf => hr.parkedOn f (hwaiting.parkedOn f op (hq ▸ hf))

/-- The registration lasts until the completion is dispatched. -/
lemma registered_step {s s' : State} {a : Action} {op : Id} (hi : Loop.Inv s)
    (hr : Registered s op) (h : Loop.step s a = some s') (hpark : a ≠ .awaitOp op)
    (hdeadline : a ≠ .deadline op) (hmain : ∀ op, a ≠ .awaitOpFromMain op) :
    Registered s' op ∨ ∃ payload, s.dispatches a = some (op, payload) := by
  have hframe := frame_of_step hi h
  have hdeadlines : ∀ id, s'.deadlines.get? op = some id → s.deadlines.get? op = some id :=
    fun id hid => (hframe.deadlines op id hid).resolve_right hdeadline
  have hself : Registered { s with pool := s.pool } op := hr
  -- another op loses its waiter
  have hunset : ∀ op', op' ≠ op →
      Registered { s with pool := { s.pool with waiting := s.pool.waiting.unset op' } } op := by
    intro op' hne
    refine ⟨?_, hr.deadline, hr.parkedOn⟩
    simp only [OrdMap.get?_unset, if_neg hne.symm]
    exact hr.waiting
  cases hframe.change with
  | quiet _ _ _ _ hwaiting => exact .inl (hself.of_same hwaiting rfl hdeadlines)
  | settle _ _ _ _ _ _ _ hwaiting => exact .inl (hself.of_same hwaiting rfl hdeadlines)
  | @observe fut _ hq =>
      refine .inl (hself.of_same (.of_eq ?_ ?_) hq hdeadlines) <;>
        · unfold Pool.observe
          split <;> rfl
  | leave _ hq =>
      exact .inl (hself.of_same (q := { s.pool with unobserved := [] }) (.of_eq rfl rfl) hq
        hdeadlines)
  | @deliver op' payload rest ha hpc _ _ hwaiting =>
      by_cases hop : op' = op
      · exact .inr ⟨payload, by simp [State.dispatches, ha, hpc, hop]⟩
      · exact .inl ((hunset op' hop).of_same hwaiting rfl hdeadlines)
  | @throw f op' _ hop _ hwaiting =>
      have hne : op' ≠ op := by
        rintro rfl
        exact hr.parkedOn f hop
      exact .inl ((hunset op' hne).of_same hwaiting rfl hdeadlines)
  | @park f op' ha _ hwaiting =>
      have hne : op ≠ op' := by
        rintro rfl
        exact hpark ha
      have hparked : Registered { s with pool := { s.pool with
          waiting := s.pool.waiting.set op' (.fiber f)
          parkedOn := s.pool.parkedOn.set f op' } } op := by
        refine ⟨?_, hr.deadline, fun g => ?_⟩
        · simp only [OrdMap.get?_set, if_neg hne]
          exact hr.waiting
        · simp only [OrdMap.get?_set]
          split_ifs
          · exact fun e => hne (Option.some.inj e).symm
          · exact hr.parkedOn g
      exact .inl (hparked.of_same hwaiting rfl hdeadlines)
  | @throwaway op' ha _ => exact absurd ha (hmain op')

/-- What the dispatch of an op makes of the call. -/
lemma after_result {s : State} {w : OpWait} {a : Action}
    (hr : w.result = none → Registered s w.id) :
    (w.after s a).result = none
      ↔ w.result = none ∧ ∀ payload, s.dispatches a ≠ some (w.id, payload) := by
  simp only [OpWait.after]
  cases hd : s.dispatches a with
  | none => simp
  | some e =>
      obtain ⟨id, payload⟩ := e
      simp only
      by_cases hid : id = w.id
      · subst hid
        split_ifs with hthrowaway
        · simp
        · constructor
          · intro hnone
            exact absurd ⟨rfl, (hr hnone).deadline, (hr hnone).waiting⟩ hthrowaway
          · rintro ⟨-, hne⟩
            exact absurd rfl (hne payload)
      · rw [if_neg fun hall => hid hall.1]
        simp [hid]

/-- The op a step has another use for. -/
def Action.takes : Action → Option Id
  | .awaitOp op | .deadline op => some op
  | _ => none

lemma waiting_step {s s' : State} {a : Action} {w : OpWait} (hi : Loop.Inv s) (hw : Waiting s w)
    (h : Loop.step s a = some s') (hpc' : s'.pc ≠ .script)
    (hapart : w.result = none → a.takes ≠ some w.id) (hmain : ∀ op, a ≠ .awaitOpFromMain op) :
    Waiting s' (w.after s a) where
  captured := hw.captured
  registered := by
    intro hnone
    obtain ⟨hresult, hother⟩ := (after_result hw.registered).mp hnone
    have hpark : a ≠ .awaitOp w.id := fun ha => hapart hresult (ha ▸ rfl)
    have hdeadline : a ≠ .deadline w.id := fun ha => hapart hresult (ha ▸ rfl)
    rcases registered_step hi (hw.registered hresult) h hpark hdeadline hmain with hr | ⟨p, hp⟩
    · exact hr
    · exact absurd hp (hother p)
  polled := by
    show _ → (w.polled || a.completes w.id) = true
    rw [Bool.or_eq_true]
    rintro (hcarries | hsome)
    · exact (carries_before (goes_of_step hi h hpc') hcarries).imp_left fun hold =>
        hw.polled (.inl hold)
    · by_cases hresult : w.result = none
      · refine .inl (hw.polled (.inl ?_))
        by_contra hcarries
        refine hsome ((after_result hw.registered).mpr ⟨hresult, fun payload hp => hcarries ?_⟩)
        exact carries_of_dispatches hp
      · exact .inl (hw.polled (.inr hresult))

/-- From the poll with the completion of the op on, it is on its way until the throwaway fiber has
it, and then `{main}` is. -/
def Call.OnTime (s : State) : Call → Prop
  | .awaitOp w => w.polled = true →
      (w.result = none → s.pc.carries w.id) ∧ (w.result ≠ none → s.Returning)
  | .run | .await _ => True

lemma returning_of_dispatches {s s' : State} {a : Action} {e : Id × Payload}
    (h : Goes s a s'.pc) (hd : s.dispatches a = some e) : s'.Returning := by
  have hpc : ∃ rest, s.pc = .dispatchEvents (e :: rest) := by
    cases a <;> simp only [State.dispatches, reduceCtorEq] at hd
    split at hd
    · rename_i e' rest hpc
      obtain rfl := Option.some.inj hd
      exact ⟨rest, hpc⟩
    · cases hd
  obtain ⟨rest, hpc⟩ := hpc
  unfold State.Returning
  cases h with
  | stays _ _ hnone => simp [hnone] at hd
  | turns hfrom => simp [hpc, Pc.batch] at hfrom
  | polls _ hfrom | collects _ hfrom | receives _ hfrom | cancels _ hfrom | dispatched _ hfrom =>
      simp [hpc] at hfrom
  | dispatches _ _ hto =>
      rcases hto with hto | ⟨requestId, hto⟩ <;>
        · rw [hto]
          trivial

/-- The step of the loop, in the call. -/
lemma onTime_step {s s' : State} {a : Action} {w : OpWait} (hi : Loop.Inv s) (hw : Waiting s w)
    (ht : (Call.awaitOp w).OnTime s) (h : Loop.step s a = some s') (hleaves : s.leaves a = false)
    (hpc' : s'.pc ≠ .script) : (Call.awaitOp (w.after s a)).OnTime s'
      ↔ s.loses w.id a = false ∧ (w.result ≠ none → s.Idles a) := by
  have hgoes := goes_of_step hi h hpc'
  have hafter := @after_result s w a hw.registered
  have hpolled : (w.after s a).polled = true ↔ w.polled = true ∨ a.completes w.id = true :=
    Bool.or_eq_true _ _ ▸ Iff.rfl
  by_cases hresult : w.result = none
  · by_cases hp : (w.after s a).polled = true
    · cases hloses : s.loses w.id a with
      | true =>
          obtain ⟨hnot, hnone⟩ := not_carries_of_loses hgoes hloses
          refine iff_of_false (fun hall => hnot ((hall hp).1 ?_)) (by simp)
          exact hafter.mpr ⟨hresult, by simp [hnone]⟩
      | false =>
          refine iff_of_true (fun _ => ⟨fun hnone => ?_, fun hsome => ?_⟩)
            ⟨rfl, fun hne => absurd hresult hne⟩
          · have hother := (hafter.mp hnone).2
            by_cases hcarries : s.pc.carries w.id
            · exact (carries_after hgoes hcarries hloses).resolve_right fun ⟨p, hd⟩ => hother p hd
            · have hcompletes := (hpolled.mp hp).resolve_left fun hold =>
                hcarries ((ht hold).1 hresult)
              exact (carries_of_completes hgoes hcompletes).1
          · have hdispatched : ∃ payload, s.dispatches a = some (w.id, payload) := by
              by_contra hno
              exact hsome (hafter.mpr ⟨hresult, fun p hd => hno ⟨p, hd⟩⟩)
            obtain ⟨payload, hd⟩ := hdispatched
            exact returning_of_dispatches hgoes hd
    · -- its completion has not come
      refine iff_of_true (fun hall => absurd hall hp) ⟨?_, fun hne => absurd hresult hne⟩
      refine Bool.eq_false_iff.mpr fun hloses => hp (hpolled.mpr (.inl (hw.polled (.inl ?_))))
      exact carries_of_loses hloses
  · have hold := hw.polled (.inr hresult)
    have hreturning := (ht hold).2 hresult
    have hsome : (w.after s a).result ≠ none := fun hnone => hresult (hafter.mp hnone).1
    have hloses : s.loses w.id a = false := by
      cases a <;> try rfl
      simp only [State.loses]
      split
      · rename_i hpc
        simp [State.Returning, hpc] at hreturning
      · rfl
    have hstep := returning_step hi hreturning h hleaves hpc'
    constructor
    · intro hall
      exact ⟨hloses, fun _ => hstep.mp ((hall (hpolled.mpr (.inl hold))).2 hsome)⟩
    · rintro ⟨-, hidles⟩ -
      exact ⟨fun hnone => absurd hnone hsome, fun _ => hstep.mpr (hidles hresult)⟩

/-- Looking at a future. -/
lemma observe_keeps (p : Pool) (fut : FutureId) :
    (p.observe fut).waiting = p.waiting ∧ (p.observe fut).parkedOn = p.parkedOn
      ∧ (p.observe fut).running = p.running ∧ (p.observe fut).pending = p.pending
      ∧ (p.observe fut).ready = p.ready ∧ (p.observe fut).startBatch = p.startBatch
      ∧ (p.observe fut).readyBatch = p.readyBatch := by
  unfold Pool.observe
  split <;> exact ⟨rfl, rfl, rfl, rfl, rfl, rfl, rfl⟩

lemma waiting_lookAt {s : State} {w : OpWait} (h : Waiting s w) (fut : FutureId) :
    Waiting (s.lookAt (.await fut)) w := by
  obtain ⟨hwaiting, hparkedOn, -⟩ := observe_keeps s.pool fut
  refine ⟨h.captured, fun hnone => ?_, h.polled⟩
  have hself : Registered { s with pool := s.pool } w.id := h.registered hnone
  exact hself.of_same (.of_eq hwaiting hparkedOn) rfl fun _ hid => hid

lemma onTime_lookAt {s : State} {call : Call} (h : call.OnTime s) (fut : FutureId) :
    call.OnTime (s.lookAt (.await fut)) := by
  obtain ⟨-, -, hrunning, hpending, hready, hstart, hbatch⟩ := observe_keeps s.pool fut
  have hreturning : s.Returning → (s.lookAt (.await fut)).Returning := by
    unfold State.Returning
    simp only [State.lookAt]
    cases s.pc with
    | startPending | resumeReady | testing =>
        rintro ⟨h1, h2, h3, h4, h5⟩
        exact ⟨hrunning.trans h1, hpending.trans h2, hready.trans h3, hstart.trans h4,
          hbatch.trans h5⟩
    | _ => exact id
  cases call with
  | awaitOp w => exact fun hp => (h hp).imp_right fun hres hsome => hreturning (hres hsome)
  | run | await f => trivial

/-- The step has no other use for the op of the call. -/
def Call.Apart (a : Action) : Call → Prop
  | .awaitOp w => w.result = none → a.takes ≠ some w.id
  | .run | .await _ => True

instance (a : Action) : ∀ call, Decidable (Call.Apart a call)
  | .awaitOp _ => inferInstanceAs (Decidable (_ → _))
  | .run | .await _ => inferInstanceAs (Decidable True)

namespace Driver

variable {ν : Type}

/-- Reactor ids are handed out once: while the call waits for its op nobody else comes to have a use
for it, and nobody has when the call is made. -/
def Apart (d : Driver ν) : Act ν → Prop
  | .loop a _ => ∀ call ∈ d.call, call.Apart a
  | .awaitOp op =>
      d.loop.deadlines.get? op = none ∧ ∀ e ∈ d.loop.pool.parkedOn.entries, e.2 ≠ op
  | .run _ | .await _ => True

instance (d : Driver ν) : ∀ a, Decidable (Apart d a)
  | .loop _ _ => inferInstanceAs (Decidable (∀ _ ∈ _, _))
  | .awaitOp _ => inferInstanceAs (Decidable (_ ∧ _))
  | .run _ | .await _ => inferInstanceAs (Decidable True)

/-- A call waits for its op, or has its payload. -/
structure Tracked (d : Driver ν) : Prop extends Inv d where
  waiting : ∀ w, d.call = some (.awaitOp w) → Waiting d.loop w

lemma tracked_boot {s : State} (h : Loop.Inv s) (hpc : s.pc = .script) :
    Tracked (boot (ν := ν) s) := ⟨inv_boot h hpc, nofun⟩

theorem Tracked.step {d d' : Driver ν} {a : Act ν} (h : Tracked d) (hapart : Apart d a)
    (hstep : d.step a = some d') : Tracked d' := by
  refine ⟨h.toInv.step hstep, fun w hw => ?_⟩
  cases a with
  | run serve =>
      obtain ⟨s, -, rfl⟩ := Option.map_eq_some_iff.mp hstep
      cases hw
  | awaitOp op =>
      rcases awaitOp_cases hstep with ⟨s, hs, rfl⟩ | ⟨-, -, rfl⟩
      · obtain rfl : OpWait.start op = w := by simpa using hw
        cases (mainStep_of_step hs rfl).2
        refine ⟨rfl, fun _ => ⟨OrdMap.get?_set_self _ _ _, hapart.1, fun f hf => ?_⟩, ?_⟩
        · exact hapart.2 _ (OrdMap.mem_entries_iff.mpr hf) rfl
        · rintro (hcarries | hsome)
          · cases hcarries
          · exact absurd rfl hsome
      · have hwait := h.waiting w hw
        refine ⟨hwait.captured, fun hnone => ?_, hwait.polled⟩
        obtain ⟨hwaiting, hdeadline, hparkedOn⟩ := hwait.registered hnone
        refine ⟨?_, hdeadline, hparkedOn⟩
        simp only [OrdMap.get?_set]
        split_ifs
        · rfl
        · exact hwaiting
  | await fut =>
      rcases await_cases hstep with ⟨result, -, rfl⟩ | ⟨-, s, -, rfl⟩ | ⟨-, -, rfl⟩
      · exact waiting_lookAt (h.waiting w hw) fut
      · cases hw
      · exact h.waiting w hw
  | loop a value =>
      cases moves_of_stepLoop h.toInv hstep with
      | outside hs hcall hpc => simp [moved, hcall] at hw
      | @inside s call hs hcall hallows hleaves hpc hgood =>
          cases call with
          | run | await fut => simp [moved, hcall, Call.after] at hw
          | awaitOp w₀ =>
              obtain rfl : w₀.after d.loop a = w := by simpa [moved, hcall, Call.after] using hw
              refine waiting_step h.loop (h.waiting w₀ hcall) hs hpc (hapart _ hcall) ?_
              rintro op rfl
              simp [allows] at hallows
      | @leaves s call hs hcall hallows hleaves hpc hpool =>
          rcases leave_eq (d.moved a value s) (call.after d.loop a) d.loop.pool.unobserved with
            ⟨e, rest, -, heq⟩ | ⟨-, heq⟩ <;>
            · rw [heq] at hw
              cases hw
      | escapes => cases hw

/-- Every `awaitOp()` of `{main}` has returned its payload, or is on time. -/
structure Prompt (d : Driver ν) : Prop where
  ended : ∀ x ∈ d.ends, x.Delivered
  onTime : ∀ call ∈ d.call, call.OnTime d.loop

/-- A step of the loop in the call: no exception leaves it, the completion of the op is not lost,
and after its dispatch the loop has nothing left to do. -/
def Unhindered (s : State) (a : Action) : Call → Prop
  | .awaitOp w =>
      s.escapes a = false ∧ s.loses w.id a = false ∧ (w.result ≠ none → s.Idles a)
  | .run | .await _ => True

instance (s : State) (a : Action) : ∀ call, Decidable (Unhindered s a call)
  | .awaitOp _ => inferInstanceAs (Decidable (_ ∧ _ ∧ _))
  | .run | .await _ => inferInstanceAs (Decidable True)

/-- Nothing holds up `awaitOp()`: the loop does not run already, and the steps in the call are
unhindered. -/
def Promptly (d : Driver ν) : Act ν → Prop
  | .awaitOp _ => d.loop.pc.isScript = true
  | .loop a _ => ∀ call ∈ d.call, Unhindered d.loop a call
  | .run _ | .await _ => True

instance (d : Driver ν) : ∀ a, Decidable (Promptly d a)
  | .awaitOp _ => inferInstanceAs (Decidable (_ = true))
  | .loop _ _ => inferInstanceAs (Decidable (∀ _ ∈ _, _))
  | .run _ | .await _ => inferInstanceAs (Decidable True)

/-- The loop ends because `$stop()` says so, or because nothing is waiting. -/
lemma leaves_cases {s : State} {a : Action} (h : s.leaves a = true) :
    a = .turn true ∨ s.pool.waiting.entries = []
      ∧ ((∃ inflight reload, a = .test inflight reload)
        ∨ ∃ done events, s.pc = .collecting done events) := by
  cases a with
  | turn stop =>
      obtain rfl : stop = true := h
      exact .inl rfl
  | test inflight reload =>
      simp only [State.leaves, State.windingDown, State.isIdle, Bool.and_eq_true, Bool.or_eq_true,
        List.isEmpty_iff] at h
      exact .inr ⟨h.2.elim (fun hw => hw.1.1.2) (fun hidle => hidle.1.1.1.1),
        .inl ⟨inflight, reload, rfl⟩⟩
  | dispatch inflight order =>
      simp only [State.leaves] at h
      split at h
      · rename_i events hpc
        simp only [State.isIdle, Bool.and_eq_true, List.isEmpty_iff] at h
        exact .inr ⟨h.2.1.1.1.1, .inr ⟨[], events, hpc⟩⟩
      · cases h
  | _ => simp [State.leaves] at h

/-- Outside the calls nobody is late. -/
lemma no_call {call? : Option Call} {s : State} (h : call? = none) :
    ∀ call ∈ call?, call.OnTime s := by
  simp [h]

lemma delivered_of_other {x : End ν} (h : ∀ w, x.call ≠ .awaitOp w) : x.Delivered := by
  unfold End.Delivered
  split
  · rename_i w hcall
    exact absurd hcall (h w)
  · trivial
  · trivial

/-- An op that has its payload is returned with it, unless there is something to report. -/
lemma leave_prompt_iff {d : Driver ν} (h : ∀ x ∈ d.ends, x.Delivered) {w : OpWait}
    {payload : Payload} (hw : w.result = some payload) (errors : List Exc) :
    Prompt (d.leave (.awaitOp w) errors) ↔ errors = [] := by
  rcases leave_eq d (.awaitOp w) errors with ⟨e, rest, rfl, heq⟩ | ⟨rfl, heq⟩
  · rw [heq]
    refine iff_of_false (fun hp => ?_) (List.cons_ne_nil e rest)
    obtain ⟨payload', -, hending⟩ := (forall_ends_iff h _).mp hp.ended
    cases hending
  · rw [heq]
    refine iff_of_true ⟨(forall_ends_iff h _).mpr ⟨payload, hw, ?_⟩, no_call rfl⟩ rfl
    simp [own, hw]

/-- **The step lemma.** -/
lemma prompt_step {d d' : Driver ν} {a : Act ν} (hi : Tracked d) (h : Prompt d)
    (hstep : d.step a = some d') : Prompt d' ↔ Promptly d a := by
  cases a with
  | run serve =>
      obtain ⟨s, -, rfl⟩ := Option.map_eq_some_iff.mp hstep
      exact iff_of_true ⟨h.ended, fun call hcall => Option.some.inj hcall ▸ trivial⟩ trivial
  | awaitOp id =>
      rcases awaitOp_cases hstep with ⟨s, hs, rfl⟩ | ⟨-, hpc, rfl⟩
      · have hcall := (@enter_spec _ _ _ _ (.awaitOp (.start id)) hi.toInv (.inr ⟨id, rfl⟩) hs).1
        refine iff_of_true ⟨h.ended, fun call hcall' => ?_⟩ (isScript_iff.mpr (hi.calling.mp hcall))
        obtain rfl := Option.some.inj hcall'
        rintro ⟨⟩
      · refine iff_of_false (fun hp => ?_) fun hscript => hpc (isScript_iff.mp hscript)
        obtain ⟨payload, hresult, -⟩ := (forall_ends_iff h.ended _).mp hp.ended
        cases hresult
  | await fut =>
      rcases await_cases hstep with ⟨result, -, rfl⟩ | ⟨-, s, -, rfl⟩ | ⟨-, -, rfl⟩
      · refine iff_of_true ⟨(forall_ends_iff h.ended _).mpr trivial, fun call hcall => ?_⟩ trivial
        exact onTime_lookAt (h.onTime call hcall) fut
      · exact iff_of_true ⟨h.ended, fun call hcall => Option.some.inj hcall ▸ trivial⟩ trivial
      · exact iff_of_true ⟨(forall_ends_iff h.ended _).mpr trivial, h.onTime⟩ trivial
  | loop a value =>
      cases moves_of_stepLoop hi.toInv hstep with
      | outside hs hcall hpc =>
          exact iff_of_true ⟨h.ended, by simp [moved, hcall]⟩ (by simp [Promptly, hcall])
      | @inside s call hs hcall _ hleaves hpc hgood =>
          cases call with
          | run | await fut =>
              exact iff_of_true ⟨h.ended, by simp [moved, hcall, Call.after, Call.OnTime]⟩
                (by simp [Promptly, hcall, Unhindered])
          | awaitOp w =>
              have hiff :=
                onTime_step hi.loop (hi.waiting w hcall) (h.onTime _ hcall) hs hleaves hpc
              constructor
              · intro hp
                simp only [Promptly, hcall, Option.mem_def, Option.some.injEq, forall_eq']
                exact ⟨hgood, hiff.mp (hp.onTime _ (by simp [moved, hcall, Call.after]))⟩
              · intro hok
                refine ⟨h.ended, fun call' hcall' => ?_⟩
                obtain rfl : Call.awaitOp (w.after d.loop a) = call' := by
                  simpa [moved, hcall, Call.after] using hcall'
                exact hiff.mpr (hok _ hcall).2
      | @leaves s call hs hcall hallows hleaves hpc hpool =>
          cases call with
          | run | await fut =>
              refine iff_of_true ?_ (by simp [Promptly, hcall, Unhindered])
              rcases leave_eq (d.moved a value s) _ d.loop.pool.unobserved with
                ⟨e, rest, -, heq⟩ | ⟨-, heq⟩ <;>
                · rw [heq]
                  refine ⟨(forall_ends_iff h.ended _).mpr (delivered_of_other ?_), no_call rfl⟩
                  simp [Call.after]
          | awaitOp w =>
              have hw := hi.waiting w hcall
              -- `$stop()` never says so
              have hturn : a ≠ .turn true := by
                rintro rfl
                simp [allows, hcall, Call.stop, hw.captured] at hallows
              obtain ⟨hnobody, hplace⟩ := (leaves_cases hleaves).resolve_left hturn
              have hresult : w.result ≠ none := by
                intro hnone
                have hget := OrdMap.mem_entries_iff.mpr (hw.registered hnone).waiting
                rw [hnobody] at hget
                cases hget
              obtain ⟨payload, hpayload⟩ := Option.ne_none_iff_exists'.mp hresult
              have hreturning := (h.onTime _ hcall (hw.polled (.inr hresult))).2 hresult
              obtain ⟨inflight, reload, rfl⟩ : ∃ inflight reload, a = .test inflight reload := by
                refine hplace.resolve_right ?_
                rintro ⟨done, events, hpc'⟩
                simp [State.Returning, hpc'] at hreturning
              have hafter :
                  Call.after d.loop (.test inflight reload) (.awaitOp w) = .awaitOp w := by
                simp [Call.after, OpWait.after, State.dispatches, Action.completes]
              rw [hafter]
              refine (leave_prompt_iff (d := d.moved _ value s) h.ended hpayload _).trans ?_
              simp [Promptly, hcall, Unhindered, State.escapes, State.loses, State.Idles, hleaves,
                hresult]
      | @escapes s call hs hcall hpc hbad =>
          cases call with
          | run | await fut =>
              refine iff_of_true
                ⟨(forall_ends_iff h.ended _).mpr (delivered_of_other ?_), no_call rfl⟩ ?_
              · simp [Call.after]
              · simp [Promptly, hcall, Unhindered]
          | awaitOp w =>
              refine iff_of_false (fun hp => ?_) (by simp [Promptly, hcall, Unhindered, hbad])
              obtain ⟨payload, -, hending⟩ := (forall_ends_iff h.ended _).mp hp.ended
              cases hending

/-! ## The return -/

/-- The last turn of the loop. -/
def lastTurn (inflight : ℕ) (reload : Bool) : List (Act ν) :=
  [.loop (.turn false) none, .loop .advance none, .loop .advance none,
    .loop (.test inflight reload) none]

/-- A call that has its payload, in a loop that has nothing left to do, is over with the turn. -/
def Returns (d : Driver ν) : Prop :=
  ∀ w payload inflight reload, d.call = some (.awaitOp w) → w.result = some payload →
    d.loop.pc = .turn → d.loop.Still → d.loop.pool.unobserved = [] →
    d.loop.leaves (.test inflight reload) = true →
    ∃ d', runFrom step d (lastTurn inflight reload) = some d' ∧ d'.call = none
      ∧ d'.ends = d.ends ++ [⟨.awaitOp w, .payload (some payload), [], none⟩]

lemma after_eq (w : OpWait) {s : State} {a : Action} (hdispatches : s.dispatches a = none)
    (hcompletes : a.completes w.id = false) : w.after s a = w := by
  cases w
  simp [OpWait.after, hdispatches, hcompletes]

lemma step_inside {d : Driver ν} {a : Action} {s : State} {w : OpWait}
    (hcall : d.call = some (.awaitOp w)) (hallows : d.allows a = true)
    (hs : Loop.step d.loop a = some s) (hleaves : d.loop.leaves a = false)
    (hpc : s.pc.isScript = false) (hafter : w.after d.loop a = w) :
    ∃ d', d.step (.loop a none) = some d' ∧ d'.loop = s ∧ d'.call = some (.awaitOp w)
      ∧ d'.ends = d.ends := by
  refine ⟨d.moved a none s, ?_, rfl, by simp [moved, hcall, Call.after, hafter], rfl⟩
  show d.stepLoop a none = _
  simp [stepLoop, hallows, hs, hcall, hleaves, hpc]

theorem returns_of_captured {d : Driver ν}
    (h : ∀ w, d.call = some (.awaitOp w) → w.captured = false) : Returns d := by
  intro w payload inflight reload hcall hpayload hpc hstill hreport hleaves
  obtain ⟨hrunning, hpending, hready, hstart, hbatch⟩ := hstill
  -- the `while`
  obtain ⟨d₁, hstep₁, hloop₁, hcall₁, hends₁⟩ :=
    step_inside (a := .turn false) (s := { d.loop with pc := .startPending }) hcall
      (by simp [allows, hcall, Call.stop, h w hcall])
      (by simp [Loop.step, hrunning, stepMain, hpc]) rfl rfl (after_eq w rfl rfl)
  -- nothing to start, and nothing to resume
  obtain ⟨d₂, hstep₂, hloop₂, hcall₂, hends₂⟩ :=
    step_inside (a := .advance) (s := { d.loop with pc := .resumeReady }) hcall₁ rfl
      (by simp [hloop₁, Loop.step, hrunning, stepMain, State.advance, hstart, hpending])
      (by simp [State.leaves]) rfl (after_eq w (by simp [hloop₁, State.dispatches]) rfl)
  obtain ⟨d₃, hstep₃, hloop₃, hcall₃, hends₃⟩ :=
    step_inside (a := .advance) (s := { d.loop with pc := .testing }) hcall₂ rfl
      (by simp [hloop₂, Loop.step, hrunning, stepMain, State.advance, hbatch, hready])
      (by simp [State.leaves]) rfl (after_eq w (by simp [hloop₂, State.dispatches]) rfl)
  -- the test
  have hover : d₃.loop.leaves (.test inflight reload) = true := by
    rw [hloop₃]
    exact hleaves
  have hmain : Loop.step d₃.loop (.test inflight reload) = some
      { d₃.loop with stopping := d₃.loop.stopping || reload }.leave := by
    have hpc₃ : d₃.loop.pc = .testing := by rw [hloop₃]
    have hnone : d₃.loop.pool.running = none := by rw [hloop₃]; exact hrunning
    have hnext : d₃.loop.pool.pending = [] := by rw [hloop₃]; exact hpending
    have hidle : { d₃.loop with stopping := d₃.loop.stopping || reload }.isIdle inflight
        = d₃.loop.isIdle inflight := rfl
    simp only [State.leaves, hnext, List.isEmpty_nil, Bool.true_and] at hover
    simp only [Loop.step, hnone, stepMain]
    split
    · rw [if_neg (not_not.mpr hnext), hidle, if_pos hover]
    · rename_i hne
      exact absurd hpc₃ hne
  have hreport₃ : d₃.loop.pool.unobserved = [] := by
    rw [hloop₃]
    exact hreport
  have hstep₄ : d₃.step (.loop (.test inflight reload) none) = some
      ((d₃.moved (.test inflight reload) none
        { d₃.loop with stopping := d₃.loop.stopping || reload }.leave).leave (.awaitOp w) []) := by
    have hafter : w.after d₃.loop (.test inflight reload) = w := after_eq w rfl rfl
    show d₃.stepLoop (.test inflight reload) none = _
    simp [stepLoop, allows, hmain, hcall₃, hover, hreport₃, Call.after, hafter]
  refine ⟨_, (runFrom_cons step).mpr ⟨d₁, hstep₁, (runFrom_cons step).mpr ⟨d₂, hstep₂,
    (runFrom_cons step).mpr ⟨d₃, hstep₃, (runFrom_cons step).mpr ⟨_, hstep₄, rfl⟩⟩⟩⟩, rfl, ?_⟩
  simp [leave, reportUnobserved, close, own, settled, moved, hpayload, hends₃, hends₂, hends₁]

/-- **On `{main}` `awaitOp()` waits for its own op only**, exactly as long as nobody else gives the
loop anything to do when the op is dispatched. -/
theorem awaitOp_main_iff {fiberBudget queueDepth : ℤ} {budgetExempt : List PhpString} {chaos : Bool}
    {symbols : Superglobal → Bool} {d : Driver ν} {as : List (Act ν)}
    (hapart : Along step Apart
      (boot (Loop.boot fiberBudget queueDepth budgetExempt chaos symbols)) as)
    (h : runFrom step (boot (Loop.boot fiberBudget queueDepth budgetExempt chaos symbols)) as
      = some d) :
    (Always step Prompt (boot (Loop.boot fiberBudget queueDepth budgetExempt chaos symbols)) as
      ↔ Along step Promptly
        (boot (Loop.boot fiberBudget queueDepth budgetExempt chaos symbols)) as)
      ∧ Returns d := by
  have hboot : Tracked (ν := ν) (boot (Loop.boot fiberBudget queueDepth budgetExempt chaos symbols))
    := tracked_boot (Loop.inv_boot _ _ _ _ _) rfl
  have hprompt : Prompt (ν := ν)
      (boot (Loop.boot fiberBudget queueDepth budgetExempt chaos symbols)) :=
    ⟨fun _ hx => absurd hx List.not_mem_nil, no_call rfl⟩
  refine ⟨always_iff_along_of_along step (fun _ _ _ => Tracked.step)
    (fun _ _ _ hi _ => prompt_step hi) hboot hprompt hapart h, ?_⟩
  have hi : Tracked d := invariant_of_step step (fun _ _ _ => Tracked.step) hboot hapart h
  exact returns_of_captured fun w hw => (hi.waiting w hw).captured

/-- `{main}` waits for op `50`, and it is the only one that waits. -/
def awaitsAlone : List (Act ℕ) :=
  .awaitOp 50 :: List.flatten [(toPoll ++ completes 50 (.slept 0)).map (.loop · none),
    [.loop .advance none], lastTurn 0 false]

theorem awaitOp_main_iff_alone : ∃ d,
    runFrom step (boot (worker 0)) awaitsAlone = some d
    ∧ Always step Prompt (boot (worker 0)) awaitsAlone
    ∧ d.ends.map End.ending = [.payload (some (.scalar (.long 0)))] := by
  obtain ⟨d, hrun, hd⟩ := Option.map_eq_some_iff.mp
    (show (runFrom step (boot (worker 0)) awaitsAlone).map (fun d => d.ends.map End.ending)
      = some [.payload (some (.scalar (.long 0)))] by decide +kernel)
  exact ⟨d, hrun, (awaitOp_main_iff (by decide +kernel) hrun).1.mpr (by decide +kernel), hd⟩

/-- A job waits for op `60` when op `50` completes, and the loop polls again. -/
def awaitsAmongOthers : List (Act ℕ) :=
  .loop .async none :: .awaitOp 50 :: (List.flatten
    [startsFresh, awaits 60, completes 50 (.slept 0), [.advance], toPoll]).map (.loop · none)

/-- `{main}` has its payload, and is in the poll for the op of the other one. -/
theorem payload_held_back : ∃ d,
    runFrom step (boot (worker 0)) awaitsAmongOthers = some d
    ∧ Along step Apart (boot (worker 0)) awaitsAmongOthers
    ∧ d.call = some (.awaitOp ⟨50, false, some (.scalar (.long 0)), true⟩)
    ∧ d.loop.pc.polls = true ∧ ¬ Prompt d := by
  obtain ⟨d, hrun, hd⟩ := Option.map_eq_some_iff.mp
    (show (runFrom step (boot (worker 0)) awaitsAmongOthers).map
        (fun d => (d.call, d.loop.pc.polls))
      = some (some (.awaitOp ⟨50, false, some (.scalar (.long 0)), true⟩), true)
      by decide +kernel)
  simp only [Prod.mk.injEq] at hd
  obtain ⟨hcall, hpolls⟩ := hd
  refine ⟨d, hrun, by decide +kernel, hcall, hpolls, fun hp => ?_⟩
  have hreturning := (hp.onTime _ hcall rfl).2 (by simp)
  cases hpc : d.loop.pc <;> simp [hpc, Pc.polls, State.Returning] at hpolls hreturning

end Driver

end Loop

end Ignis
