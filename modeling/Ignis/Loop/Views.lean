import Ignis.Loop.Reachable

/-!
# Superglobals of requests

A handler installs the four arrays of its request on the fiber it runs on, and from then on the
fiber has a view of its own.  Nothing takes the view away when the request is over, and nothing
gives one to a child: a job that starts on a fiber with a slot sees what the slot holds, whoever it
was made for.

The views stay apart (`superglobals_isolated`) in every run in which no child of a request starts on
a fiber whose slot holds arrays of another, and in which `{main}` has all four entries whenever the
loop leaves it for a fiber with a view.  The second condition is about `install`, which skips absent
entries: one that is absent in the world of `{main}` keeps the value of the view that comes out.
-/

namespace Ignis

/-- The request an array was installed for. -/
def Origin.request? : Origin → Option Id
  | .installed id => some id
  | .startup | .assigned _ => none

namespace Loop

/-! ## Whose arrays are where -/

/-- The world of `{main}` holds no arrays of a request. -/
def Neutral (o : Origin) : Prop := o.request? = none

/-- While a job of a request is on fiber `f`, its view holds no arrays of another. -/
def OwnView (s : State) (f : FiberId) (o : Origin) : Prop :=
  ∀ j B A, (s.pool.status f).started? = some j → j.descends = some B → o.request? = some A → A = B

structure ViewInv (s : State) : Prop where
  apart : s.superglobals.Apart Neutral (OwnView s) s.pool.running
  reads : ∀ x ∈ s.log.superglobalReads, ∀ A B, x.1.descends = some B → x.2.request? = some A → A = B

lemma Neutral.ownView {o : Origin} (h : Neutral o) (s : State) (f : FiberId) : OwnView s f o :=
  fun _ _ _ _ _ hA => absurd (h.symm.trans hA) (by simp)

/-- Fewer started jobs ask for less. -/
lemma OwnView.mono {s s' : State} {f : FiberId} {o : Origin} (h : OwnView s f o)
    (hst : ∀ j, (s'.pool.status f).started? = some j → (s.pool.status f).started? = some j) :
    OwnView s' f o :=
  fun j B A hj => h j B A (hst j hj)

/-- The thread stays where it is. -/
lemma ViewInv.stay {s s' : State} (h : ViewInv s) (hsg : s'.superglobals = s.superglobals)
    (hrun : s'.pool.running = s.pool.running)
    (hst : ∀ g j, (s'.pool.status g).started? = some j → (s.pool.status g).started? = some j)
    (hlog : s'.log.superglobalReads = s.log.superglobalReads) : ViewInv s' := by
  refine ⟨?_, hlog ▸ h.reads⟩
  rw [hsg, hrun]
  exact h.apart.mono fun f o ho => ho.mono (hst f)

/-- The thread goes back to `{main}`. -/
lemma ViewInv.toMain {s s' : State} {f : FiberId} (h : ViewInv s) (hf : s.pool.running = some f)
    (hsg : s'.superglobals = s.superglobals.onSwitch none) (hrun : s'.pool.running = none)
    (hst : ∀ g j, (s'.pool.status g).started? = some j → (s.pool.status g).started? = some j)
    (hlog : s'.log.superglobalReads = s.log.superglobalReads) : ViewInv s' := by
  refine ⟨?_, hlog ▸ h.reads⟩
  rw [hsg, hrun]
  have hap := h.apart
  rw [hf] at hap
  exact hap.toMain.mono fun g o ho => ho.mono (hst g)

/-! ## The conditions -/

/-- No child of a request starts on a fiber whose slot holds arrays of another. -/
def NoForeignSlot (s : State) (a : Action) : Prop :=
  ∀ x ∈ s.startsAt a, x.2.body = .user → ∀ B ∈ x.2.descends, ∀ v ∈ s.superglobals.slots x.1,
    ∀ k ∈ Superglobal.keys, ∀ o ∈ v k, ∀ A ∈ o.request?, A = B

instance (s : State) (a : Action) : Decidable (NoForeignSlot s a) :=
  inferInstanceAs (Decidable (∀ x ∈ _, _ → ∀ B ∈ _, ∀ v ∈ _, ∀ k ∈ _, ∀ o ∈ _, ∀ A ∈ _, _))

/-- When the loop leaves `{main}` for a fiber that has a view of its own, or for a handler, which
gets one, `{main}` has all four entries. -/
def CompleteWorld (s : State) (a : Action) : Prop :=
  ∀ t ∈ step s a, ∀ f ∈ t.pool.running, s.pool.running = none →
    ((s.superglobals.slots f).isSome = true ∨ ∃ x ∈ s.startsAt a, x.2.body ≠ .user) →
      s.superglobals.Complete

instance (s : State) (a : Action) : Decidable (CompleteWorld s a) :=
  inferInstanceAs (Decidable (∀ t ∈ _, ∀ f ∈ _, _ → _ → _))

/-! ## The steps -/

lemma withPool_toFiber {s : State} {p : Pool} {f : FiberId} (hmain : s.pool.running = none)
    (hp : p.running = some f) :
    (s.withPool p).superglobals = s.superglobals.onSwitch (some f) := by
  simp [State.withPool, hmain, hp]

lemma withPool_toMain {s : State} {p : Pool} {f : FiberId} (hf : s.pool.running = some f)
    (hp : p.running = none) : (s.withPool p).superglobals = s.superglobals.onSwitch none := by
  simp [State.withPool, hf, hp]

lemma startJob_superglobals (s : State) (f : FiberId) (j : Job) :
    (s.startJob f j).superglobals = match j.body with
      | .handler id => s.superglobals.setSuperglobals (some f) fun _ => some (.installed id)
      | .user => s.superglobals := by
  have hattr : (s.attributedToRequest f j).superglobals = s.superglobals := by
    unfold State.attributedToRequest
    split <;> rfl
  unfold State.startJob
  cases j.body with
  | handler id => simp [State.enterRequest, State.scopeSet, hattr]
  | user => exact hattr

/-- A job that was suspended goes on. -/
lemma ViewInv.resume {s s' : State} {a : Action} {f : FiberId} {p : Pool} (h : ViewInv s)
    (hmain : s.pool.running = none) (hstep : step s a = some s') (hworld : CompleteWorld s a)
    (hp : p.running = some f) (hpool : s'.pool = p)
    (hsg : s'.superglobals = s.superglobals.onSwitch (some f))
    (hst : ∀ g, (p.status g).started? = (s.pool.status g).started?)
    (hlog : s'.log.superglobalReads = s.log.superglobalReads) : ViewInv s' := by
  have hap := h.apart
  rw [hmain] at hap
  have hown : ∀ g o, OwnView s g o → OwnView s' g o := fun g o ho =>
    ho.mono fun j hj => by rw [← hst, ← hpool]; exact hj
  refine ⟨?_, hlog ▸ h.reads⟩
  rw [hsg, hpool, hp]
  refine hap.toFiber (fun hs => ?_) (fun v hv k o ho => ?_) (fun o ho => ho.ownView s' f)
    fun g _ o ho => hown g o ho
  · exact hworld s' hstep f (by rw [hpool]; exact hp) hmain
      (Or.inl (Option.isSome_iff_ne_none.mpr hs))
  · exact hown f o (hap.slots f v (by simp [hap.view_main rfl]) hv k o ho)

/-- A job starts: a handler replaces what is in the slot of its fiber, any other job takes it
over. -/
lemma ViewInv.start {s : State} {f : FiberId} {j : Job} {p : Pool} (h : ViewInv s) (hi : Inv s)
    (hmain : s.pool.running = none) (hnext : s.startsNext = some (f, j))
    (hf : (s.pool.status f).Holds j)
    (hp : Moves s.pool p f (.running j (Pool.entryStage j)) (some f))
    (hstep : step s .advance = some ((s.withPool p).startJob f j))
    (hslot : NoForeignSlot s .advance) (hworld : CompleteWorld s .advance) :
    ViewInv ((s.withPool p).startJob f j) := by
  have hstart := startsAt_advance hmain hnext
  have hap := h.apart
  rw [hmain] at hap
  have hpool : ((s.withPool p).startJob f j).pool = p := startJob_pool _ _ _
  have hrunning : ((s.withPool p).startJob f j).pool.running = some f := by
    rw [hpool]
    exact hp.running
  have hfull : ((s.superglobals.slots f).isSome = true ∨ j.body ≠ .user) →
      s.superglobals.Complete := fun hor =>
    hworld _ hstep f hrunning hmain (hor.imp_right fun hb => ⟨(f, j), hstart, hb⟩)
  have hstarted : ∀ k, (((s.withPool p).startJob f j).pool.status f).started? = some k → k = j := by
    intro k hk
    rw [hpool, hp.status, if_pos rfl] at hk
    exact (Option.some.inj hk).symm
  have hothers : ∀ g, g ≠ f → ∀ o, OwnView s g o → OwnView ((s.withPool p).startJob f j) g o := by
    intro g hg o ho
    refine ho.mono fun k hk => ?_
    rwa [hpool, hp.elsewhere hg] at hk
  refine ⟨?_, by rw [startJob_log]; exact h.reads⟩
  rw [hrunning, startJob_superglobals, withPool_toFiber hmain hp.running]
  cases hb : j.body with
  | user =>
      refine hap.toFiber (fun hs => hfull (Or.inl (Option.isSome_iff_ne_none.mpr hs))) ?_
        (fun o ho => ho.ownView _ f) hothers
      intro v hv k o ho i B A hk hB hA
      obtain rfl := hstarted i hk
      exact hslot (f, i) hstart hb B hB v hv k (Superglobal.mem_keys k) o ho A hA
  | handler id =>
      -- until the handler sets them, the arrays on its fiber are nobody's
      have hto : (s.superglobals.onSwitch (some f)).Apart Neutral (OwnView s) (some f) := by
        refine hap.toFiber (fun _ => hfull (Or.inr (by simp [hb]))) ?_ (fun o ho => ho.ownView s f)
          fun _ _ _ ho => ho
        intro v _ k o _ i B A hk
        rw [hf.started?] at hk
        exact absurd hk (by simp)
      refine hto.setSuperglobals (fun hnone => ?_) (fun k => ⟨.installed id, rfl, ?_⟩) hothers
      · have hsame : s.superglobals.onSwitch (some f) = s.superglobals := by
          cases hs : s.superglobals.slots f with
          | none => simp [Superglobals.onSwitch, hs]
          | some v =>
              simp [Superglobals.onSwitch, hs, hap.view_main rfl, Superglobals.saveCurrentView,
                Superglobals.install] at hnone
        rw [hsame]
        exact hfull (Or.inr (by simp [hb]))
      · intro i B A hk hB hA
        obtain rfl := hstarted i hk
        rw [(hi.pool.handler_own f i id hf.job? hb).2] at hB
        rw [← Option.some.inj hB]
        exact (Option.some.inj hA).symm

theorem viewInv_step {s s' : State} {a : Action} (h : ViewInv s) (hi : Inv s)
    (hok : NoForeignSlot s a ∧ CompleteWorld s a) (hstep : step s a = some s') : ViewInv s' := by
  obtain ⟨hslot, hworld⟩ := hok
  have heff := (step_effect hi hstep).1
  have hfinish : ∀ e, a = .finish e → ∀ g k, (s'.pool.status g).started? = some k →
      (s.pool.status g).started? = some k := fun e ha g k hk =>
    (heff.started? hi hk).resolve_right (by simp [ha, State.startsAt])
  cases heff with
  | quiet hp hpc => exact h.stay rfl hp.running (fun g k hk => (hp.sameJob g).started? ▸ hk) rfl
  | assign n =>
      refine ⟨h.apart.assign (fun o ho => ?_) fun f o ho => ?_, h.reads⟩
      · obtain ⟨i, -, rfl⟩ := Option.map_eq_some_iff.mp ho
        rfl
      · obtain ⟨i, -, rfl⟩ := Option.map_eq_some_iff.mp ho
        exact Neutral.ownView (show (Origin.assigned i).request? = none from rfl) _ f
  | @readSuperglobal _ f j st k o hcur ho =>
      obtain ⟨hrun, hf⟩ := current_eq_some_iff.mp hcur
      refine ⟨h.apart, fun x hx A B hB hA => ?_⟩
      rcases List.mem_append.mp hx with hx | hx
      · exact h.reads x hx A B hB hA
      · rw [List.mem_singleton.mp hx] at hA hB
        have hap := h.apart
        rw [hrun] at hap
        cases hs : s.superglobals.slots f with
        | none =>
            have hnone := hap.world (hap.view_plain f rfl hs) k o ho
            exact absurd (hnone.symm.trans hA) (by simp)
        | some v =>
            exact hap.own f (hap.view_isolated f v rfl hs) k o ho j B A (by rw [hf]; rfl) hB hA
  | readScope | writeScope | clearScope | miss | callEnds | queue =>
      exact h.stay rfl rfl (fun g k hk => hk) rfl
  | suspend hcur htodo hp =>
      obtain ⟨hrun, hf⟩ := current_eq_some_iff.mp hcur
      exact h.toMain hrun (withPool_toMain hrun hp.running) hp.running
        (fun g k hk => (hp.suspended hf g).started? ▸ hk) rfl
  | @resume f j st at' p pc hmain htodo hptodo hf hp hpc =>
      refine h.resume hmain hstep hworld hp.running rfl ?_ (fun g => (hp.resumed hf g).started?)
        rfl
      exact withPool_toFiber (s := { s with pc := pc }) hmain hp.running
  | deliver hmain hpc htodo hptodo hf hp =>
      exact h.resume hmain hstep hworld hp.running rfl (withPool_toFiber hmain hp.running)
        (fun g => (hp.resumed hf g).started?) rfl
  | start hmain hnext htodo hptodo hf hp =>
      exact h.start hi hmain hnext (hf.imp And.right And.right) hp hstep hslot hworld
  | @spawn _ requestId descends hby =>
      exact h.stay rfl (spawn_running _ _ _ _)
        (fun g k hk => spawn_started? hi.pool.toPlaces .user requestId descends g ▸ hk) rfl
  | @letIn id raw rest hmain htodo hnew hpc hwait =>
      exact h.stay rfl (spawn_running _ _ _ _)
        (fun g k hk => spawn_started? hi.pool.toPlaces (.handler id) none (some id) g ▸ hk) rfl
  | cancel =>
      refine h.stay rfl rfl (fun g k hk => hk) ?_
      simp only [State.cancelRequest]
      split_ifs <;> rfl
  | answer hcur hb =>
      refine h.stay ?_ rfl (hfinish _ rfl) rfl
      simp [State.withPool, State.scopeSet, Pool.setStage]
  | release hcur hb =>
      refine h.stay ?_ rfl (hfinish _ rfl) rfl
      simp [State.withPool, State.scopeClear, Pool.release, Pool.setStage]
  | settle hcur hb =>
      obtain ⟨hrun, -⟩ := current_eq_some_iff.mp hcur
      exact h.toMain hrun (withPool_toMain hrun rfl) rfl (hfinish _ rfl) rfl
  | @slot f j id hcur hb =>
      obtain ⟨hrun, hf⟩ := current_eq_some_iff.mp hcur
      have hrun' : (s.releaseSlot f id).pool.running = some f :=
        (spawnHandlers_running _ _ _).trans hrun
      exact h.toMain hrun (withPool_toMain hrun' rfl) rfl (hfinish _ rfl) rfl
  | @cleanupThrew f j id e hcur hb =>
      obtain ⟨hrun, -⟩ := current_eq_some_iff.mp hcur
      refine h.toMain hrun ?_ rfl (hfinish _ rfl) rfl
      exact withPool_toMain (s := { s with
        log := { s.log with cleanupThrew := s.log.cleanupThrew ++ [id] } }) hrun rfl

/-- **Superglobal isolation.**  In every run in which no child of a request starts on a fiber whose
slot holds arrays of another, and in which `{main}` has all four entries whenever the loop leaves it
for a fiber with a view, code that runs for a request finds no arrays installed for another. -/
theorem superglobals_isolated {budget depth : ℤ} {exempt : List PhpString} {chaos : Bool}
    {symbols : Superglobal → Bool} {as : List Action} {s : State}
    (hok : StepSystem.Along step (fun t a => NoForeignSlot t a ∧ CompleteWorld t a)
      (boot budget depth exempt chaos symbols) as)
    (hrun : StepSystem.runFrom step (boot budget depth exempt chaos symbols) as = some s) :
    ∀ x ∈ s.log.superglobalReads, ∀ A B, x.1.descends = some B → x.2.request? = some A → A = B := by
  have hboot : ViewInv (boot budget depth exempt chaos symbols) := by
    refine ⟨Superglobals.apart_init fun k o ho => ?_, by simp [boot]⟩
    split_ifs at ho
    rw [← Option.some.inj ho]
    rfl
  have h : Inv s ∧ ViewInv s := StepSystem.invariant_of_step step
    (I := fun t => Inv t ∧ ViewInv t)
    (fun t a t' ht hok hstep => ⟨inv_step ht.1 hstep, viewInv_step ht.2 ht.1 hok hstep⟩)
    ⟨inv_boot budget depth exempt chaos symbols, hboot⟩ hok hrun
  exact h.2.reads

/-- Request `1` reads its own arrays, before and after request `2` has had the thread. -/
def readsOwnArrays : List Action :=
  List.flatten [handlerStarts 1, [.readSuperglobal .get], awaits 50, arrives 2, startsFresh,
    awaits 60, completes 50 (.slept 0), [.readSuperglobal .get]]

theorem superglobals_isolated_interleaved : ∃ s,
    StepSystem.runFrom step (worker 0) readsOwnArrays = some s
    ∧ s.log.superglobalReads = [(⟨.handler 1, 0, none, some 1⟩, .installed 1),
        (⟨.handler 1, 0, none, some 1⟩, .installed 1)]
    ∧ ∀ x ∈ s.log.superglobalReads, ∀ A B, x.1.descends = some B → x.2.request? = some A →
        A = B := by
  obtain ⟨s, hrun, hs⟩ := Option.map_eq_some_iff.mp
    (show (StepSystem.runFrom step (worker 0) readsOwnArrays).map (fun s => s.log.superglobalReads)
        = some [(⟨.handler 1, 0, none, some 1⟩, .installed 1),
          (⟨.handler 1, 0, none, some 1⟩, .installed 1)] by decide +kernel)
  exact ⟨s, hrun, hs, superglobals_isolated (by decide +kernel) hrun⟩

/-- Request `1` ends and leaves its fiber with its arrays in the slot; the handler of request `2`
spawns a child, which starts on that fiber and reads the arrays of request `1`. -/
def readsForeignArrays : List Action :=
  List.flatten [handlerStarts 1, awaits 50, arrives 2, startsFresh, awaits 60,
    completes 50 (.slept 0), handlerEnds, [.advance], toPoll, completes 60 (.slept 0),
    [.async, .awaitOp 70, .advance, .turn false, .advance,
      .takeReady [(0, .job ⟨.user, 2, some 2, some 2⟩)], .advance, .readSuperglobal .get]]

theorem child_reads_foreign_superglobal : ∃ s,
    StepSystem.runFrom step (worker 0) readsForeignArrays = some s
    ∧ s.log.superglobalReads = [(⟨.user, 2, some 2, some 2⟩, .installed 1)]
    ∧ ¬ ∀ x ∈ s.log.superglobalReads, ∀ A B, x.1.descends = some B → x.2.request? = some A →
        A = B := by
  obtain ⟨s, hrun, hs⟩ := Option.map_eq_some_iff.mp
    (show (StepSystem.runFrom step (worker 0) readsForeignArrays).map
      (fun s => s.log.superglobalReads) = some [(⟨.user, 2, some 2, some 2⟩, .installed 1)] by
      decide +kernel)
  refine ⟨s, hrun, hs, fun hall => ?_⟩
  have := hall _ (hs ▸ List.mem_singleton.mpr rfl) 1 2 rfl rfl
  exact absurd this (by decide)

end Loop

end Ignis
