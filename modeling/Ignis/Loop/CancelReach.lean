import Ignis.Loop.Reachable

/-!
# What a cancellation reaches

`throwInto()` looks for a fiber in `$parkedOn`, in `$waiting` and in `PARKED`.  One that is
suspended on an op or in a C hook stays there until its turn comes, whatever the code does that
catches the exception before it (`Effect.walk`).  So the call reaches every job of the request that
waits, when each of them is in one of the two tables of the request and suspended in one of these
two ways (`cancel_reaches`); a fiber that awaits a future, or has not started its job, is passed
over.
-/

namespace Ignis

/-- `throwInto()` finds the fiber: in `$parkedOn` or `$waiting`, or through `PARKED`. -/
def Park.throwable : Park → Bool
  | .op _ | .hook _ => true
  | .future _ | .woken _ => false

namespace Loop

/-! ## The walk, seen from a fiber on it -/

lemma Effect.deliveries_kept {s s' : State} {a : Action} (heff : Effect s a s') {d : Delivery}
    (hd : d ∈ s.log.deliveries) : d ∈ s'.log.deliveries := by
  cases heff with
  | deliver => exact List.mem_append_left _ hd
  | start =>
      rw [startJob_log]
      exact hd
  | cancel =>
      simp only [State.cancelRequest]
      split_ifs <;> exact hd
  | quiet | assign | readSuperglobal | readScope | writeScope | clearScope | suspend | resume | miss
  | callEnds | spawn | queue | letIn | answer | release | settle | slot | cleanupThrew => exact hd

/-- **One step of the walk.**  A fiber the exception can find stays where it is, and on the list,
until the exception is delivered to it. -/
theorem Effect.walk {s s' : State} {a : Action} (heff : Effect s a s') (hi : Inv s) {id : Id}
    {rest : List (Id × Payload)} (hpc : s.pc = .cancelRequest id rest) {f : FiberId} {j : Job}
    {st : Stage} {at' : Park} (hf : f ∈ s.pool.todo) (hs : s.pool.status f = .blocked j st at')
    (hat : at'.throwable = true) :
    ⟨s.calls, id, j⟩ ∈ s'.log.deliveries
      ∨ (s'.pc = s.pc ∧ s'.calls = s.calls ∧ f ∈ s'.pool.todo
        ∧ s'.pool.status f = s.pool.status f) := by
  -- the fiber that runs is another one
  have hother : ∀ {g k st'}, s.current = some (g, k, st') → f ≠ g := by
    rintro g k st' hcur rfl
    rw [(current_eq_some_iff.mp hcur).2] at hs
    exact absurd hs (by simp)
  have hended : ∀ {g k} {p : Pool} {result}, f ≠ g → p.Parks → p.status f = s.pool.status f →
      (p.finishJob g k result).status f = s.pool.status f := by
    intro g k p result hne hp hsame
    rw [Pool.finishJob_status, if_neg hne]
    rcases Pool.settle_status hp k.future result f with ⟨h, -⟩ | ⟨k', st', h, -⟩
    · rw [h, hsame]
    · rw [hsame, hs] at h
      obtain ⟨-, -, rfl⟩ := Status.blocked.inj h
      simp [Park.throwable] at hat
  have hjob : (s.pool.status f).job? = some j := by rw [hs]; rfl
  cases heff with
  | quiet hp hpc' =>
      refine Or.inr ⟨((hpc' id rest).mp hpc).trans hpc.symm, rfl, hp.todo ▸ hf, ?_⟩
      rcases hp.status f with h | ⟨k, st', fut, h, -⟩
      · exact h
      · rw [hs] at h
        obtain ⟨-, -, rfl⟩ := Status.blocked.inj h
        simp [Park.throwable] at hat
  | assign | readSuperglobal | readScope | writeScope | clearScope =>
      exact Or.inr ⟨rfl, rfl, hf, rfl⟩
  | suspend hcur htodo hp =>
      exact Or.inr ⟨rfl, rfl, htodo ▸ hf, hp.elsewhere (hother hcur)⟩
  | resume hmain htodo hptodo hf' hp hpc' => exact absurd hpc (hpc' id rest).1
  | @deliver f' j' st' at'' p id' rest' todo hmain hpc' htodo hptodo hf' hp =>
      obtain ⟨rfl, -⟩ := Pc.cancelRequest.inj (hpc.symm.trans hpc')
      rw [htodo] at hf
      have hnodup := hi.pool.todo_nodup
      rw [htodo] at hnodup
      rcases List.mem_cons.mp hf with rfl | hmem
      · rw [hs] at hf'
        obtain ⟨rfl, -, -⟩ := Status.blocked.inj hf'
        exact Or.inl (List.mem_append_right _ (List.mem_singleton.mpr rfl))
      · have hne : f ≠ f' := fun e => (List.nodup_cons.mp hnodup).1 (e ▸ hmem)
        exact Or.inr ⟨rfl, rfl, hptodo ▸ hmem, hp.elsewhere hne⟩
  | @miss f' id' rest' todo hmain hpc' htodo hf' =>
      rw [htodo] at hf
      rcases List.mem_cons.mp hf with rfl | hf
      · obtain ⟨fut, rfl | rfl⟩ := hf' j st at' hs <;> simp [Park.throwable] at hat
      · exact Or.inr ⟨rfl, rfl, hf, rfl⟩
  | callEnds hmain hpc' htodo => simp [htodo] at hf
  | start hmain hnext htodo hptodo hf' hp => simp [htodo] at hf
  | spawn hby =>
      exact Or.inr ⟨rfl, rfl, by rw [spawn_todo]; exact hf,
        spawn_status_kept hi.pool.toPlaces hjob⟩
  | queue hmain htodo hnew hpc' hwait => simp [htodo] at hf
  | letIn hmain htodo hnew hpc' hwait => simp [htodo] at hf
  | cancel hmain htodo hnext => simp [htodo] at hf
  | @answer g k i e hcur hb =>
      exact Or.inr ⟨rfl, rfl, hf, (moves_setStage s.pool g k .answering).elsewhere (hother hcur)⟩
  | @release g k i e deadlines deadlineOf hcur hb =>
      exact Or.inr ⟨rfl, rfl, hf, (moves_release s.pool g k i).elsewhere (hother hcur)⟩
  | settle hcur hb =>
      exact Or.inr ⟨rfl, rfl, by rw [← finishJob_todo] at hf; exact hf,
        hended (hother hcur) hi.pool.toParks rfl⟩
  | @slot g k i hcur hb =>
      obtain ⟨-, hg⟩ := current_eq_some_iff.mp hcur
      have hparks := (hi.releaseSlot_tidy hg i).1.pool.toParks
      refine Or.inr ⟨rfl, rfl, ?_, hended (hother hcur) hparks ?_⟩
      · have htodo : (s.releaseSlot g i).pool.todo = s.pool.todo := spawnHandlers_todo _ _ _
        rw [← htodo, ← finishJob_todo] at hf
        exact hf
      · rw [hi.releaseSlot_pool hg i]
        exact spawnHandlers_status hi.pool.toPlaces hjob
  | cleanupThrew hcur hb =>
      exact Or.inr ⟨rfl, rfl, by rw [← finishJob_todo] at hf; exact hf,
        hended (hother hcur) hi.pool.toParks rfl⟩

/-! ## The whole call -/

/-- The call of `cancelRequest()` with this number has not returned. -/
def State.cancelling (s : State) (call : ℕ) : Bool :=
  s.calls = call && match s.pc with
    | .cancelRequest _ _ => true
    | _ => false

/-- Fiber `f` has a job of request `id` that waits: it is suspended, or has not started. -/
def WaitsFor (s : State) (id : Id) (f : FiberId) (j : Job) : Prop :=
  (s.pool.status f).isWaiting = true ∧ (s.pool.status f).job? = some j ∧ j.descends = some id

instance (s : State) (id : Id) (f : FiberId) (j : Job) : Decidable (WaitsFor s id f j) :=
  inferInstanceAs (Decidable (_ ∧ _ ∧ _))

/-- Every job of the request that waits is in one of its two tables, and is suspended where
`throwInto()` looks. -/
def Findable (s : State) (id : Id) : Prop :=
  ∀ f < s.pool.fibersCreated, (s.pool.status f).isWaiting = true →
    (∀ j ∈ (s.pool.status f).job?, j.descends = some id →
      f ∈ s.pool.cancelTargets id ∧ ∃ at' ∈ (s.pool.status f).park?, at'.throwable = true)

instance (s : State) (id : Id) : Decidable (Findable s id) :=
  inferInstanceAs (Decidable (∀ f < _, _ → (∀ j ∈ _, _ → _)))

/-- The step that calls `cancelRequest()`. -/
lemma advance_of_cancelsNext {s t : State} {id : Id} (hmain : s.pool.running = none)
    (hnext : s.cancelsNext = some id) (ht : step s .advance = some t) :
    (∃ rest, t.pc = .cancelRequest id rest) ∧ t.calls = s.calls + 1
      ∧ t.pool = { s.pool with todo := s.pool.cancelTargets id } := by
  simp only [step, hmain, stepMain, State.advance] at ht
  unfold State.cancelsNext at hnext
  split at hnext
  · rename_i i v rest hpc
    simp only [hpc, State.dispatchEvent, State.dispatchAwaited, hnext] at ht
    obtain rfl := Option.some.inj ht
    exact ⟨⟨rest, rfl⟩, rfl, rfl⟩
  · rename_i i arr rest hpc
    simp only [hpc, State.dispatchEvent] at ht
    split_ifs at hnext ht with hw
    · simp only [State.dispatchAwaited, hnext] at ht
      obtain rfl := Option.some.inj ht
      exact ⟨⟨rest, rfl⟩, rfl, rfl⟩
    · split at hnext
      · rename_i ageUs hu
        obtain rfl := Option.some.inj hnext
        simp only [hu] at ht
        obtain rfl := Option.some.inj ht
        exact ⟨⟨rest, rfl⟩, rfl, rfl⟩
      · simp at hnext
  · simp at hnext

/-- The exception of a call has been delivered to the job, or the call is still on its way to it. -/
def Covered (call : ℕ) (id : Id) (f : FiberId) (j : Job) (v : State) : Prop :=
  ⟨call, id, j⟩ ∈ v.log.deliveries
    ∨ ∃ rest st at', v.pc = .cancelRequest id rest ∧ v.calls = call ∧ f ∈ v.pool.todo
      ∧ v.pool.status f = .blocked j st at' ∧ at'.throwable = true

lemma covered_step {call : ℕ} {id : Id} {f : FiberId} {j : Job} {v v' : State} {a : Action}
    (h : Covered call id f j v) (hi : Inv v) (hstep : step v a = some v') :
    Covered call id f j v' := by
  have heff := (step_effect hi hstep).1
  rcases h with hd | ⟨rest, st, at', hpc, rfl, hf, hs, hat⟩
  · exact Or.inl (heff.deliveries_kept hd)
  · rcases heff.walk hi hpc hf hs hat with hd | ⟨hpc', hcalls, hf', hs'⟩
    · exact Or.inl hd
    · exact Or.inr ⟨rest, st, at', hpc'.trans hpc, hcalls, hf', hs'.trans hs, hat⟩

/-- **Cancellation reaches the whole request**, when all of it can be found.  For every reachable
state in which `cancelRequest()` is called for a request whose waiting jobs are all findable, once
the call is over the exception has been delivered to each of them. -/
theorem cancel_reaches {s t u : State} {id : Id} {as : List Action} (hs : Reachable s)
    (hmain : s.pool.running = none) (hnext : s.cancelsNext = some id) (hfind : Findable s id)
    (ht : step s .advance = some t) (hrun : StepSystem.runFrom step t as = some u)
    (hover : u.cancelling t.calls = false) :
    ∀ f j, WaitsFor s id f j → ⟨t.calls, id, j⟩ ∈ u.log.deliveries := by
  intro f j ⟨hwait, hj, hdesc⟩
  have hi := hs.inv
  obtain ⟨⟨rest, hpc⟩, -, hpool⟩ := advance_of_cancelsNext hmain hnext ht
  obtain ⟨hmem, at', hat, hthrow⟩ := hfind f (hi.pool.lt_of_job? hj) hwait j hj hdesc
  obtain ⟨k, st, hstatus⟩ := Status.of_park? hat
  obtain rfl : k = j := by
    rw [hstatus] at hj
    exact Option.some.inj hj
  have hbegin : Covered t.calls id f k t :=
    Or.inr ⟨rest, st, at', hpc, rfl, by rw [hpool]; exact hmem, by rw [hpool]; exact hstatus,
      hthrow⟩
  have hend : Inv u ∧ Covered t.calls id f k u := StepSystem.invariant_of_run step
    (I := fun v => Inv v ∧ Covered t.calls id f k v)
    (fun v a v' hv hstep => ⟨inv_step hv.1 hstep, covered_step hv.2 hv.1 hstep⟩)
    ⟨inv_step hi ht, hbegin⟩ hrun
  rcases hend.2 with hd | ⟨rest', st', at'', hpc', hcalls, -⟩
  · exact hd
  · simp [State.cancelling, hcalls, hpc'] at hover

/-- A poll brings the end of request `id`, which is about to be dispatched. -/
def cancelArrives (id : Id) : List Action :=
  [.poll [(⟨id, .cancelled⟩, 0)], .advance, .dispatch 1 [id]]

/-- Request `1` waits for an op when its client goes away. -/
def handlerWaits : List Action := List.flatten [handlerStarts 1, awaits 50, cancelArrives 1]

theorem cancel_reaches_handler : ∃ s t u,
    StepSystem.runFrom step (worker 0) handlerWaits = some s
    ∧ step s .advance = some t
    ∧ StepSystem.runFrom step t [.advance, .awaitOp 60, .advance] = some u
    ∧ ⟨1, 1, ⟨.handler 1, 0, none, some 1⟩⟩ ∈ u.log.deliveries := by
  obtain ⟨s, hs, hobs⟩ := Option.map_eq_some_iff.mp
    (show (StepSystem.runFrom step (worker 0) handlerWaits).map (fun s =>
        (decide (s.pool.running = none ∧ s.cancelsNext = some 1 ∧ Findable s 1
          ∧ WaitsFor s 1 0 ⟨.handler 1, 0, none, some 1⟩),
          (step s .advance).bind fun t =>
            (StepSystem.runFrom step t [.advance, .awaitOp 60, .advance]).map fun u =>
              decide (t.calls = 1 ∧ u.cancelling t.calls = false)))
      = some (true, some true) by decide +kernel)
  simp only [Prod.mk.injEq, decide_eq_true_eq, Option.bind_eq_some_iff,
    Option.map_eq_some_iff] at hobs
  obtain ⟨⟨hmain, hnext, hfind, hwaits⟩, t, ht, u, hu, hcalls, hover⟩ := hobs
  have hd := cancel_reaches ⟨_, _, _, _, _, _, hs⟩ hmain hnext hfind ht hu hover 0 _ hwaits
  rw [hcalls] at hd
  exact ⟨s, t, u, hs, ht, hu, hd⟩

/-- The handler of request `1` awaits a child that waits for an op, and the client goes away. -/
def handlerAwaitsChild : List Action :=
  List.flatten [handlerStarts 1, [.async, .await 1, .advance, .advance], awaits 60,
    cancelArrives 1]

/-- The exception is delivered to the child, which ends; the handler, now runnable, is passed over.
When the call is over it runs on to its end. -/
theorem cancel_misses_awaiting_handler : ∃ s v u,
    StepSystem.runFrom step (worker 0) handlerAwaitsChild = some s
    ∧ s.cancelsNext = some 1 ∧ WaitsFor s 1 0 ⟨.handler 1, 0, none, some 1⟩
    ∧ StepSystem.runFrom step s [.advance, .advance, .finish none, .advance, .advance] = some v
    ∧ v.cancelled = 1 ∧ WaitsFor v 1 0 ⟨.handler 1, 0, none, some 1⟩
    ∧ StepSystem.runFrom step v [.advance, .turn false, .advance, .takeReady [(0, .wake)], .advance,
      .finish none, .finish none, .finish none] = some u
    ∧ ⟨.handler 1, 0, none, some 1⟩ ∈ u.log.settled
    ∧ u.log.deliveries = [⟨1, 1, ⟨.user, 1, some 1, some 1⟩⟩] := by
  obtain ⟨s, hs, hobs⟩ := Option.map_eq_some_iff.mp
    (show (StepSystem.runFrom step (worker 0) handlerAwaitsChild).map (fun s =>
        (decide (s.cancelsNext = some 1 ∧ WaitsFor s 1 0 ⟨.handler 1, 0, none, some 1⟩),
          (StepSystem.runFrom step s [.advance, .advance, .finish none, .advance, .advance]).bind
            fun v => (StepSystem.runFrom step v [.advance, .turn false, .advance,
              .takeReady [(0, .wake)], .advance, .finish none, .finish none, .finish none]).map
              fun u => decide (v.cancelled = 1 ∧ WaitsFor v 1 0 ⟨.handler 1, 0, none, some 1⟩
                ∧ ⟨.handler 1, 0, none, some 1⟩ ∈ u.log.settled
                ∧ u.log.deliveries = [⟨1, 1, ⟨.user, 1, some 1, some 1⟩⟩])))
      = some (true, some true) by decide +kernel)
  simp only [Prod.mk.injEq, decide_eq_true_eq, Option.bind_eq_some_iff,
    Option.map_eq_some_iff] at hobs
  obtain ⟨⟨hnext, hwaits⟩, v, hv, u, hu, hc, hwaits', hsettled, hd⟩ := hobs
  exact ⟨s, v, u, hs, hnext, hwaits, hv, hc, hwaits', hu, hsettled, hd⟩

end Loop

end Ignis
