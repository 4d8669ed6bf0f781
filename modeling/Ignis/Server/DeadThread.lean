import Ignis.Server.Process

/-!
# Requests on a dead thread

Once the script of a PHP thread is over and its shutdown steps are done, nobody polls its reactor
any more.  A request that is in its map then, or gets there later, is answered by nobody: the
completion channel lives in the reactor, so even a delivery to a dead thread succeeds.

`Quiet` says that a thread is down for good: it is not registered, owes nothing, and no request that
picked it is still on its way.  It is kept by every step (`quiet_step`), and a thread that is down
and not quiet can be given a request (`reaches_of_underway`).  `dead_thread_owes_nothing_iff` puts
the two together.
-/

namespace Ignis

/-! ## Maps that stay empty -/

namespace Reactor

/-- A delivery that has not yet entered its request into the map. -/
def Call.delivers : Call → Bool
  | .deliver _ _ | .deliverInsert _ _ _ => true
  | _ => false

/-- A delivery that is about to enter its request. -/
def Call.inserts : Call → Bool
  | .deliverInsert _ _ _ => true
  | _ => false

lemma Call.inserts_of_delivers {c : Call} (hc : c.delivers = false) : c.inserts = false := by
  cases c <;> first | rfl | cases hc

lemma Call.delivers_next {s : State} {c c' : Call} {e : Access} (hc : c.delivers = false)
    (h : c.next s = some (e, c')) : c'.delivers = false := by
  cases c with
  | streamEnd i code message | respondTake i resp | respondEnd i =>
      simp only [Call.next, takeAnswer, Option.some.injEq] at h
      split at h <;> cases h <;> rfl
  | respondStart i status headers =>
      simp only [Call.next, startOrRefuse, Option.some.injEq] at h
      split at h
      · split at h <;> cases h <;> rfl
      · cases h
        rfl
      · cases h
        rfl
  | pollSpin timeout | pollRecv timeout | pollDrain out =>
      simp only [Call.next, receive] at h
      split at h <;> cases h <;> rfl
  | deliver answer req => cases hc
  | deliverInsert i answer req => cases hc
  | done ret => cases h
  | _ =>
      simp only [Call.next] at h
      try split at h
      all_goals
        obtain ⟨rfl, rfl⟩ := Prod.mk.inj (Option.some.inj h)
        rfl

lemma Call.delivers_timedOut {c c' : Call} (h : c.timedOut = some c') : c'.delivers = false := by
  cases c <;> simp only [Call.timedOut, reduceCtorEq] at h
  case pollSpin => cases h; rfl
  case pollRecv timeout => cases timeout <;> cases h; rfl

/-- An empty map stays empty as long as no delivery enters its request. -/
lemma answers_empty_advance {s : State} {c c' : Call} {e : Access} (hs : s.answers = ∅)
    (hc : c.inserts = false) (h : c.next s = some (e, c')) : (e.apply s).answers = ∅ := by
  have hf := next_fits h
  have hnone : ∀ id, s.answers.lookup id = none := by
    rw [hs]
    exact Finmap.lookup_empty
  cases e with
  | insert id a =>
      obtain ⟨req, rfl, -⟩ := hf
      cases hc
  | remove id =>
      obtain ⟨⟨a, ha⟩, -⟩ := hf
      rw [hnone] at ha
      cases ha
  | reinsert id a | startStream id st hd =>
      have ha := hf.1
      rw [hnone] at ha
      cases ha
  | clear => rfl
  | _ => exact hs

/-- A call that does not block makes its next access. -/
lemma step_advance {s : State} {k : ℕ} {c c' : Call} {e : Access} (hk : s.calls[k]? = some c)
    (hn : c.next s = some (e, c')) : step s (.advance k) = some ((e.apply s).setCall k c') := by
  simp [step, hk, hn]

end Reactor

namespace Process

/-- A reactor with an empty map and no delivery under way stays so under every step that does not
begin one. -/
lemma reactor_quiet {r r' : Reactor.State} {a : Reactor.Action} (ha : reserved a = false)
    (hempty : r.answers = ∅) (hcalls : ∀ c ∈ r.calls, c.delivers = false)
    (h : Reactor.step r a = some r') :
    r'.answers = ∅ ∧ ∀ c ∈ r'.calls, c.delivers = false := by
  rcases Reactor.step_cases h with ⟨m, rfl, rfl⟩ | ⟨k, c, e, c', rfl, hk, hn, rfl⟩
    | ⟨k, c, c', rfl, hk, ht, rfl⟩ | ⟨b, d, rfl, hb, hd, rfl⟩ | ⟨id, rfl, rfl⟩ | ⟨rfl, rfl⟩
  · refine ⟨hempty, fun c hc => ?_⟩
    rcases List.mem_append.mp hc with hc | hc
    · exact hcalls c hc
    · rw [List.mem_singleton.mp hc]
      cases m <;> first | rfl | cases ha
  · have hc := hcalls c (List.mem_of_getElem? hk)
    have hinserts := Reactor.Call.inserts_of_delivers hc
    refine ⟨Reactor.answers_empty_advance hempty hinserts hn, fun d hd => ?_⟩
    have hsame : (e.apply r).calls = r.calls := by cases e <;> rfl
    rcases List.mem_or_eq_of_mem_set hd with hd | rfl
    · exact hcalls d (hsame ▸ hd)
    · exact Reactor.Call.delivers_next hc hn
  · refine ⟨hempty, fun d hd => ?_⟩
    rcases List.mem_or_eq_of_mem_set hd with hd | rfl
    · exact hcalls d hd
    · exact Reactor.Call.delivers_timedOut ht
  · exact ⟨hempty, hcalls⟩
  · exact ⟨hempty, hcalls⟩
  · exact ⟨hempty, hcalls⟩

/-! ## Quiet threads -/

/-- A request that picked the reactor of thread `i` has not yet been entered into its map. -/
def Underway (s : State) (i : ℕ) : Prop :=
  (∃ task ∈ s.tasks, task.reactor = i) ∨ ∃ c ∈ (s.reactors i).calls, c.delivers = true

/-- Thread `i` is down for good. -/
structure Quiet (i : ℕ) (s : State) : Prop where
  down : s.threads i = .down
  unregistered : i ∉ s.registry
  empty : (s.reactors i).answers = ∅
  tasks : ∀ task ∈ s.tasks, task.reactor ≠ i
  calls : ∀ c ∈ (s.reactors i).calls, c.delivers = false

lemma quiet_of_not_underway {s : State} {i : ℕ} (hdown : s.threads i = .down)
    (hreg : i ∉ s.registry) (hempty : (s.reactors i).answers = ∅) (h : ¬ Underway s i) :
    Quiet i s := by
  refine ⟨hdown, hreg, hempty, fun task htask he => h (Or.inl ⟨task, htask, he⟩), fun c hc => ?_⟩
  by_contra hne
  exact h (Or.inr ⟨c, hc, by simpa using hne⟩)

/-- Steps that touch another thread, or only the drain, leave a quiet thread quiet. -/
lemma Quiet.congr {i : ℕ} {s s' : State} (h : Quiet i s) (hthreads : s'.threads i = s.threads i)
    (hreg : ∀ j ∈ s'.registry, j ∈ s.registry ∨ j ≠ i) (hreactor : s'.reactors i = s.reactors i)
    (htasks : ∀ task ∈ s'.tasks, task ∈ s.tasks ∨ task.reactor ≠ i) : Quiet i s' where
  down := hthreads.trans h.down
  unregistered := fun hi => (hreg i hi).elim h.unregistered fun hne => hne rfl
  empty := hreactor ▸ h.empty
  tasks := fun task htask => (htasks task htask).elim (h.tasks task) fun hne => hne
  calls := hreactor ▸ h.calls

lemma pick_mem {registry : List ℕ} {next : ℕ} {load : ℕ → ℕ} {i : ℕ}
    (h : pick registry next load = some i) : i ∈ registry := by
  simp only [pick] at h
  split_ifs at h
  exact List.mem_of_getElem? h

/-- **A quiet thread stays quiet.** -/
theorem quiet_step {supervised : Bool} {i : ℕ} {s s' : State} {a : Action} (hq : Quiet i s)
    (h : step supervised s a = some s') : Quiet i s' := by
  have hother : ∀ {j : ℕ} {t : Thread}, s.threads j = t → t ≠ .down → i ≠ j := by
    rintro j t hj ht rfl
    exact ht (hj.symm.trans hq.down)
  cases effect_of_step h with
  | run hj =>
      have hne := hother hj (by decide)
      exact hq.congr (Function.update_of_ne hne _ _) (fun _ => Or.inl) rfl fun _ => Or.inl
  | serve hj hlock =>
      have hne := hother hj (by decide)
      refine hq.congr rfl (fun k hk => ?_) rfl fun _ => Or.inl
      rcases List.mem_append.mp hk with hk | hk
      · exact Or.inl hk
      · exact Or.inr (List.mem_singleton.mp hk ▸ hne.symm)
  | leaveDispatch hlock =>
      exact hq.congr rfl (fun k hk => Or.inl (List.mem_of_mem_filter hk)) rfl fun _ => Or.inl
  | scriptEnd hj =>
      have hne := hother hj (by decide)
      exact hq.congr (Function.update_of_ne hne _ _) (fun _ => Or.inl) rfl fun _ => Or.inl
  | unregister hj hmain hlock =>
      have hne := hother hj (by decide)
      exact hq.congr (Function.update_of_ne hne _ _)
        (fun k hk => Or.inl (List.mem_of_mem_filter hk)) rfl fun _ => Or.inl
  | failPending hj hr =>
      have hne := hother hj (by decide)
      exact hq.congr (Function.update_of_ne hne _ _) (fun _ => Or.inl)
        (Function.update_of_ne hne _ _) fun _ => Or.inl
  | finish hj hmain =>
      have hne := hother hj (by decide)
      exact hq.congr (Function.update_of_ne hne _ _) (fun _ => Or.inl) rfl fun _ => Or.inl
  | turnedAway => exact hq
  | picked hpick =>
      refine hq.congr rfl (fun _ => Or.inl) rfl fun task htask => ?_
      rcases List.mem_append.mp htask with htask | htask
      · exact Or.inl htask
      · rw [List.mem_singleton.mp htask]
        refine Or.inr fun he => hq.unregistered ?_
        exact he ▸ pick_mem hpick
  | deliver htask hr =>
      have hne := hq.tasks _ (List.mem_of_getElem? htask)
      exact hq.congr rfl (fun _ => Or.inl) (Function.update_of_ne hne.symm _ _)
        fun t ht => Or.inl (List.mem_of_mem_eraseIdx ht)
  | abandon =>
      exact hq.congr rfl (fun _ => Or.inl) rfl fun t ht => Or.inl (List.mem_of_mem_eraseIdx ht)
  | @reactor j b r hb hr =>
      by_cases hij : i = j
      · subst hij
        obtain ⟨hempty, hcalls⟩ := reactor_quiet hb hq.empty hq.calls hr
        refine ⟨hq.down, hq.unregistered, ?_, hq.tasks, ?_⟩
        · simpa [State.setReactor] using hempty
        · simpa [State.setReactor] using hcalls
      · exact hq.congr rfl (fun _ => Or.inl) (Function.update_of_ne hij _ _) fun _ => Or.inl
  | _ => exact hq.congr rfl (fun _ => Or.inl) rfl fun _ => Or.inl

/-! ## Late deliveries -/

/-- A run of a reactor that begins no reserved call is a run of the process. -/
lemma runFrom_reactor {supervised : Bool} {i : ℕ} {as : List Reactor.Action}
    (has : ∀ a ∈ as, reserved a = false) {s : State} {r : Reactor.State}
    (h : StepSystem.runFrom Reactor.step (s.reactors i) as = some r) :
    ∃ t, StepSystem.runFrom (step supervised) s (as.map (.reactor i)) = some t ∧
      t.reactors i = r := by
  refine StepSystem.runFrom_lift Reactor.step (R := fun (t : State) r => t.reactors i = r)
    (Action.reactor i) ?_ rfl has h
  rintro t _ a q rfl ha hq
  exact ⟨t.setReactor i q, by simp [step, ha, hq], by simp [State.setReactor]⟩

/-- A delivery that has begun enters its request, whoever polls the reactor. -/
lemma reactor_reaches {r : Reactor.State} {c : Reactor.Call} (hc : c ∈ r.calls)
    (hd : c.delivers = true) :
    ∃ as r', (∀ a ∈ as, reserved a = false) ∧ StepSystem.runFrom Reactor.step r as = some r' ∧
      r'.answers ≠ ∅ := by
  have hinsert : ∀ {q : Reactor.State} {k id : ℕ} {answer : Reactor.Answer} {req : HttpRequest},
      q.calls[k]? = some (.deliverInsert id answer req) →
      ∃ q', Reactor.step q (.advance k) = some q' ∧ q'.answers ≠ ∅ := by
    intro q k id answer req hk
    refine ⟨_, Reactor.step_advance hk rfl, fun hempty => ?_⟩
    have hmem : id ∈ q.answers.insert id answer := Finmap.mem_insert.mpr (Or.inl rfl)
    change q.answers.insert id answer = ∅ at hempty
    rw [hempty] at hmem
    exact Finmap.notMem_empty hmem
  obtain ⟨k, hk⟩ := List.mem_iff_getElem?.mp hc
  cases c with
  | deliver answer req =>
      obtain ⟨p, hp, hpk⟩ : ∃ p, Reactor.step r (.advance k) = some p ∧
          p.calls[k]? = some (.deliverInsert r.disp.nextId answer req) :=
        ⟨_, Reactor.step_advance hk rfl,
          List.getElem?_set_self (List.getElem?_eq_some_iff.mp hk).1⟩
      obtain ⟨q, hq, hne⟩ := hinsert hpk
      refine ⟨[.advance k, .advance k], q, by simp [reserved], ?_, hne⟩
      exact (StepSystem.runFrom_cons _).mpr ⟨p, hp, (StepSystem.runFrom_cons _).mpr ⟨q, hq, rfl⟩⟩
  | deliverInsert id answer req =>
      obtain ⟨q, hq, hne⟩ := hinsert hk
      exact ⟨[.advance k], q, by simp [reserved], (StepSystem.runFrom_cons _).mpr ⟨q, hq, rfl⟩, hne⟩
  | _ => cases hd

/-- **A request that picked the reactor gets into its map**, unless its client gives it up. -/
lemma reaches_of_underway (supervised : Bool) {s : State} {i : ℕ} (h : Underway s i) :
    ∃ bs t, StepSystem.runFrom (step supervised) s bs = some t ∧ (t.reactors i).answers ≠ ∅ := by
  have hcalls : ∀ {u : State} {c : Reactor.Call}, c ∈ (u.reactors i).calls → c.delivers = true →
      ∃ bs t, StepSystem.runFrom (step supervised) u bs = some t ∧ (t.reactors i).answers ≠ ∅ := by
    intro u c hc hd
    obtain ⟨as, r, has, hr, hne⟩ := reactor_reaches hc hd
    obtain ⟨t, ht, rfl⟩ := runFrom_reactor has hr
    exact ⟨_, t, ht, hne⟩
  rcases h with ⟨task, htask, rfl⟩ | ⟨c, hc, hd⟩
  · -- the body is there, and the delivery begins
    obtain ⟨k, hk, rfl⟩ := List.mem_iff_getElem.mp htask
    have hstep : ∃ u, step supervised s (.deliver k) = some u ∧
        (u.reactors s.tasks[k].reactor).calls =
          (s.reactors s.tasks[k].reactor).calls ++ [s.tasks[k].method.start] := by
      simp [step, hk, Reactor.step, State.setReactor]
    obtain ⟨u, hu, hucalls⟩ := hstep
    have hmem : s.tasks[k].method.start ∈ (u.reactors s.tasks[k].reactor).calls := by
      rw [hucalls]
      exact List.mem_append_right _ (List.mem_singleton_self _)
    have hdelivers : s.tasks[k].method.start.delivers = true := by
      unfold Task.method
      cases s.tasks[k].answer <;> rfl
    obtain ⟨bs, t, ht, hne⟩ := hcalls hmem hdelivers
    exact ⟨.deliver k :: bs, t, (StepSystem.runFrom_cons _).mpr ⟨u, hu, ht⟩, hne⟩
  · exact hcalls hc hd

/-! ## Threads whose script is over -/

/-- Between the two halves of `unregister` the reactor is out of the registry. -/
def Removed (supervised : Bool) (s : State) : Prop :=
  ∀ i, s.threads i = .removed → i ∉ s.registry ∧ isMain supervised i = false

lemma removed_step {supervised : Bool} {s s' : State} {a : Action} (hs : Removed supervised s)
    (h : step supervised s a = some s') : Removed supervised s' := by
  -- a thread that is moved to `t` by this step, where `t` is not `removed`
  have hmove : ∀ {j : ℕ} {t : Thread}, t ≠ .removed →
      Removed supervised (s.setThread j t) := by
    intro j t ht i hi
    by_cases hij : i = j
    · subst hij
      simp [State.setThread, ht] at hi
    · exact hs i (by simpa [State.setThread, Function.update_of_ne hij] using hi)
  have hretain : ∀ j, Removed supervised (s.retain j) := fun j i hi =>
    ⟨fun hmem => (hs i hi).1 (List.mem_of_mem_filter hmem), (hs i hi).2⟩
  cases effect_of_step h with
  | run hj | scriptEnd hj | finish hj hmain => exact hmove (by decide)
  | failPending hj hr => exact hmove (by decide)
  | serve hj hlock =>
      intro i hi
      refine ⟨fun hmem => ?_, (hs i hi).2⟩
      rcases List.mem_append.mp hmem with hmem | hmem
      · exact (hs i hi).1 hmem
      · change s.threads i = .removed at hi
        rw [List.mem_singleton.mp hmem, hj] at hi
        cases hi
  | leaveDispatch hlock => exact hretain _
  | @unregister j hj hmain hlock =>
      intro i hi
      by_cases hij : i = j
      · subst hij
        exact ⟨by simp [State.setThread, State.retain], hmain⟩
      · exact hretain j i (by simpa [State.setThread, Function.update_of_ne hij] using hi)
  | _ => exact hs

/-- `fail_pending` empties the map and begins no delivery. -/
lemma callFailPending_spec {r r' : Reactor.State} (h : callFailPending r = some r') :
    r'.answers = ∅ ∧ ∃ ret, r'.calls = r.calls ++ [.done ret] := by
  simp only [callFailPending, Option.bind_eq_bind, Option.bind_eq_some_iff] at h
  obtain ⟨q, hq, hq'⟩ := h
  obtain rfl := Option.some.inj hq
  rw [Reactor.step_advance (c := .failPending) (by simp [Reactor.Method.start]) rfl] at hq'
  obtain rfl := Option.some.inj hq'
  exact ⟨rfl, .count r.answers.keys.card, by simp [Reactor.State.setCall, Reactor.Access.apply]⟩

/-- The last of a thread's shutdown steps, whichever it is: what it does to the thread's reactor. -/
lemma shutdown_cases {supervised : Bool} {s s' : State} {a : Action} {i : ℕ}
    (hs : Removed supervised s) (ha : a = .failPending i ∨ a = .finish i)
    (h : step supervised s a = some s') :
    s'.threads i = .down ∧ s'.registry = s.registry ∧ (Underway s' i ↔ Underway s i) ∧
      (isMain supervised i = false → i ∉ s.registry ∧ (s'.reactors i).answers = ∅) ∧
      (isMain supervised i = true → s'.reactors = s.reactors) := by
  rcases ha with rfl | rfl
  · simp only [step] at h
    split_ifs at h with hi
    simp only [Option.bind_eq_bind, Option.bind_eq_some_iff, Option.some.injEq] at h
    obtain ⟨r, hr, rfl⟩ := h
    obtain ⟨hempty, ret, hcalls⟩ := callFailPending_spec hr
    refine ⟨by simp [State.setThread], rfl, ?_, fun _ => ⟨(hs i hi).1, ?_⟩, fun hmain => ?_⟩
    · simp [Underway, State.setThread, State.setReactor, hcalls, or_and_right, exists_or,
        Reactor.Call.delivers]
    · simpa [State.setThread, State.setReactor] using hempty
    · rw [(hs i hi).2] at hmain
      cases hmain
  · simp only [step] at h
    split_ifs at h with hi
    cases h
    refine ⟨by simp [State.setThread], rfl, Iff.rfl, fun hmain => ?_, fun _ => rfl⟩
    rw [hi.2] at hmain
    cases hmain

/-! ## No request hangs on a dead thread -/

/-- **When a dead thread owes nothing.**  After any run, let thread `i` take the last of its
shutdown steps.  From there on its reactor is in no registry and its map is empty, however the run
goes on, exactly when no request that picked the reactor was still on its way and, for thread 0 of
an unsupervised run, which has no `unregister`, the script itself had left the registry and had
answered everything. -/
theorem dead_thread_owes_nothing_iff (supervised : Bool) (spinUs : ℕ) (as : List Action) (i : ℕ)
    (s s' : State) (a : Action)
    (hrun : StepSystem.runFrom (step supervised) (init spinUs) as = some s)
    (ha : a = .failPending i ∨ a = .finish i) (h : step supervised s a = some s') :
    (∀ bs t, StepSystem.runFrom (step supervised) s' bs = some t →
        i ∉ t.registry ∧ (t.reactors i).answers = ∅) ↔
      ¬ Underway s i ∧
        (isMain supervised i = true → i ∉ s.registry ∧ (s.reactors i).answers = ∅) := by
  have hremoved : Removed supervised s :=
    StepSystem.invariant_of_run (step supervised) (fun _ _ _ => removed_step)
      (fun i hi => by simp [init] at hi) hrun
  obtain ⟨hdown, hreg, hunderway, hworker, hmain⟩ := shutdown_cases hremoved ha h
  constructor
  · intro hall
    refine ⟨fun hs => ?_, fun hi => ?_⟩
    · obtain ⟨bs, t, ht, hne⟩ := reaches_of_underway supervised (hunderway.mpr hs)
      exact hne (hall bs t ht).2
    · obtain ⟨hnot, hempty⟩ := hall [] s' rfl
      exact ⟨hreg ▸ hnot, hmain hi ▸ hempty⟩
  · rintro ⟨hnone, hzero⟩ bs t ht
    have hsettled : i ∉ s.registry ∧ (s'.reactors i).answers = ∅ := by
      cases hi : isMain supervised i with
      | false => exact hworker hi
      | true =>
          rw [hmain hi]
          exact hzero hi
    have hquiet : Quiet i s' :=
      quiet_of_not_underway hdown (hreg ▸ hsettled.1) hsettled.2 (mt hunderway.mp hnone)
    have hkeep : Quiet i t :=
      StepSystem.invariant_of_run (step supervised) (fun _ _ _ => quiet_step) hquiet ht
    exact ⟨hkeep.unregistered, hkeep.empty⟩

/-- A request to `/`. -/
def someRequest : HttpRequest where
  method := bytes "GET"
  uri := bytes "/"
  headers := []
  body := []

/-- A worker whose request was delivered, and is owed when its script crashes, goes down without
it. -/
theorem dead_thread_owes_nothing_after_crash :
    ∃ s s', StepSystem.runFrom (step false) (init 0)
        [.run 1, .serve 1, .request (fun _ => 0) .whole someRequest, .deliver 0,
          .reactor 1 (.advance 0), .reactor 1 (.advance 0), .scriptEnd 1, .unregister 1] = some s ∧
      (s.reactors 1).answers.lookup 1 = some .whole ∧
      step false s (.failPending 1) = some s' ∧
      ∀ bs t, StepSystem.runFrom (step false) s' bs = some t →
        1 ∉ t.registry ∧ (t.reactors 1).answers = ∅ := by
  refine ⟨_, _, rfl, rfl, rfl, ?_⟩
  refine (dead_thread_owes_nothing_iff false 0
    [.run 1, .serve 1, .request (fun _ => 0) .whole someRequest, .deliver 0,
      .reactor 1 (.advance 0), .reactor 1 (.advance 0), .scriptEnd 1, .unregister 1] 1
    _ _ (.failPending 1) rfl (Or.inl rfl) rfl).mpr ⟨?_, fun hi => by simp [isMain] at hi⟩
  rintro (⟨task, htask, -⟩ | ⟨c, hc, hd⟩)
  · exact List.not_mem_nil htask
  · change c ∈ [.deliverCount 1 someRequest] at hc
    rw [List.mem_singleton.mp hc] at hd
    cases hd

/-- A worker's script crashes while a request that picked it is still collecting its body.  The
shutdown steps find nothing to fail; then the delivery puts the request into the map for good.  And
thread 0 of an unsupervised run stays in the registry when its script is over. -/
theorem dead_thread_is_given_a_request :
    (∃ s s' t, StepSystem.runFrom (step false) (init 0)
        [.run 1, .serve 1, .request (fun _ => 0) .whole someRequest, .scriptEnd 1,
          .unregister 1] = some s ∧
      step false s (.failPending 1) = some s' ∧
      StepSystem.runFrom (step false) s'
        [.deliver 0, .reactor 1 (.advance 1), .reactor 1 (.advance 1)] = some t ∧
      (t.reactors 1).answers.lookup 1 = some .whole) ∧
    ∃ s s', StepSystem.runFrom (step false) (init 0) [.run 0, .serve 0, .scriptEnd 0] = some s ∧
      step false s (.finish 0) = some s' ∧ 0 ∈ s'.registry :=
  ⟨⟨_, _, _, rfl, rfl, rfl, rfl⟩, _, _, rfl, rfl, List.mem_singleton_self 0⟩

end Process

end Ignis
