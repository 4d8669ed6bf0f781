import Ignis.Loop.PoolInvariant

/-!
# What a running job does to the pool

A job suspends on an op, in a C hook or on a future; it settles a future, which wakes the waiters;
it ends, which settles its own future, forgets the child and parks the fiber; and a request goes
from its handler to the answer and on to the cleanup.  The invariant holds through all of them.
-/

namespace Ignis

namespace Pool

/-! ## What a running job does -/

/-- A running job suspends: only its park changes. -/
lemma inv_suspend {p q : Pool} (h : Inv p) {f : FiberId} {j : Job} {st : Stage} {at' : Park}
    (hf : p.status f = .running j st)
    (hstatus : ∀ g, q.status g = if g = f then .blocked j st at' else p.status g)
    (hrunning : q.running = none) (hparks : Parks q) (hidle : q.idle = p.idle)
    (hready : q.ready ++ q.readyBatch = p.ready ++ p.readyBatch)
    (hpending : q.pending ++ q.startBatch = p.pending ++ p.startBatch)
    (hcreated : q.fibersCreated = p.fibersCreated) (hchildren : q.children = p.children)
    (hrequest : q.requestFibers = p.requestFibers) (hnext : q.nextFuture = p.nextFuture)
    (hfutures : ∀ fut, (q.futures fut).result = (p.futures fut).result
      ∧ (q.futures fut).ofJob = (p.futures fut).ofJob)
    (htodo : q.todo = p.todo) : Inv q := by
  have hrun : p.running = some f := (h.running_iff f).mp (by rw [hf]; rfl)
  refine ⟨?_, hparks, ?_, ?_⟩
  · exact h.toPlaces.move (by rw [hf]; rfl) rfl hstatus (Or.inr hrun) hrunning hidle
      (by simp [hready]) hpending hcreated
  · refine h.toJobs.move hstatus (by rw [hf]; rfl) ?_ hchildren hrequest hnext hfutures
    rw [hf, Status.serving?_blocked]
  · refine h.toWalk.frame htodo fun g _ hw => ?_
    rw [hstatus]
    split_ifs
    · rfl
    · exact hw

/-- A running fiber enters the tables of the place it suspends at, and only those. -/
lemma Parks.arrive {p q : Pool} (h : Parks p) {f : FiberId} {j : Job} {st : Stage} {at' : Park}
    (hf : p.status f = .running j st) (hopen : ∀ fut, at' ≠ .woken fut)
    (hstatus : ∀ g, q.status g = if g = f then .blocked j st at' else p.status g)
    (hready : q.ready ++ q.readyBatch = p.ready ++ p.readyBatch)
    (hwaiters : ∀ g fut, (q.futures fut).waiters.count g
      = (p.futures fut).waiters.count g + if g = f ∧ at' = .future fut then 1 else 0)
    (hnext : q.nextFuture = p.nextFuture) (hknown : ∀ fut, at' = .future fut → fut < p.nextFuture)
    (hparkedOn : ∀ g op, q.parkedOn.get? g = some op
      ↔ if g = f then at' = .op op else p.parkedOn.get? g = some op)
    (hwaiting : ∀ g op, q.waiting.get? op = some (.fiber g) →
      (g = f ∧ at' = .op op) ∨ p.waiting.get? op = some (.fiber g))
    (hparked : ∀ id, q.parked.get? id = if id ∈ at'.hookIds then some f else p.parked.get? id)
    (hfresh : ∀ id ∈ at'.hookIds, p.parked.get? id = none)
    (hne : ∀ ids, at' = .hook ids → ids ≠ []) : Parks q := by
  have hfp : (p.status f).park? = none := by rw [hf]; rfl
  have hpark : ∀ g, (q.status g).park? = if g = f then some at' else (p.status g).park? := by
    intro g
    rw [hstatus]
    split_ifs <;> rfl
  refine
    { woken_count := ?_
      waiters_count := ?_
      future_known := ?_
      parkedOn_iff := ?_
      waiting_park := ?_
      parked_iff := ?_
      hook_ne_nil := ?_ }
  · intro g
    rw [hready, h.woken_count g, hstatus]
    by_cases hg : g = f
    · have hnot : (Status.blocked j st at').isWoken = false := by
        cases at' with
        | woken fut => exact absurd rfl (hopen fut)
        | op _ | future _ | hook _ => rfl
      have hrun : (Status.running j st).isWoken = false := rfl
      simp [hg, hf, hnot, hrun]
    · simp [hg]
  · intro g fut
    rw [hwaiters, h.waiters_count g fut, hpark]
    by_cases hg : g = f
    · simp [hg, hfp]
    · simp [hg]
  · intro g fut hg
    rw [hpark] at hg
    rw [hnext]
    split_ifs at hg
    · exact hknown fut (Option.some.inj hg)
    · exact h.future_known g fut hg
  · intro g op
    rw [hparkedOn, hpark]
    split_ifs with hg
    · rw [Option.some.injEq]
    · exact h.parkedOn_iff g op
  · intro g op hw
    rw [hpark]
    rcases hwaiting g op hw with ⟨hg, hat⟩ | hold
    · rw [if_pos hg, hat]
    · have hp := h.waiting_park g op hold
      have hg : g ≠ f := by
        rintro rfl
        rw [hfp] at hp
        exact absurd hp (by simp)
      rw [if_neg hg, hp]
  · intro g id
    rw [hparked, hpark]
    by_cases hg : g = f
    · subst hg
      have hnone : ¬ p.parked.get? id = some g := by
        rw [h.parked_iff g id, hfp]
        simp
      simp only [if_true, Option.some.injEq, ← Park.mem_hookIds]
      split_ifs with hid
      · simp [hid]
      · simp [hid, hnone]
    · rw [if_neg hg, ← h.parked_iff g id]
      split_ifs with hid
      · simp [hfresh id hid, Ne.symm hg]
      · rfl
  · intro g ids hg
    rw [hpark] at hg
    split_ifs at hg
    · exact hne ids (Option.some.inj hg)
    · exact h.hook_ne_nil g ids hg

theorem inv_parkOn {p : Pool} (h : Inv p) {f : FiberId} {j : Job} {st : Stage}
    (hf : p.status f = .running j st) (op : Id) : Inv (p.parkOn f j st op) := by
  have hstatus := fun g => Function.update_apply p.status f (.blocked j st (.op op)) g
  refine inv_suspend h hf hstatus rfl ?_ rfl rfl rfl rfl rfl rfl rfl (fun _ => ⟨rfl, rfl⟩) rfl
  refine h.toParks.arrive hf (by simp) hstatus rfl (by simp [parkOn]) rfl (by simp) ?_ ?_
    (by simp [Park.hookIds, parkOn]) (by simp [Park.hookIds]) (by simp)
  · intro g op'
    simp only [parkOn, OrdMap.get?_set]
    split_ifs with hg
    · rw [Option.some.injEq, Park.op.injEq]
    · rfl
  · intro g op' hg
    simp only [parkOn, OrdMap.get?_set] at hg
    split_ifs at hg with hop
    · rw [Option.some.injEq, Waiter.fiber.injEq] at hg
      exact Or.inl ⟨hg.symm, by rw [hop]⟩
    · exact Or.inr hg

theorem inv_parkInHook {p : Pool} (h : Inv p) {f : FiberId} {j : Job} {st : Stage}
    (hf : p.status f = .running j st) {ids : List Id} (hne : ids ≠ [])
    (hfresh : ∀ id ∈ ids, p.parked.get? id = none) : Inv (p.parkInHook f j st ids) := by
  have hstatus := fun g => Function.update_apply p.status f (.blocked j st (.hook ids)) g
  have hon : p.parkedOn.get? f = none := h.parkedOn_none (by simp [hf, Status.park?])
  refine inv_suspend h hf hstatus rfl ?_ rfl rfl rfl rfl rfl rfl rfl (fun _ => ⟨rfl, rfl⟩) rfl
  refine h.toParks.arrive hf (by simp) hstatus rfl (by simp [parkInHook]) rfl (by simp) ?_
    (fun g op hg => Or.inr hg) (fun id => OrdMap.get?_foldl_set _ _ _ _) hfresh
    (fun ids' e => by rw [← Park.hook.inj e]; exact hne)
  intro g op
  simp only [parkInHook]
  split_ifs with hg
  · simp [hg, hon]
  · rfl

theorem inv_awaitFuture {p : Pool} (h : Inv p) {f : FiberId} {j : Job} {st : Stage}
    (hf : p.status f = .running j st) {fut : FutureId} (hfut : fut < p.nextFuture) :
    Inv (p.awaitFuture f j st fut) := by
  have hstatus := fun g => Function.update_apply p.status f (.blocked j st (.future fut)) g
  have hfutures : ∀ fut', ((p.awaitFuture f j st fut).futures fut').result
        = (p.futures fut').result
      ∧ ((p.awaitFuture f j st fut).futures fut').ofJob = (p.futures fut').ofJob := by
    intro fut'
    simp only [awaitFuture, Function.update_apply]
    split_ifs with hf'
    · exact ⟨by rw [hf'], by rw [hf']⟩
    · exact ⟨rfl, rfl⟩
  have hon : p.parkedOn.get? f = none := h.parkedOn_none (by simp [hf, Status.park?])
  refine inv_suspend h hf hstatus rfl ?_ rfl rfl rfl rfl rfl rfl rfl hfutures rfl
  refine h.toParks.arrive hf (by simp) hstatus rfl ?_ rfl
    (fun fut' e => Park.future.inj e ▸ hfut) ?_ (fun g op hg => Or.inr hg)
    (by simp [Park.hookIds, awaitFuture]) (by simp [Park.hookIds]) (by simp)
  · intro g fut'
    simp only [awaitFuture, Function.update_apply, Park.future.injEq]
    by_cases hf' : fut' = fut
    · subst hf'
      by_cases hg : g = f
      · simp [hg, List.count_append]
      · simp [hg, Ne.symm hg, List.count_append]
    · simp [hf', Ne.symm hf']
  · intro g op
    simp only [awaitFuture]
    split_ifs with hg
    · simp [hg, hon]
    · rfl

/-! ## Settling a future -/

lemma Parks.mem_waiters {p : Pool} (h : Parks p) {f : FiberId} {fut : FutureId} :
    f ∈ (p.futures fut).waiters ↔ (p.status f).park? = some (.future fut) := by
  rw [← List.count_pos_iff, h.waiters_count f fut]
  split_ifs with hp
  · simp [hp]
  · simp [hp]

/-- After `settle()` the waiters are woken and nobody else has moved. -/
lemma settle_status {p : Pool} (h : Parks p) (fut : FutureId) (result : Result) (g : FiberId) :
    ((p.settle fut result).status g = p.status g ∧ (p.status g).park? ≠ some (.future fut))
      ∨ ∃ j st, p.status g = .blocked j st (.future fut)
          ∧ (p.settle fut result).status g = .blocked j st (.woken fut) := by
  simp only [settle]
  by_cases hg : g ∈ (p.futures fut).waiters
  · obtain ⟨j, st, hs⟩ := Status.of_park? (h.mem_waiters.mp hg)
    exact Or.inr ⟨j, st, hs, by rw [if_pos hg, hs]; rfl⟩
  · exact Or.inl ⟨if_neg hg, fun e => hg (h.mem_waiters.mpr e)⟩

lemma count_wake_map (waiters : List FiberId) (f : FiberId) :
    (waiters.map fun g => (g, Resume.wake)).count (f, .wake) = waiters.count f :=
  List.count_map_of_injective waiters (fun g => (g, Resume.wake)) (fun _ _ e => (Prod.mk.inj e).1) f

lemma parks_settle {p : Pool} (h : Parks p) (fut : FutureId) (result : Result) :
    Parks (p.settle fut result) := by
  have hstatus := settle_status h fut result
  refine
    { woken_count := ?_
      waiters_count := ?_
      future_known := ?_
      parkedOn_iff := ?_
      waiting_park := ?_
      parked_iff := ?_
      hook_ne_nil := ?_ }
  · intro g
    have hc := h.woken_count g
    have hw := h.waiters_count g fut
    rcases hstatus g with ⟨hs, hne⟩ | ⟨j, st, hs, hs'⟩
    · rw [hs]
      simp only [hne, if_false, settle, List.count_append, count_wake_map] at hc hw ⊢
      omega
    · rw [hs']
      rw [hs] at hc hw
      simp only [Status.park?, if_true, Status.isWoken, Bool.false_eq_true, if_false, settle,
        List.count_append, count_wake_map] at hc hw ⊢
      omega
  · intro g fut'
    have hw := h.waiters_count g fut'
    have hfut : ((p.settle fut result).futures fut').waiters
        = if fut' = fut then [] else (p.futures fut').waiters := by
      simp only [settle, Function.update_apply]
      split_ifs <;> rfl
    rw [hfut]
    rcases hstatus g with ⟨hs, hne⟩ | ⟨j, st, hs, hs'⟩
    · rw [hs]
      split_ifs with hf hp
      · exact absurd (hf ▸ hp) hne
      · rfl
      · rw [hw, if_pos (by assumption)]
      · rw [hw, if_neg (by assumption)]
    · rw [hs']
      rw [hs] at hw
      by_cases hf : fut' = fut
      · simp [hf, Status.park?]
      · simpa [hf, Ne.symm hf, Status.park?] using hw
  · intro g fut' hp
    rcases hstatus g with ⟨hs, -⟩ | ⟨j, st, -, hs'⟩
    · exact h.future_known g fut' (hs ▸ hp)
    · simp [hs', Status.park?] at hp
  · intro g op
    rcases hstatus g with ⟨hs, -⟩ | ⟨j, st, hs, hs'⟩
    · rw [hs]
      exact h.parkedOn_iff g op
    · have := h.parkedOn_iff g op
      rw [hs] at this
      rw [hs']
      exact this.trans (by simp [Status.park?])
  · intro g op hw
    have hp := h.waiting_park g op hw
    rcases hstatus g with ⟨hs, -⟩ | ⟨j, st, hs, -⟩
    · rw [hs]
      exact hp
    · simp [hs, Status.park?] at hp
  · intro g id
    rcases hstatus g with ⟨hs, -⟩ | ⟨j, st, hs, hs'⟩
    · rw [hs]
      exact h.parked_iff g id
    · have := h.parked_iff g id
      rw [hs] at this
      rw [hs']
      exact this.trans (by simp [Status.park?])
  · intro g ids hp
    rcases hstatus g with ⟨hs, -⟩ | ⟨j, st, -, hs'⟩
    · exact h.hook_ne_nil g ids (hs ▸ hp)
    · simp [hs', Status.park?] at hp

lemma places_settle {p : Pool} (h : Places p) (hparks : Parks p) (fut : FutureId)
    (result : Result) : Places (p.settle fut result) := by
  have hstatus := settle_status hparks fut result
  refine h.frame rfl ?_ (fun _ => rfl) rfl ?_ ?_
  · intro g j
    have hno : ((p.futures fut).waiters.map fun g => (g, Resume.wake)).count (g, .job j) = 0 :=
      List.count_eq_zero.mpr (by simp)
    simp only [settle, List.count_append, hno]
    omega
  · intro g
    rcases hstatus g with ⟨hs, -⟩ | ⟨j, st, hs, hs'⟩
    · exact Or.inl hs
    · exact Or.inr (by simp [hs, hs', Status.isBusy])
  · intro g
    have hr := h.running_iff g
    rcases hstatus g with ⟨hs, -⟩ | ⟨j, st, hs, hs'⟩
    · rw [hs]
      exact hr
    · rw [hs']
      rw [hs] at hr
      exact hr

lemma walk_settle {p : Pool} (h : Walk p) (fut : FutureId) (result : Result) :
    Walk (p.settle fut result) := by
  refine h.frame rfl fun g _ hw => ?_
  simp only [settle]
  split_ifs
  · rw [Status.wake_isWaiting]
    exact hw
  · exact hw

/-- User code settles a future of its own. -/
theorem inv_settle {p : Pool} (h : Inv p) {fut : FutureId} (hown : (p.futures fut).ofJob = false)
    (result : Result) : Inv (p.settle fut result) := by
  refine ⟨places_settle h.toPlaces h.toParks fut result, parks_settle h.toParks fut result, ?_,
    walk_settle h.toWalk fut result⟩
  refine h.toJobs.frame rfl rfl (Nat.le_refl _) (fun fut' _ h₁ h₂ => ?_) (fun g => ?_) (fun g => ?_)
  · have hne : fut' ≠ fut := by
      rintro rfl
      rw [hown] at h₁
      exact absurd h₁ (by simp)
    simp only [settle, Function.update_of_ne hne]
    exact ⟨h₂, h₁⟩
  · simp only [settle]
    split_ifs <;> simp
  · simp only [settle]
    split_ifs <;> simp

/-! ## The end of a job -/

lemma mem_forgetChild {p : Pool} {requestId : Option Id} {f g : FiberId} {id : Id} :
    g ∈ (p.forgetChild requestId f).childrenOf id
      ↔ g ∈ p.childrenOf id ∧ ¬ (requestId = some id ∧ g = f) := by
  rw [mem_childrenOf, mem_childrenOf]
  cases requestId with
  | none => simp [forgetChild]
  | some r =>
      cases hc : p.children.get? r with
      | none =>
          simp only [forgetChild, hc, Option.some.injEq]
          constructor
          · rintro ⟨m, hm, hg⟩
            refine ⟨⟨m, hm, hg⟩, ?_⟩
            rintro ⟨rfl, -⟩
            rw [hc] at hm
            exact absurd hm (by simp)
          · exact fun h => h.1
      | some fibers =>
          simp only [forgetChild, hc, OrdMap.get?_set, Option.some.injEq]
          by_cases hr : id = r
          · subst hr
            simp [hc, OrdMap.has_unset, and_comm]
          · simp [hr, Ne.symm hr]

/-- `forgetChild()` touches nothing but `$children`. -/
lemma forgetChild_eq (p : Pool) (requestId : Option Id) (f : FiberId) :
    p.forgetChild requestId f
      = { p with children := (p.forgetChild requestId f).children } := by
  unfold forgetChild
  split
  · rfl
  · split <;> rfl

lemma places_idle {p q : Pool} (h : Places p) {f : FiberId} {j : Job} {st : Stage}
    (hf : p.status f = .running j st) (hidle : q.idle = p.idle ++ [f])
    (hready : q.ready ++ q.readyBatch = p.ready ++ p.readyBatch)
    (hpending : q.pending ++ q.startBatch = p.pending ++ p.startBatch)
    (hcreated : q.fibersCreated = p.fibersCreated) (hrunning : q.running = none)
    (hstatus : ∀ g, q.status g = if g = f then .idle else p.status g) : Places q := by
  obtain ⟨hi, hh, hp, ha, ht, hr⟩ := h
  have hrf : p.running = some f := (hr f).mp (by rw [hf]; rfl)
  exact
    { idle_count := by grind
      handed_count := by grind
      pending_count := by grind
      absent_iff := by grind
      alive := by grind
      running_iff := by grind [Status.isRunning] }

/-- The pool after the job of `f` has ended, as one update. -/
lemma finishJob_status (p : Pool) (f : FiberId) (j : Job) (result : Result) (g : FiberId) :
    (p.finishJob f j result).status g
      = if g = f then .idle else (p.settle j.future result).status g := by
  have h := congrArg Pool.status (forgetChild_eq (p.settle j.future result) j.requestId f)
  simp only [finishJob, Function.update_apply, h]

lemma jobs_finishJob {p : Pool} (h : Inv p) {f : FiberId} {j : Job} {st : Stage}
    (hf : p.status f = .running j st) (hserving : (p.status f).serving? = none)
    (result : Result) : Jobs (p.finishJob f j result) := by
  have hfj : (p.status f).job? = some j := by rw [hf]; rfl
  have hjob : ∀ g, ((p.finishJob f j result).status g).job?
      = if g = f then none else (p.status g).job? := by
    intro g
    rw [finishJob_status]
    split_ifs
    · rfl
    · simp only [settle]
      split_ifs <;> simp
  have hserv : ∀ g, ((p.finishJob f j result).status g).serving? = (p.status g).serving? := by
    intro g
    rw [finishJob_status]
    split_ifs with hg
    · rw [hg, hserving]
      rfl
    · simp only [settle]
      split_ifs <;> simp
  have hfutures : (p.finishJob f j result).futures = (p.settle j.future result).futures := by
    have h := congrArg Pool.futures (forgetChild_eq (p.settle j.future result) j.requestId f)
    simp only [finishJob, h]
  have hnext : (p.finishJob f j result).nextFuture = p.nextFuture := by
    have h := congrArg Pool.nextFuture (forgetChild_eq (p.settle j.future result) j.requestId f)
    simp only [finishJob, h]
    rfl
  have hrequest : (p.finishJob f j result).requestFibers = p.requestFibers := by
    have h := congrArg Pool.requestFibers (forgetChild_eq (p.settle j.future result) j.requestId f)
    simp only [finishJob, h]
    rfl
  have hold : ∀ g k, ((p.finishJob f j result).status g).job? = some k →
      g ≠ f ∧ (p.status g).job? = some k := by
    intro g k hk
    rw [hjob] at hk
    split_ifs at hk with hg
    exact ⟨hg, hk⟩
  refine
    { children_request := ?_
      serving_iff := ?_
      handler_own := ?_
      handler_unique := ?_
      future_open := ?_
      future_unique := ?_ }
  · intro g id hg
    have hg : g ∈ ((p.settle j.future result).forgetChild j.requestId f).childrenOf id := hg
    obtain ⟨hchild, hnot⟩ := mem_forgetChild.mp hg
    obtain ⟨k, hk, hr⟩ := h.children_request g id hchild
    have hne : g ≠ f := by
      rintro rfl
      obtain rfl := Option.some.inj (hfj.symm.trans hk)
      exact hnot ⟨hr, rfl⟩
    exact ⟨k, by rw [hjob, if_neg hne]; exact hk, hr⟩
  · intro g id
    rw [hrequest, hserv]
    exact h.serving_iff g id
  · intro g k id hk hb
    exact h.handler_own g k id (hold g k hk).2 hb
  · intro g g' k k' id hk hk' hb hb'
    exact h.handler_unique g g' k k' id (hold g k hk).2 (hold g' k' hk').2 hb hb'
  · intro g k hk
    obtain ⟨hne, hk⟩ := hold g k hk
    have hfut : k.future ≠ j.future := fun e => hne (h.future_unique g f k j hk hfj e)
    rw [hfutures, hnext]
    simp only [settle, Function.update_of_ne hfut]
    exact h.future_open g k hk
  · intro g g' k k' hk hk' he
    exact h.future_unique g g' k k' (hold g k hk).2 (hold g' k' hk').2 he

/-- The job of a fiber that serves no request ends, and the fiber parks. -/
theorem inv_finishJob {p : Pool} (h : Inv p) {f : FiberId} {j : Job} {st : Stage}
    (hf : p.status f = .running j st) (hserving : (p.status f).serving? = none)
    (result : Result) : Inv (p.finishJob f j result) := by
  have hplaces := places_settle h.toPlaces h.toParks j.future result
  have hparks := parks_settle h.toParks j.future result
  have hwalk := walk_settle h.toWalk j.future result
  have hfs : (p.settle j.future result).status f = .running j st := by
    rcases settle_status h.toParks j.future result f with ⟨hs, -⟩ | ⟨k, st', hs, -⟩
    · rw [hs, hf]
    · rw [hf] at hs
      exact absurd hs (by simp)
  have hstatus := finishJob_status p f j result
  have hfree : f ∉ (p.settle j.future result).todo := by
    intro hmem
    have := hwalk.todo_waits f hmem
    rw [hfs] at this
    exact absurd this (by simp [Status.isWaiting])
  have heq := forgetChild_eq (p.settle j.future result) j.requestId f
  refine ⟨?_, ?_, jobs_finishJob h hf hserving result, ?_⟩
  · refine places_idle hplaces hfs ?_ ?_ ?_ ?_ rfl hstatus <;> simp only [finishJob] <;> rw [heq]
  · refine hparks.frame ?_ ?_ ?_ ?_ ?_ ?_ ?_
    all_goals simp only [finishJob]
    any_goals rw [heq]
    any_goals simp
    intro g
    rw [Function.update_apply]
    split_ifs with hg
    · rw [hg, hfs]
      rfl
    · rfl
  · refine hwalk.elsewhere ?_ hfree fun g hg => (hstatus g).trans (if_neg hg)
    simp only [finishJob]
    rw [heq]

/-! ## The stages of a request -/

/-- A running job that moves on to another stage disturbs nothing but, perhaps, what the pool
says about its request. -/
lemma inv_stage {p q : Pool} (h : Inv p) {f : FiberId} {j : Job} {st st' : Stage}
    (hf : p.status f = .running j st)
    (hq : q = { p with
      status := q.status, requestFibers := q.requestFibers, children := q.children })
    (hstatus : ∀ g, q.status g = if g = f then .running j st' else p.status g)
    (hjobs : Jobs q) : Inv q := by
  have hrun : p.running = some f := (h.running_iff f).mp (by rw [hf]; rfl)
  refine ⟨?_, ?_, hjobs, ?_⟩
  · exact h.toPlaces.move (by rw [hf]; rfl) rfl hstatus (Or.inr hrun) (by rw [hq]; exact hrun)
      (by rw [hq]) (by rw [hq]; simp) (by rw [hq]) (by rw [hq])
  · refine h.toParks.frame (by rw [hq]; simp) (by rw [hq]; simp) (Nat.le_of_eq (by rw [hq]))
      (by rw [hq]) (by rw [hq]; simp) (by rw [hq]) fun g => ?_
    rw [hstatus]
    by_cases hg : g = f
    · simp [hg, hf, Status.park?]
    · simp [hg]
  · refine h.toWalk.elsewhere (by rw [hq]) (f := f) (fun hmem => ?_)
      fun g hg => (hstatus g).trans (if_neg hg)
    have := h.todo_waits f hmem
    rw [hf] at this
    exact absurd this (by simp [Status.isWaiting])

/-- From the handler to the answer the fiber stays mapped. -/
theorem inv_answer {p : Pool} (h : Inv p) {f : FiberId} {j : Job}
    (hf : p.status f = .running j .handler) : Inv (p.setStage f j .answering) := by
  have hstatus := fun g => Function.update_apply p.status f (.running j .answering) g
  refine inv_stage h hf rfl hstatus ?_
  refine h.toJobs.move hstatus (by rw [hf]; rfl) ?_ rfl rfl rfl fun _ => ⟨rfl, rfl⟩
  rw [hf]
  rcases j with ⟨_ | _, _, _, _⟩ <;> rfl

/-- `releaseRequest()` unmaps the request; its own fiber was the only one mapped. -/
theorem inv_release {p : Pool} (h : Inv p) {f : FiberId} {j : Job} {id : Id}
    (hf : p.status f = .running j .answering) (hb : j.body = .handler id) :
    Inv (p.release f j id) := by
  have hstatus := fun g => Function.update_apply p.status f (.running j .clearing) g
  have hfj : (p.status f).job? = some j := by rw [hf]; rfl
  have hclear : (Status.running j .clearing).serving? = none := by
    rcases j with ⟨_ | _, _, _, _⟩ <;> simp [Status.serving?]
  have hserves : (p.status f).serving? = some id := by
    rw [hf]
    rcases j with ⟨b, _, _, _⟩
    subst hb
    simp [Status.serving?]
  have hjob : ∀ g, ((p.release f j id).status g).job? = (p.status g).job? := by
    intro g
    simp only [release, setStage, hstatus]
    split_ifs with hg
    · rw [hg, hfj]
      rfl
    · rfl
  refine inv_stage h hf rfl hstatus ?_
  refine
    { children_request := ?_
      serving_iff := ?_
      handler_own := fun g => by rw [hjob]; exact h.handler_own g
      handler_unique := fun g g' => by rw [hjob, hjob]; exact h.handler_unique g g'
      future_open := fun g => by rw [hjob]; exact h.future_open g
      future_unique := fun g g' => by rw [hjob, hjob]; exact h.future_unique g g' }
  · intro g id' hg
    rw [hjob]
    obtain ⟨m, hm, hmem⟩ := mem_childrenOf.mp hg
    simp only [release, setStage, OrdMap.get?_unset] at hm
    split_ifs at hm
    exact h.children_request g id' (mem_childrenOf.mpr ⟨m, hm, hmem⟩)
  · intro g id'
    have hold := h.serving_iff g id'
    simp only [release, setStage, OrdMap.get?_unset, hstatus]
    by_cases hg : g = f
    · subst hg
      rw [if_pos rfl, hclear]
      split_ifs with hid
      · simp
      · rw [hold, hserves]
        simp [Ne.symm hid]
    · rw [if_neg hg]
      split_ifs with hid
      · subst hid
        simp only [false_iff]
        intro hs
        obtain ⟨k, hk, hkb⟩ := Status.serving?_job hs
        exact hg (h.handler_unique g f k j id' (Status.started?_job? hk) hfj hkb hb)
      · exact hold

end Pool

end Ignis
