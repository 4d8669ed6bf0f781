import Ignis.Loop.PoolInvariant

/-!
# Switching to a fiber

`{main}` switches to a fiber in four ways: it starts one that was made for a job, hands a job to one
that parks in `nextJob()`, wakes one whose op or future is done, or throws into one.  Each finds the
fiber where its table says it is (`startNext_eq`, `resumeNext_job_eq`, `resumeNext_wake_eq`,
`resumeOp_eq`, `resumeParked_eq`), so none of them raises, and each keeps the invariant.

`throwInto_cases` says whom an exception reaches: fibers suspended on an op or in a C hook, and
nobody else.
-/

namespace Ignis

namespace Pool

/-! ## A job starts -/

lemma places_start {p q : Pool} (h : Places p) {f : FiberId} {j : Job} {st : Stage}
    {rest : List (FiberId × Job)} (hmain : p.running = none)
    (hbatch : p.startBatch = (f, j) :: rest) (hrest : q.startBatch = rest)
    (hpending : q.pending = p.pending) (hidle : q.idle = p.idle)
    (hready : q.ready ++ q.readyBatch = p.ready ++ p.readyBatch)
    (hcreated : q.fibersCreated = p.fibersCreated) (hrunning : q.running = some f)
    (hstatus : ∀ g, q.status g = if g = f then .running j st else p.status g) :
    p.status f = .pending j ∧ Places q := by
  obtain ⟨hi, hh, hp, ha, ht, hr⟩ := h
  have hf : p.status f = .pending j := by grind
  exact ⟨hf,
    { idle_count := by grind
      handed_count := by grind
      pending_count := by grind
      absent_iff := by grind
      alive := by grind
      running_iff := by grind [Status.isRunning] }⟩

lemma places_handOver {p q : Pool} (h : Places p) {f : FiberId} {j : Job} {st : Stage}
    {rest : List (FiberId × Resume)} (hmain : p.running = none)
    (hbatch : p.readyBatch = (f, .job j) :: rest) (hrest : q.readyBatch = rest)
    (hready : q.ready = p.ready) (hidle : q.idle = p.idle)
    (hpending : q.pending ++ q.startBatch = p.pending ++ p.startBatch)
    (hcreated : q.fibersCreated = p.fibersCreated) (hrunning : q.running = some f)
    (hstatus : ∀ g, q.status g = if g = f then .running j st else p.status g) :
    p.status f = .handed j ∧ Places q := by
  obtain ⟨hi, hh, hp, ha, ht, hr⟩ := h
  have hf : p.status f = .handed j := by grind
  exact ⟨hf,
    { idle_count := by grind
      handed_count := by grind
      pending_count := by grind
      absent_iff := by grind
      alive := by grind
      running_iff := by grind [Status.isRunning] }⟩

lemma serving?_entry (j : Job) : (Status.running j (entryStage j)).serving?
    = match j.body with | .handler id => some id | .user => none := by
  rcases j with ⟨_ | _, _, _, _⟩ <;> simp [entryStage, Status.serving?]

/-- `enterRequest()` maps the request to the fiber that got its handler, and to no other. -/
lemma Jobs.enter {p : Pool} (h : Jobs p) {f : FiberId} {j : Job}
    (hjob : (p.status f).job? = some j) (hserving : (p.status f).serving? = none) :
    Jobs (p.enter f j) := by
  have hj : ∀ g, ((p.enter f j).status g).job? = (p.status g).job? := by
    intro g
    simp only [Pool.enter, Function.update_apply]
    split_ifs with hg
    · rw [hg, hjob]
      rfl
    · rfl
  refine
    { children_request := fun g id hg => by rw [hj]; exact h.children_request g id hg
      serving_iff := ?_
      handler_own := fun g => by rw [hj]; exact h.handler_own g
      handler_unique := fun g g' => by rw [hj, hj]; exact h.handler_unique g g'
      future_open := fun g => by rw [hj]; exact h.future_open g
      future_unique := fun g g' => by rw [hj, hj]; exact h.future_unique g g' }
  intro g id
  simp only [Pool.enter, Function.update_apply]
  cases hb : j.body with
  | user =>
      rw [h.serving_iff g id]
      split_ifs with hg
      · rw [hg, hserving, serving?_entry, hb]
      · rfl
  | handler r =>
      rw [OrdMap.get?_set]
      by_cases hg : g = f
      · subst hg
        rw [if_pos rfl, serving?_entry, hb]
        by_cases hid : id = r
        · simp [hid]
        · rw [if_neg hid, h.serving_iff g id, hserving]
          simp [Ne.symm hid]
      · rw [if_neg hg]
        by_cases hid : id = r
        · subst hid
          constructor
          · intro e
            exact absurd (by simpa using e.symm) hg
          · intro hs
            obtain ⟨k, hk, hkb⟩ := Status.serving?_job hs
            exact absurd (h.handler_unique g f k j id (Status.started?_job? hk) hjob hkb hb) hg
        · rw [if_neg hid, h.serving_iff g id]

/-- A fiber that starts a job was in none of the tables of parked fibers. -/
lemma inv_enter {p : Pool} (h : Inv p) {q : Pool} {f : FiberId} {j : Job} (htodo : p.todo = [])
    (hf : p.status f = .pending j ∨ p.status f = .handed j) (hplaces : Places (q.enter f j))
    (hready : ∀ g, (q.ready ++ q.readyBatch).count (g, .wake)
      = (p.ready ++ p.readyBatch).count (g, .wake))
    (hq : q = { p with startBatch := q.startBatch, readyBatch := q.readyBatch }) :
    Inv (q.enter f j) := by
  have hpark : (p.status f).park? = none := by rcases hf with hf | hf <;> rw [hf] <;> rfl
  have hqj : Jobs q := by
    rw [hq]
    exact h.toJobs.frame rfl rfl (Nat.le_refl _) (fun _ _ h₁ h₂ => ⟨h₂, h₁⟩) (fun _ => rfl)
      (fun _ => rfl)
  have hs : q.status f = p.status f := by rw [hq]
  refine ⟨hplaces, ?_, hqj.enter ?_ ?_, ?_⟩
  · rw [hq] at hready ⊢
    refine h.toParks.frame hready (fun _ => rfl) (Nat.le_refl _) rfl (fun _ _ hw => hw) rfl ?_
    intro g
    simp only [Pool.enter, Function.update_apply]
    split_ifs with hg
    · rw [hg, hpark]
      rfl
    · rfl
  · rw [hs]
    rcases hf with hf | hf <;> rw [hf] <;> rfl
  · rw [hs]
    rcases hf with hf | hf <;> rw [hf] <;> rfl
  · have ht : (q.enter f j).todo = [] := by rw [hq]; exact htodo
    exact ⟨by simp [ht], by simp [ht]⟩

/-- `startPending()` finds each fiber of its batch unstarted. -/
theorem startNext_eq {p : Pool} (h : Inv p) (hmain : p.running = none) (htodo : p.todo = [])
    {f : FiberId} {j : Job} {rest : List (FiberId × Job)} (hbatch : p.startBatch = (f, j) :: rest) :
    p.status f = .pending j ∧ p.startNext = some ({ p with startBatch := rest }.enter f j)
      ∧ Inv ({ p with startBatch := rest }.enter f j) := by
  obtain ⟨hf, hplaces⟩ := places_start (q := { p with startBatch := rest }.enter f j) h.toPlaces
    hmain hbatch rfl rfl rfl rfl rfl rfl fun g => Function.update_apply p.status f _ g
  refine ⟨hf, ?_, ?_⟩
  · simp only [startNext, hbatch, hf]
  · exact inv_enter h htodo (Or.inl hf) hplaces (fun _ => rfl) rfl

/-- `resumeReady()` hands a job to a fiber parked in `nextJob()`. -/
theorem resumeNext_job_eq {p : Pool} (h : Inv p) (hmain : p.running = none) (htodo : p.todo = [])
    {f : FiberId} {j : Job} {rest : List (FiberId × Resume)}
    (hbatch : p.readyBatch = (f, .job j) :: rest) :
    p.status f = .handed j ∧ p.resumeNext = some ({ p with readyBatch := rest }.enter f j)
      ∧ Inv ({ p with readyBatch := rest }.enter f j) := by
  obtain ⟨hf, hplaces⟩ := places_handOver (q := { p with readyBatch := rest }.enter f j) h.toPlaces
    hmain hbatch rfl rfl rfl rfl rfl rfl fun g => Function.update_apply p.status f _ g
  refine ⟨hf, ?_, ?_⟩
  · simp only [resumeNext, hbatch, hf]
  · exact inv_enter h htodo (Or.inr hf) hplaces (by simp [hbatch, List.count_append]) rfl

/-! ## A job runs on -/

/-- What a switch to a suspended job changes besides its park. -/
lemma inv_resume {p q : Pool} (h : Inv p) {f : FiberId} {j : Job} {st : Stage} {at' : Park}
    (hmain : p.running = none) (hf : p.status f = .blocked j st at')
    (hstatus : ∀ g, q.status g = if g = f then .running j st else p.status g)
    (hrunning : q.running = some f) (hparks : Parks q) (hwalk : Walk q)
    (hidle : q.idle = p.idle)
    (hready : ∀ g k, (q.ready ++ q.readyBatch).count (g, .job k)
      = (p.ready ++ p.readyBatch).count (g, .job k))
    (hpending : q.pending ++ q.startBatch = p.pending ++ p.startBatch)
    (hcreated : q.fibersCreated = p.fibersCreated) (hchildren : q.children = p.children)
    (hrequest : q.requestFibers = p.requestFibers) (hfutures : q.futures = p.futures)
    (hnext : q.nextFuture = p.nextFuture) : Inv q := by
  refine ⟨?_, hparks, ?_, hwalk⟩
  · exact h.toPlaces.move (by rw [hf]; rfl) rfl hstatus (Or.inl hmain) hrunning hidle hready
      hpending hcreated
  · refine h.toJobs.move hstatus (by rw [hf]; rfl) ?_ hchildren hrequest hnext
      fun fut => by rw [hfutures]; exact ⟨rfl, rfl⟩
    rw [hf, Status.serving?_blocked]

/-- A fiber leaves the place it was suspended at, and only that one. -/
lemma Parks.leave {p q : Pool} (h : Parks p) {f : FiberId} {j : Job} {st : Stage} {at' : Park}
    (hf : p.status f = .blocked j st at') (hsettled : ∀ fut, at' ≠ .future fut)
    (hstatus : ∀ g, q.status g = if g = f then .running j st else p.status g)
    (hready : ∀ g, (q.ready ++ q.readyBatch).count (g, .wake)
        + (if g = f ∧ (p.status f).isWoken = true then 1 else 0)
      = (p.ready ++ p.readyBatch).count (g, .wake))
    (hfutures : q.futures = p.futures) (hnext : q.nextFuture = p.nextFuture)
    (hparkedOn : ∀ g, q.parkedOn.get? g = if g = f then none else p.parkedOn.get? g)
    (hwaiting : ∀ g op, q.waiting.get? op = some (.fiber g) →
      p.waiting.get? op = some (.fiber g) ∧ at' ≠ .op op)
    (hparked : ∀ id, q.parked.get? id = if id ∈ at'.hookIds then none else p.parked.get? id) :
    Parks q := by
  have hfp : (p.status f).park? = some at' := by rw [hf]; rfl
  have hpark : ∀ g, (q.status g).park? = if g = f then none else (p.status g).park? := by
    intro g
    rw [hstatus]
    split_ifs <;> rfl
  refine
    { woken_count := ?_
      waiters_count := ?_
      future_known := ?_
      parkedOn_iff := ?_
      waiting_park := ?_
      parked_iff := ?_
      hook_ne_nil := ?_ }
  · intro g
    have hc := h.woken_count g
    have hr := hready g
    rw [hstatus]
    by_cases hg : g = f
    · subst hg
      have hrun : (Status.running j st).isWoken = false := rfl
      simp only [true_and, if_true, hrun, Bool.false_eq_true, if_false] at hr ⊢
      omega
    · simp only [hg, false_and, if_false] at hr ⊢
      omega
  · intro g fut
    rw [hfutures, h.waiters_count g fut, hpark]
    by_cases hg : g = f
    · simp [hg, hfp, hsettled fut]
    · simp [hg]
  · intro g fut hg
    rw [hpark] at hg
    split_ifs at hg
    exact hnext ▸ h.future_known g fut hg
  · intro g op
    rw [hparkedOn, hpark]
    split_ifs with hg
    · simp
    · exact h.parkedOn_iff g op
  · intro g op hw
    obtain ⟨hold, hne⟩ := hwaiting g op hw
    have hp := h.waiting_park g op hold
    rw [hpark]
    split_ifs with hg
    · rw [hg, hfp] at hp
      exact absurd (Option.some.inj hp) hne
    · exact hp
  · intro g id
    have hheld : id ∈ at'.hookIds ↔ p.parked.get? id = some f := by
      rw [h.parked_iff f id, hfp, Park.mem_hookIds]
      simp only [Option.some.injEq]
    rw [hparked, hpark]
    by_cases hg : g = f
    · subst hg
      rw [if_pos rfl]
      split_ifs with hid
      · simp
      · simpa using mt hheld.mpr hid
    · rw [if_neg hg, ← h.parked_iff g id]
      split_ifs with hid
      · rw [hheld.mp hid]
        simp [Ne.symm hg]
      · rfl
  · intro g ids hg
    rw [hpark] at hg
    split_ifs at hg
    exact h.hook_ne_nil g ids hg

lemma Parks.parkedOn_elsewhere {p : Pool} (h : Parks p) {f : FiberId}
    (hpark : ∀ op, (p.status f).park? ≠ some (.op op)) (g : FiberId) :
    p.parkedOn.get? g = if g = f then none else p.parkedOn.get? g := by
  split_ifs with hg
  · rw [hg, h.parkedOn_none hpark]
  · rfl

/-- `resumeReady()` wakes only fibers that wait in `Future::await()`. -/
theorem resumeNext_wake_eq {p : Pool} (h : Inv p) (hmain : p.running = none) (htodo : p.todo = [])
    {f : FiberId} {rest : List (FiberId × Resume)} (hbatch : p.readyBatch = (f, .wake) :: rest) :
    ∃ j st fut, p.status f = .blocked j st (.woken fut)
      ∧ p.resumeNext = some ({ p with readyBatch := rest }.resume f j st)
      ∧ Inv ({ p with readyBatch := rest }.resume f j st) := by
  have hc := h.woken_count f
  rw [hbatch, List.count_append, List.count_cons_self] at hc
  have hw : (p.status f).isWoken = true := by
    by_contra hw
    rw [if_neg hw] at hc
    omega
  obtain ⟨fut, hpark⟩ := Status.isWoken_iff.mp hw
  obtain ⟨j, st, hf⟩ := Status.of_park? hpark
  refine ⟨j, st, fut, hf, by simp only [resumeNext, hbatch, hf], ?_⟩
  have hstatus := fun g => Function.update_apply p.status f (.running j st) g
  refine inv_resume h hmain hf hstatus rfl ?_ ⟨?_, ?_⟩ rfl ?_ rfl rfl rfl rfl rfl rfl
  · refine h.toParks.leave hf (by simp) hstatus ?_ rfl rfl
      (h.parkedOn_elsewhere (by simp [hpark])) (fun g op hg => ⟨hg, by simp⟩)
      (by simp [Park.hookIds, resume])
    intro g
    simp only [hw, and_true, resume, hbatch, List.count_append, List.count_cons]
    by_cases hg : g = f
    · simp [hg, Nat.add_assoc]
    · simp [hg, Ne.symm hg]
  · exact htodo ▸ List.nodup_nil
  · simp [resume, htodo]
  · simp [resume, hbatch, List.count_append]

/-- Switching to a fiber suspended on an op, with its entries dropped. -/
lemma inv_resumeOp {p : Pool} (h : Inv p) (hmain : p.running = none) {f : FiberId} {j : Job}
    {st : Stage} {op : Id} (hf : p.status f = .blocked j st (.op op)) (hfree : f ∉ p.todo) :
    Inv (({ p with waiting := p.waiting.unset op }.leavePark f (.op op)).resume f j st) := by
  have hstatus := fun g => Function.update_apply p.status f (.running j st) g
  have hw : (p.status f).isWoken = false := by rw [hf]; rfl
  refine inv_resume h hmain hf hstatus rfl ?_ ?_ rfl (fun _ _ => rfl) rfl rfl rfl rfl rfl rfl
  · refine h.toParks.leave hf (by simp) hstatus (by simp [hw, resume, leavePark]) rfl rfl
      (fun g => OrdMap.get?_unset _ _ _) ?_ (by simp [Park.hookIds, resume, leavePark])
    intro g op' hg
    simp only [resume, leavePark, OrdMap.get?_unset] at hg
    split_ifs at hg with hop
    exact ⟨hg, fun e => hop (Park.op.inj e).symm⟩
  · exact h.toWalk.elsewhere rfl hfree fun g hg => (hstatus g).trans (if_neg hg)

/-- Switching to a fiber suspended in a C hook. -/
lemma inv_resumeHook {p : Pool} (h : Inv p) (hmain : p.running = none) {f : FiberId} {j : Job}
    {st : Stage} {ids : List Id} {parked : OrdMap Id FiberId}
    (hf : p.status f = .blocked j st (.hook ids)) (hfree : f ∉ p.todo)
    (hparked : ∀ id, id ∉ ids → parked.get? id = p.parked.get? id) :
    Inv (({ p with parked := parked }.leavePark f (.hook ids)).resume f j st) := by
  have hstatus := fun g => Function.update_apply p.status f (.running j st) g
  have hpark : (p.status f).park? = some (.hook ids) := by rw [hf]; rfl
  have hw : (p.status f).isWoken = false := by rw [hf]; rfl
  refine inv_resume h hmain hf hstatus rfl ?_ ?_ rfl (fun _ _ => rfl) rfl rfl rfl rfl rfl rfl
  · refine h.toParks.leave hf (by simp) hstatus (by simp [hw, resume, leavePark]) rfl rfl
      (h.parkedOn_elsewhere (by simp [hpark])) (fun g op hg => ⟨hg, by simp⟩) ?_
    intro id
    simp only [resume, leavePark, OrdMap.get?_foldl_unset, Park.hookIds]
    by_cases hid : id ∈ ids
    · simp [hid]
    · simpa [hid] using hparked id hid
  · exact h.toWalk.elsewhere rfl hfree fun g hg => (hstatus g).trans (if_neg hg)

/-- `dispatchEvents()` resumes a fiber that waits for the completion. -/
theorem resumeOp_eq {p : Pool} (h : Inv p) (hmain : p.running = none) (htodo : p.todo = [])
    {f : FiberId} {op : Id} (hget : p.waiting.get? op = some (.fiber f)) :
    ∃ j st, p.status f = .blocked j st (.op op)
      ∧ p.resumeOp op
          = some (({ p with waiting := p.waiting.unset op }.leavePark f (.op op)).resume f j st)
      ∧ Inv (({ p with waiting := p.waiting.unset op }.leavePark f (.op op)).resume f j st) := by
  obtain ⟨j, st, hf⟩ := Status.of_park? (h.waiting_park f op hget)
  exact ⟨j, st, hf, by simp only [resumeOp, hget, hf],
    inv_resumeOp h hmain hf (by simp [htodo])⟩

/-- `ignis_poll()` resumes a fiber parked on the completed op. -/
theorem resumeParked_eq {p : Pool} (h : Inv p) (hmain : p.running = none) (htodo : p.todo = [])
    {f : FiberId} {id : Id} (hget : p.parked.get? id = some f) :
    ∃ j st ids, p.status f = .blocked j st (.hook ids)
      ∧ p.resumeParked id
          = some (({ p with parked := p.parked.unset id }.leavePark f (.hook ids)).resume f j st)
      ∧ Inv (({ p with parked := p.parked.unset id }.leavePark f (.hook ids)).resume f j st) := by
  obtain ⟨ids, hpark, hid⟩ := (h.parked_iff f id).mp hget
  obtain ⟨j, st, hf⟩ := Status.of_park? hpark
  refine ⟨j, st, ids, hf, by simp only [resumeParked, hget, hf],
    inv_resumeHook h hmain hf (by simp [htodo]) fun i hi => ?_⟩
  have hne : i ≠ id := fun e => hi (e ▸ hid)
  rw [OrdMap.get?_unset, if_neg hne]

/-! ## Throwing into a fiber -/

/-- Both ways `throwInto()` looks for an op agree: the scan of `$waiting` finds nothing that
`$parkedOn` does not know. -/
lemma opOf_eq_some_iff {p : Pool} (h : Parks p) {f : FiberId} {op : Id} :
    p.opOf f = some op ↔ (p.status f).park? = some (.op op) := by
  unfold opOf
  cases hon : p.parkedOn.get? f with
  | some op' =>
      have hpark := (h.parkedOn_iff f op').mp hon
      rw [hpark]
      simp
  | none =>
      have hnone : p.waiting.entries.find? (fun e => e.2 = .fiber f) = none := by
        rw [List.find?_eq_none]
        rintro ⟨op', w⟩ hmem hw
        have hpark := h.waiting_park f op' (by
          rw [← OrdMap.mem_entries_iff]
          simpa using (decide_eq_true_eq.mp hw) ▸ hmem)
        rw [← h.parkedOn_iff f op', hon] at hpark
        exact absurd hpark (by simp)
      rw [hnone, ← h.parkedOn_iff f op, hon]
      simp

lemma parked_any_iff {p : Pool} (h : Parks p) {f : FiberId} :
    p.parked.entries.any (fun e => e.2 = f) = true
      ↔ ∃ ids, (p.status f).park? = some (.hook ids) := by
  simp only [List.any_eq_true, decide_eq_true_eq, Prod.exists]
  constructor
  · rintro ⟨id, g, hmem, rfl⟩
    obtain ⟨ids, hids, -⟩ := (h.parked_iff g id).mp (OrdMap.mem_entries_iff.mp hmem)
    exact ⟨ids, hids⟩
  · rintro ⟨ids, hids⟩
    obtain ⟨id, hid⟩ := List.exists_mem_of_ne_nil ids (h.hook_ne_nil f ids hids)
    exact ⟨id, f, OrdMap.mem_entries_iff.mpr ((h.parked_iff f id).mpr ⟨ids, hids, hid⟩), rfl⟩

/-- **Whom `throwInto` reaches.**  The exception is delivered to a fiber suspended on an op or in a
C hook.  A fiber that has not started its job, or is suspended in `Future::await()`, is in none of
the tables that are searched, and nothing happens to it. -/
theorem throwInto_cases {p : Pool} (h : Parks p) (f : FiberId) :
    (∃ j st op, p.status f = .blocked j st (.op op)
      ∧ p.throwInto f
          = (({ p with waiting := p.waiting.unset op }.leavePark f (.op op)).resume f j st, some j))
    ∨ (∃ j st ids, p.status f = .blocked j st (.hook ids)
      ∧ p.throwInto f = ((p.leavePark f (.hook ids)).resume f j st, some j))
    ∨ ((∀ j st at', p.status f = .blocked j st at' → ∃ fut, at' = .future fut ∨ at' = .woken fut)
      ∧ p.throwInto f = (p, none)) := by
  cases hpark : (p.status f).park? with
  | none =>
      refine Or.inr (Or.inr ⟨fun j st at' hf => by simp [hf, Status.park?] at hpark, ?_⟩)
      have hop : p.opOf f = none := Option.eq_none_iff_forall_ne_some.mpr fun op hop => by
        rw [opOf_eq_some_iff h, hpark] at hop
        exact absurd hop (by simp)
      have hany : ¬ p.parked.entries.any (fun e => e.2 = f) = true := by
        rw [parked_any_iff h, hpark]
        simp
      simp [throwInto, hop, hany]
  | some at' =>
      obtain ⟨j, st, hf⟩ := Status.of_park? hpark
      have hsus : (p.status f).isSuspended = true := by rw [hf]; rfl
      have hop : ∀ op, p.opOf f = some op ↔ at' = .op op := by
        intro op
        rw [opOf_eq_some_iff h, hpark, Option.some.injEq]
      have hnop : (∀ op, at' ≠ .op op) → p.opOf f = none := fun hne =>
        Option.eq_none_iff_forall_ne_some.mpr fun op e => hne op ((hop op).mp e)
      have hany : p.parked.entries.any (fun e => e.2 = f) = true ↔ ∃ ids, at' = .hook ids := by
        rw [parked_any_iff h, hpark]
        simp only [Option.some.injEq]
      cases at' with
      | op op =>
          refine Or.inl ⟨j, st, op, hf, ?_⟩
          rw [throwInto, if_pos hsus, (hop op).mpr rfl]
          simp only [interrupt, hf]
      | hook ids =>
          refine Or.inr (Or.inl ⟨j, st, ids, hf, ?_⟩)
          rw [throwInto, if_pos hsus, hnop (by simp)]
          simp only [hany.mpr ⟨ids, rfl⟩, if_true, interrupt, hf]
      | future fut =>
          refine Or.inr (Or.inr ⟨?_, ?_⟩)
          · intro j' st' at' hf'
            rw [hf] at hf'
            exact ⟨fut, Or.inl (Status.blocked.inj hf').2.2.symm⟩
          · have hno : ¬ p.parked.entries.any (fun e => e.2 = f) = true := by simp [hany]
            rw [throwInto, if_pos hsus, hnop (by simp)]
            exact if_neg hno
      | woken fut =>
          refine Or.inr (Or.inr ⟨?_, ?_⟩)
          · intro j' st' at' hf'
            rw [hf] at hf'
            exact ⟨fut, Or.inr (Status.blocked.inj hf').2.2.symm⟩
          · have hno : ¬ p.parked.entries.any (fun e => e.2 = f) = true := by simp [hany]
            rw [throwInto, if_pos hsus, hnop (by simp)]
            exact if_neg hno

theorem inv_throwInto {p : Pool} (h : Inv p) (hmain : p.running = none) {f : FiberId}
    (hfree : f ∉ p.todo) : Inv (p.throwInto f).1 := by
  rcases throwInto_cases h.toParks f with ⟨j, st, op, hf, he⟩ | ⟨j, st, ids, hf, he⟩ | ⟨-, he⟩ <;>
    rw [he]
  · exact inv_resumeOp h hmain hf hfree
  · exact inv_resumeHook h hmain hf hfree fun _ _ => rfl
  · exact h

lemma childrenOf_nodup (p : Pool) (id : Id) : (p.childrenOf id).Nodup :=
  ((p.children.get? id).getD ∅).nodup

/-- The handler's fiber is nobody's child. -/
lemma Jobs.parent_not_child {p : Pool} (h : Jobs p) {f : FiberId} {id id' : Id}
    (hparent : p.requestFibers.get? id = some f) : f ∉ p.childrenOf id' := by
  intro hchild
  obtain ⟨j, hj, hb⟩ := Status.serving?_job ((h.serving_iff f id).mp hparent)
  have hj := Status.started?_job? hj
  obtain ⟨k, hk, hr⟩ := h.children_request f id' hchild
  obtain rfl := Option.some.inj (hj.symm.trans hk)
  rw [(h.handler_own f j id hj hb).1] at hr
  exact absurd hr (by simp)

lemma mem_cancelTargets {p : Pool} {f : FiberId} {id : Id} :
    f ∈ p.cancelTargets id ↔ f ∈ p.childrenOf id ∨ p.requestFibers.get? id = some f := by
  simp [cancelTargets]

/-- Whoever `cancelRequest()` throws into has a job. -/
lemma Jobs.job?_of_mem_cancelTargets {p : Pool} (h : Jobs p) {f : FiberId} {id : Id}
    (hf : f ∈ p.cancelTargets id) : ∃ j, (p.status f).job? = some j
      ∧ (j.requestId = some id ∨ j.body = .handler id) := by
  rcases mem_cancelTargets.mp hf with hf | hf
  · obtain ⟨j, hj, hr⟩ := h.children_request f id hf
    exact ⟨j, hj, Or.inl hr⟩
  · obtain ⟨j, hj, hb⟩ := Status.serving?_job ((h.serving_iff f id).mp hf)
    exact ⟨j, Status.started?_job? hj, Or.inr hb⟩

/-- The snapshot of `cancelRequest()`: nobody twice, and nobody who is parked in `nextJob()`. -/
theorem inv_cancelTargets {p : Pool} (h : Inv p) (hmain : p.running = none) (id : Id) :
    Inv { p with todo := p.cancelTargets id } := by
  refine h.withTodo ?_ fun f hf => ?_
  · refine List.Nodup.append (List.nodup_reverse.mpr (p.childrenOf_nodup id)) ?_ ?_
    · cases p.requestFibers.get? id <;> simp
    · intro f hchild hparent
      rw [List.mem_reverse] at hchild
      exact h.parent_not_child (by simpa using hparent) hchild
  · obtain ⟨j, hj, -⟩ := h.job?_of_mem_cancelTargets hf
    exact h.isWaiting_of_job? hmain hj

end Pool

end Ignis
