import Mathlib.Data.List.Count
import Mathlib.Data.List.Perm.Basic
import Ignis.Loop.Pool

/-!
# The invariant of the fiber pool

Seven tables say where a fiber is, and every function of the loop updates several of them.  The
invariant says that they agree with what the fiber really does, in four groups that different
functions disturb.

**Places.**  `$idle`, `$ready`, `$pending` and the two batches hold a fiber exactly when it parks in
`nextJob()`, was handed a job, or was created for one, and hold it once.

**Parks.**  `$parkedOn`, `$waiting`, `PARKED` and the waiters of a future hold a fiber exactly while
it is suspended there.

**Jobs.**  `$requestFibers` and `$children` speak about the job a fiber has now; a live job has a
future of its own, still open.

**Walk.**  The fibers `cancelRequest()` has yet to visit are distinct and still where they were.

Each group has a frame lemma, which says what a function may change without disturbing it; a
function then needs a proof only for the groups it really touches.
-/

namespace Ignis

/-- The ids `PARKED` holds for a fiber suspended at this place. -/
def Park.hookIds : Park → List Id
  | .hook ids => ids
  | _ => []

lemma Park.mem_hookIds {park : Park} {id : Id} :
    id ∈ park.hookIds ↔ ∃ ids, park = .hook ids ∧ id ∈ ids := by
  cases park <;> simp [hookIds]

namespace Status

/-- A fiber inside a job. -/
def isBusy : Status → Bool
  | running _ _ | blocked _ _ _ => true
  | _ => false

lemma isWoken_iff {s : Status} : s.isWoken = true ↔ ∃ fut, s.park? = some (.woken fut) := by
  rcases s with _ | _ | _ | _ | _ | ⟨j, st, _ | _ | _ | _⟩ | _ <;> simp [isWoken, park?]

lemma isWoken_congr {s t : Status} (h : s.park? = t.park?) : s.isWoken = t.isWoken := by
  rw [Bool.eq_iff_iff, isWoken_iff, isWoken_iff, h]

@[simp] lemma wake_job? (s : Status) : s.wake.job? = s.job? := by
  rcases s with _ | _ | _ | _ | _ | ⟨j, st, _ | _ | _ | _⟩ | _ <;> rfl

@[simp] lemma wake_serving? (s : Status) : s.wake.serving? = s.serving? := by
  rcases s with _ | _ | _ | _ | _ | ⟨⟨_ | _, _, _, _⟩, st, _ | _ | _ | _⟩ | _ <;> rfl

@[simp] lemma wake_isWaiting (s : Status) : s.wake.isWaiting = s.isWaiting := by
  rcases s with _ | _ | _ | _ | _ | ⟨j, st, _ | _ | _ | _⟩ | _ <;> rfl

lemma of_park? {s : Status} {at' : Park} (h : s.park? = some at') :
    ∃ j st, s = blocked j st at' := by
  cases s <;> simp_all [park?]

lemma serving?_blocked (j : Job) (st : Stage) (at' : Park) :
    (blocked j st at').serving? = (running j st).serving? := by
  rcases j with ⟨_ | _, _, _, _⟩ <;> rfl

lemma serving?_job {s : Status} {id : Id} (h : s.serving? = some id) :
    ∃ j, s.started? = some j ∧ j.body = .handler id := by
  rcases s with _ | _ | _ | _ | ⟨⟨_ | _, _, _, _⟩, st⟩ | ⟨⟨_ | _, _, _, _⟩, st, _⟩ | _ <;>
    simp_all [serving?, started?]

lemma job?_of_isWaiting {s : Status} (h : s.isWaiting = true) : ∃ j, s.job? = some j := by
  cases s <;> simp_all [isWaiting, job?]

lemma started?_of_job?_none {s : Status} (h : s.job? = none) : s.started? = none := by
  cases s <;> simp_all [job?, started?]

lemma started?_job? {s : Status} {j : Job} (h : s.started? = some j) : s.job? = some j := by
  cases s <;> simp_all [started?, job?]

end Status

namespace Pool

lemma mem_childrenOf {p : Pool} {id : Id} {f : FiberId} :
    f ∈ p.childrenOf id ↔ ∃ m, p.children.get? id = some m ∧ m.has f = true := by
  unfold childrenOf
  cases h : p.children.get? id with
  | none => simp [OrdMap.keys_empty]
  | some m => simp [OrdMap.mem_keys_iff, OrdMap.has_iff]

structure Places (p : Pool) : Prop where
  idle_count : ∀ f, p.idle.count f = if p.status f = .idle then 1 else 0
  handed_count : ∀ f j, (p.ready ++ p.readyBatch).count (f, .job j)
    = if p.status f = .handed j then 1 else 0
  pending_count : ∀ f j, (p.pending ++ p.startBatch).count (f, j)
    = if p.status f = .pending j then 1 else 0
  absent_iff : ∀ f, p.status f = .absent ↔ p.fibersCreated ≤ f
  alive : ∀ f, p.status f ≠ .terminated
  running_iff : ∀ f, (p.status f).isRunning = true ↔ p.running = some f

structure Parks (p : Pool) : Prop where
  woken_count : ∀ f, (p.ready ++ p.readyBatch).count (f, .wake)
    = if (p.status f).isWoken then 1 else 0
  waiters_count : ∀ f fut, (p.futures fut).waiters.count f
    = if (p.status f).park? = some (.future fut) then 1 else 0
  future_known : ∀ f fut, (p.status f).park? = some (.future fut) → fut < p.nextFuture
  parkedOn_iff : ∀ f op, p.parkedOn.get? f = some op ↔ (p.status f).park? = some (.op op)
  waiting_park : ∀ f op, p.waiting.get? op = some (.fiber f) → (p.status f).park? = some (.op op)
  parked_iff : ∀ f id, p.parked.get? id = some f
    ↔ ∃ ids, (p.status f).park? = some (.hook ids) ∧ id ∈ ids
  hook_ne_nil : ∀ f ids, (p.status f).park? = some (.hook ids) → ids ≠ []

structure Jobs (p : Pool) : Prop where
  children_request : ∀ f id, f ∈ p.childrenOf id →
    ∃ j, (p.status f).job? = some j ∧ j.requestId = some id
  serving_iff : ∀ f id, p.requestFibers.get? id = some f ↔ (p.status f).serving? = some id
  handler_own : ∀ f j id, (p.status f).job? = some j → j.body = .handler id →
    j.requestId = none ∧ j.descends = some id
  handler_unique : ∀ f g j k id, (p.status f).job? = some j → (p.status g).job? = some k →
    j.body = .handler id → k.body = .handler id → f = g
  future_open : ∀ f j, (p.status f).job? = some j → j.future < p.nextFuture
    ∧ (p.futures j.future).result = none ∧ (p.futures j.future).ofJob = true
  future_unique : ∀ f g j k, (p.status f).job? = some j → (p.status g).job? = some k →
    j.future = k.future → f = g

structure Walk (p : Pool) : Prop where
  todo_nodup : p.todo.Nodup
  todo_waits : ∀ f ∈ p.todo, (p.status f).isWaiting = true

structure Inv (p : Pool) : Prop extends Places p, Parks p, Jobs p, Walk p

theorem inv_init : Inv init where
  idle_count := by simp [init]
  handed_count := by simp [init]
  pending_count := by simp [init]
  absent_iff := by simp [init]
  alive := by simp [init]
  running_iff := by simp [init, Status.isRunning]
  woken_count := by simp [init, Status.isWoken]
  waiters_count := by simp [init, Status.park?, Future.fresh]
  future_known := by simp [init, Status.park?]
  parkedOn_iff := by simp [init, Status.park?]
  waiting_park := by simp [init]
  parked_iff := by simp [init, Status.park?]
  hook_ne_nil := by simp [init, Status.park?]
  children_request := by
    intro f id h
    obtain ⟨m, hm, -⟩ := mem_childrenOf.mp h
    simp [init] at hm
  serving_iff := by simp [init, Status.serving?]
  handler_own := by simp [init, Status.job?]
  handler_unique := by simp [init, Status.job?]
  future_open := by simp [init, Status.job?]
  future_unique := by simp [init, Status.job?]
  todo_nodup := by simp [init]
  todo_waits := by simp [init]

/-! ## Frames -/

/-- Whatever happens inside jobs leaves the places alone. -/
lemma Places.frame {p q : Pool} (h : Places p) (hidle : q.idle = p.idle)
    (hready : ∀ f j, (q.ready ++ q.readyBatch).count (f, .job j)
      = (p.ready ++ p.readyBatch).count (f, .job j))
    (hpending : ∀ x, (q.pending ++ q.startBatch).count x = (p.pending ++ p.startBatch).count x)
    (hcreated : q.fibersCreated = p.fibersCreated)
    (hstatus : ∀ f, q.status f = p.status f
      ∨ ((p.status f).isBusy = true ∧ (q.status f).isBusy = true))
    (hrunning : ∀ f, (q.status f).isRunning = true ↔ q.running = some f) : Places q := by
  have key : ∀ f (s : Status), s.isBusy = false → (q.status f = s ↔ p.status f = s) := by
    intro f s hs
    rcases hstatus f with he | ⟨hp, hq⟩
    · rw [he]
    · constructor
      · rintro rfl
        exact absurd hq (by simp [hs])
      · rintro rfl
        exact absurd hp (by simp [hs])
  exact
    { idle_count := fun f => by rw [hidle, h.idle_count f, if_congr (key f .idle rfl) rfl rfl]
      handed_count := fun f j => by
        rw [hready, h.handed_count f j, if_congr (key f (.handed j) rfl) rfl rfl]
      pending_count := fun f j => by
        rw [hpending, h.pending_count f j, if_congr (key f (.pending j) rfl) rfl rfl]
      absent_iff := fun f => by rw [hcreated, key f .absent rfl, h.absent_iff f]
      alive := fun f => by rw [Ne, key f .terminated rfl]; exact h.alive f
      running_iff := hrunning }

/-- Whoever is not suspended inside a job is in none of the tables of parked fibers. -/
lemma Parks.frame {p q : Pool} (h : Parks p)
    (hready : ∀ f, (q.ready ++ q.readyBatch).count (f, .wake)
      = (p.ready ++ p.readyBatch).count (f, .wake))
    (hwaiters : ∀ fut, (q.futures fut).waiters = (p.futures fut).waiters)
    (hnext : p.nextFuture ≤ q.nextFuture) (hparkedOn : q.parkedOn = p.parkedOn)
    (hwaiting : ∀ f op, q.waiting.get? op = some (.fiber f) → p.waiting.get? op = some (.fiber f))
    (hparked : q.parked = p.parked)
    (hpark : ∀ f, (q.status f).park? = (p.status f).park?) : Parks q where
  woken_count f := by rw [hready, h.woken_count f, Status.isWoken_congr (hpark f)]
  waiters_count f fut := by rw [hwaiters, h.waiters_count f fut, hpark]
  future_known f fut := by
    rw [hpark]
    exact fun hf => Nat.lt_of_lt_of_le (h.future_known f fut hf) hnext
  parkedOn_iff f op := by rw [hparkedOn, hpark]; exact h.parkedOn_iff f op
  waiting_park f op := by
    rw [hpark]
    exact fun hw => h.waiting_park f op (hwaiting f op hw)
  parked_iff f id := by rw [hparked, hpark]; exact h.parked_iff f id
  hook_ne_nil f ids := by rw [hpark]; exact h.hook_ne_nil f ids

/-- Switching from and to a job, and settling the futures of user code, leave the jobs alone. -/
lemma Jobs.frame {p q : Pool} (h : Jobs p) (hchildren : q.children = p.children)
    (hrequest : q.requestFibers = p.requestFibers) (hnext : p.nextFuture ≤ q.nextFuture)
    (hfutures : ∀ fut, fut < p.nextFuture → (p.futures fut).ofJob = true →
      (p.futures fut).result = none →
      (q.futures fut).result = none ∧ (q.futures fut).ofJob = true)
    (hjob : ∀ f, (q.status f).job? = (p.status f).job?)
    (hserving : ∀ f, (q.status f).serving? = (p.status f).serving?) : Jobs q where
  children_request f id := by
    rw [childrenOf, hchildren, hjob]
    exact h.children_request f id
  serving_iff f id := by rw [hrequest, hserving]; exact h.serving_iff f id
  handler_own f j id := by rw [hjob]; exact h.handler_own f j id
  handler_unique f g j k id := by rw [hjob, hjob]; exact h.handler_unique f g j k id
  future_open f j := by
    rw [hjob]
    intro hj
    obtain ⟨hlt, hopen, hof⟩ := h.future_open f j hj
    exact ⟨Nat.lt_of_lt_of_le hlt hnext, hfutures j.future hlt hof hopen⟩
  future_unique f g j k := by rw [hjob, hjob]; exact h.future_unique f g j k

lemma Walk.frame {p q : Pool} (h : Walk p) (htodo : q.todo = p.todo)
    (hwaits : ∀ f ∈ p.todo, (p.status f).isWaiting = true → (q.status f).isWaiting = true) :
    Walk q where
  todo_nodup := htodo ▸ h.todo_nodup
  todo_waits f hf := by
    rw [htodo] at hf
    exact hwaits f hf (h.todo_waits f hf)

/-- A fiber the walk does not visit may do as it likes. -/
lemma Walk.elsewhere {p q : Pool} (h : Walk p) {f : FiberId} (htodo : q.todo = p.todo)
    (hfree : f ∉ p.todo) (hstatus : ∀ g, g ≠ f → q.status g = p.status g) : Walk q :=
  h.frame htodo fun g hg hwait => by
    have hne : g ≠ f := fun e => hfree (e ▸ hg)
    rw [hstatus g hne]
    exact hwait

/-- Inside its job a fiber goes from one status to another, and nobody else moves. -/
lemma Places.move {p q : Pool} (h : Places p) {f : FiberId} {t : Status}
    (hf : (p.status f).isBusy = true) (ht : t.isBusy = true)
    (hstatus : ∀ g, q.status g = if g = f then t else p.status g)
    (hold : p.running = none ∨ p.running = some f)
    (hrunning : q.running = if t.isRunning then some f else none) (hidle : q.idle = p.idle)
    (hready : ∀ g j, (q.ready ++ q.readyBatch).count (g, .job j)
      = (p.ready ++ p.readyBatch).count (g, .job j))
    (hpending : q.pending ++ q.startBatch = p.pending ++ p.startBatch)
    (hcreated : q.fibersCreated = p.fibersCreated) : Places q := by
  refine h.frame hidle hready (fun x => by rw [hpending]) hcreated (fun g => ?_) (fun g => ?_)
  · rw [hstatus]
    split_ifs with hg
    · exact Or.inr ⟨hg ▸ hf, ht⟩
    · exact Or.inl rfl
  · rw [hstatus, hrunning]
    by_cases hg : g = f
    · simp [hg]
    · have hr : ¬ (p.status g).isRunning = true := by
        rw [h.running_iff g]
        rcases hold with e | e <;> simp [e, Ne.symm hg]
      rw [if_neg hg]
      split_ifs <;> simp [hr, Ne.symm hg]

lemma Jobs.move {p q : Pool} (h : Jobs p) {f : FiberId} {t : Status}
    (hstatus : ∀ g, q.status g = if g = f then t else p.status g)
    (hjob : t.job? = (p.status f).job?) (hserving : t.serving? = (p.status f).serving?)
    (hchildren : q.children = p.children) (hrequest : q.requestFibers = p.requestFibers)
    (hnext : q.nextFuture = p.nextFuture)
    (hfutures : ∀ fut, (q.futures fut).result = (p.futures fut).result
      ∧ (q.futures fut).ofJob = (p.futures fut).ofJob) : Jobs q := by
  refine h.frame hchildren hrequest (Nat.le_of_eq hnext.symm) (fun fut _ h₁ h₂ => ?_) (fun g => ?_)
    (fun g => ?_)
  · rw [(hfutures fut).1, (hfutures fut).2]
    exact ⟨h₂, h₁⟩
  · rw [hstatus]
    split_ifs with hg
    · rw [hg, hjob]
    · rfl
  · rw [hstatus]
    split_ifs with hg
    · rw [hg, hserving]
    · rfl

/-! ## Reading the tables -/

/-- `$idle` holds only fibers parked in `nextJob()`. -/
lemma Places.status_of_mem_idle {p : Pool} (h : Places p) {f : FiberId} (hf : f ∈ p.idle) :
    p.status f = .idle := by
  have hc := h.idle_count f
  have hpos := List.count_pos_iff.mpr hf
  by_contra hs
  rw [if_neg hs] at hc
  omega

/-- Only a fiber that was created has a job. -/
lemma Places.lt_of_job? {p : Pool} (h : Places p) {f : FiberId} {j : Job}
    (hj : (p.status f).job? = some j) : f < p.fibersCreated := by
  by_contra hge
  rw [(h.absent_iff f).mpr (Nat.le_of_not_lt hge)] at hj
  exact absurd hj (by simp [Status.job?])

/-- While `{main}` runs, a fiber with a job waits. -/
lemma Places.isWaiting_of_job? {p : Pool} (h : Places p) (hmain : p.running = none) {f : FiberId}
    {j : Job} (hj : (p.status f).job? = some j) : (p.status f).isWaiting = true := by
  have hr := h.running_iff f
  rw [hmain] at hr
  cases hs : p.status f with
  | running k st => simp [hs, Status.isRunning] at hr
  | absent | idle | terminated => simp [hs, Status.job?] at hj
  | pending k | handed k | blocked k st at' => rfl

/-- A fiber that is not suspended in `parkOn()` has no entry in `$parkedOn`. -/
lemma Parks.parkedOn_none {p : Pool} (h : Parks p) {f : FiberId}
    (hpark : ∀ op, (p.status f).park? ≠ some (.op op)) : p.parkedOn.get? f = none :=
  Option.eq_none_iff_forall_ne_some.mpr fun op hop => hpark op ((h.parkedOn_iff f op).mp hop)

/-! ## Where nobody moves -/

/-- A fresh future has no waiters, and nobody can have waited for it before it existed. -/
lemma Parks.waiters_fresh {p : Pool} (h : Parks p) {ofJob : Bool} (fut : FutureId) :
    (Function.update p.futures p.nextFuture (.fresh ofJob) fut).waiters
      = (p.futures fut).waiters := by
  rw [Function.update_apply]
  split_ifs with hf
  · subst hf
    symm
    refine List.eq_nil_iff_forall_not_mem.mpr fun f hf => ?_
    have hc := h.waiters_count f p.nextFuture
    have hpos := List.count_pos_iff.mpr hf
    split_ifs at hc with hp
    · exact absurd (h.future_known f _ hp) (Nat.lt_irrefl _)
    · omega
  · rfl

/-- Batches may be taken, futures made and observed, and `$waiting` may lose a fiber. -/
lemma Inv.still {p q : Pool} (h : Inv p)
    (hq : q = { p with
      ready := q.ready, readyBatch := q.readyBatch, pending := q.pending
      startBatch := q.startBatch, waiting := q.waiting, futures := q.futures
      nextFuture := q.nextFuture, unobserved := q.unobserved })
    (hready : ∀ x, (q.ready ++ q.readyBatch).count x = (p.ready ++ p.readyBatch).count x)
    (hpending : ∀ x, (q.pending ++ q.startBatch).count x = (p.pending ++ p.startBatch).count x)
    (hwaiting : ∀ f op, q.waiting.get? op = some (.fiber f) → p.waiting.get? op = some (.fiber f))
    (hwaiters : ∀ fut, (q.futures fut).waiters = (p.futures fut).waiters)
    (hnext : p.nextFuture ≤ q.nextFuture)
    (hfutures : ∀ fut, fut < p.nextFuture → (q.futures fut).result = (p.futures fut).result
      ∧ (q.futures fut).ofJob = (p.futures fut).ofJob) : Inv q := by
  have hstatus : q.status = p.status := by rw [hq]
  have hrunning : q.running = p.running := by rw [hq]
  refine ⟨?_, ?_, ?_, ?_⟩
  · refine h.toPlaces.frame (by rw [hq]) (fun f j => hready (f, .job j)) hpending (by rw [hq])
      (fun f => Or.inl (by rw [hstatus])) fun f => ?_
    rw [hstatus, hrunning]
    exact h.running_iff f
  · exact h.toParks.frame (fun f => hready (f, .wake)) hwaiters hnext (by rw [hq]) hwaiting
      (by rw [hq]) fun f => by rw [hstatus]
  · refine h.toJobs.frame (by rw [hq]) (by rw [hq]) hnext (fun fut hlt h₁ h₂ => ?_)
      (fun f => by rw [hstatus]) fun f => by rw [hstatus]
    rw [(hfutures fut hlt).1, (hfutures fut hlt).2]
    exact ⟨h₂, h₁⟩
  · exact h.toWalk.frame (by rw [hq]) fun f _ hw => by rw [hstatus]; exact hw

theorem inv_newFuture {p : Pool} (h : Inv p) : Inv p.newFuture := by
  refine h.still rfl (fun _ => rfl) (fun _ => rfl) (fun _ _ hw => hw) h.waiters_fresh
    (Nat.le_succ _) fun fut hlt => ?_
  simp [newFuture, Function.update_of_ne (Nat.ne_of_lt hlt)]

theorem inv_observe {p : Pool} (h : Inv p) (fut : FutureId) : Inv (p.observe fut) := by
  unfold observe
  split
  · exact h
  · refine h.still rfl (fun _ => rfl) (fun _ => rfl) (fun _ _ hw => hw) (fun fut' => ?_)
      (Nat.le_refl _) fun fut' _ => ?_
    · by_cases hf : fut' = fut <;> simp [hf]
    · by_cases hf : fut' = fut <;> simp [hf]

/-- `reportUnobserved()`. -/
theorem inv_reportUnobserved {p : Pool} (h : Inv p) : Inv { p with unobserved := [] } :=
  h.still rfl (fun _ => rfl) (fun _ => rfl) (fun _ _ hw => hw) (fun _ => rfl) (Nat.le_refl _)
    fun _ _ => ⟨rfl, rfl⟩

/-- The throwaway fiber of `awaitOpFromMain()` is not of the pool. -/
theorem inv_awaitOpFromMain {p : Pool} (h : Inv p) (op : Id) :
    Inv { p with waiting := p.waiting.set op .throwaway } := by
  refine h.still rfl (fun _ => rfl) (fun _ => rfl) (fun f op' hw => ?_) (fun _ => rfl)
    (Nat.le_refl _) fun _ _ => ⟨rfl, rfl⟩
  simp only [OrdMap.get?_set] at hw
  split_ifs at hw
  · simp at hw
  · exact hw

theorem inv_throwaway {p : Pool} (h : Inv p) (op : Id) :
    Inv { p with waiting := p.waiting.unset op } := by
  refine h.still rfl (fun _ => rfl) (fun _ => rfl) (fun f op' hw => ?_) (fun _ => rfl)
    (Nat.le_refl _) fun _ _ => ⟨rfl, rfl⟩
  simp only [OrdMap.get?_unset] at hw
  split_ifs at hw
  exact hw

theorem inv_takePending {p : Pool} (h : Inv p) (hbatch : p.startBatch = []) :
    Inv p.takePending :=
  h.still rfl (fun _ => rfl) (by simp [takePending, hbatch]) (fun _ _ hw => hw) (fun _ => rfl)
    (Nat.le_refl _) fun _ _ => ⟨rfl, rfl⟩

theorem inv_takeReady {p : Pool} (h : Inv p) (hbatch : p.readyBatch = [])
    {batch : List (FiberId × Resume)} (hperm : batch.Perm p.ready) : Inv (p.takeReady batch) :=
  h.still rfl (by simp [takeReady, hbatch, hperm.count_eq]) (fun _ => rfl) (fun _ _ hw => hw)
    (fun _ => rfl) (Nat.le_refl _) fun _ _ => ⟨rfl, rfl⟩

/-- A change of the walk alone. -/
lemma Inv.withTodo {p : Pool} (h : Inv p) {todo : List FiberId} (hnodup : todo.Nodup)
    (hwaits : ∀ f ∈ todo, (p.status f).isWaiting = true) : Inv { p with todo := todo } :=
  ⟨⟨h.idle_count, h.handed_count, h.pending_count, h.absent_iff, h.alive, h.running_iff⟩,
    ⟨h.woken_count, h.waiters_count, h.future_known, h.parkedOn_iff, h.waiting_park, h.parked_iff,
      h.hook_ne_nil⟩,
    ⟨h.children_request, h.serving_iff, h.handler_own, h.handler_unique, h.future_open,
      h.future_unique⟩, hnodup, hwaits⟩

/-! ## `spawn` -/

lemma mem_adopt {children : OrdMap Id (OrdMap FiberId Unit)} {requestId : Option Id}
    {f g : FiberId} {id : Id} :
    (∃ m, (adopt children requestId f).get? id = some m ∧ m.has g = true)
      ↔ (∃ m, children.get? id = some m ∧ m.has g = true) ∨ (requestId = some id ∧ g = f) := by
  cases requestId with
  | none => simp [adopt]
  | some r =>
      by_cases hr : id = r
      · subst hr
        cases hc : children.get? id with
        | none => simp [adopt, hc, OrdMap.has_set]
        | some m => simp [adopt, hc, OrdMap.has_set, or_comm]
      · have hr' : ¬ r = id := fun e => hr e.symm
        simp [adopt, OrdMap.get?_set, hr, hr']

/-- What a handler's job needs to be spawned: no other job is the handler of that request, and the
code that spawns it belongs to no request. -/
def Spawnable (p : Pool) (body : Body) (requestId descends : Option Id) : Prop :=
  ∀ id, body = .handler id → requestId = none ∧ descends = some id
    ∧ ∀ f j, (p.status f).job? = some j → j.body ≠ .handler id

/-- A fiber without a job gets one. -/
lemma Jobs.give {p q : Pool} (h : Jobs p) {body : Body} {requestId descends : Option Id}
    {f : FiberId} {s : Status} (hok : p.Spawnable body requestId descends)
    (hnone : (p.status f).job? = none)
    (hstatus : q.status = Function.update p.status f s)
    (hs : s.job? = some (p.newJob body requestId descends)) (hserving : s.serving? = none)
    (hchildren : q.children = adopt p.children requestId f)
    (hrequest : q.requestFibers = p.requestFibers) (hnext : q.nextFuture = p.nextFuture + 1)
    (hfutures : q.futures = Function.update p.futures p.nextFuture (.fresh true)) : Jobs q := by
  have hold : (p.status f).serving? = none := by
    cases hsv : (p.status f).serving? with
    | none => rfl
    | some id =>
        obtain ⟨j, hj, -⟩ := Status.serving?_job hsv
        rw [Status.started?_job? hj] at hnone
        exact absurd hnone (by simp)
  -- whatever has a job in `q` had it in `p`, or is `f` with the new one
  have hjob : ∀ g j, (q.status g).job? = some j →
      (g ≠ f ∧ (p.status g).job? = some j) ∨ (g = f ∧ j = p.newJob body requestId descends) := by
    intro g j hj
    rw [hstatus, Function.update_apply] at hj
    split_ifs at hj with hg
    · exact Or.inr ⟨hg, by rw [hs] at hj; exact (Option.some.inj hj).symm⟩
    · exact Or.inl ⟨hg, hj⟩
  refine
    { children_request := ?_
      serving_iff := ?_
      handler_own := ?_
      handler_unique := ?_
      future_open := ?_
      future_unique := ?_ }
  · intro g id hg
    rw [mem_childrenOf, hchildren, mem_adopt] at hg
    rcases hg with hg | ⟨rfl, rfl⟩
    · obtain ⟨j, hj, hr⟩ := h.children_request g id (mem_childrenOf.mpr hg)
      have hne : g ≠ f := by
        rintro rfl
        rw [hnone] at hj
        exact absurd hj (by simp)
      exact ⟨j, by rw [hstatus, Function.update_of_ne hne]; exact hj, hr⟩
    · exact ⟨_, by rw [hstatus, Function.update_self]; exact hs, rfl⟩
  · intro g id
    rw [hrequest, h.serving_iff g id, hstatus, Function.update_apply]
    split_ifs with hg
    · rw [hg, hold, hserving]
    · rfl
  · intro g j id hj hb
    rcases hjob g j hj with ⟨-, hj⟩ | ⟨-, rfl⟩
    · exact h.handler_own g j id hj hb
    · exact ⟨(hok id hb).1, (hok id hb).2.1⟩
  · intro g g' j k id hj hk hbj hbk
    rcases hjob g j hj with ⟨-, hj⟩ | ⟨rfl, rfl⟩ <;> rcases hjob g' k hk with ⟨-, hk⟩ | ⟨rfl, rfl⟩
    · exact h.handler_unique g g' j k id hj hk hbj hbk
    · exact absurd hbj ((hok id hbk).2.2 g j hj)
    · exact absurd hbk ((hok id hbj).2.2 g' k hk)
    · rfl
  · intro g j hj
    rw [hnext, hfutures, Function.update_apply]
    rcases hjob g j hj with ⟨-, hj⟩ | ⟨-, rfl⟩
    · obtain ⟨hlt, hopen⟩ := h.future_open g j hj
      rw [if_neg (Nat.ne_of_lt hlt)]
      exact ⟨Nat.lt_succ_of_lt hlt, hopen⟩
    · simp [newJob, Future.fresh]
  · intro g g' j k hj hk hfut
    rcases hjob g j hj with ⟨-, hj⟩ | ⟨rfl, rfl⟩ <;> rcases hjob g' k hk with ⟨-, hk⟩ | ⟨rfl, rfl⟩
    · exact h.future_unique g g' j k hj hk hfut
    · exact absurd hfut (Nat.ne_of_lt (h.future_open g j hj).1)
    · exact absurd hfut.symm (Nat.ne_of_lt (h.future_open g' k hk).1)
    · rfl

/-- The fiber parked last is handed a job. -/
lemma places_reuse {p q : Pool} (h : Places p) {f : FiberId} {j : Job} {rest : List FiberId}
    (hidle : p.idle = rest ++ [f]) (hrest : q.idle = rest)
    (hready : q.ready = p.ready ++ [(f, .job j)]) (hbatch : q.readyBatch = p.readyBatch)
    (hpending : q.pending ++ q.startBatch = p.pending ++ p.startBatch)
    (hcreated : q.fibersCreated = p.fibersCreated) (hrunning : q.running = p.running)
    (hstatus : ∀ g, q.status g = if g = f then .handed j else p.status g) : Places q := by
  obtain ⟨hi, hh, hp, ha, ht, hr⟩ := h
  have hf : p.status f = .idle := by grind
  exact
    { idle_count := by grind
      handed_count := by grind
      pending_count := by grind
      absent_iff := by grind
      alive := by grind
      running_iff := by grind [Status.isRunning] }

/-- A new fiber is made for a job. -/
lemma places_create {p q : Pool} (h : Places p) {j : Job} (hidle : q.idle = p.idle)
    (hready : q.ready ++ q.readyBatch = p.ready ++ p.readyBatch)
    (hpending : q.pending = p.pending ++ [(p.fibersCreated, j)])
    (hbatch : q.startBatch = p.startBatch) (hcreated : q.fibersCreated = p.fibersCreated + 1)
    (hrunning : q.running = p.running)
    (hstatus : ∀ g, q.status g = if g = p.fibersCreated then .pending j else p.status g) :
    Places q := by
  obtain ⟨hi, hh, hp, ha, ht, hr⟩ := h
  have hf : p.status p.fibersCreated = .absent := by grind
  exact
    { idle_count := by grind
      handed_count := by grind
      pending_count := by grind
      absent_iff := by grind
      alive := by grind
      running_iff := by grind [Status.isRunning] }

theorem inv_spawn {p : Pool} (h : Inv p) {body : Body} {requestId descends : Option Id}
    (hok : p.Spawnable body requestId descends) : Inv (p.spawn body requestId descends) := by
  unfold spawn
  cases hlast : p.idle.getLast? with
  | some f =>
      obtain ⟨rest, hrest⟩ := List.getLast?_eq_some_iff.mp hlast
      have hf : p.status f = .idle := h.status_of_mem_idle (by simp [hrest])
      have hstatus := fun g => Function.update_apply p.status f
        (.handed (p.newJob body requestId descends)) g
      refine ⟨?_, ?_, ?_, ?_⟩
      · exact places_reuse h.toPlaces hrest (by simp [hrest]) rfl rfl rfl rfl rfl hstatus
      · exact h.toParks.frame (by simp [List.count_append]) h.waiters_fresh (Nat.le_succ _) rfl
          (fun _ _ hw => hw) rfl (fun g => by simp only [hstatus]; grind [Status.park?])
      · exact h.toJobs.give hok (f := f) (by simp [hf, Status.job?]) rfl rfl rfl rfl rfl rfl rfl
      · exact h.toWalk.frame rfl fun g _ hg => by simp only [hstatus]; grind [Status.isWaiting]
  | none =>
      have hf : p.status p.fibersCreated = .absent := (h.absent_iff _).mpr (Nat.le_refl _)
      have hstatus := fun g => Function.update_apply p.status p.fibersCreated
        (.pending (p.newJob body requestId descends)) g
      refine ⟨?_, ?_, ?_, ?_⟩
      · exact places_create h.toPlaces rfl rfl rfl rfl rfl rfl hstatus
      · exact h.toParks.frame (fun _ => rfl) h.waiters_fresh (Nat.le_succ _) rfl
          (fun _ _ hw => hw) rfl (fun g => by simp only [hstatus]; grind [Status.park?])
      · exact h.toJobs.give hok (f := p.fibersCreated) (by simp [hf, Status.job?]) rfl rfl rfl rfl
          rfl rfl rfl
      · exact h.toWalk.frame rfl fun g _ hg => by simp only [hstatus]; grind [Status.isWaiting]

/-- The fiber `spawn()` picks. -/
def spawnTarget (p : Pool) : FiberId := p.idle.getLast?.getD p.fibersCreated

/-- The fiber that got the job had none. -/
lemma spawnTarget_job? {p : Pool} (h : Places p) : (p.status p.spawnTarget).job? = none := by
  unfold spawnTarget
  cases hlast : p.idle.getLast? with
  | some f => simp [h.status_of_mem_idle (List.mem_of_getLast? hlast), Status.job?]
  | none => simp [(h.absent_iff p.fibersCreated).mpr (Nat.le_refl _), Status.job?]

lemma spawn_status (p : Pool) (body : Body) (requestId descends : Option Id) (g : FiberId) :
    (p.spawn body requestId descends).status g = if g = p.spawnTarget then
      (if p.idle = [] then .pending (p.newJob body requestId descends)
        else .handed (p.newJob body requestId descends)) else p.status g := by
  unfold spawn spawnTarget
  cases hlast : p.idle.getLast? with
  | some f =>
      have hne : p.idle ≠ [] := fun e => by simp [e] at hlast
      simp [Function.update_apply, hne]
  | none => simp [Function.update_apply, List.getLast?_eq_none_iff.mp hlast]

lemma job?_spawn (p : Pool) (body : Body) (requestId descends : Option Id) (g : FiberId) :
    ((p.spawn body requestId descends).status g).job? = if g = p.spawnTarget then
      some (p.newJob body requestId descends) else (p.status g).job? := by
  rw [spawn_status]
  split_ifs <;> rfl

/-- The first of several new handlers is spawned, and the others are still new. -/
lemma inv_spawnHandler {p : Pool} (h : Inv p) {id : Id} {ids : List Id} (hnodup : (id :: ids).Nodup)
    (hnew : ∀ i ∈ id :: ids, ∀ f j, (p.status f).job? = some j → j.body ≠ .handler i) :
    Inv (p.spawn (.handler id) none (some id))
      ∧ ∀ i ∈ ids, ∀ f j, ((p.spawn (.handler id) none (some id)).status f).job? = some j →
          j.body ≠ .handler i := by
  rw [List.nodup_cons] at hnodup
  refine ⟨inv_spawn h fun i hi => ?_, fun i hi f j hj => ?_⟩
  · obtain rfl := Body.handler.inj hi
    exact ⟨rfl, rfl, hnew id List.mem_cons_self⟩
  · rw [job?_spawn] at hj
    split_ifs at hj with hf
    · rw [← Option.some.inj hj]
      exact fun e => hnodup.1 (Body.handler.inj e ▸ hi)
    · exact hnew i (List.mem_cons_of_mem _ hi) f j hj

/-- Spawning handlers one after another keeps what spawning one of them keeps. -/
theorem spawnHandlers_induction {P : Pool → Prop}
    (hP : ∀ p id, Inv p → P p → P (p.spawn (.handler id) none (some id)))
    {p : Pool} (h : Inv p) (hp : P p) {ids : List Id} (hnodup : ids.Nodup)
    (hnew : ∀ id ∈ ids, ∀ f j, (p.status f).job? = some j → j.body ≠ .handler id) :
    Inv (p.spawnHandlers none ids) ∧ P (p.spawnHandlers none ids) := by
  induction ids generalizing p with
  | nil => exact ⟨h, hp⟩
  | cons id ids ih =>
      obtain ⟨hinv, hnew'⟩ := inv_spawnHandler h hnodup hnew
      exact ih hinv (hP p id h hp) (List.nodup_cons.mp hnodup).2 hnew'

end Pool

end Ignis
