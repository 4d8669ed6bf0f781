import Mathlib.Algebra.GroupWithZero.Nat
import Mathlib.Algebra.Order.BigOperators.Group.List
import Mathlib.Algebra.Order.Group.Nat
import Ignis.Server.Process

/-!
# The numbers of `/_ignis/metrics`

Every loop counts for itself and publishes its numbers into its own reactor, once a turn.  The
endpoint sums them over the reactors that are in the registry at that moment (`totals`).  A reactor
that leaves takes its numbers along, and the thread that follows starts from zero: what is served
as a counter can fall (`handled_falls`).

It does not fall in a run in which no reactor leaves with a number of its own
(`counters_count_up`).  A pass of `totals` holds the lock of the registry and not the loops, so the
invariant has to hold between any two of its loads: what the pass has summed so far is at most what
the reactors it has read publish by now, and with the rest it is at least what any scrape before it
has shown.
-/

namespace Ignis.Metrics

open StepSystem

/-! ## What a loop publishes -/

/-- The slots of `Published` that a loop sets by name. -/
inductive Field where
  | budget
  | queueDepth
  | queued
  | queuedPeak
  | queuedAdmitted
  | rejected
  | fibersIdle
  | fibersCreated
  | resumes
  | handled
  deriving DecidableEq, Repr

/-- The names `Published::set` knows. -/
def Field.ofName (name : String) : Option Field :=
  if name = "budget" then some .budget
  else if name = "queue_depth" then some .queueDepth
  else if name = "queued" then some .queued
  else if name = "queued_peak" then some .queuedPeak
  else if name = "queued_admitted" then some .queuedAdmitted
  else if name = "rejected" then some .rejected
  else if name = "fibers_idle" then some .fibersIdle
  else if name = "fibers_created" then some .fibersCreated
  else if name = "resumes" then some .resumes
  else if name = "handled" then some .handled
  else none

structure Published where
  slot : Field → ℕ
  /-- 0 as long as this loop has never published. -/
  atMs : ℕ

/-- `Published::default`. -/
def Published.initial : Published := ⟨fun _ => 0, 0⟩

def Published.set (p : Published) (field : String) (v : ℕ) : Published :=
  match Field.ofName field with
  | some f => { p with slot := Function.update p.slot f v }
  | none => p

def Published.stamp (p : Published) (nowMs : ℕ) : Published := { p with atMs := nowMs }

/-- The counts a loop keeps, by the names of its statics. -/
inductive Counter where
  | handled
  | rejected
  | admittedAfterQueue
  | fibersCreated
  | resumes
  deriving DecidableEq, Repr

/-- The statics of `Loop` that `publishStats` reads. -/
structure Stats where
  counters : Counter → ℤ
  fiberBudget : ℤ
  queueDepth : ℤ
  /-- `\count(self::$requestQueue)`. -/
  requestQueue : ℤ
  queueHead : ℤ
  queuedPeak : ℤ
  /-- `\count(self::$idle)`. -/
  idle : ℤ

def Stats.initial : Stats := ⟨fun _ => 0, 0, 0, 0, 0, 0, 0⟩

/-- `PHP_INT_MAX`. -/
def phpIntMax : ℤ := 9223372036854775807

/-- `++` on a static that is declared `int`: past its maximal value it throws. -/
def increment (n : ℤ) : ℤ := if n < phpIntMax then n + 1 else n

/-- The array `publishStats` hands over. -/
def publishStats (s : Stats) : List (String × ℤ) :=
  [("budget", s.fiberBudget),
   ("queue_depth", s.queueDepth),
   ("queued", s.requestQueue - s.queueHead),
   ("queued_peak", s.queuedPeak),
   ("queued_admitted", s.counters .admittedAfterQueue),
   ("rejected", s.counters .rejected),
   ("fibers_idle", s.idle),
   ("fibers_created", s.counters .fibersCreated),
   ("resumes", s.counters .resumes),
   ("handled", s.counters .handled)]

/-- The slot a count is published into. -/
def Counter.field : Counter → Field
  | .handled => .handled
  | .rejected => .rejected
  | .admittedAfterQueue => .queuedAdmitted
  | .fibersCreated => .fibersCreated
  | .resumes => .resumes

/-- An entry of the array for the slot of a count holds that count. -/
lemma counter_of_mem_publishStats {s : Stats} {e : String × ℤ} {c : Counter}
    (he : e ∈ publishStats s) (hfield : Field.ofName e.1 = some c.field) : e.2 = s.counters c := by
  simp only [publishStats, List.mem_cons, List.not_mem_nil, or_false] at he
  rcases he with rfl | rfl | rfl | rfl | rfl | rfl | rfl | rfl | rfl | rfl <;>
    cases c <;> simp_all [Field.ofName, Counter.field]

/-! ## `Totals` -/

/-- `u64`, and `usize` on a 64-bit machine. -/
def addU64 (a b : ℕ) : ℕ := (a + b) % 2 ^ 64

structure Totals where
  pending : ℕ
  ops : ℕ
  oldestPublishAgeMs : ℕ
  /-- A setting, the same on every thread: the maximum, as the next. -/
  budget : ℕ
  queueDepth : ℕ
  queued : ℕ
  queuedPeak : ℕ
  queuedAdmitted : ℕ
  rejected : ℕ
  handled : ℕ
  fibersIdle : ℕ
  fibersCreated : ℕ
  resumes : ℕ
  deriving DecidableEq, Repr

/-- `Totals::default`. -/
def Totals.initial : Totals := ⟨0, 0, 0, 0, 0, 0, 0, 0, 0, 0, 0, 0, 0⟩

/-- What `Totals::add` reads of a reactor, each with a load of its own. -/
inductive Load where
  | pending
  | ops
  | field (f : Field)
  | age
  deriving DecidableEq, Repr

/-- The loads of one `Totals::add`, in order. -/
def Load.order : List Load :=
  [.pending, .ops, .field .budget, .field .queueDepth, .field .queued, .field .queuedPeak,
    .field .queuedAdmitted, .field .rejected, .field .handled, .field .fibersIdle,
    .field .fibersCreated, .field .resumes, .age]

/-- One line of `Totals::add`. -/
def Totals.load (t : Totals) (r : Reactor.State) (p : Published) (nowMs : ℕ) : Load → Totals
  | .pending => { t with pending := addU64 t.pending r.answers.keys.card }
  | .ops => { t with ops := addU64 t.ops r.inflight }
  | .field .budget => { t with budget := max t.budget (p.slot .budget) }
  | .field .queueDepth => { t with queueDepth := max t.queueDepth (p.slot .queueDepth) }
  | .field .queued => { t with queued := addU64 t.queued (p.slot .queued) }
  | .field .queuedPeak => { t with queuedPeak := addU64 t.queuedPeak (p.slot .queuedPeak) }
  | .field .queuedAdmitted =>
      { t with queuedAdmitted := addU64 t.queuedAdmitted (p.slot .queuedAdmitted) }
  | .field .rejected => { t with rejected := addU64 t.rejected (p.slot .rejected) }
  | .field .handled => { t with handled := addU64 t.handled (p.slot .handled) }
  | .field .fibersIdle => { t with fibersIdle := addU64 t.fibersIdle (p.slot .fibersIdle) }
  | .field .fibersCreated =>
      { t with fibersCreated := addU64 t.fibersCreated (p.slot .fibersCreated) }
  | .field .resumes => { t with resumes := addU64 t.resumes (p.slot .resumes) }
  | .age =>
      if p.atMs = 0 then t
      else { t with oldestPublishAgeMs := max t.oldestPublishAgeMs (nowMs - p.atMs) }

/-- What the totals have for a count. -/
def Totals.counter (t : Totals) : Counter → ℕ
  | .handled => t.handled
  | .rejected => t.rejected
  | .admittedAfterQueue => t.queuedAdmitted
  | .fibersCreated => t.fibersCreated
  | .resumes => t.resumes

lemma counter_load_field (t : Totals) (r : Reactor.State) (p : Published) (nowMs : ℕ)
    (c : Counter) :
    (t.load r p nowMs (.field c.field)).counter c = addU64 (t.counter c) (p.slot c.field) := by
  cases c <;> rfl

lemma counter_load_of_ne {l : Load} {c : Counter} (hne : l ≠ .field c.field) (t : Totals)
    (r : Reactor.State) (p : Published) (nowMs : ℕ) :
    (t.load r p nowMs l).counter c = t.counter c := by
  cases l with
  | pending | ops => rfl
  | age =>
      simp only [Totals.load]
      split <;> rfl
  | field f => cases f <;> cases c <;> first | rfl | exact absurd rfl hne

/-! ## The document -/

inductive Kind where
  | gauge
  | counter
  deriving DecidableEq, Repr

inductive Value where
  | whole (n : ℕ)
  /-- `as f64 / 1000.0`. -/
  | thousandths (n : ℕ)
  deriving DecidableEq, Repr

/-- The three lines of one metric. -/
structure Metric where
  name : String
  kind : Kind
  help : String
  label : Option (String × String)
  value : Value
  deriving DecidableEq, Repr

def metric (name : String) (kind : Kind) (help : String) (value : ℕ) : Metric :=
  ⟨name, kind, help, none, .whole value⟩

/-- What `render` reads besides the totals: the clock, `stalled_threads` and two counters of the
process. -/
structure Readings where
  uptime : ℕ
  threads : ℕ
  stalled : ℕ
  restarts : ℕ
  parkFailed : ℕ
  deriving DecidableEq, Repr

def render (r : Readings) (t : Totals) : List Metric :=
  [⟨"ignis_build_info", .gauge, "Always 1; the label carries the version.",
      some ("version", "0.1.0-rc.1"), .whole 1⟩,
   metric "ignis_uptime_seconds" .gauge "Seconds since the runtime started." r.uptime,
   metric "ignis_threads" .gauge "PHP worker threads registered for dispatch." r.threads,
   metric "ignis_threads_stalled" .gauge
      "Threads with pending requests that have not entered the reactor for 1 s." r.stalled,
   metric "ignis_thread_restarts_total" .counter
      "Worker threads respawned by the supervisor (ADR-0012)." r.restarts,
   metric "ignis_park_failed_total" .counter
      "Calls whose policy says park that could not park and blocked the thread (ADR-0037 §4)."
      r.parkFailed,
   metric "ignis_requests_inflight" .gauge
      "Requests dispatched to a PHP thread and not yet answered." t.pending,
   metric "ignis_ops_inflight" .gauge "Reactor operations submitted and not yet completed." t.ops,
   ⟨"ignis_stats_published_age_seconds", .gauge,
      "Age of the oldest PHP loop's published numbers; grows without bound while a loop is wedged.",
      none, .thousandths t.oldestPublishAgeMs⟩,
   metric "ignis_fiber_budget" .gauge
      "Concurrent request fibers allowed per thread (ADR-0019); 0 = unlimited." t.budget,
   metric "ignis_queue_depth_limit" .gauge
      "Waiting requests allowed past the budget before a 503, per thread." t.queueDepth,
   metric "ignis_requests_queued" .gauge "Requests waiting for a fiber right now." t.queued,
   metric "ignis_requests_queued_peak" .gauge
      "High-water mark of the wait queue, summed over threads." t.queuedPeak,
   metric "ignis_requests_queued_admitted_total" .counter
      "Requests that waited in the queue and were then admitted." t.queuedAdmitted,
   metric "ignis_requests_rejected_total" .counter
      "Requests answered 503 because the queue was full." t.rejected,
   metric "ignis_requests_handled_total" .counter
      "Requests the PHP side has finished answering." t.handled,
   metric "ignis_fibers_idle" .gauge
      "Parked fibers in the pool, reusable without allocation (V-4)." t.fibersIdle,
   metric "ignis_fibers_created_total" .counter "Fibers the pool has had to allocate."
      t.fibersCreated,
   metric "ignis_fiber_resumes_total" .counter "Fiber starts and resumes performed by the loops."
      t.resumes]

/-- The value a document has under a name. -/
def sample (document : List Metric) (name : String) : Option Value :=
  (document.find? fun m => m.name = name).map Metric.value

/-- The metric a count is served as. -/
def Counter.metric : Counter → String
  | .handled => "ignis_requests_handled_total"
  | .rejected => "ignis_requests_rejected_total"
  | .admittedAfterQueue => "ignis_requests_queued_admitted_total"
  | .fibersCreated => "ignis_fibers_created_total"
  | .resumes => "ignis_fiber_resumes_total"

lemma sample_render (r : Readings) (t : Totals) (c : Counter) :
    sample (render r t) c.metric = some (.whole (t.counter c)) := by
  cases c <;> simp [sample, render, Metrics.metric, Counter.metric, Totals.counter]

/-! ## The process and its scrapes -/

/-- A pass of `totals`, from the moment it has the lock of the registry. -/
structure Pass where
  readings : Readings
  totals : Totals
  /-- The loads to come. -/
  rest : List (ℕ × Load)

structure Scrape where
  readings : Readings
  totals : Totals

def Scrape.document (scrape : Scrape) : List Metric := render scrape.readings scrape.totals

structure State where
  process : Process.State
  /-- The statics of every thread's loop. -/
  stats : ℕ → Stats
  published : ℕ → Published
  /-- The thread is in `ignis_publish_stats`: the entries it has still to store. -/
  publishing : ℕ → Option (List (String × ℤ))
  pass : Option Pass
  /-- What has been served, oldest first. -/
  rendered : List Scrape

def init (spinUs : ℕ) : State where
  process := Process.init spinUs
  stats := fun _ => Stats.initial
  published := fun _ => Published.initial
  publishing := fun _ => none
  pass := none
  rendered := []

inductive Action where
  /-- A step of the process. -/
  | process (a : Process.Action)
  | increment (i : ℕ) (c : Counter)
  /-- The loop of thread `i` changes one of its other statics. -/
  | gauges (i : ℕ) (fiberBudget queueDepth requestQueue queueHead queuedPeak idle : ℤ)
  /-- The loop calls `ignis_publish_stats`. -/
  | publish (i : ℕ)
  /-- The next entry of the array is stored. -/
  | store (i : ℕ)
  /-- The call returns. -/
  | stamp (i : ℕ) (nowMs : ℕ)
  /-- A request for `/_ignis/metrics` comes to `totals` and gets the lock. -/
  | lock (readings : Readings)
  | load (nowMs : ℕ)
  /-- The pass is over and the document is written. -/
  | unlock

/-- The steps of the process that take the lock of the registry. -/
def takesLock : Process.Action → Bool
  | .serve _ | .leaveDispatch _ | .unregister _ | .request _ _ _ | .drainLock => true
  | _ => false

/-- The thread whose script takes the step. -/
def scriptOf : Process.Action → Option ℕ
  | .serve i | .leaveDispatch i | .scriptEnd i => some i
  | _ => none

/-- The reactor the step takes out of the registry. -/
def leaves : Process.Action → Option ℕ
  | .leaveDispatch i | .unregister i => some i
  | _ => none

/-- The script of the thread is running, and not inside `ignis_publish_stats`. -/
def State.free (s : State) (i : ℕ) : Bool := s.process.threads i = .running ∧ s.publishing i = none

def stepProcess (supervised : Bool) (s : State) (a : Process.Action) : Option State :=
  if (takesLock a ∧ s.pass.isSome) ∨ (∃ i ∈ scriptOf a, s.publishing i ≠ none) then none
  else (Process.step supervised s.process a).map fun p => { s with process := p }

def stepIncrement (s : State) (i : ℕ) (c : Counter) : Option State :=
  if s.free i then
    let st := s.stats i
    some { s with
      stats := Function.update s.stats i
        { st with counters := Function.update st.counters c (increment (st.counters c)) } }
  else none

def stepStore (s : State) (i : ℕ) : Option State :=
  match s.publishing i with
  | some ((name, lval) :: rest) => some { s with
      -- `lval.max(0) as u64`
      published := Function.update s.published i ((s.published i).set name lval.toNat)
      publishing := Function.update s.publishing i (some rest) }
  | _ => none

def stepLoad (s : State) (nowMs : ℕ) : Option State :=
  match s.pass with
  | some ⟨readings, totals, (i, l) :: rest⟩ => some { s with
      pass := some
        ⟨readings, totals.load (s.process.reactors i) (s.published i) nowMs l, rest⟩ }
  | _ => none

def step (supervised : Bool) (s : State) : Action → Option State
  | .process a => stepProcess supervised s a
  | .increment i c => stepIncrement s i c
  | .gauges i fiberBudget queueDepth requestQueue queueHead queuedPeak idle =>
      if s.free i then
        some { s with
          stats := Function.update s.stats i
            ⟨(s.stats i).counters, fiberBudget, queueDepth, requestQueue, queueHead, queuedPeak,
              idle⟩ }
      else none
  | .publish i =>
      if s.free i then
        some { s with
          publishing := Function.update s.publishing i (some (publishStats (s.stats i))) }
      else none
  | .store i => stepStore s i
  | .stamp i nowMs =>
      if s.publishing i = some [] then
        some { s with
          published := Function.update s.published i ((s.published i).stamp nowMs)
          publishing := Function.update s.publishing i none }
      else none
  | .lock readings =>
      if s.pass.isSome ∨ s.process.drain.locked then none
      else
        some { s with pass := some ⟨readings, .initial,
          s.process.registry.flatMap fun i => Load.order.map fun l => (i, l)⟩ }
  | .load nowMs => stepLoad s nowMs
  | .unlock =>
      match s.pass with
      | some ⟨readings, totals, []⟩ => some { s with
          pass := none
          rendered := s.rendered ++ [⟨readings, totals⟩] }
      | _ => none

/-! ## When a count does not fall -/

/-- What the reactors of a list publish of a count. -/
def State.total (s : State) (c : Counter) (l : List ℕ) : ℕ :=
  (l.map fun i => (s.published i).slot c.field).sum

/-- No reactor leaves the registry with a count of its own, and the sum fits into its `u64`. -/
def Kept (c : Counter) (s : State) : Action → Prop
  | .process a => ∀ i ∈ leaves a, i ∈ s.process.registry → (s.published i).slot c.field = 0
  | .load _ => s.total c s.process.registry < 2 ^ 64
  | _ => True

instance (c : Counter) (s : State) (a : Action) : Decidable (Kept c s a) := by
  unfold Kept
  split <;> infer_instance

/-- The reactors the pass has still to read for a count. -/
def Pass.unread (p : Pass) (c : Counter) : List ℕ :=
  (p.rest.filter fun e => e.2 = .field c.field).map Prod.fst

@[simp] lemma total_nil (s : State) (c : Counter) : s.total c [] = 0 := rfl

@[simp] lemma total_cons (s : State) (c : Counter) (i : ℕ) (l : List ℕ) :
    s.total c (i :: l) = (s.published i).slot c.field + s.total c l := by
  simp [State.total]

@[simp] lemma total_append (s : State) (c : Counter) (l l' : List ℕ) :
    s.total c (l ++ l') = s.total c l + s.total c l' := by
  simp [State.total]

lemma total_mono {s s' : State} {c : Counter}
    (h : ∀ i, (s.published i).slot c.field ≤ (s'.published i).slot c.field) (l : List ℕ) :
    s.total c l ≤ s'.total c l :=
  List.sum_le_sum fun i _ => h i

/-- A reactor without a count can be taken out of the sum. -/
lemma total_filter {s : State} {c : Counter} {i : ℕ} {l : List ℕ}
    (hi : i ∈ l → (s.published i).slot c.field = 0) :
    s.total c (l.filter fun j => j ≠ i) = s.total c l := by
  induction l with
  | nil => rfl
  | cons j l ih =>
      have htail := ih fun hmem => hi (List.mem_cons_of_mem j hmem)
      by_cases hj : j = i
      · subst hj
        rw [List.filter_cons_of_neg (by simp), htail, total_cons, hi List.mem_cons_self, zero_add]
      · rw [List.filter_cons_of_pos (by simpa using hj), total_cons, total_cons, htail]

/-- At its start a pass has the whole registry to read. -/
lemma unread_start (readings : Readings) (c : Counter) (registry : List ℕ) :
    Pass.unread ⟨readings, .initial, registry.flatMap fun i => Load.order.map fun l => (i, l)⟩ c
      = registry := by
  induction registry with
  | nil => rfl
  | cons i registry ih =>
      have hone : ((Load.order.map fun l => (i, l)).filter
          fun e => e.2 = .field c.field).map Prod.fst = [i] := by
        cases c <;> rfl
      simp only [Pass.unread, List.flatMap_cons, List.filter_append, List.map_append] at ih ⊢
      rw [hone, ih, List.singleton_append]

/-- What holds in every state of such a run, for one count. -/
structure Counts (c : Counter) (s : State) : Prop where
  /-- A loop never publishes more than it has counted. -/
  behind : ∀ i, ((s.published i).slot c.field : ℤ) ≤ (s.stats i).counters c
  handedOver : ∀ i es, s.publishing i = some es → ∀ e ∈ es, Field.ofName e.1 = some c.field →
    e.2 = (s.stats i).counters c
  /-- Between two passes. -/
  resting : s.pass = none → ∀ d ∈ s.rendered,
    d.totals.counter c ≤ s.total c s.process.registry
  /-- In a pass. -/
  passing : ∀ p, s.pass = some p → ∃ done, s.process.registry = done ++ p.unread c ∧
    p.totals.counter c ≤ s.total c done ∧
    ∀ d ∈ s.rendered, d.totals.counter c ≤ p.totals.counter c + s.total c (p.unread c)
  upward : (s.rendered.map fun d => d.totals.counter c).Pairwise (· ≤ ·)

lemma counts_init (c : Counter) (spinUs : ℕ) : Counts c (init spinUs) where
  behind := fun _ => le_refl _
  handedOver := nofun
  resting := fun _ => nofun
  passing := nofun
  upward := .nil

/-- A step that leaves the process, the pass and the scrapes alone, and may publish more. -/
lemma Counts.of_published {c : Counter} {s s' : State} (h : Counts c s)
    (hprocess : s'.process = s.process) (hpass : s'.pass = s.pass)
    (hrendered : s'.rendered = s.rendered)
    (hpublished : ∀ i, (s.published i).slot c.field ≤ (s'.published i).slot c.field)
    (hbehind : ∀ i, ((s'.published i).slot c.field : ℤ) ≤ (s'.stats i).counters c)
    (hhandedOver : ∀ i es, s'.publishing i = some es → ∀ e ∈ es,
      Field.ofName e.1 = some c.field → e.2 = (s'.stats i).counters c) : Counts c s' where
  behind := hbehind
  handedOver := hhandedOver
  resting := by
    intro hnone d hd
    rw [hprocess]
    rw [hpass] at hnone
    rw [hrendered] at hd
    exact (h.resting hnone d hd).trans (total_mono hpublished _)
  passing := by
    intro p hp
    rw [hpass] at hp
    obtain ⟨done, hdone, hle, hd⟩ := h.passing p hp
    refine ⟨done, hprocess ▸ hdone, hle.trans (total_mono hpublished _), fun d hmem => ?_⟩
    rw [hrendered] at hmem
    exact (hd d hmem).trans (Nat.add_le_add_left (total_mono hpublished _) _)
  upward := hrendered ▸ h.upward

/-- What a step of the process can do to the registry. -/
lemma registry_cases {supervised : Bool} {s s' : Process.State} {a : Process.Action}
    (h : Process.step supervised s a = some s') :
    s'.registry = s.registry ∨ (takesLock a = true ∧ ∃ i, s'.registry = s.registry ++ [i]) ∨
    (takesLock a = true ∧ ∃ i ∈ leaves a, s'.registry = s.registry.filter fun j => j ≠ i) := by
  cases Process.effect_of_step h with
  | serve _ _ => exact .inr (.inl ⟨rfl, _, rfl⟩)
  | leaveDispatch _ => exact .inr (.inr ⟨rfl, _, rfl, rfl⟩)
  | unregister _ _ _ => exact .inr (.inr ⟨rfl, _, rfl, rfl⟩)
  | _ => exact .inl rfl

lemma counts_process {supervised : Bool} {c : Counter} {s s' : State} {a : Process.Action}
    (h : Counts c s) (hkept : Kept c s (.process a))
    (hs : stepProcess supervised s a = some s') : Counts c s' := by
  unfold stepProcess at hs
  split_ifs at hs with hfree
  rw [not_or] at hfree
  obtain ⟨p, hp, rfl⟩ := Option.map_eq_some_iff.mp hs
  have hnone : takesLock a = true → s.pass = none := by
    intro ha
    by_contra hpass
    exact hfree.1 ⟨ha, Option.isSome_iff_ne_none.mpr hpass⟩
  -- with the pass over, only the sum over the registry matters
  have hresting : s.pass = none → s.total c s.process.registry ≤ s.total c p.registry →
      Counts c { s with process := p } := by
    intro hpass hle
    refine ⟨h.behind, h.handedOver, fun _ d hd => (h.resting hpass d hd).trans hle, ?_, h.upward⟩
    intro q hq
    exact absurd (hpass.symm.trans hq) (by simp)
  rcases registry_cases hp with hsame | ⟨ha, i, hmore⟩ | ⟨ha, i, hi, hless⟩
  · refine ⟨h.behind, h.handedOver, fun hpass => ?_, fun q hq => ?_, h.upward⟩
    · rw [hsame]
      exact h.resting hpass
    · rw [hsame]
      exact h.passing q hq
  · refine hresting (hnone ha) ?_
    rw [hmore, total_append]
    exact Nat.le_add_right _ _
  · refine hresting (hnone ha) (le_of_eq ?_)
    rw [hless]
    exact (total_filter (hkept i hi)).symm

lemma le_increment (n : ℤ) : n ≤ increment n := by
  unfold increment
  split_ifs <;> omega

lemma counts_increment {c c' : Counter} {s s' : State} {i : ℕ} (h : Counts c s)
    (hs : stepIncrement s i c' = some s') : Counts c s' := by
  unfold stepIncrement at hs
  split_ifs at hs with hfree
  obtain rfl := Option.some.inj hs
  have hnone : s.publishing i = none := by
    simp only [State.free, decide_eq_true_eq] at hfree
    exact hfree.2
  refine h.of_published rfl rfl rfl (fun _ => le_refl _) (fun j => ?_) fun j es hes e he hf => ?_
  · refine (h.behind j).trans ?_
    by_cases hj : j = i
    · subst hj
      by_cases hc : c = c'
      · subst hc
        simpa using le_increment _
      · simp [Function.update_of_ne hc]
    · simp [Function.update_of_ne hj]
  · have hj : j ≠ i := by
      rintro rfl
      exact absurd (hnone.symm.trans hes) (by simp)
    simpa [Function.update_of_ne hj] using h.handedOver j es hes e he hf

lemma counts_gauges {c : Counter} {s : State} {i : ℕ} (h : Counts c s) (st : Stats)
    (hst : st.counters = (s.stats i).counters) :
    Counts c { s with stats := Function.update s.stats i st } := by
  have hcounters : ∀ j, (Function.update s.stats i st j).counters = (s.stats j).counters := by
    intro j
    by_cases hj : j = i
    · subst hj
      simpa using hst
    · rw [Function.update_of_ne hj]
  refine h.of_published rfl rfl rfl (fun _ => le_refl _) (fun j => ?_) fun j es hes e he hf => ?_
  · rw [hcounters j]
    exact h.behind j
  · rw [hcounters j]
    exact h.handedOver j es hes e he hf

lemma counts_publish {c : Counter} {s : State} (h : Counts c s) (i : ℕ) :
    Counts c { s with
      publishing := Function.update s.publishing i (some (publishStats (s.stats i))) } := by
  refine h.of_published rfl rfl rfl (fun _ => le_refl _) h.behind fun j es hes e he hf => ?_
  by_cases hj : j = i
  · subst hj
    simp only [Function.update_self, Option.some.injEq] at hes
    subst hes
    exact counter_of_mem_publishStats he hf
  · simp only [Function.update_of_ne hj] at hes
    exact h.handedOver j es hes e he hf

/-- What storing an entry leaves in a slot. -/
lemma slot_set (p : Published) (name : String) (v : ℕ) (f : Field) :
    (p.set name v).slot f = if Field.ofName name = some f then v else p.slot f := by
  unfold Published.set
  split
  · rename_i g hg
    by_cases hf : f = g
    · subst hf
      simp [hg]
    · simp [hg, Ne.symm hf, Function.update_of_ne hf]
  · rename_i hnone
    simp [hnone]

lemma counts_store {c : Counter} {s s' : State} {i : ℕ} (h : Counts c s)
    (hs : stepStore s i = some s') : Counts c s' := by
  unfold stepStore at hs
  split at hs
  · rename_i name lval rest hentries
    obtain rfl := Option.some.inj hs
    have hvalue : Field.ofName name = some c.field → lval = (s.stats i).counters c := fun hf =>
      h.handedOver i _ hentries (name, lval) List.mem_cons_self hf
    have hbehind := h.behind i
    have hslot : ∀ j, (Function.update s.published i ((s.published i).set name lval.toNat) j).slot
        c.field = if j = i ∧ Field.ofName name = some c.field then lval.toNat
          else (s.published j).slot c.field := by
      intro j
      by_cases hj : j = i
      · subst hj
        simp [slot_set]
      · simp [hj]
    refine h.of_published rfl rfl rfl (fun j => ?_) (fun j => ?_) fun j es hes e he hf => ?_
    · simp only [hslot j]
      split_ifs with hf
      · have hlval := hvalue hf.2
        rw [hf.1]
        omega
      · exact le_refl _
    · simp only [hslot j]
      split_ifs with hf
      · have hlval := hvalue hf.2
        rw [hf.1]
        omega
      · exact h.behind j
    · by_cases hj : j = i
      · subst hj
        simp only [Function.update_self, Option.some.injEq] at hes
        subst hes
        exact h.handedOver j _ hentries e (List.mem_cons_of_mem _ he) hf
      · simp only [Function.update_of_ne hj] at hes
        exact h.handedOver j es hes e he hf
  · cases hs

lemma counts_stamp {c : Counter} {s : State} (h : Counts c s) (i nowMs : ℕ) :
    Counts c { s with
      published := Function.update s.published i ((s.published i).stamp nowMs)
      publishing := Function.update s.publishing i none } := by
  have hslot : ∀ j, (Function.update s.published i ((s.published i).stamp nowMs) j).slot
      = (s.published j).slot := by
    intro j
    by_cases hj : j = i
    · subst hj
      rw [Function.update_self]
      rfl
    · rw [Function.update_of_ne hj]
  refine h.of_published rfl rfl rfl (fun j => ?_) (fun j => ?_) fun j es hes e he hf => ?_
  · rw [hslot j]
  · rw [hslot j]
    exact h.behind j
  · have hj : j ≠ i := by
      rintro rfl
      simp at hes
    simp only [Function.update_of_ne hj] at hes
    exact h.handedOver j es hes e he hf

lemma counts_lock {c : Counter} {s : State} (h : Counts c s) (hnone : s.pass = none)
    (readings : Readings) :
    Counts c { s with pass := some ⟨readings, .initial,
      s.process.registry.flatMap fun i => Load.order.map fun l => (i, l)⟩ } := by
  refine ⟨h.behind, h.handedOver, nofun, fun p hp => ?_, h.upward⟩
  obtain rfl := Option.some.inj hp
  rw [unread_start]
  have hzero : Totals.initial.counter c = 0 := by cases c <;> rfl
  refine ⟨[], rfl, by simp [hzero], fun d hd => ?_⟩
  exact (h.resting hnone d hd).trans (Nat.le_add_left _ _)

lemma counts_load {c : Counter} {s s' : State} {nowMs : ℕ} (h : Counts c s)
    (hkept : Kept c s (.load nowMs)) (hs : stepLoad s nowMs = some s') : Counts c s' := by
  unfold stepLoad at hs
  split at hs
  · rename_i readings totals i l rest hpass
    obtain rfl := Option.some.inj hs
    obtain ⟨done, hdone, hle, hd⟩ := h.passing _ hpass
    refine ⟨h.behind, h.handedOver, nofun, fun p hp => ?_, h.upward⟩
    obtain rfl := Option.some.inj hp
    by_cases hl : l = .field c.field
    · subst hl
      have hunread : Pass.unread ⟨readings, totals, (i, .field c.field) :: rest⟩ c
          = i :: Pass.unread ⟨readings, totals, rest⟩ c := by
        simp [Pass.unread]
      rw [hunread] at hdone hd
      -- the sum does not wrap: it is at most what the registry publishes by now
      have hfits : addU64 (totals.counter c) ((s.published i).slot c.field)
          = totals.counter c + (s.published i).slot c.field := by
        have hsum : s.total c s.process.registry < 2 ^ 64 := hkept
        rw [hdone, total_append, total_cons] at hsum
        simp only at hle
        exact Nat.mod_eq_of_lt (by omega)
      refine ⟨done ++ [i], ?_, ?_, fun d hmem => ?_⟩
      · rw [hdone, List.append_assoc]
        rfl
      · rw [counter_load_field, hfits, total_append, total_cons, total_nil]
        exact Nat.add_le_add_right hle _
      · have hold := hd d hmem
        rw [total_cons] at hold
        rw [counter_load_field, hfits, Nat.add_assoc]
        exact hold
    · have hunread : Pass.unread ⟨readings, totals, (i, l) :: rest⟩ c
          = Pass.unread ⟨readings, totals, rest⟩ c := by
        simp [Pass.unread, hl]
      rw [hunread] at hdone hd
      exact ⟨done, hdone, (counter_load_of_ne hl _ _ _ _).trans_le hle, fun d hmem =>
        (hd d hmem).trans_eq (congrArg (· + _) (counter_load_of_ne hl _ _ _ _).symm)⟩
  · cases hs

lemma counts_unlock {c : Counter} {s : State} {readings : Readings} {totals : Totals}
    (h : Counts c s) (hpass : s.pass = some ⟨readings, totals, []⟩) :
    Counts c { s with pass := none, rendered := s.rendered ++ [⟨readings, totals⟩] } := by
  obtain ⟨done, hdone, hle, hd⟩ := h.passing _ hpass
  have hunread : Pass.unread ⟨readings, totals, []⟩ c = [] := rfl
  rw [hunread, List.append_nil] at hdone
  rw [hunread, total_nil, Nat.add_zero] at hd
  have hnow : totals.counter c ≤ s.total c s.process.registry := hdone ▸ hle
  refine ⟨h.behind, h.handedOver, fun _ d hmem => ?_, nofun, ?_⟩
  · rcases List.mem_append.mp hmem with hold | hnew
    · exact (hd d hold).trans hnow
    · obtain rfl := List.mem_singleton.mp hnew
      exact hnow
  · rw [List.map_append, List.pairwise_append]
    refine ⟨h.upward, List.pairwise_singleton _ _, fun v hv w hw => ?_⟩
    obtain ⟨d, hmem, rfl⟩ := List.mem_map.mp hv
    obtain rfl := List.mem_singleton.mp hw
    exact hd d hmem

/-- **The step lemma.** -/
theorem Counts.step {supervised : Bool} {c : Counter} {s s' : State} {a : Action}
    (h : Counts c s) (hkept : Kept c s a) (hs : step supervised s a = some s') : Counts c s' := by
  cases a with
  | process a => exact counts_process h hkept hs
  | increment i c' => exact counts_increment h hs
  | gauges i fiberBudget queueDepth requestQueue queueHead queuedPeak idle =>
      simp only [Metrics.step] at hs
      split_ifs at hs
      obtain rfl := Option.some.inj hs
      exact counts_gauges h _ rfl
  | publish i =>
      simp only [Metrics.step] at hs
      split_ifs at hs
      obtain rfl := Option.some.inj hs
      exact counts_publish h i
  | store i => exact counts_store h hs
  | stamp i nowMs =>
      simp only [Metrics.step] at hs
      split_ifs at hs
      obtain rfl := Option.some.inj hs
      exact counts_stamp h i nowMs
  | lock readings =>
      simp only [Metrics.step] at hs
      split_ifs at hs with hlock
      obtain rfl := Option.some.inj hs
      rw [not_or] at hlock
      exact counts_lock h (by simpa using hlock.1) readings
  | load nowMs => exact counts_load h hkept hs
  | unlock =>
      simp only [Metrics.step] at hs
      split at hs
      · rename_i readings totals hpass
        obtain rfl := Option.some.inj hs
        exact counts_unlock h hpass
      · cases hs

/-- A metric does not fall from one document to a later one. -/
def CountsUp (name : String) (documents : List (List Metric)) : Prop :=
  documents.Pairwise fun d d' =>
    ∃ v v', sample d name = some (.whole v) ∧ sample d' name = some (.whole v') ∧ v ≤ v'

/-- A count goes up in the documents as it does in the totals. -/
lemma countsUp_iff (c : Counter) (rendered : List Scrape) :
    CountsUp c.metric (rendered.map Scrape.document) ↔
      (rendered.map fun d => d.totals.counter c).Pairwise (· ≤ ·) := by
  simp [CountsUp, List.pairwise_map, Scrape.document, sample_render]

/-- **Counters count up.** -/
theorem counters_count_up {supervised : Bool} {spinUs : ℕ} {c : Counter} {s : State}
    {as : List Action} (h : runFrom (step supervised) (init spinUs) as = some s)
    (hkept : Along (step supervised) (Kept c) (init spinUs) as) :
    CountsUp c.metric (s.rendered.map Scrape.document) := by
  have hcounts : Counts c s :=
    invariant_of_step (step supervised) (fun _ _ _ hI hok hs => hI.step hok hs)
      (counts_init c spinUs) hkept h
  exact (countsUp_iff c s.rendered).mpr hcounts.upward

/-- One scrape of `n` reactors. -/
def scrape (n : ℕ) : List Action :=
  Action.lock ⟨60, n, 0, 0, 0⟩ :: (List.replicate (13 * n) (Action.load 60000) ++ [.unlock])

/-- Thread `i` answers a request and publishes its numbers. -/
def answerOne (i : ℕ) : List Action :=
  [.increment i .handled, .publish i] ++ List.replicate 10 (Action.store i) ++ [.stamp i 59000]

/-- Thread 2 leaves for a reload before it has answered anything; what thread 1 has answered is
still there afterwards. -/
theorem counters_count_up_stays : ∃ s,
    runFrom (step true) (init 0) ([.process (.run 1), .process (.serve 1), .process (.run 2),
      .process (.serve 2)] ++ answerOne 1 ++ scrape 2 ++ [.process (.leaveDispatch 2)] ++ scrape 1)
      = some s ∧
    CountsUp "ignis_requests_handled_total" (s.rendered.map Scrape.document) :=
  ⟨_, rfl, @counters_count_up true 0 .handled _ ([.process (.run 1), .process (.serve 1),
    .process (.run 2), .process (.serve 2)] ++ answerOne 1 ++ scrape 2 ++
    [.process (.leaveDispatch 2)] ++ scrape 1) rfl (by decide +kernel)⟩

/-- A worker answers a request, is scraped and reloads; the thread that takes its place has
answered nothing. -/
theorem handled_falls : ∃ s,
    runFrom (step true) (init 0) ([.process (.run 1), .process (.serve 1)] ++ answerOne 1 ++
      scrape 1 ++ [.process (.leaveDispatch 1), .process (.scriptEnd 1), .process (.unregister 1),
        .process (.run 2), .process (.serve 2)] ++ scrape 1) = some s ∧
    ¬ CountsUp "ignis_requests_handled_total" (s.rendered.map Scrape.document) :=
  ⟨_, rfl, fun hup => absurd ((countsUp_iff .handled _).mp hup) (by decide)⟩

end Ignis.Metrics
