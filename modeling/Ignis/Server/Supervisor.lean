import Mathlib.Algebra.BigOperators.Group.List.Basic
import Mathlib.Algebra.Order.BigOperators.Group.List
import Ignis.Lib.Budget
import Ignis.Lib.Places
import Ignis.Lib.StepSystem

/-!
# The supervisor of `--supervise`

`supervise_workers` keeps one PHP thread per slot.  It looks at the slots one after the other, over
and over: a thread that has ended is joined and respawned, and unless it has ended for a reload the
respawn is charged to a budget of ten a minute; a slot that comes while the budget is spent waits
five seconds and is respawned then, without being charged.

The threads and the generation of the watcher do not wait for the supervisor, so its loop is cut
where one of them may move between two of its reads.  `respawns_bounded` is what the budget, the
pause and the generation are for: in any time, whatever the threads do, the supervisor respawns a
number of threads that is linear in the time and in the changes of files.  `comes_back` is that none
of this loses a slot: left alone, the supervisor has a thread running in each of them again after
one pause.
-/

namespace Ignis

namespace Supervisor

open StepSystem

/-! ## The machine -/

/-- The restarts that are charged in a minute. -/
def restartsPerMinute : ℕ := 10

/-- A minute, in nanoseconds. -/
def minuteLength : ℕ := 60000000000

/-- How long a slot waits when the budget is spent, in nanoseconds. -/
def retryPause : ℕ := 5000000000

/-- What `is_finished` says of the thread behind a handle. -/
inductive Thread where
  | running
  | finished
  deriving DecidableEq, Repr

structure Worker where
  slot : ℕ
  handle : Option Thread
  /-- The generation of the watcher when the thread was spawned. -/
  generation : ℕ
  retryAt : Option ℕ
  /-- Ghost: how often the thread has been respawned. -/
  respawns : ℕ
  /-- Ghost: how often that was charged, after a pause, and for a reload. -/
  charged : ℕ
  retried : ℕ
  reloaded : ℕ
  deriving DecidableEq, Repr

/-- Where the supervisor stands. -/
inductive Control where
  /-- `Worker::spawn` of this slot comes next. -/
  | spawning (slot : ℕ)
  /-- At the head of the loop. -/
  | sleeping
  /-- The loop over the workers comes to this one next. -/
  | visiting (i : ℕ)
  /-- This worker's thread has been joined. -/
  | judging (i : ℕ)
  /-- `Worker::respawn` of this one comes next. -/
  | respawning (i : ℕ)
  deriving DecidableEq, Repr

structure State where
  now : ℕ
  /-- The generation of the watcher. -/
  generation : ℕ
  workers : List Worker
  restartsThisMinute : ℕ
  minute : ℕ
  /-- `RESTARTS`. -/
  restarts : ℕ
  control : Control
  deriving DecidableEq, Repr

def init (now generation : ℕ) : State where
  now := now
  generation := generation
  workers := []
  restartsThisMinute := 0
  minute := now
  restarts := 0
  control := .spawning 1

/-- `Worker::spawn`. -/
def Worker.spawn (slot generation : ℕ) : Worker where
  slot := slot
  handle := some .running
  generation := generation
  retryAt := none
  respawns := 0
  charged := 0
  retried := 0
  reloaded := 0

/-- `Worker::respawn`. -/
def Worker.respawn (w : Worker) (generation : ℕ) : Worker :=
  { w with
    generation := generation
    retryAt := none
    handle := some .running
    respawns := w.respawns + 1 }

/-- `Worker::ended_for_reload`. -/
def Worker.endedForReload (w : Worker) (generation : ℕ) : Bool := w.generation < generation

/-- The collection of `Worker::spawn` over `1..=threads`, and the two counters behind it. -/
def State.spawn (threads : ℕ) (s : State) (slot : ℕ) : State :=
  if slot ≤ threads then
    { s with
      workers := s.workers ++ [.spawn slot s.generation]
      control := .spawning (slot + 1) }
  else { s with restartsThisMinute := 0, minute := s.now, control := .sleeping }

/-- The head of the loop over the workers, up to the join. -/
def State.visit (s : State) (i : ℕ) : State :=
  match s.workers[i]? with
  | none => { s with control := .sleeping }
  | some w =>
      match w.retryAt with
      | some retryAt =>
          if s.now < retryAt then { s with control := .visiting (i + 1) }
          else
            { s with
              workers := s.workers.set i { w with retryAt := none, retried := w.retried + 1 }
              control := .respawning i }
      | none =>
          if w.handle = some .finished then
            let joined := { s with
              workers := s.workers.set i { w with handle := none }
              control := .judging i }
            if minuteLength < s.now - s.minute then
              { joined with minute := s.now, restartsThisMinute := 0 }
            else joined
          else { s with control := .visiting (i + 1) }

/-- The rest of it: a reload is not charged, and past the budget the slot waits. -/
def State.judge (s : State) (i : ℕ) : Option State :=
  s.workers[i]?.map fun w =>
    if w.endedForReload s.generation then
      { s with
        workers := s.workers.set i { w with reloaded := w.reloaded + 1 }
        control := .respawning i }
    else if restartsPerMinute ≤ s.restartsThisMinute then
      { s with
        workers := s.workers.set i
          { w with retryAt := some (w.retryAt.getD (s.now + retryPause)) }
        control := .visiting (i + 1) }
    else
      { s with
        workers := s.workers.set i { w with charged := w.charged + 1 }
        restartsThisMinute := s.restartsThisMinute + 1
        restarts := s.restarts + 1
        control := .respawning i }

def State.respawn (s : State) (i : ℕ) : Option State :=
  s.workers[i]?.map fun w =>
    { s with
      workers := s.workers.set i (w.respawn s.generation)
      control := .visiting (i + 1) }

/-- The supervisor's next step. -/
def advance (threads : ℕ) (s : State) : Option State :=
  match s.control with
  | .spawning slot => some (s.spawn threads slot)
  | .sleeping => some { s with control := .visiting 0 }
  | .visiting i => some (s.visit i)
  | .judging i => s.judge i
  | .respawning i => s.respawn i

inductive Action where
  /-- The thread of this worker ends. -/
  | ends (i : ℕ)
  /-- The watcher's generation is bumped. -/
  | bumps
  /-- Time passes, in nanoseconds. -/
  | elapses (ns : ℕ)
  | supervisor
  deriving DecidableEq, Repr

def step (threads : ℕ) (s : State) : Action → Option State
  | .ends i =>
      s.workers[i]?.bind fun w =>
        if w.handle = some .running then
          some { s with workers := s.workers.set i { w with handle := some .finished } }
        else none
  | .bumps => some { s with generation := s.generation + 1 }
  | .elapses ns => some { s with now := s.now + ns }
  | .supervisor => advance threads s

/-! ## What a step can do -/

inductive Effect (threads : ℕ) (s : State) : Action → State → Prop where
  | ends {i : ℕ} {w : Worker} (hw : s.workers[i]? = some w) (hrun : w.handle = some .running) :
      Effect threads s (.ends i)
        { s with workers := s.workers.set i { w with handle := some .finished } }
  | bumps : Effect threads s .bumps { s with generation := s.generation + 1 }
  | elapses (ns : ℕ) : Effect threads s (.elapses ns) { s with now := s.now + ns }
  | spawned {slot : ℕ} (hc : s.control = .spawning slot) (hslot : slot ≤ threads) :
      Effect threads s .supervisor
        { s with
          workers := s.workers ++ [.spawn slot s.generation]
          control := .spawning (slot + 1) }
  | spawnedAll {slot : ℕ} (hc : s.control = .spawning slot) (hslot : threads < slot) :
      Effect threads s .supervisor
        { s with restartsThisMinute := 0, minute := s.now, control := .sleeping }
  | woke (hc : s.control = .sleeping) :
      Effect threads s .supervisor { s with control := .visiting 0 }
  | visitedAll {i : ℕ} (hc : s.control = .visiting i) (hi : s.workers[i]? = none) :
      Effect threads s .supervisor { s with control := .sleeping }
  | passes {i : ℕ} {w : Worker} (hc : s.control = .visiting i) (hw : s.workers[i]? = some w)
      (hrest : (∃ retryAt, w.retryAt = some retryAt ∧ s.now < retryAt)
        ∨ (w.retryAt = none ∧ w.handle ≠ some .finished)) :
      Effect threads s .supervisor { s with control := .visiting (i + 1) }
  | retries {i retryAt : ℕ} {w : Worker} (hc : s.control = .visiting i)
      (hw : s.workers[i]? = some w) (hretry : w.retryAt = some retryAt) (hdue : retryAt ≤ s.now) :
      Effect threads s .supervisor
        { s with
          workers := s.workers.set i { w with retryAt := none, retried := w.retried + 1 }
          control := .respawning i }
  | joins {i : ℕ} {w : Worker} {b : Budget} (hc : s.control = .visiting i)
      (hw : s.workers[i]? = some w) (hretry : w.retryAt = none)
      (hend : w.handle = some .finished)
      (hb : b = ⟨s.minute, s.restartsThisMinute⟩
        ∨ Budget.Over minuteLength s.now ⟨s.minute, s.restartsThisMinute⟩ ∧ b = ⟨s.now, 0⟩) :
      Effect threads s .supervisor
        { s with
          workers := s.workers.set i { w with handle := none }
          minute := b.opened
          restartsThisMinute := b.spent
          control := .judging i }
  | reloads {i : ℕ} {w : Worker} (hc : s.control = .judging i) (hw : s.workers[i]? = some w)
      (hgen : w.generation < s.generation) :
      Effect threads s .supervisor
        { s with
          workers := s.workers.set i { w with reloaded := w.reloaded + 1 }
          control := .respawning i }
  | waits {i : ℕ} {w : Worker} (hc : s.control = .judging i) (hw : s.workers[i]? = some w)
      (hspent : restartsPerMinute ≤ s.restartsThisMinute) :
      Effect threads s .supervisor
        { s with
          workers := s.workers.set i
            { w with retryAt := some (w.retryAt.getD (s.now + retryPause)) }
          control := .visiting (i + 1) }
  | charges {i : ℕ} {w : Worker} (hc : s.control = .judging i) (hw : s.workers[i]? = some w)
      (hleft : s.restartsThisMinute < restartsPerMinute) :
      Effect threads s .supervisor
        { s with
          workers := s.workers.set i { w with charged := w.charged + 1 }
          restartsThisMinute := s.restartsThisMinute + 1
          restarts := s.restarts + 1
          control := .respawning i }
  | respawns {i : ℕ} {w : Worker} (hc : s.control = .respawning i) (hw : s.workers[i]? = some w) :
      Effect threads s .supervisor
        { s with
          workers := s.workers.set i (w.respawn s.generation)
          control := .visiting (i + 1) }

section

variable {threads : ℕ} {s t : State}

lemma Effect.of_spawn {slot : ℕ} (hc : s.control = .spawning slot) :
    Effect threads s .supervisor (s.spawn threads slot) := by
  unfold State.spawn
  split
  case isTrue hslot => exact .spawned hc hslot
  case isFalse hslot => exact .spawnedAll hc (by omega)

lemma Effect.of_visit {i : ℕ} (hc : s.control = .visiting i) :
    Effect threads s .supervisor (s.visit i) := by
  unfold State.visit
  split
  case h_1 hi => exact .visitedAll hc hi
  case h_2 w hw =>
    split
    case h_1 retryAt hretry =>
      split
      case isTrue hnow => exact .passes hc hw (.inl ⟨retryAt, hretry, hnow⟩)
      case isFalse hnow => exact .retries hc hw hretry (by omega)
    case h_2 hretry =>
      split
      case isTrue hend =>
        split
        case isTrue hover => exact .joins hc hw hretry hend (.inr ⟨hover, rfl⟩)
        case isFalse => exact .joins hc hw hretry hend (.inl rfl)
      case isFalse hend => exact .passes hc hw (.inr ⟨hretry, hend⟩)

lemma Effect.of_judge {i : ℕ} (hc : s.control = .judging i) (h : s.judge i = some t) :
    Effect threads s .supervisor t := by
  obtain ⟨w, hw, rfl⟩ := Option.map_eq_some_iff.mp h
  split
  case isTrue hgen => exact .reloads hc hw (by simpa [Worker.endedForReload] using hgen)
  case isFalse =>
    split
    case isTrue hspent => exact .waits hc hw hspent
    case isFalse hspent => exact .charges hc hw (by omega)

/-- **One step.** -/
theorem effect_of_step {a : Action} (h : step threads s a = some t) : Effect threads s a t := by
  cases a with
  | ends i =>
      obtain ⟨w, hw, hif⟩ := Option.bind_eq_some_iff.mp h
      obtain ⟨hrun, ht⟩ := Option.ite_none_right_eq_some.mp hif
      obtain rfl := Option.some.inj ht
      exact .ends hw hrun
  | bumps =>
      obtain rfl := Option.some.inj h
      exact .bumps
  | elapses ns =>
      obtain rfl := Option.some.inj h
      exact .elapses ns
  | supervisor =>
      simp only [step, advance] at h
      split at h
      case h_1 slot hc =>
        obtain rfl := Option.some.inj h
        exact .of_spawn hc
      case h_2 hc =>
        obtain rfl := Option.some.inj h
        exact .woke hc
      case h_3 i hc =>
        obtain rfl := Option.some.inj h
        exact .of_visit hc
      case h_4 i hc => exact .of_judge hc h
      case h_5 i hc =>
        obtain ⟨w, hw, rfl⟩ := Option.map_eq_some_iff.mp h
        exact .respawns hc hw

end

/-! ## The invariant -/

/-- The thread of this worker has been joined, and what becomes of the worker is being decided. -/
def Control.InHand : Control → ℕ → Prop
  | .judging i, j | .respawning i, j => i = j
  | .spawning _, _ | .sleeping, _ | .visiting _, _ => False

@[simp] lemma not_inHand_spawning (slot j : ℕ) : ¬ (Control.spawning slot).InHand j := id
@[simp] lemma not_inHand_sleeping (j : ℕ) : ¬ Control.sleeping.InHand j := id
@[simp] lemma not_inHand_visiting (i j : ℕ) : ¬ (Control.visiting i).InHand j := id
@[simp] lemma inHand_judging {i j : ℕ} : (Control.judging i).InHand j ↔ i = j := Iff.rfl
@[simp] lemma inHand_respawning {i j : ℕ} : (Control.respawning i).InHand j ↔ i = j := Iff.rfl

/-- What holds of the `j`th worker, since the supervisor started at `t₀` and with generation `g₀`.
A respawn is counted by its reason before it is made. -/
structure Sound (t₀ g₀ : ℕ) (s : State) (j : ℕ) (w : Worker) : Prop where
  slot : w.slot = j + 1
  paused : Paused retryPause t₀ s.now w.retried w.retryAt
  known : w.generation ≤ s.generation
  reloaded : g₀ + w.reloaded ≤ s.generation
  reloads : s.control ≠ .respawning j → g₀ + w.reloaded ≤ w.generation
  respawns : w.respawns + (if s.control = .respawning j then 1 else 0)
    = w.charged + w.retried + w.reloaded
  idle : s.control.InHand j → w.handle = none ∧ w.retryAt = none
  staffed : ¬ s.control.InHand j → (w.handle.isSome ↔ w.retryAt = none)

structure Inv (threads t₀ g₀ : ℕ) (s : State) : Prop where
  started : t₀ ≤ s.now
  known : g₀ ≤ s.generation
  sound : ∀ j w, s.workers[j]? = some w → Sound t₀ g₀ s j w
  charged : (s.workers.map Worker.charged).sum = s.restarts
  granted : Budget.Granted restartsPerMinute minuteLength t₀ s.now s.restarts
    ⟨s.minute, s.restartsThisMinute⟩
  spawning : ∀ slot, s.control = .spawning slot →
    slot = s.workers.length + 1 ∧ s.workers.length ≤ threads ∧ s.restarts = 0
  spawned : (∀ slot, s.control ≠ .spawning slot) → s.workers.length = threads
  inHand : ∀ i, s.control.InHand i → i < s.workers.length

lemma inv_init (threads t₀ g₀ : ℕ) : Inv threads t₀ g₀ (init t₀ g₀) where
  started := le_refl _
  known := le_refl _
  sound := by simp [init]
  charged := rfl
  granted := Budget.granted_start _ _ (le_refl _)
  spawning := by simp [init]
  spawned := fun h => absurd rfl (h 1)
  inHand := by simp [init]

section

variable {threads t₀ g₀ : ℕ} {s t : State} {i j : ℕ} {w v : Worker}

/-- A worker that the step is not about. -/
lemma Sound.frame (h : Sound t₀ g₀ s j w) (hnow : s.now ≤ t.now)
    (hgen : s.generation ≤ t.generation)
    (hrespawning : t.control = .respawning j ↔ s.control = .respawning j)
    (hhand : t.control.InHand j ↔ s.control.InHand j) : Sound t₀ g₀ t j w where
  slot := h.slot
  paused := h.paused.elapse hnow
  known := h.known.trans hgen
  reloaded := h.reloaded.trans hgen
  reloads := fun hne => h.reloads (mt hrespawning.mpr hne)
  respawns := by
    simp only [hrespawning]
    exact h.respawns
  idle := fun hin => h.idle (hhand.mp hin)
  staffed := fun hnot => h.staffed (mt hhand.mpr hnot)

/-- No worker but the one at `i` is in hand. -/
def Control.Only (c : Control) (i : ℕ) : Prop := ∀ j, c.InHand j → j = i

@[simp] lemma only_visiting (k i : ℕ) : (Control.visiting k).Only i := fun _ h => h.elim
@[simp] lemma only_judging (i : ℕ) : (Control.judging i).Only i := fun _ h => h.symm
@[simp] lemma only_respawning (i : ℕ) : (Control.respawning i).Only i := fun _ h => h.symm

/-- Nobody but the worker at `i` is in hand before or after. -/
lemma Control.Only.agree {c d : Control} (hc : c.Only i) (hd : d.Only i) (hji : j ≠ i) :
    (d = .respawning j ↔ c = .respawning j) ∧ (d.InHand j ↔ c.InHand j) := by
  have hcj : ¬ c.InHand j := fun hin => hji (hc j hin)
  have hdj : ¬ d.InHand j := fun hin => hji (hd j hin)
  have hcr : c ≠ .respawning j := fun he => hcj (by simp [he])
  have hdr : d ≠ .respawning j := fun he => hdj (by simp [he])
  exact ⟨iff_of_false hdr hcr, iff_of_false hdj hcj⟩

/-- A step about the worker at `i`. -/
lemma Inv.sound_set (h : Inv threads t₀ g₀ s) (hworkers : t.workers = s.workers.set i v)
    (hi : Sound t₀ g₀ t i v) (hnow : t.now = s.now) (hgen : t.generation = s.generation)
    (hothers : ∀ j, j ≠ i → (t.control = .respawning j ↔ s.control = .respawning j)
      ∧ (t.control.InHand j ↔ s.control.InHand j)) :
    ∀ j w, t.workers[j]? = some w → Sound t₀ g₀ t j w := by
  intro j w hw
  rw [hworkers] at hw
  rcases Places.getElem?_set_cases hw with ⟨rfl, rfl⟩ | ⟨hji, hw⟩
  · exact hi
  · exact (h.sound j w hw).frame hnow.ge hgen.ge (hothers j hji).1 (hothers j hji).2

/-- A step that leaves the workers and the counters alone, between two states with nobody in
hand. -/
lemma Inv.move (h : Inv threads t₀ g₀ s) {c : Control} (hs : ∀ j, ¬ s.control.InHand j)
    (hc : ∀ j, ¬ c.InHand j) (hspawned : ∀ slot, s.control ≠ .spawning slot)
    (hstays : ∀ slot, c ≠ .spawning slot) : Inv threads t₀ g₀ { s with control := c } where
  started := h.started
  known := h.known
  sound := fun j w hw => by
    have hsr : s.control ≠ .respawning j := fun he => hs j (by simp [he])
    have hcr : c ≠ .respawning j := fun he => hc j (by simp [he])
    exact (h.sound j w hw).frame (le_refl _) (le_refl _) (iff_of_false hcr hsr)
      (iff_of_false (hc j) (hs j))
  charged := h.charged
  granted := h.granted
  spawning := fun slot he => absurd he (hstays slot)
  spawned := fun _ => h.spawned hspawned
  inHand := fun i hin => absurd hin (hc i)

/-- A step of the loop that changes the worker at `i`, and the counters as far as the budget
allows. -/
lemma Inv.change (h : Inv threads t₀ g₀ s) (hw : s.workers[i]? = some w)
    (hspawned : ∀ slot, s.control ≠ .spawning slot) (hs : s.control.Only i)
    (hworkers : t.workers = s.workers.set i v) (hnow : t.now = s.now)
    (hgen : t.generation = s.generation) (hstays : ∀ slot, t.control ≠ .spawning slot)
    (ht : t.control.Only i) (hi : Sound t₀ g₀ s i w → Sound t₀ g₀ t i v)
    (hcharged : t.restarts + w.charged = s.restarts + v.charged)
    (hgranted : Budget.Granted restartsPerMinute minuteLength t₀ s.now t.restarts
      ⟨t.minute, t.restartsThisMinute⟩) : Inv threads t₀ g₀ t where
  started := hnow ▸ h.started
  known := hgen ▸ h.known
  sound := h.sound_set hworkers (hi (h.sound i w hw)) hnow hgen fun _ hji => hs.agree ht hji
  charged := by
    have hsum := Places.sum_map_set Worker.charged v hw
    have hbefore := h.charged
    rw [hworkers]
    omega
  granted := hnow ▸ hgranted
  spawning := fun slot he => absurd he (hstays slot)
  spawned := fun _ => by
    rw [hworkers, List.length_set]
    exact h.spawned hspawned
  inHand := fun j hin => by
    obtain rfl := ht j hin
    rw [hworkers, List.length_set]
    exact (List.getElem?_eq_some_iff.mp hw).1

end

/-- **The invariant.**  Every step of the system keeps it. -/
theorem inv_step {threads t₀ g₀ : ℕ} {s t : State} {a : Action} (h : Inv threads t₀ g₀ s)
    (hstep : step threads s a = some t) : Inv threads t₀ g₀ t := by
  cases effect_of_step hstep with
  | @ends i w hw hrun =>
      have hfree : ¬ s.control.InHand i := fun hin => by simp [(h.sound i w hw).idle hin] at hrun
      have hsound := h.sound i w hw
      exact
        { started := h.started
          known := h.known
          sound := h.sound_set rfl
            { hsound with
              idle := fun hin => absurd hin hfree
              staffed := fun _ => by simpa [hrun] using hsound.staffed hfree }
            rfl rfl fun _ _ => ⟨Iff.rfl, Iff.rfl⟩
          charged := by
            have hsum : ((s.workers.set i { w with handle := some .finished }).map
                Worker.charged).sum + w.charged
                = (s.workers.map Worker.charged).sum + w.charged :=
              Places.sum_map_set Worker.charged _ hw
            exact (Nat.add_right_cancel hsum).trans h.charged
          granted := h.granted
          spawning := fun slot hc => by
            simpa [List.length_set] using h.spawning slot hc
          spawned := fun hc => by simpa [List.length_set] using h.spawned hc
          inHand := fun k hin => by simpa [List.length_set] using h.inHand k hin }
  | bumps =>
      exact
        { h with
          known := h.known.trans (Nat.le_succ _)
          sound := fun j w hw => (h.sound j w hw).frame (le_refl _) (Nat.le_succ _) Iff.rfl Iff.rfl }
  | elapses ns =>
      exact
        { h with
          started := h.started.trans (Nat.le_add_right _ _)
          sound := fun j w hw =>
            (h.sound j w hw).frame (Nat.le_add_right _ _) (le_refl _) Iff.rfl Iff.rfl
          granted := h.granted.elapse (Nat.le_add_right _ _) }
  | @spawned slot hc hslot =>
      obtain ⟨hlen, -, hzero⟩ := h.spawning slot hc
      exact
        { started := h.started
          known := h.known
          sound := fun j w hw => by
            rcases Places.getElem?_concat_cases hw with ⟨rfl, rfl⟩ | hw
            · exact
                { slot := hlen
                  paused := by simp [Worker.spawn, Paused]
                  known := le_refl _
                  reloaded := h.known
                  reloads := fun _ => h.known
                  respawns := rfl
                  idle := fun hin => absurd hin (by simp)
                  staffed := fun _ => by simp [Worker.spawn] }
            · exact (h.sound j w hw).frame (le_refl _) (le_refl _) (by simp [hc]) (by simp [hc])
          charged := by simp [h.charged, Worker.spawn]
          granted := h.granted
          spawning := fun k hk => by
            obtain rfl : slot + 1 = k := by simpa using hk
            simp only [List.length_append, List.length_singleton]
            omega
          spawned := fun hne => absurd rfl (hne (slot + 1))
          inHand := fun k hin => absurd hin (by simp) }
  | @spawnedAll slot hc hslot =>
      obtain ⟨hlen, hle, hzero⟩ := h.spawning slot hc
      exact
        { started := h.started
          known := h.known
          sound := fun j w hw =>
            (h.sound j w hw).frame (le_refl _) (le_refl _) (by simp [hc]) (by simp [hc])
          charged := h.charged
          granted := by
            show Budget.Granted _ _ t₀ s.now s.restarts ⟨s.now, 0⟩
            rw [hzero]
            exact Budget.granted_start _ _ h.started
          spawning := fun k hk => absurd hk (by simp)
          spawned := fun _ => by show s.workers.length = threads; omega
          inHand := fun k hin => absurd hin (by simp) }
  | woke hc => exact h.move (by simp [hc]) (by simp) (by simp [hc]) (by simp)
  | visitedAll hc hi => exact h.move (by simp [hc]) (by simp) (by simp [hc]) (by simp)
  | passes hc hw hrest => exact h.move (by simp [hc]) (by simp) (by simp [hc]) (by simp)
  | @retries i retryAt w hc hw hretry hdue =>
      refine h.change hw (by simp [hc]) (by simp [hc]) rfl rfl rfl (by simp) (by simp)
        (fun hs => ?_) rfl h.granted
      have hfree : ¬ s.control.InHand i := by simp [hc]
      have hpaused := hs.paused
      rw [hretry] at hpaused
      exact
        { hs with
          paused := hpaused.attempt hdue
          reloads := fun hne => absurd rfl hne
          respawns := by
            have hcount := hs.respawns
            simp only [hc, reduceCtorEq, if_false, if_true] at hcount ⊢
            omega
          idle := fun _ => ⟨by simpa [hretry] using hs.staffed hfree, rfl⟩
          staffed := fun hnot => absurd rfl hnot }
  | @joins i w b hc hw hretry hend hb =>
      refine h.change hw (by simp [hc]) (by simp [hc]) rfl rfl rfl (by simp) (by simp)
        (fun hs => ?_) rfl ?_
      · exact
          { hs with
            reloads := fun _ => hs.reloads (by simp [hc])
            respawns := by simpa [hc] using hs.respawns
            idle := fun _ => ⟨rfl, hretry⟩
            staffed := fun hnot => absurd rfl hnot }
      · rcases hb with rfl | ⟨hover, rfl⟩
        · exact h.granted
        · exact h.granted.renew hover
  | @reloads i w hc hw hgen =>
      refine h.change hw (by simp [hc]) (by simp [hc]) rfl rfl rfl (by simp) (by simp)
        (fun hs => ?_) rfl h.granted
      have hbehind := hs.reloads (by simp [hc])
      exact
        { hs with
          reloaded := by show g₀ + (w.reloaded + 1) ≤ s.generation; omega
          reloads := fun hne => absurd rfl hne
          respawns := by
            have hcount := hs.respawns
            simp only [hc, reduceCtorEq, if_false, if_true] at hcount ⊢
            omega
          idle := fun _ => hs.idle (by simp [hc])
          staffed := fun hnot => absurd rfl hnot }
  | @waits i w hc hw hspent =>
      refine h.change hw (by simp [hc]) (by simp [hc]) rfl rfl rfl (by simp) (by simp)
        (fun hs => ?_) rfl h.granted
      obtain ⟨hhandle, hretry⟩ := hs.idle (by simp [hc])
      have hpaused := hs.paused
      rw [hretry] at hpaused
      exact
        { hs with
          paused := by
            rw [hretry, Option.getD_none]
            exact hpaused.wait h.started
          reloads := fun _ => hs.reloads (by simp [hc])
          respawns := by simpa [hc] using hs.respawns
          idle := fun hin => absurd hin (by simp)
          staffed := fun _ => by simp [hhandle] }
  | @charges i w hc hw hleft =>
      refine h.change hw (by simp [hc]) (by simp [hc]) rfl rfl rfl (by simp) (by simp)
        (fun hs => ?_) (by show s.restarts + 1 + w.charged = s.restarts + (w.charged + 1); omega)
        (h.granted.grant hleft)
      exact
        { hs with
          reloads := fun hne => absurd rfl hne
          respawns := by
            have hcount := hs.respawns
            simp only [hc, reduceCtorEq, if_false, if_true] at hcount ⊢
            omega
          idle := fun _ => hs.idle (by simp [hc])
          staffed := fun hnot => absurd rfl hnot }
  | @respawns i w hc hw =>
      refine h.change hw (by simp [hc]) (by simp [hc]) rfl rfl rfl (by simp) (by simp)
        (fun hs => ?_) rfl h.granted
      obtain ⟨-, hretry⟩ := hs.idle (by simp [hc])
      exact
        { hs with
          paused := by simpa [Worker.respawn, hretry] using hs.paused
          known := le_refl _
          reloads := fun _ => hs.reloaded
          respawns := by simpa [hc, Worker.respawn] using hs.respawns
          idle := fun hin => absurd hin (by simp)
          staffed := fun _ => by simp [Worker.respawn] }

/-- What the invariant says of a run. -/
lemma inv_run {threads t₀ g₀ : ℕ} {as : List Action} {s : State}
    (hrun : runFrom (step threads) (init t₀ g₀) as = some s) : Inv threads t₀ g₀ s :=
  invariant_of_run (step threads) (fun _ _ _ h hstep => inv_step h hstep)
    (inv_init threads t₀ g₀) hrun

/-! ## The rate -/

lemma Inv.length_le {threads t₀ g₀ : ℕ} {s : State} (h : Inv threads t₀ g₀ s) :
    s.workers.length ≤ threads := by
  by_cases hc : ∃ slot, s.control = .spawning slot
  · obtain ⟨slot, hc⟩ := hc
    exact (h.spawning slot hc).2.1
  · exact (h.spawned fun slot hslot => hc ⟨slot, hslot⟩).le

/-- **A crash loop is bounded.**  However the threads end, the respawns since the supervisor started
are at most ten for each minute that has begun and, for each slot, one for each pause and one for
each change of files. -/
theorem respawns_bounded {threads t₀ g₀ : ℕ} {as : List Action} {s : State}
    (hrun : runFrom (step threads) (init t₀ g₀) as = some s) :
    (s.workers.map Worker.respawns).sum
      ≤ restartsPerMinute * ((s.now - t₀) / minuteLength + 1)
        + threads * ((s.now - t₀) / retryPause + (s.generation - g₀)) := by
  have h := inv_run hrun
  have hone : ∀ w ∈ s.workers, w.respawns
      ≤ w.charged + ((s.now - t₀) / retryPause + (s.generation - g₀)) := by
    intro w hw
    obtain ⟨j, hj⟩ := List.getElem?_of_mem hw
    have hsound := h.sound j w hj
    have hretried := hsound.paused.done_le (by decide)
    have hreloaded := hsound.reloaded
    have hcount := hsound.respawns
    omega
  calc (s.workers.map Worker.respawns).sum
      ≤ (s.workers.map fun w =>
          w.charged + ((s.now - t₀) / retryPause + (s.generation - g₀))).sum :=
        List.sum_le_sum hone
    _ = s.restarts
        + s.workers.length * ((s.now - t₀) / retryPause + (s.generation - g₀)) := by
        rw [List.sum_map_add, h.charged, List.map_const', List.sum_replicate_nat]
    _ ≤ _ := Nat.add_le_add (h.granted.total_le (by decide))
        (Nat.mul_le_mul_right _ h.length_le)

/-- A worker that ends whenever it is looked at: it is spawned, and dies `n` times. -/
def crashes (n : ℕ) : List Action :=
  .supervisor :: .supervisor :: (List.replicate n
    [.supervisor, .ends 0, .supervisor, .supervisor, .supervisor, .supervisor]).flatten

/-- Ten crashes are charged; after the eleventh the slot waits. -/
theorem respawns_bounded_crashes : ∃ s, runFrom (step 1) (init 0 0) (crashes 10) = some s
    ∧ (s.workers.map Worker.respawns).sum
      ≤ restartsPerMinute * ((s.now - 0) / minuteLength + 1)
        + 1 * ((s.now - 0) / retryPause + (s.generation - 0)) := by
  obtain ⟨s, hs⟩ := Option.isSome_iff_exists.mp
    (show (runFrom (step 1) (init 0 0) (crashes 10)).isSome = true by decide +kernel)
  exact ⟨s, hs, respawns_bounded hs⟩

/-! ## Every slot comes back -/

/-- The supervisor's own steps from `s` lead to `t`. -/
def Leads (threads : ℕ) (s t : State) : Prop :=
  ∃ as, (∀ a ∈ as, a = .supervisor) ∧ runFrom (step threads) s as = some t

section

variable {threads t₀ g₀ : ℕ} {s t u : State} {i : ℕ}

lemma Leads.refl (s : State) : Leads threads s s := ⟨[], by simp, rfl⟩

lemma Leads.trans (hst : Leads threads s t) (htu : Leads threads t u) : Leads threads s u := by
  obtain ⟨as, has, hst⟩ := hst
  obtain ⟨bs, hbs, htu⟩ := htu
  refine ⟨as ++ bs, fun a ha => ?_, runFrom_append _ hst htu⟩
  rcases List.mem_append.mp ha with ha | ha
  · exact has a ha
  · exact hbs a ha

lemma Leads.of_step (h : advance threads s = some t) : Leads threads s t :=
  ⟨[.supervisor], by simp, (runFrom_cons _).mpr ⟨t, h, rfl⟩⟩

lemma Leads.head (h : advance threads s = some t) (htu : Leads threads t u) : Leads threads s u :=
  (Leads.of_step h).trans htu

lemma Inv.leads (h : Inv threads t₀ g₀ s) (hst : Leads threads s t) : Inv threads t₀ g₀ t := by
  obtain ⟨as, -, hrun⟩ := hst
  exact invariant_of_run (step threads) (fun _ _ _ h hstep => inv_step h hstep) h hrun

/-- A worker before and after it has been looked at: its thread runs, or it waits for a time that
has not come. -/
def Tended (now : ℕ) (w v : Worker) : Prop :=
  v.handle = some .running
    ∨ w.handle ≠ some .running ∧ (∀ due, w.retryAt = some due → now < due) ∧ v.retryAt.isSome

/-- The respawn of the worker in hand. -/
lemma leads_respawn (h : Inv threads t₀ g₀ s) (hc : s.control = .respawning i) :
    ∃ t v, Leads threads s t ∧ t.control = .visiting (i + 1) ∧ t.now = s.now
      ∧ t.workers = s.workers.set i v ∧ v.handle = some .running := by
  have hlt := h.inHand i (by simp [hc])
  refine ⟨_, s.workers[i].respawn s.generation, .of_step (t := { s with
    workers := s.workers.set i (s.workers[i].respawn s.generation)
    control := .visiting (i + 1) }) ?_, rfl, rfl, rfl, rfl⟩
  simp [advance, hc, State.respawn, List.getElem?_eq_getElem hlt]

/-- The worker whose thread has been joined gets another, or a pause. -/
lemma leads_judge (h : Inv threads t₀ g₀ s) (hc : s.control = .judging i) :
    ∃ t v, Leads threads s t ∧ t.control = .visiting (i + 1) ∧ t.now = s.now
      ∧ t.workers = s.workers.set i v ∧ (v.handle = some .running ∨ v.retryAt.isSome) := by
  have hlt := h.inHand i (by simp [hc])
  have hw : s.workers[i]? = some s.workers[i] := List.getElem?_eq_getElem hlt
  obtain ⟨t, ht⟩ : ∃ t, advance threads s = some t := by simp [advance, hc, State.judge, hw]
  have hjudge : s.judge i = some t := by simpa [advance, hc] using ht
  have hlead : Leads threads s t := .of_step ht
  have heffect : Effect threads s .supervisor t := .of_judge hc hjudge
  cases heffect with
  | @reloads k w hk hw' hgen =>
      obtain rfl : i = k := by simpa [hc] using hk
      obtain ⟨u, v, hu, huc, hun, huw, hv⟩ := leads_respawn (h.leads hlead) rfl
      exact ⟨u, v, hlead.trans hu, huc, hun, by simpa using huw, .inl hv⟩
  | @waits k w hk hw' hspent =>
      obtain rfl : i = k := by simpa [hc] using hk
      exact ⟨_, _, hlead, rfl, rfl, rfl, .inr rfl⟩
  | @charges k w hk hw' hleft =>
      obtain rfl : i = k := by simpa [hc] using hk
      obtain ⟨u, v, hu, huc, hun, huw, hv⟩ := leads_respawn (h.leads hlead) rfl
      exact ⟨u, v, hlead.trans hu, huc, hun, by simpa using huw, .inl hv⟩
  | spawned hk | spawnedAll hk | woke hk | visitedAll hk | passes hk | retries hk | joins hk
  | respawns hk => simp [hc] at hk

/-- A look at one worker. -/
lemma leads_visit (h : Inv threads t₀ g₀ s) (hc : s.control = .visiting i) {w : Worker}
    (hw : s.workers[i]? = some w) :
    ∃ t v, Leads threads s t ∧ t.control = .visiting (i + 1) ∧ t.now = s.now
      ∧ t.workers = s.workers.set i v ∧ Tended s.now w v := by
  have hstaffed := (h.sound i w hw).staffed (by simp [hc])
  have hlead : Leads threads s (s.visit i) := .of_step (by simp [advance, hc])
  have hvisit : Effect threads s .supervisor (s.visit i) := .of_visit hc
  generalize s.visit i = t at hlead hvisit
  cases hvisit with
  | @passes k w' hk hw' hrest =>
      obtain rfl : i = k := by simpa [hc] using hk
      obtain rfl : w = w' := Option.some.inj (hw.symm.trans hw')
      have hset : s.workers = s.workers.set i w := by
        obtain ⟨hlt, rfl⟩ := List.getElem?_eq_some_iff.mp hw
        exact (List.set_getElem_self hlt).symm
      refine ⟨_, w, hlead, rfl, rfl, hset, ?_⟩
      rcases hrest with ⟨due, hdue, hnow⟩ | ⟨hretry, hrun⟩
      · refine .inr ⟨fun hrun => ?_, fun d hd => ?_, by simp [hdue]⟩
        · simp [hrun, hdue] at hstaffed
        · rwa [← Option.some.inj (hdue.symm.trans hd)]
      · obtain ⟨thread, hthread⟩ := Option.isSome_iff_exists.mp (hstaffed.mpr hretry)
        cases thread with
        | running => exact .inl hthread
        | finished => exact absurd hthread hrun
  | @retries k retryAt w' hk hw' hretry hdue =>
      obtain rfl : i = k := by simpa [hc] using hk
      obtain ⟨u, v, hu, huc, hun, huw, hv⟩ := leads_respawn (h.leads hlead) rfl
      exact ⟨u, v, hlead.trans hu, huc, hun, by simpa using huw, .inl hv⟩
  | @joins k w' b hk hw' hretry hend hb =>
      obtain rfl : i = k := by simpa [hc] using hk
      obtain rfl : w = w' := Option.some.inj (hw.symm.trans hw')
      obtain ⟨u, v, hu, huc, hun, huw, hv⟩ := leads_judge (h.leads hlead) rfl
      refine ⟨u, v, hlead.trans hu, huc, hun, by simpa using huw, hv.imp id fun hv => ?_⟩
      exact ⟨by simp [hend], by simp [hretry], hv⟩
  | visitedAll hk hi =>
      obtain rfl := Control.visiting.inj (hc.symm.trans hk)
      simp [hw] at hi
  | spawned hk | spawnedAll hk | woke hk | reloads hk | waits hk | charges hk | respawns hk =>
      simp [hc] at hk

/-- The rest of a pass: every worker from `i` on is looked at, and the others stay as they are. -/
lemma leads_pass (h : Inv threads t₀ g₀ s) (hc : s.control = .visiting i) :
    ∃ t, Leads threads s t ∧ t.control = .sleeping ∧ t.now = s.now
      ∧ (∀ j < i, t.workers[j]? = s.workers[j]?)
      ∧ ∀ j v, i ≤ j → t.workers[j]? = some v → ∃ w, s.workers[j]? = some w ∧ Tended s.now w v := by
  induction hk : s.workers.length - i generalizing s i with
  | zero =>
      have hnone : s.workers[i]? = none := List.getElem?_eq_none (by omega)
      refine ⟨{ s with control := .sleeping }, .of_step (by simp [advance, hc, State.visit, hnone]),
        rfl, rfl, fun _ _ => rfl, fun j v hij hv => ?_⟩
      have hlt := (List.getElem?_eq_some_iff.mp hv).1
      change j < s.workers.length at hlt
      omega
  | succ k ih =>
      have hw : s.workers[i]? = some s.workers[i] := List.getElem?_eq_getElem (by omega)
      obtain ⟨t, v, hst, htc, htn, htw, htended⟩ := leads_visit h hc hw
      obtain ⟨u, htu, huc, hun, hbefore, hbehind⟩ := ih (h.leads hst) htc
        (by rw [htw, List.length_set]; omega)
      refine ⟨u, hst.trans htu, huc, hun.trans htn, fun j hj => ?_, fun j x hij hx => ?_⟩
      · rw [hbefore j (by omega), htw, List.getElem?_set_ne (by omega)]
      · rcases Nat.eq_or_lt_of_le hij with rfl | hij
        · rw [hbefore i (Nat.lt_succ_self i), htw] at hx
          rcases Places.getElem?_set_cases hx with ⟨-, rfl⟩ | ⟨hne, -⟩
          · exact ⟨_, hw, htended⟩
          · exact absurd rfl hne
        · obtain ⟨w, hw, hj⟩ := hbehind j x hij hx
          rw [htw, List.getElem?_set_ne (by omega)] at hw
          exact ⟨w, hw, htn ▸ hj⟩

/-- Wherever the supervisor stands, it comes to the head of its loop. -/
lemma leads_sleeping (h : Inv threads t₀ g₀ s) :
    ∃ t, Leads threads s t ∧ t.control = .sleeping := by
  have hvisiting : ∀ {s : State} {i : ℕ}, Inv threads t₀ g₀ s → s.control = .visiting i →
      ∃ t, Leads threads s t ∧ t.control = .sleeping := fun h hc => by
    obtain ⟨t, ht, htc, -⟩ := leads_pass h hc
    exact ⟨t, ht, htc⟩
  cases hc : s.control with
  | spawning slot =>
      -- the threads are spawned first
      induction hk : threads + 1 - slot generalizing s slot with
      | zero =>
          refine ⟨s.spawn threads slot, .of_step (by simp [advance, hc]), ?_⟩
          simp [State.spawn, show ¬ slot ≤ threads by omega]
      | succ k ih =>
          have hlead : Leads threads s (s.spawn threads slot) := .of_step (by simp [advance, hc])
          obtain ⟨t, ht, htc⟩ := ih (h.leads hlead) (slot + 1)
            (by simp [State.spawn, show slot ≤ threads by omega]) (by omega)
          exact ⟨t, hlead.trans ht, htc⟩
  | sleeping => exact ⟨s, .refl s, hc⟩
  | visiting i => exact hvisiting h hc
  | judging i =>
      obtain ⟨t, v, hst, htc, -⟩ := leads_judge h hc
      obtain ⟨u, htu, huc⟩ := hvisiting (h.leads hst) htc
      exact ⟨u, hst.trans htu, huc⟩
  | respawning i =>
      obtain ⟨t, v, hst, htc, -⟩ := leads_respawn h hc
      obtain ⟨u, htu, huc⟩ := hvisiting (h.leads hst) htc
      exact ⟨u, hst.trans htu, huc⟩

/-- A whole turn of the loop. -/
lemma leads_turn (h : Inv threads t₀ g₀ s) (hc : s.control = .sleeping) :
    ∃ t, Leads threads s t ∧ t.control = .sleeping ∧ t.now = s.now
      ∧ ∀ (j : ℕ) v, t.workers[j]? = some v →
        ∃ w, s.workers[j]? = some w ∧ Tended s.now w v := by
  have hwoke : advance threads s = some { s with control := .visiting 0 } := by simp [advance, hc]
  obtain ⟨t, ht, htc, htn, -, hall⟩ := leads_pass (h.leads (.of_step hwoke)) rfl
  exact ⟨t, .head hwoke ht, htc, htn, fun j v hv => hall j v (Nat.zero_le j) hv⟩

end

/-- **No slot is lost.**  From every state of every run the supervisor, left alone for one pause,
has a thread running in each of its slots again. -/
theorem comes_back {threads t₀ g₀ : ℕ} {as : List Action} {s : State}
    (hrun : runFrom (step threads) (init t₀ g₀) as = some s) :
    ∃ before behind t, (∀ a ∈ before ++ behind, a = .supervisor)
      ∧ runFrom (step threads) s (before ++ .elapses retryPause :: behind) = some t
      ∧ t.workers.map Worker.slot = List.range' 1 threads
      ∧ ∀ w ∈ t.workers, w.handle = some .running := by
  have h := inv_run hrun
  obtain ⟨a, hsa, hac⟩ := leads_sleeping h
  obtain ⟨b, hab, hbc, hbn, hbt⟩ := leads_turn (h.leads hsa) hac
  have hsb := hsa.trans hab
  have hb := h.leads hsb
  -- every pause that runs is over after one
  obtain ⟨c, hc⟩ : ∃ c, step threads b (.elapses retryPause) = some c := ⟨_, rfl⟩
  have hcinv := inv_step hb hc
  obtain rfl := Option.some.inj hc
  obtain ⟨t, hct, htc, htn, htt⟩ := leads_turn hcinv hbc
  have hinv := hcinv.leads hct
  obtain ⟨before, hbefore, hrunb⟩ := hsb
  obtain ⟨behind, hbehind, hrunt⟩ := hct
  refine ⟨before, behind, t, fun x hx => ?_,
    runFrom_append _ hrunb ((runFrom_cons _).mpr ⟨_, rfl, hrunt⟩), ?_, fun w hw => ?_⟩
  · exact (List.mem_append.mp hx).elim (hbefore x) (hbehind x)
  · have hlength := hinv.spawned fun slot hs => by simp [htc] at hs
    refine List.ext_getElem (by simp [hlength]) fun j hj hj' => ?_
    have hlt : j < t.workers.length := by simpa using hj
    have hslot := (hinv.sound j _ (List.getElem?_eq_getElem hlt)).slot
    simp [hslot, Nat.add_comm]
  · obtain ⟨j, hj⟩ := List.getElem?_of_mem hw
    obtain ⟨v, hv, htended⟩ := htt j w hj
    rcases htended with hrunning | ⟨hidle, hlater, -⟩
    · exact hrunning
    · exfalso
      obtain ⟨u, hu, hrunning | ⟨-, -, hpaused⟩⟩ := hbt j v hv
      · exact hidle hrunning
      · obtain ⟨due, hdue⟩ := Option.isSome_iff_exists.mp hpaused
        have hsound := (hb.sound j v hv).paused
        rw [hdue] at hsound
        exact absurd (hlater due hdue) (Nat.not_lt.mpr hsound.2.1)

/-- The slot that waits after its eleventh crash is staffed again. -/
theorem comes_back_crashes : ∃ s, runFrom (step 1) (init 0 0) (crashes 11) = some s
    ∧ ∃ before behind t, (∀ a ∈ before ++ behind, a = .supervisor)
      ∧ runFrom (step 1) s (before ++ .elapses retryPause :: behind) = some t
      ∧ t.workers.map Worker.slot = List.range' 1 1
      ∧ ∀ w ∈ t.workers, w.handle = some .running := by
  obtain ⟨s, hs⟩ := Option.isSome_iff_exists.mp
    (show (runFrom (step 1) (init 0 0) (crashes 11)).isSome = true by decide +kernel)
  exact ⟨s, hs, comes_back hs⟩

end Supervisor

end Ignis
