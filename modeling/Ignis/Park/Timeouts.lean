import Ignis.Park.Calls

/-!
# When a parked wait reports a timeout

`poll_impl` and `ignis_park_select` as machines: each stands at a point of its code (`Pc`), asks the
kernel, parks, or reads the clock, and goes on with what it is told.  `pollNext` and `selectNext`
are the code; `step` runs one of them against the kernel and the reactor, which may answer as they
like within their contracts:

* a waiting system call returns 0 only after its timeout, and never when it has none;
* the timer of `park_pollfds` fires only after its time;
* a watch may complete at any moment, whether or not the kernel then finds the descriptor ready.

`poll_impl` goes around its loop after a wake-up that the kernel denies, so its 0 is always earned;
`ignis_park_select` has no loop.
-/

namespace Ignis

namespace Park

/-! ## Definitions -/

/-- How `park_pollfds` returns. -/
inductive Wake where
  /-- `Some(true)`: a watch completed, be it with an error. -/
  | byFd
  /-- `Some(false)`. -/
  | byTimer
  /-- `None`. -/
  | cannotPark
  deriving DecidableEq, Repr

/-- Where a handler stands. -/
inductive Pc where
  | enter
  /-- In the zero-timeout call that looks before it parks. -/
  | probe
  /-- At the head of the loop of `poll_impl`. -/
  | loop
  /-- In `park_pollfds`, with this timeout in milliseconds. -/
  | park (left : ℤ)
  /-- In the zero-timeout call after a wake-up. -/
  | recheck (byFd : Bool)
  /-- In the system call whose answer is returned; `none` waits for ever. -/
  | forward (ns : Option ℤ)
  | done (r : ℤ)
  deriving DecidableEq, Repr

/-- What a handler is told. -/
inductive Reply where
  /-- Its own code runs; `elapsed` is `started.elapsed().as_millis()`. -/
  | go (elapsed : ℤ)
  | answer (r : ℤ)
  | wake (w : Wake)
  deriving DecidableEq, Repr

/-- `poll_impl`; `may` is `may_park`. -/
def pollNext (may : Bool) (fds : List PollFd) (timeout : ℤ) : Pc → Reply → Option Pc
  | .enter, .go _ =>
      if !may then some (.forward (ofMs timeout))
      else if timeout = 0 ∨ fds = [] then some (.forward (ofMs timeout))
      else some .probe
  | .probe, .answer r => if r ≠ 0 then some (.done r) else some .loop
  | .loop, .go elapsed =>
      if timeout < 0 then some (.park (-1))
      else if timeout - elapsed ≤ 0 then some (.forward (some 0))
      else some (.park (min (timeout - elapsed) cIntMax))
  | .park _, .wake .byFd => some (.recheck true)
  | .park _, .wake .byTimer => some (.recheck false)
  | .park left, .wake .cannotPark => some (.forward (ofMs left))
  | .recheck true, .answer r => if r ≠ 0 then some (.done r) else some .loop
  | .recheck false, .answer r => some (.done r)
  | .forward _, .answer r => some (.done r)
  | _, _ => none

/-- `ignis_park_select`. -/
def selectNext (may : Bool) (sel : Select) (tv : Option Timeval) : Pc → Reply → Option Pc
  | .enter, .go _ =>
      if !may then some (.forward (tv.map fun tv => (tsOf tv).nanoseconds))
      else if sel.n ≤ 0 ∨ tv.elim (-1) (fun tv => msCeil (tsOf tv)) = 0 then
        some (.forward (tv.map fun tv => (tsOf tv).nanoseconds))
      else some .probe
  | .probe, .answer r =>
      if r ≠ 0 then some (.done r)
      else if sel.exceptionOnly then some (.forward (tv.map fun tv => (tsOf tv).nanoseconds))
      else some (.park (tv.elim (-1) fun tv => msCeil (tsOf tv)))
  | .park _, .wake .byFd => some (.recheck true)
  | .park _, .wake .byTimer => some (.recheck false)
  | .park _, .wake .cannotPark => some (.forward (tv.map fun tv => (tsOf tv).nanoseconds))
  -- the answer is the caller's, whatever woke the call
  | .recheck _, .answer r => some (.done r)
  | .forward _, .answer r => some (.done r)
  | _, _ => none

/-- `ignis_park_poll`, `ignis_park_ppoll` and `ignis_park_select`.  A `ppoll` with a signal mask is
the kernel's. -/
def Call.next (may : Bool) : Call → Pc → Reply → Option Pc
  | .poll fds timeout => pollNext may fds timeout
  | .ppoll _ ts true => fun
      | .enter, .go _ => some (.forward (ts.map Timespec.nanoseconds))
      | .forward _, .answer r => some (.done r)
      | _, _ => none
  | .ppoll fds ts false => pollNext may fds (ts.elim (-1) msCeil)
  | .select sel tv => selectNext may sel tv

/-- The entries a call parks on. -/
def Call.pollfds : Call → List PollFd
  | .poll fds _ => fds
  | .ppoll fds _ _ => fds
  | .select sel _ => sel.pollfds

/-- The handler and the clock, in nanoseconds since the call. -/
structure Wait where
  pc : Pc
  now : ℤ
  /-- When the handler came to `pc`. -/
  since : ℤ
  started : ℤ
  deriving DecidableEq, Repr

inductive Event where
  | tick (ns : ℕ)
  | go
  | answer (r : ℤ)
  | wake (w : Wake)
  deriving DecidableEq, Repr

/-- The contract of a waiting system call with the given timeout: what it may answer now. -/
def kernelMay (ns : Option ℤ) (since now r : ℤ) : Prop :=
  r = 0 → ∃ t, ns = some t ∧ since + t ≤ now

instance (ns : Option ℤ) (since now r : ℤ) : Decidable (kernelMay ns since now r) :=
  match ns with
  | none => decidable_of_iff (r ≠ 0) (by simp [kernelMay])
  | some t => decidable_of_iff (r = 0 → since + t ≤ now) (by simp [kernelMay])

/-- The contract of the reactor for the ops that `park_pollfds` submitted: which of them can have
completed now. -/
def reactorMay (ops : List Op) (since now : ℤ) : Wake → Bool
  | .byFd => ops.any fun
      | .watch _ _ => true
      | _ => false
  | .byTimer => ops.any fun
      | .sleep us => since + us * 1000 ≤ now
      | _ => false
  | .cannotPark => true

/-- What the handler is told by an event, if the contracts allow it. -/
def Call.reply (c : Call) (x : Wait) : Event → Option Reply
  | .tick _ => none
  | .go => some (.go ((x.now - x.started) / 10 ^ 6))
  | .answer r =>
      match x.pc with
      | .probe | .recheck _ => some (.answer r)
      | .forward ns => if kernelMay ns x.since x.now r then some (.answer r) else none
      | _ => none
  | .wake w =>
      match x.pc with
      | .park left =>
          if reactorMay (parkOps c.pollfds left) x.since x.now w then some (.wake w) else none
      | _ => none

/-- `started` is read between the probe and the loop. -/
def Wait.goto (x : Wait) (pc : Pc) : Wait :=
  { x with
    pc := pc
    since := x.now
    started := if x.pc = .probe then x.now else x.started }

def step (may : Bool) (c : Call) (x : Wait) : Event → Option Wait
  | .tick ns => some { x with now := x.now + ns }
  | ev => (c.reply x ev).bind fun reply => (c.next may x.pc reply).map x.goto

def Wait.init : Wait := ⟨.enter, 0, 0, 0⟩

/-- A timeout that has passed. -/
def Due (timeout : Option ℤ) (now : ℤ) : Prop := ∃ t, timeout = some t ∧ t ≤ now

/-- The calls whose 0 is always earned: every `poll`; a `ppoll` that the kernel keeps or whose
timeout fits the milliseconds of a `c_int`; and a `select` that is forwarded, or has no descriptor
to watch and such a timeout. -/
def Call.Honest (may : Bool) : Call → Prop
  | .poll _ _ => True
  | .ppoll _ ts mask => mask = true ∨ ∀ t ∈ ts, t.nanoseconds ≤ cIntMax * 10 ^ 6
  | .select sel tv =>
      may = false ∨ sel.n ≤ 0 ∨ (∃ t ∈ tv, (tsOf t).nanoseconds = 0) ∨ sel.exceptionOnly = true ∨
        sel.pollfds = [] ∧ ∀ t ∈ tv, (tsOf t).nanoseconds ≤ cIntMax * 10 ^ 6

/-! ## What is owed at each point -/

lemma Due.mono {timeout : Option ℤ} {now now' : ℤ} (h : Due timeout now) (hle : now ≤ now') :
    Due timeout now' := by
  obtain ⟨t, ht, hle'⟩ := h
  exact ⟨t, ht, hle'.trans hle⟩

/-- What a handler promises its caller, and what it knows where it may park. -/
structure Promise where
  timeout : Option ℤ
  probe : Prop
  park : Prop
  /-- After a wake-up by a descriptor. -/
  recheck : Prop

/-- What has to be true where a handler stands for its 0 to be earned. -/
def Owes (P : Promise) (x : Wait) : Prop :=
  match x.pc with
  | .enter | .loop => True
  | .probe => P.probe
  | .park left => P.park ∧ (0 ≤ left → Due P.timeout (x.since + left * 10 ^ 6))
  | .recheck true => P.recheck
  | .recheck false => Due P.timeout x.now
  | .forward ns => ∀ t, ns = some t → Due P.timeout (x.since + t)
  | .done r => r = 0 → Due P.timeout x.now

/-- The clock does not go back. -/
structure Timed (P : Promise) (x : Wait) : Prop where
  since_nonneg : 0 ≤ x.since
  since_le : x.since ≤ x.now
  started_nonneg : 0 ≤ x.started
  started_le : x.started ≤ x.now
  owes : Owes P x

variable {P : Promise} {x : Wait} {pc : Pc}

lemma Timed.tick (h : Timed P x) (ns : ℕ) :
    Timed P { x with now := x.now + ns } := by
  obtain ⟨h0, h1, h2, h3, howes⟩ := h
  refine ⟨h0, by simp only; omega, h2, by simp only; omega, ?_⟩
  have hle : x.now ≤ x.now + ns := by omega
  revert howes
  cases hpc : x.pc with
  | recheck byFd =>
      cases byFd with
      | true => simp [Owes, hpc]
      | false =>
          simp only [Owes, hpc]
          exact fun hdue => hdue.mono hle
  | done r =>
      simp only [Owes, hpc]
      exact fun hdue hr => (hdue hr).mono hle
  | _ => simp [Owes, hpc]

/-- A handler goes on; what it owes at the new point is the caller's to show. -/
lemma Timed.goto (h : Timed P x) (howes : Owes P (x.goto pc)) :
    Timed P (x.goto pc) := by
  obtain ⟨h0, h1, h2, h3, -⟩ := h
  refine ⟨h0.trans h1, le_refl _, ?_, ?_, howes⟩
  · simp only [Wait.goto]
    split <;> omega
  · simp only [Wait.goto]
    split <;> omega

lemma timed_init : Timed P Wait.init :=
  ⟨le_refl _, le_refl _, le_refl _, le_refl _, trivial⟩

/-- What a reply says, given the contracts. -/
inductive Told (c : Call) (x : Wait) : Reply → Prop where
  | go : Told c x (.go ((x.now - x.started) / 10 ^ 6))
  | answer (r : ℤ) (h : ∀ ns, x.pc = .forward ns → kernelMay ns x.since x.now r) :
      Told c x (.answer r)
  | wake (w : Wake) (left : ℤ) (hpc : x.pc = .park left)
      (h : reactorMay (parkOps c.pollfds left) x.since x.now w = true) : Told c x (.wake w)

lemma told_of_reply {c : Call} {ev : Event} {reply : Reply} (h : c.reply x ev = some reply) :
    Told c x reply := by
  cases ev with
  | tick ns => cases h
  | go =>
      obtain rfl := Option.some.inj h
      exact .go
  | answer r =>
      cases hpc : x.pc with
      | forward ns =>
          simp only [Call.reply, hpc] at h
          split at h
          case isTrue hmay =>
            obtain rfl := Option.some.inj h
            refine .answer r fun ns' hns => ?_
            rw [hpc] at hns
            cases hns
            exact hmay
          case isFalse => cases h
      | probe =>
          simp only [Call.reply, hpc, Option.some.injEq] at h
          exact h ▸ .answer r (by simp [hpc])
      | recheck byFd =>
          simp only [Call.reply, hpc, Option.some.injEq] at h
          exact h ▸ .answer r (by simp [hpc])
      | _ => simp [Call.reply, hpc] at h
  | wake w =>
      cases hpc : x.pc with
      | park left =>
          simp only [Call.reply, hpc] at h
          split at h
          case isTrue hmay =>
            obtain rfl := Option.some.inj h
            exact .wake w left hpc hmay
          case isFalse => cases h
      | _ => simp [Call.reply, hpc] at h

/-- A step is the clock or a reply within the contracts. -/
lemma step_cases {may : Bool} {c : Call} {x' : Wait} {ev : Event}
    (h : step may c x ev = some x') :
    (∃ ns : ℕ, x' = { x with now := x.now + ns }) ∨
      ∃ reply pc, Told c x reply ∧ c.next may x.pc reply = some pc ∧ x' = x.goto pc := by
  cases ev with
  | tick ns =>
      simp only [step, Option.some.injEq] at h
      exact Or.inl ⟨ns, h.symm⟩
  | _ =>
      simp only [step, Option.bind_eq_some_iff, Option.map_eq_some_iff] at h
      obtain ⟨reply, hreply, pc, hpc, rfl⟩ := h
      exact Or.inr ⟨reply, pc, told_of_reply hreply, hpc, rfl⟩

lemma timer_of_reactorMay {fds : List PollFd} {left since now : ℤ}
    (h : reactorMay (parkOps fds left) since now .byTimer = true) :
    0 < left ∧ since + left * 10 ^ 6 ≤ now := by
  simp only [reactorMay, List.any_eq_true] at h
  obtain ⟨op, hop, hle⟩ := h
  cases op with
  | sleep us =>
      obtain ⟨hleft, rfl⟩ := sleep_mem_parkOps.mp hop
      refine ⟨hleft, ?_⟩
      simp only [decide_eq_true_eq] at hle
      push_cast at hle
      rw [Int.toNat_of_nonneg (le_of_lt hleft)] at hle
      omega
  | _ => simp at hle

lemma watch_of_reactorMay {fds : List PollFd} {left since now : ℤ}
    (h : reactorMay (parkOps fds left) since now .byFd = true) : fds ≠ [] := by
  simp only [reactorMay, List.any_eq_true] at h
  obtain ⟨op, hop, hw⟩ := h
  cases op with
  | watch fd write =>
      obtain ⟨p, hp, -⟩ := watch_mem_parkOps.mp hop
      exact List.ne_nil_of_mem hp
  | _ => simp at hw

/-! ## One lemma per handler -/

/-- The answer of a forwarded call is the kernel's. -/
lemma owes_done_of_forward {c : Call} {ns : Option ℤ} {r : ℤ} (hpc : x.pc = .forward ns)
    (h : Timed P x) (htold : Told c x (.answer r)) :
    Owes P (x.goto (.done r)) := by
  have howes := h.owes
  simp only [Owes, hpc] at howes
  intro hr
  cases htold with
  | answer r hmay =>
      obtain ⟨t, ht, hle⟩ := hmay ns hpc hr
      exact (howes t ht).mono hle

/-- `poll_impl` knows nothing where it parks, and needs to know nothing after a wake-up: it looks
again. -/
def pollPromise (timeout : Option ℤ) : Promise := ⟨timeout, True, True, True⟩

/-- `poll_impl` keeps its promise, for whatever its milliseconds are enough for. -/
lemma owes_of_pollNext {timeout : Option ℤ} {c : Call} {may : Bool} {fds : List PollFd} {ms : ℤ}
    {reply : Reply} (hms : ms ≤ cIntMax)
    (hdue : ∀ now, 0 ≤ ms → ms * 10 ^ 6 ≤ now → Due timeout now)
    (h : Timed (pollPromise timeout) x) (htold : Told c x reply)
    (hnext : pollNext may fds ms x.pc reply = some pc) :
    Owes (pollPromise timeout) (x.goto pc) := by
  have howes := h.owes
  have hforward : ∀ t, ofMs ms = some t → Due timeout (x.now + t) := by
    intro t ht
    simp only [ofMs] at ht
    split at ht
    · cases ht
    · obtain rfl := Option.some.inj ht
      have := h.since_nonneg
      have := h.since_le
      exact hdue _ (by omega) (by omega)
  cases hpc : x.pc with
  | enter =>
      rw [hpc] at hnext
      cases reply with
      | go elapsed =>
          simp only [pollNext] at hnext
          split_ifs at hnext
          · obtain rfl := Option.some.inj hnext
            exact hforward
          · obtain rfl := Option.some.inj hnext
            exact hforward
          · obtain rfl := Option.some.inj hnext
            trivial
      | _ => simp [pollNext] at hnext
  | probe =>
      rw [hpc] at hnext
      cases reply with
      | answer r =>
          simp only [pollNext] at hnext
          split_ifs at hnext with hr
          · obtain rfl := Option.some.inj hnext
            exact fun h0 => absurd h0 hr
          · obtain rfl := Option.some.inj hnext
            trivial
      | _ => simp [pollNext] at hnext
  | loop =>
      rw [hpc] at hnext
      cases htold with
      | go =>
          simp only [pollNext] at hnext
          have := h.started_nonneg
          have := h.started_le
          split_ifs at hnext with hneg hleft
          · obtain rfl := Option.some.inj hnext
            exact ⟨trivial, fun hpos => absurd hpos (by omega)⟩
          · obtain rfl := Option.some.inj hnext
            intro t ht
            obtain rfl := Option.some.inj ht
            exact hdue _ (by omega) (by simp only [Wait.goto]; omega)
          · -- what is left is at least the timeout less the time that has passed
            obtain rfl := Option.some.inj hnext
            refine ⟨trivial, fun _ => hdue _ (by omega) ?_⟩
            simp only [Wait.goto]
            omega
      | answer r hmay => simp [pollNext] at hnext
      | wake w left hp => simp [pollNext] at hnext
  | park left =>
      rw [hpc] at hnext
      simp only [Owes, hpc] at howes
      cases htold with
      | go => simp [pollNext] at hnext
      | answer r hmay => simp [pollNext] at hnext
      | wake w left' hp hmay =>
          cases hpc.symm.trans hp
          cases w with
          | byFd =>
              obtain rfl := Option.some.inj hnext
              trivial
          | byTimer =>
              obtain rfl := Option.some.inj hnext
              obtain ⟨hleft, hle⟩ := timer_of_reactorMay hmay
              exact (howes.2 (le_of_lt hleft)).mono hle
          | cannotPark =>
              obtain rfl := Option.some.inj hnext
              intro t ht
              simp only [ofMs] at ht
              split at ht
              · cases ht
              · obtain rfl := Option.some.inj ht
                have := h.since_le
                exact (howes.2 (by omega)).mono (by simp only [Wait.goto]; omega)
  | recheck byFd =>
      rw [hpc] at hnext
      cases reply with
      | answer r =>
          cases byFd with
          | true =>
              simp only [pollNext] at hnext
              split_ifs at hnext with hr
              · obtain rfl := Option.some.inj hnext
                exact fun h0 => absurd h0 hr
              · obtain rfl := Option.some.inj hnext
                trivial
          | false =>
              obtain rfl := Option.some.inj hnext
              simp only [Owes, hpc] at howes
              exact fun _ => howes
      | _ => cases byFd <;> simp [pollNext] at hnext
  | forward ns =>
      rw [hpc] at hnext
      cases reply with
      | answer r =>
          obtain rfl := Option.some.inj hnext
          exact owes_done_of_forward hpc h htold
      | _ => simp [pollNext] at hnext
  | done r =>
      rw [hpc] at hnext
      cases reply <;> simp [pollNext] at hnext

/-- `ignis_park_select` does not look again, so it needs to know that nothing but its timer can wake
it. -/
def selectPromise (may : Bool) (sel : Select) (tv : Option Timeval) : Promise where
  timeout := (Call.select sel tv).timeout
  probe := may = true ∧ 0 < sel.n ∧ ∀ t ∈ tv, msCeil (tsOf t) ≠ 0
  park := sel.pollfds = [] ∧ ∀ t ∈ tv, (tsOf t).nanoseconds ≤ cIntMax * 10 ^ 6
  recheck := False

/-- `ignis_park_select` keeps its promise where it has nothing to watch or does not park. -/
lemma owes_of_selectNext {may : Bool} {sel : Select} {tv : Option Timeval} {reply : Reply}
    (hhonest : (Call.select sel tv).Honest may) (h : Timed (selectPromise may sel tv) x)
    (htold : Told (.select sel tv) x reply)
    (hnext : selectNext may sel tv x.pc reply = some pc) :
    Owes (selectPromise may sel tv) (x.goto pc) := by
  have howes := h.owes
  have hsince : 0 ≤ x.now := h.since_nonneg.trans h.since_le
  have hforward : ∀ t, tv.map (fun tv => (tsOf tv).nanoseconds) = some t →
      Due (selectPromise may sel tv).timeout (x.now + t) := by
    intro t ht
    exact ⟨t, ht, by omega⟩
  cases hpc : x.pc with
  | enter =>
      rw [hpc] at hnext
      cases reply with
      | go elapsed =>
          simp only [selectNext] at hnext
          split_ifs at hnext with hmay hskip
          · obtain rfl := Option.some.inj hnext
            exact hforward
          · obtain rfl := Option.some.inj hnext
            exact hforward
          · obtain rfl := Option.some.inj hnext
            rw [not_or] at hskip
            refine ⟨by simpa using hmay, by omega, fun t ht => ?_⟩
            rw [Option.mem_def] at ht
            simpa [ht] using hskip.2
      | _ => simp [selectNext] at hnext
  | probe =>
      rw [hpc] at hnext
      cases reply with
      | answer r =>
          simp only [selectNext] at hnext
          split_ifs at hnext with hr hexc
          · obtain rfl := Option.some.inj hnext
            exact fun h0 => absurd h0 hr
          · obtain rfl := Option.some.inj hnext
            exact hforward
          · -- the call parks: of the honest ones, that leaves those with nothing to watch
            obtain rfl := Option.some.inj hnext
            simp only [Owes, hpc] at howes
            obtain ⟨hmay, hn, hms⟩ := howes
            have hpark : (selectPromise may sel tv).park := by
              rcases hhonest with hf | hf | ⟨t, ht, h0⟩ | hf | hf
              · simp [hmay] at hf
              · omega
              · exact absurd (msCeil_eq_zero_iff.mpr h0) (hms t ht)
              · exact absurd hf hexc
              · exact hf
            refine ⟨hpark, fun hleft => ?_⟩
            cases tv with
            | none => simp at hleft
            | some t =>
                have hfits := nanoseconds_le_msCeil (hpark.2 t rfl)
                exact ⟨_, rfl, by simp only [Wait.goto, Option.elim_some]; omega⟩
      | _ => simp [selectNext] at hnext
  | loop =>
      rw [hpc] at hnext
      cases reply <;> simp [selectNext] at hnext
  | park left =>
      rw [hpc] at hnext
      simp only [Owes, hpc] at howes
      cases htold with
      | go => simp [selectNext] at hnext
      | answer r hmay => simp [selectNext] at hnext
      | wake w left' hp hmay =>
          cases hpc.symm.trans hp
          cases w with
          | byFd => exact absurd howes.1.1 (watch_of_reactorMay hmay)
          | byTimer =>
              obtain rfl := Option.some.inj hnext
              obtain ⟨hleft, hle⟩ := timer_of_reactorMay hmay
              exact (howes.2 (le_of_lt hleft)).mono hle
          | cannotPark =>
              obtain rfl := Option.some.inj hnext
              exact hforward
  | recheck byFd =>
      rw [hpc] at hnext
      cases reply with
      | answer r =>
          obtain rfl := Option.some.inj hnext
          cases byFd with
          | true =>
              simp only [Owes, hpc] at howes
              exact howes.elim
          | false =>
              simp only [Owes, hpc] at howes
              exact fun _ => howes
      | _ => simp [selectNext] at hnext
  | forward ns =>
      rw [hpc] at hnext
      cases reply with
      | answer r =>
          obtain rfl := Option.some.inj hnext
          exact owes_done_of_forward hpc h htold
      | _ => simp [selectNext] at hnext
  | done r =>
      rw [hpc] at hnext
      cases reply <;> simp [selectNext] at hnext

/-! ## Runs -/

def Call.promise (may : Bool) : Call → Promise
  | .poll _ timeout => pollPromise (ofMs timeout)
  | .ppoll _ ts _ => pollPromise (ts.map Timespec.nanoseconds)
  | .select sel tv => selectPromise may sel tv

lemma Call.promise_timeout (may : Bool) (c : Call) : (c.promise may).timeout = c.timeout := by
  cases c <;> rfl

/-- An honest call keeps its promise with every reply. -/
lemma owes_of_next {may : Bool} {c : Call} {reply : Reply} (hc : c.Honest may)
    (h : Timed (c.promise may) x) (htold : Told c x reply)
    (hnext : c.next may x.pc reply = some pc) : Owes (c.promise may) (x.goto pc) := by
  cases c with
  | poll fds t =>
      refine owes_of_pollNext t.2.2 (fun now h0 hle => ?_) h htold hnext
      exact ⟨_, by simp [ofMs, not_lt.mpr h0], hle⟩
  | select sel tv => exact owes_of_selectNext hc h htold hnext
  | ppoll fds ts mask =>
      cases mask with
      | false =>
          cases ts with
          | none =>
              have hbound : (-1 : ℤ) ≤ cIntMax := by decide
              refine owes_of_pollNext hbound (fun now h0 => ?_) h htold hnext
              exact absurd h0 (by decide)
          | some t =>
              have hfits := nanoseconds_le_msCeil (hc.resolve_left (by simp) t rfl)
              refine owes_of_pollNext (msCeil_le t) (fun now _ hle => ?_) h htold hnext
              exact ⟨_, rfl, hfits.trans hle⟩
      | true =>
          have hsince : 0 ≤ x.now := h.since_nonneg.trans h.since_le
          cases hpc : x.pc with
          | enter =>
              rw [hpc] at hnext
              cases reply with
              | go elapsed =>
                  obtain rfl := Option.some.inj hnext
                  exact fun t ht => ⟨t, ht, by simp only [Wait.goto]; omega⟩
              | _ => simp [Call.next] at hnext
          | forward ns =>
              rw [hpc] at hnext
              cases reply with
              | answer r =>
                  obtain rfl := Option.some.inj hnext
                  exact owes_done_of_forward hpc h htold
              | _ => simp [Call.next] at hnext
          | _ =>
              rw [hpc] at hnext
              cases reply <;> simp [Call.next] at hnext

lemma timed_step {may : Bool} {c : Call} {x' : Wait} {ev : Event} (hc : c.Honest may)
    (h : Timed (c.promise may) x) (hs : step may c x ev = some x') :
    Timed (c.promise may) x' := by
  rcases step_cases hs with ⟨ns, rfl⟩ | ⟨reply, pc, htold, hnext, rfl⟩
  · exact h.tick ns
  · exact h.goto (owes_of_next hc h htold hnext)

/-- An honest call returns 0 only when its timeout is due. -/
lemma due_of_honest {may : Bool} {c : Call} {evs : List Event} (hc : c.Honest may)
    (hrun : StepSystem.runFrom (step may c) Wait.init evs = some x) (hdone : x.pc = .done 0) :
    Due c.timeout x.now := by
  have h : Timed (c.promise may) x :=
    StepSystem.invariant_of_run (step may c) (fun _ _ _ => timed_step hc) timed_init hrun
  have howes := h.owes
  simp only [Owes, hdone, forall_const] at howes
  rwa [c.promise_timeout] at howes

/-- Each `pollfd` of a `select` has a watch. -/
lemma watch_of_pollfds {sel : Select} (h : sel.pollfds ≠ []) (ms : ℤ) :
    ∃ fd write, Op.watch fd write ∈ parkOps sel.pollfds ms := by
  obtain ⟨p, hp⟩ := List.exists_mem_of_ne_nil _ h
  have hp' := hp
  simp only [Select.pollfds, List.mem_filterMap] at hp'
  obtain ⟨fd, -, hfd⟩ := hp'
  split at hfd
  case isTrue => cases hfd
  case isFalse hevents =>
    obtain rfl := Option.some.inj hfd
    by_cases hr : sel.r.has fd = true
    · refine ⟨fd, false, watch_mem_parkOps.mpr ⟨_, hp, rfl, by simp, ?_⟩⟩
      simp only [Select.events, hr, if_true]
      split <;> decide
    · have hw : sel.w.has fd = true := by
        by_contra hw
        simp [Select.events, hr, hw] at hevents
      refine ⟨fd, true, watch_mem_parkOps.mpr ⟨_, hp, rfl, by simp, ?_⟩⟩
      simp only [Select.events, hr, hw]
      decide

/-- A `select` that gets past its first questions parks. -/
lemma select_parks {sel : Select} {tv : Option Timeval} (hn : 0 < sel.n)
    (hms : ∀ t ∈ tv, msCeil (tsOf t) ≠ 0) (hexc : sel.exceptionOnly = false) :
    StepSystem.runFrom (step true (.select sel tv)) Wait.init [.go, .answer 0]
      = some ⟨.park (tv.elim (-1) fun tv => msCeil (tsOf tv)), 0, 0, 0⟩ := by
  have htv : tv.elim (-1) (fun tv => msCeil (tsOf tv)) ≠ 0 := by
    cases tv with
    | none => decide
    | some t => exact hms t rfl
  simp [StepSystem.runFrom, step, Call.reply, Call.next, selectNext, Wait.init, Wait.goto, htv,
    hexc, not_le.mpr hn]

/-- A `select` with a descriptor to watch: the watch completes at once, the kernel denies it. -/
lemma early_of_watch {sel : Select} {tv : Option Timeval} (hn : 0 < sel.n)
    (hms : ∀ t ∈ tv, msCeil (tsOf t) ≠ 0) (hexc : sel.exceptionOnly = false)
    (hfds : sel.pollfds ≠ []) :
    StepSystem.runFrom (step true (.select sel tv)) Wait.init
      (([.go, .answer 0] : List Event) ++ ([.wake .byFd, .answer 0] : List Event))
      = some ⟨.done 0, 0, 0, 0⟩ := by
  refine StepSystem.runFrom_append _ (select_parks hn hms hexc) ?_
  obtain ⟨fd, write, hop⟩ := watch_of_pollfds hfds (tv.elim (-1) fun tv => msCeil (tsOf tv))
  have hmay : reactorMay (parkOps sel.pollfds (tv.elim (-1) fun tv => msCeil (tsOf tv))) 0 0 .byFd
      = true := List.any_eq_true.mpr ⟨_, hop, rfl⟩
  simp [StepSystem.runFrom, step, Call.reply, Call.pollfds, Call.next, selectNext, Wait.goto, hmay]

/-- The timer of a wait that was cut to `cIntMax` milliseconds. -/
lemma timer_fires (fds : List PollFd) :
    reactorMay (parkOps fds cIntMax) 0 (cIntMax * 10 ^ 6) .byTimer = true := by
  refine List.any_eq_true.mpr ⟨.sleep (cIntMax.toNat * 1000), ?_, by decide⟩
  exact sleep_mem_parkOps.mpr ⟨by decide, rfl⟩

/-- A `select` with nothing to watch and a timeout past the range. -/
lemma early_of_select_cut {sel : Select} {t : Timeval} (hn : 0 < sel.n)
    (hexc : sel.exceptionOnly = false) (ht : cIntMax * 10 ^ 6 < (tsOf t).nanoseconds) :
    StepSystem.runFrom (step true (.select sel (some t))) Wait.init
      (([.go, .answer 0] : List Event) ++
        ([.tick (cIntMax.toNat * 10 ^ 6), .wake .byTimer, .answer 0] : List Event))
      = some ⟨.done 0, cIntMax * 10 ^ 6, cIntMax * 10 ^ 6, 0⟩ := by
  have hcut := msCeil_of_lt ht
  have hms : ∀ t' ∈ some t, msCeil (tsOf t') ≠ 0 := by
    rintro t' ⟨⟩
    rw [hcut]
    decide
  refine StepSystem.runFrom_append _ (select_parks hn hms hexc) ?_
  have hnow : (0 : ℤ) + (cIntMax.toNat * 10 ^ 6 : ℕ) = cIntMax * 10 ^ 6 := by decide
  simp only [StepSystem.runFrom, step, Call.reply, Call.pollfds, Call.next, selectNext, Wait.goto,
    Option.elim_some, hcut, hnow, timer_fires, Option.bind_some, Option.map_some, if_true]
  rfl

/-- A `poll_impl` that gets past its first questions parks. -/
lemma poll_parks {c : Call} {fds : List PollFd} {ms : ℤ}
    (hc : c.next true = pollNext true fds ms) (hfds : fds ≠ []) (hms : ms ≠ 0)
    (hle : ms ≤ cIntMax) :
    StepSystem.runFrom (step true c) Wait.init [.go, .answer 0, .go]
      = some ⟨.park (if ms < 0 then -1 else ms), 0, 0, 0⟩ := by
  by_cases hneg : ms < 0
  · simp [StepSystem.runFrom, step, Call.reply, hc, pollNext, Wait.init, Wait.goto, hfds, hms, hneg]
  · have hpos : ¬ ms ≤ 0 := by omega
    simp [StepSystem.runFrom, step, Call.reply, hc, pollNext, Wait.init, Wait.goto, hfds, hms, hneg,
      hpos, hle]

/-- A `ppoll` with a timeout past the range, forwarded or parked. -/
lemma early_of_ppoll_cut (may : Bool) (fds : List PollFd) {t : Timespec}
    (ht : cIntMax * 10 ^ 6 < t.nanoseconds) :
    ∃ evs x, StepSystem.runFrom (step may (.ppoll fds (some t) false)) Wait.init evs = some x ∧
      x.pc = .done 0 ∧ x.now = cIntMax * 10 ^ 6 := by
  have hcut := msCeil_of_lt ht
  have hnow : (0 : ℤ) + (cIntMax.toNat * 10 ^ 6 : ℕ) = cIntMax * 10 ^ 6 := by decide
  by_cases hpark : may = true ∧ fds ≠ []
  · obtain ⟨rfl, hfds⟩ := hpark
    refine ⟨([.go, .answer 0, .go] : List Event) ++
        ([.tick (cIntMax.toNat * 10 ^ 6), .wake .byTimer, .answer 0] : List Event),
      ⟨.done 0, cIntMax * 10 ^ 6, cIntMax * 10 ^ 6, 0⟩, ?_, rfl, rfl⟩
    have hnext : Call.next true (.ppoll fds (some t) false) = pollNext true fds cIntMax := by
      simp [Call.next, hcut]
    have hpark := poll_parks hnext hfds (by decide) (le_refl _)
    refine StepSystem.runFrom_append _ hpark ?_
    have hneg : ¬ cIntMax < 0 := by decide
    simp only [StepSystem.runFrom, step, Call.reply, Call.pollfds, Call.next, pollNext, Wait.goto,
      hneg, hnow, timer_fires, Option.bind_some, Option.map_some, if_true, if_false]
    rfl
  · refine ⟨[.go, .tick (cIntMax.toNat * 10 ^ 6), .answer 0],
      ⟨.done 0, cIntMax * 10 ^ 6, cIntMax * 10 ^ 6, 0⟩, ?_, rfl, rfl⟩
    have hforward : pollNext may fds cIntMax .enter (.go ((0 - 0) / 10 ^ 6))
        = some (.forward (some (cIntMax * 10 ^ 6))) := by
      simp only [pollNext]
      split_ifs with hmay hskip
      · rfl
      · rfl
      · exact absurd ⟨by simpa using hmay, fun e => hskip (Or.inr e)⟩ hpark
    have hmay : kernelMay (some (cIntMax * 10 ^ 6)) 0 (cIntMax * 10 ^ 6) 0 :=
      fun _ => ⟨_, rfl, by simp⟩
    simp only [StepSystem.runFrom, step, Call.reply, Call.next, Wait.goto, Wait.init,
      Option.elim_some, hcut, hnow, hforward, hmay, Option.bind_some, Option.map_some, if_true]
    rfl

/-- A call that is not honest returns 0 too early in some run. -/
lemma early_of_not_honest {may : Bool} {c : Call} (hc : ¬ c.Honest may) :
    ∃ evs x, StepSystem.runFrom (step may c) Wait.init evs = some x ∧ x.pc = .done 0 ∧
      ¬ Due c.timeout x.now := by
  cases c with
  | poll fds t => exact absurd trivial hc
  | ppoll fds ts mask =>
      simp only [Call.Honest, not_or, Bool.not_eq_true] at hc
      obtain ⟨rfl, hts⟩ := hc
      push Not at hts
      obtain ⟨t, rfl, hlt⟩ := hts
      obtain ⟨evs, x, hrun, hdone, hnow⟩ := early_of_ppoll_cut may fds hlt
      refine ⟨evs, x, hrun, hdone, ?_⟩
      rintro ⟨t', ht', hle⟩
      obtain rfl := Option.some.inj ht'
      omega
  | select sel tv =>
      simp only [Call.Honest, not_or, Bool.not_eq_true, Bool.not_eq_false, not_and] at hc
      obtain ⟨rfl, hn, hzero, hexc, hfits⟩ := hc
      have hms : ∀ t ∈ tv, msCeil (tsOf t) ≠ 0 := by
        intro t ht h0
        exact hzero ⟨t, ht, msCeil_eq_zero_iff.mp h0⟩
      by_cases hfds : sel.pollfds = []
      · have := hfits hfds
        push Not at this
        obtain ⟨t, rfl, hlt⟩ := this
        refine ⟨_, _, early_of_select_cut (not_le.mp hn) hexc hlt, rfl, ?_⟩
        rintro ⟨t', ht', hle⟩
        obtain rfl := Option.some.inj ht'
        exact absurd hle (not_le.mpr hlt)
      · refine ⟨_, _, early_of_watch (not_le.mp hn) hms hexc hfds, rfl, ?_⟩
        rintro ⟨t', ht', hle⟩
        obtain ⟨tv', rfl, rfl⟩ := Option.map_eq_some_iff.mp ht'
        have hzero := le_antisymm hle (nanoseconds_nonneg (tsOf tv'))
        exact hms tv' rfl (msCeil_eq_zero_iff.mpr hzero)

/-- **When a reported timeout is earned.**  A call returns 0 only after its timeout and never
without one, in every run that the kernel and the reactor may make of it, exactly if it is an
honest one: a parked `select` that watches a descriptor is not. -/
theorem zero_earned_iff_honest (may : Bool) (c : Call) :
    (∀ evs x, StepSystem.runFrom (step may c) Wait.init evs = some x → x.pc = .done 0 →
      Due c.timeout x.now) ↔ c.Honest may := by
  constructor
  · intro h
    by_contra hc
    obtain ⟨evs, x, hrun, hdone, hearly⟩ := early_of_not_honest hc
    exact hearly (h evs x hrun hdone)
  · exact fun hc evs x hrun hdone => due_of_honest hc hrun hdone

/-- A `select` without a timeout on one descriptor, whose watch completes with nothing to read: the
handler answers that the timeout has passed. -/
theorem select_zero_without_timeout : ∃ evs x,
    StepSystem.runFrom (step true (.select ⟨4, some [3], none, none⟩ none)) Wait.init evs = some x ∧
      x.pc = .done 0 ∧ ¬ Due (Call.select ⟨4, some [3], none, none⟩ none).timeout x.now := by
  refine ⟨[.go, .answer 0, .wake .byFd, .answer 0], ⟨.done 0, 0, 0, 0⟩, by decide, rfl, ?_⟩
  rintro ⟨t, ht, -⟩
  cases ht

end Park

end Ignis
