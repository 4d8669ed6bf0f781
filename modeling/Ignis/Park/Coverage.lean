import Ignis.Park.Timeouts

/-!
# What a parked wait can sleep through

A `poll` or `select` that blocks in the kernel returns for every condition it asked for, and `poll`
for errors and hang-ups unasked.  A parked one returns when one of the ops of `park_pollfds`
completes, and those are read watches for `POLLIN`, write watches for `POLLOUT` and a timer.
`Call.Wants` is the first, `Sees` the second, and the question is when the second covers the first.

What completes a watch is tokio's and the kernel's business (`Watches`).  A watch reports its own
direction and a hang-up, and neither direction reports `POLLPRI`; whether an error that comes alone
completes a watch is left open in both directions.
-/

namespace Ignis

namespace Park

/-! ## Definitions -/

/-- What a file can come to report, by the names of `poll(2)`.  `POLLRDNORM` and `POLLWRNORM` are
other names for the first and the third; the priority bands are not used on Linux. -/
inductive Condition where
  | readable
  | priority
  | writable
  | error
  | hangup
  | readHangup
  deriving DecidableEq, Repr

/-- `watch_fd`: an `AsyncFd` with `Interest::READABLE` or `Interest::WRITABLE`, and the conditions
of its descriptor that complete it. -/
structure Watches where
  completes : (write : Bool) → Condition → Bool
  readable : completes false .readable = true
  writable : completes true .writable = true
  hangup : ∀ write, completes write .hangup = true
  /-- Readable interest includes read-closed events. -/
  readHangup : completes false .readHangup = true
  /-- `POLLPRI` has an interest of its own, `Interest::PRIORITY`. -/
  not_priority : ∀ write, completes write .priority = false
  read_not_writable : completes false .writable = false
  write_not_readable : completes true .readable = false
  write_not_readHangup : completes true .readHangup = false

/-- What `poll(2)` returns for, of one entry. -/
def PollFd.wants (p : PollFd) : Condition → Prop
  | .readable => p.events &&& pollIn ≠ 0 ∨ p.events &&& pollRdnorm ≠ 0
  | .priority => p.events &&& pollPri ≠ 0
  | .writable => p.events &&& pollOut ≠ 0 ∨ p.events &&& pollWrnorm ≠ 0
  | .readHangup => p.events &&& pollRdhup ≠ 0
  | .error | .hangup => True

/-- What `select(2)` returns for, of one descriptor. -/
def Select.wants (sel : Select) (fd : ℕ) : Condition → Prop
  | .readable | .hangup => sel.r.has fd = true
  | .writable => sel.w.has fd = true
  | .error => sel.r.has fd = true ∨ sel.w.has fd = true
  | .priority => sel.e.has fd = true
  | .readHangup => False

/-- The condition, coming up on the descriptor, makes the blocking call return. -/
def Call.Wants (c : Call) (fd : ℤ) (cond : Condition) : Prop :=
  match c with
  | .poll fds _ | .ppoll fds _ _ => ∃ p ∈ fds, p.fd = fd ∧ 0 ≤ fd ∧ p.wants cond
  | .select sel _ => ∃ n : ℕ, fd = n ∧ (n : ℤ) < sel.n ∧ sel.wants n cond

/-- The condition, coming up on the descriptor, completes one of the ops. -/
def Sees (W : Watches) (ops : List Op) (fd : ℤ) (cond : Condition) : Prop :=
  ∃ write, Op.watch fd write ∈ ops ∧ W.completes write cond = true

/-- Some entry for the descriptor has the bit. -/
def Asks (fds : List PollFd) (fd : ℤ) (bit : BitVec 16) : Prop :=
  ∃ p ∈ fds, p.fd = fd ∧ p.events &&& bit ≠ 0

/-- An error on a descriptor that is watched as told completes a watch. -/
def Watches.SeesError (W : Watches) (read write : Prop) : Prop :=
  read ∧ W.completes false .error = true ∨ write ∧ W.completes true .error = true

/-- The interests of a call that watches can serve: no `POLLPRI` and no exception set, the other
names of `POLLIN` and `POLLOUT` only beside these, and on each descriptor a watch that an error
completes. -/
def Call.Served (W : Watches) : Call → Prop
  | .poll fds _ | .ppoll fds _ _ =>
      ∀ p ∈ fds, 0 ≤ p.fd →
        ¬ Asks fds p.fd pollPri ∧
        (Asks fds p.fd pollRdnorm ∨ Asks fds p.fd pollRdhup → Asks fds p.fd pollIn) ∧
        (Asks fds p.fd pollWrnorm → Asks fds p.fd pollOut) ∧
        W.SeesError (Asks fds p.fd pollIn) (Asks fds p.fd pollOut)
  | .select sel _ =>
      ∀ fd : ℕ, (fd : ℤ) < sel.n →
        sel.e.has fd = false ∧
        (sel.r.has fd = true ∨ sel.w.has fd = true →
          W.SeesError (sel.r.has fd = true) (sel.w.has fd = true))

/-- The milliseconds a handler waits for; negative is for ever. -/
def Call.timeoutMs : Call → ℤ
  | .poll _ timeout => timeout
  | .ppoll _ ts _ => ts.elim (-1) msCeil
  | .select _ tv => tv.elim (-1) fun tv => msCeil (tsOf tv)

/-- The calls that look whether something is ready before they wait. -/
def Call.Probes (may : Bool) : Call → Prop
  | .poll fds timeout => may = true ∧ (timeout : ℤ) ≠ 0 ∧ fds ≠ []
  | .ppoll fds ts mask => may = true ∧ ts.elim (-1) msCeil ≠ 0 ∧ fds ≠ [] ∧ mask = false
  | .select sel tv =>
      may = true ∧ tv.elim (-1) (fun tv => msCeil (tsOf tv)) ≠ 0 ∧ 0 < sel.n

/-- Those of them that park when nothing is. -/
def Call.Parks (may : Bool) (c : Call) : Prop :=
  c.Probes may ∧
    match c with
    | .select sel _ => sel.exceptionOnly = false
    | _ => True

/-! ## Which calls park -/

/-- What is known of the call where its handler stands. -/
def Known (may : Bool) (c : Call) : Pc → Prop
  | .probe => c.Probes may
  | .loop | .recheck _ => c.Parks may
  | .park left => c.Parks may ∧ (0 < left ↔ 0 < c.timeoutMs)
  | .enter | .forward _ | .done _ => True

lemma known_of_pollNext {may : Bool} {c : Call} {fds : List PollFd} {ms : ℤ} {pc pc' : Pc}
    {reply : Reply} (hprobes : c.Probes may ↔ may = true ∧ ms ≠ 0 ∧ fds ≠ [])
    (hparks : c.Parks may ↔ c.Probes may) (hms : c.timeoutMs = ms) (h : Known may c pc)
    (hnext : pollNext may fds ms pc reply = some pc') : Known may c pc' := by
  cases pc with
  | enter =>
      cases reply with
      | go elapsed =>
          simp only [pollNext] at hnext
          split_ifs at hnext with hmay hskip
          · exact Option.some.inj hnext ▸ trivial
          · exact Option.some.inj hnext ▸ trivial
          · obtain rfl := Option.some.inj hnext
            rw [not_or] at hskip
            exact hprobes.mpr ⟨by simpa using hmay, hskip⟩
      | _ => simp [pollNext] at hnext
  | probe =>
      cases reply with
      | answer r =>
          simp only [pollNext] at hnext
          split_ifs at hnext
          · exact Option.some.inj hnext ▸ trivial
          · exact Option.some.inj hnext ▸ hparks.mpr h
      | _ => simp [pollNext] at hnext
  | loop =>
      cases reply with
      | go elapsed =>
          have hne : ms ≠ 0 := (hprobes.mp (hparks.mp h)).2.1
          simp only [pollNext] at hnext
          split_ifs at hnext
          · obtain rfl := Option.some.inj hnext
            exact ⟨h, by rw [hms]; omega⟩
          · exact Option.some.inj hnext ▸ trivial
          · obtain rfl := Option.some.inj hnext
            exact ⟨h, by rw [hms]; unfold cIntMax; omega⟩
      | _ => simp [pollNext] at hnext
  | park left =>
      cases reply with
      | wake w =>
          cases w with
          | byFd => exact Option.some.inj hnext ▸ h.1
          | byTimer => exact Option.some.inj hnext ▸ h.1
          | cannotPark => exact Option.some.inj hnext ▸ trivial
      | _ => simp [pollNext] at hnext
  | recheck byFd =>
      cases reply with
      | answer r =>
          cases byFd with
          | true =>
              simp only [pollNext] at hnext
              split_ifs at hnext
              · exact Option.some.inj hnext ▸ trivial
              · exact Option.some.inj hnext ▸ h
          | false => exact Option.some.inj hnext ▸ trivial
      | _ => cases byFd <;> simp [pollNext] at hnext
  | forward ns =>
      cases reply with
      | answer r => exact Option.some.inj hnext ▸ trivial
      | _ => simp [pollNext] at hnext
  | done r => cases reply <;> simp [pollNext] at hnext

lemma known_of_selectNext {may : Bool} {sel : Select} {tv : Option Timeval} {pc pc' : Pc}
    {reply : Reply} (h : Known may (.select sel tv) pc)
    (hnext : selectNext may sel tv pc reply = some pc') : Known may (.select sel tv) pc' := by
  cases pc with
  | enter =>
      cases reply with
      | go elapsed =>
          simp only [selectNext] at hnext
          split_ifs at hnext with hmay hskip
          · exact Option.some.inj hnext ▸ trivial
          · exact Option.some.inj hnext ▸ trivial
          · obtain rfl := Option.some.inj hnext
            rw [not_or] at hskip
            exact ⟨by simpa using hmay, hskip.2, not_le.mp hskip.1⟩
      | _ => simp [selectNext] at hnext
  | probe =>
      cases reply with
      | answer r =>
          simp only [selectNext] at hnext
          split_ifs at hnext with hr hexc
          · exact Option.some.inj hnext ▸ trivial
          · exact Option.some.inj hnext ▸ trivial
          · obtain rfl := Option.some.inj hnext
            exact ⟨⟨h, by simpa using hexc⟩, Iff.rfl⟩
      | _ => simp [selectNext] at hnext
  | loop => cases reply <;> simp [selectNext] at hnext
  | park left =>
      cases reply with
      | wake w =>
          cases w with
          | byFd => exact Option.some.inj hnext ▸ h.1
          | byTimer => exact Option.some.inj hnext ▸ h.1
          | cannotPark => exact Option.some.inj hnext ▸ trivial
      | _ => simp [selectNext] at hnext
  | recheck byFd =>
      cases reply with
      | answer r => exact Option.some.inj hnext ▸ trivial
      | _ => simp [selectNext] at hnext
  | forward ns =>
      cases reply with
      | answer r => exact Option.some.inj hnext ▸ trivial
      | _ => simp [selectNext] at hnext
  | done r => cases reply <;> simp [selectNext] at hnext

lemma known_of_next {may : Bool} {c : Call} {pc pc' : Pc} {reply : Reply} (h : Known may c pc)
    (hnext : c.next may pc reply = some pc') : Known may c pc' := by
  cases c with
  | poll fds t =>
      exact known_of_pollNext Iff.rfl (by simp [Call.Parks]) rfl h hnext
  | select sel tv => exact known_of_selectNext h hnext
  | ppoll fds ts mask =>
      cases mask with
      | false =>
          have hprobes : (Call.ppoll fds ts false).Probes may
              ↔ may = true ∧ ts.elim (-1) msCeil ≠ 0 ∧ fds ≠ [] := by
            simp [Call.Probes]
          exact known_of_pollNext hprobes (by simp [Call.Parks]) rfl h hnext
      | true =>
          cases pc with
          | enter =>
              cases reply with
              | go elapsed => exact Option.some.inj hnext ▸ trivial
              | _ => simp [Call.next] at hnext
          | forward ns =>
              cases reply with
              | answer r => exact Option.some.inj hnext ▸ trivial
              | _ => simp [Call.next] at hnext
          | _ => cases reply <;> simp [Call.next] at hnext

/-- A handler that stands in `park_pollfds` has a call that parks. -/
lemma parks_of_run {may : Bool} {c : Call} {evs : List Event} {x : Wait} {left : ℤ}
    (hrun : StepSystem.runFrom (step may c) Wait.init evs = some x) (hpc : x.pc = .park left) :
    c.Parks may ∧ (0 < left ↔ 0 < c.timeoutMs) := by
  have hknown : Known may c x.pc := by
    have hinit : Known may c Wait.init.pc := trivial
    refine StepSystem.invariant_of_run (step may c) (I := fun x => Known may c x.pc) ?_ hinit hrun
    intro x ev x' h hs
    rcases step_cases hs with ⟨ns, rfl⟩ | ⟨reply, pc, -, hnext, rfl⟩
    · exact h
    · exact known_of_next h hnext
  rw [hpc] at hknown
  exact hknown

/-- A call that parks gets there as soon as the probe finds nothing. -/
lemma run_of_parks {may : Bool} {c : Call} (h : c.Parks may) :
    ∃ evs x left, StepSystem.runFrom (step may c) Wait.init evs = some x ∧ x.pc = .park left ∧
      (0 < left ↔ 0 < c.timeoutMs) := by
  cases c with
  | poll fds t =>
      obtain ⟨⟨rfl, hms, hfds⟩, -⟩ := h
      refine ⟨_, _, _, poll_parks rfl hfds hms t.2.2, rfl, ?_⟩
      simp only [Call.timeoutMs]
      split <;> omega
  | ppoll fds ts mask =>
      obtain ⟨⟨rfl, hms, hfds, rfl⟩, -⟩ := h
      have hle : ts.elim (-1) msCeil ≤ cIntMax := by
        cases ts with
        | none => decide
        | some t => exact msCeil_le t
      refine ⟨_, _, _, poll_parks rfl hfds hms hle, rfl, ?_⟩
      simp only [Call.timeoutMs]
      split <;> omega
  | select sel tv =>
      obtain ⟨⟨rfl, hms, hn⟩, hexc⟩ := h
      refine ⟨_, _, _, select_parks hn (fun t ht => ?_) hexc, rfl, Iff.rfl⟩
      rw [Option.mem_def] at ht
      simpa [ht] using hms

/-! ## What the watches of a call see -/

lemma sees_iff {W : Watches} {fds : List PollFd} {ms fd : ℤ} {cond : Condition} :
    Sees W (parkOps fds ms) fd cond ↔
      0 ≤ fd ∧ (Asks fds fd pollIn ∧ W.completes false cond = true ∨
        Asks fds fd pollOut ∧ W.completes true cond = true) := by
  constructor
  · rintro ⟨write, hop, hdone⟩
    obtain ⟨p, hp, hpf, hfd, hbit⟩ := watch_mem_parkOps.mp hop
    cases write with
    | false => exact ⟨hfd, Or.inl ⟨⟨p, hp, hpf, hbit⟩, hdone⟩⟩
    | true => exact ⟨hfd, Or.inr ⟨⟨p, hp, hpf, hbit⟩, hdone⟩⟩
  · rintro ⟨hfd, ⟨⟨p, hp, hpf, hbit⟩, hdone⟩ | ⟨⟨p, hp, hpf, hbit⟩, hdone⟩⟩
    · exact ⟨false, watch_mem_parkOps.mpr ⟨p, hp, hpf, hfd, hbit⟩, hdone⟩
    · exact ⟨true, watch_mem_parkOps.mpr ⟨p, hp, hpf, hfd, hbit⟩, hdone⟩

lemma Watches.sees_readable (W : Watches) {read write : Prop} :
    (read ∧ W.completes false .readable = true ∨ write ∧ W.completes true .readable = true) ↔
      read := by
  simp [W.readable, W.write_not_readable]

lemma Watches.sees_writable (W : Watches) {read write : Prop} :
    (read ∧ W.completes false .writable = true ∨ write ∧ W.completes true .writable = true) ↔
      write := by
  simp [W.writable, W.read_not_writable]

lemma Watches.sees_readHangup (W : Watches) {read write : Prop} :
    (read ∧ W.completes false .readHangup = true ∨ write ∧ W.completes true .readHangup = true) ↔
      read := by
  simp [W.readHangup, W.write_not_readHangup]

lemma Watches.sees_priority (W : Watches) {read write : Prop} :
    ¬ (read ∧ W.completes false .priority = true ∨ write ∧ W.completes true .priority = true) := by
  simp [W.not_priority]

lemma Watches.sees_hangup (W : Watches) {read write : Prop} :
    (read ∧ W.completes false .hangup = true ∨ write ∧ W.completes true .hangup = true) ↔
      read ∨ write := by
  simp [W.hangup]

/-- An array is served by its watches. -/
lemma served_iff_sees (W : Watches) (fds : List PollFd) (ms : ℤ) :
    (∀ fd cond, (∃ p ∈ fds, p.fd = fd ∧ 0 ≤ fd ∧ p.wants cond) →
      Sees W (parkOps fds ms) fd cond) ↔
      ∀ p ∈ fds, 0 ≤ p.fd →
        ¬ Asks fds p.fd pollPri ∧
        (Asks fds p.fd pollRdnorm ∨ Asks fds p.fd pollRdhup → Asks fds p.fd pollIn) ∧
        (Asks fds p.fd pollWrnorm → Asks fds p.fd pollOut) ∧
        W.SeesError (Asks fds p.fd pollIn) (Asks fds p.fd pollOut) := by
  simp only [sees_iff]
  constructor
  · intro h p hp hfd
    refine ⟨?_, ?_, ?_, ?_⟩
    · rintro ⟨q, hq, hqf, hbit⟩
      exact W.sees_priority (h p.fd .priority ⟨q, hq, hqf, hfd, hbit⟩).2
    · rintro (⟨q, hq, hqf, hbit⟩ | ⟨q, hq, hqf, hbit⟩)
      · exact W.sees_readable.mp (h p.fd .readable ⟨q, hq, hqf, hfd, Or.inr hbit⟩).2
      · exact W.sees_readHangup.mp (h p.fd .readHangup ⟨q, hq, hqf, hfd, hbit⟩).2
    · rintro ⟨q, hq, hqf, hbit⟩
      exact W.sees_writable.mp (h p.fd .writable ⟨q, hq, hqf, hfd, Or.inr hbit⟩).2
    · exact (h p.fd .error ⟨p, hp, rfl, hfd, trivial⟩).2
  · rintro h fd cond ⟨p, hp, rfl, hfd, hwants⟩
    obtain ⟨hpri, hread, hwrite, herror⟩ := h p hp hfd
    refine ⟨hfd, ?_⟩
    cases cond with
    | readable =>
        refine W.sees_readable.mpr ?_
        rcases hwants with hbit | hbit
        · exact ⟨p, hp, rfl, hbit⟩
        · exact hread (Or.inl ⟨p, hp, rfl, hbit⟩)
    | priority => exact absurd ⟨p, hp, rfl, hwants⟩ hpri
    | writable =>
        refine W.sees_writable.mpr ?_
        rcases hwants with hbit | hbit
        · exact ⟨p, hp, rfl, hbit⟩
        · exact hwrite ⟨p, hp, rfl, hbit⟩
    | error => exact herror
    | hangup =>
        -- the watch that an error completes is there
        refine W.sees_hangup.mpr ?_
        exact herror.imp (fun h => h.1) fun h => h.1
    | readHangup => exact W.sees_readHangup.mpr (hread (Or.inr ⟨p, hp, rfl, hwants⟩))

/-- The bits a `select` comes to. -/
lemma asks_pollfds {sel : Select} {fd : ℤ} {bit : BitVec 16} :
    Asks sel.pollfds fd bit ↔
      ∃ n : ℕ, fd = n ∧ (n : ℤ) < sel.n ∧ sel.events n &&& bit ≠ 0 := by
  constructor
  · rintro ⟨p, hp, rfl, hbit⟩
    simp only [Select.pollfds, List.mem_filterMap, List.mem_range] at hp
    obtain ⟨n, hn, hp⟩ := hp
    split at hp
    · cases hp
    · obtain rfl := Option.some.inj hp
      exact ⟨n, rfl, by omega, hbit⟩
  · rintro ⟨n, rfl, hn, hbit⟩
    refine ⟨⟨n, sel.events n⟩, ?_, rfl, hbit⟩
    simp only [Select.pollfds, List.mem_filterMap, List.mem_range]
    refine ⟨n, by omega, if_neg ?_⟩
    intro h0
    simp [h0] at hbit

lemma events_and_pollIn (sel : Select) (fd : ℕ) :
    sel.events fd &&& pollIn ≠ 0 ↔ sel.r.has fd = true := by
  unfold Select.events
  cases sel.r.has fd <;> cases sel.w.has fd <;> decide

lemma events_and_pollOut (sel : Select) (fd : ℕ) :
    sel.events fd &&& pollOut ≠ 0 ↔ sel.w.has fd = true := by
  unfold Select.events
  cases sel.r.has fd <;> cases sel.w.has fd <;> decide

lemma asks_pollfds_nat {sel : Select} {fd : ℕ} (hfd : (fd : ℤ) < sel.n) :
    (Asks sel.pollfds fd pollIn ↔ sel.r.has fd = true) ∧
      (Asks sel.pollfds fd pollOut ↔ sel.w.has fd = true) := by
  have hcast : ∀ n : ℕ, (fd : ℤ) = n ↔ n = fd := by omega
  simp only [asks_pollfds, hcast, exists_eq_left, hfd, true_and, events_and_pollIn,
    events_and_pollOut, and_self]

/-- The sets of a `select` are served by the watches. -/
lemma select_served_iff_sees (W : Watches) (sel : Select) (tv : Option Timeval) (ms : ℤ) :
    (∀ fd cond, (Call.select sel tv).Wants fd cond → Sees W (parkOps sel.pollfds ms) fd cond) ↔
      (Call.select sel tv).Served W := by
  simp only [sees_iff]
  constructor
  · intro h fd hfd
    obtain ⟨hin, hout⟩ := asks_pollfds_nat hfd
    refine ⟨?_, fun hrw => ?_⟩
    · by_contra he
      have he' : sel.e.has fd = true := by simpa using he
      exact W.sees_priority (h fd .priority ⟨fd, rfl, hfd, he'⟩).2
    · have hsees := (h fd .error ⟨fd, rfl, hfd, hrw⟩).2
      rwa [hin, hout] at hsees
  · rintro h _ cond ⟨fd, rfl, hfd, hwants⟩
    obtain ⟨he, herror⟩ := h fd hfd
    obtain ⟨hin, hout⟩ := asks_pollfds_nat hfd
    rw [hin, hout]
    refine ⟨Int.natCast_nonneg fd, ?_⟩
    cases cond with
    | readable => exact W.sees_readable.mpr hwants
    | priority =>
        have he' : sel.e.has fd = true := hwants
        rw [he] at he'
        cases he'
    | writable => exact W.sees_writable.mpr hwants
    | error => exact herror hwants
    | hangup => exact W.sees_hangup.mpr (Or.inl hwants)
    | readHangup => exact hwants.elim

lemma call_served_iff_sees (W : Watches) (c : Call) (ms : ℤ) :
    (∀ fd cond, c.Wants fd cond → Sees W (parkOps c.pollfds ms) fd cond) ↔ c.Served W := by
  cases c with
  | poll fds t => exact served_iff_sees W fds ms
  | ppoll fds ts mask => exact served_iff_sees W fds ms
  | select sel tv => exact select_served_iff_sees W sel tv ms

/-- Whether there is anything to wait for does not depend on how long is left. -/
lemma parkOps_eq_nil_congr {fds : List PollFd} {ms ms' : ℤ} (h : 0 < ms ↔ 0 < ms') :
    parkOps fds ms = [] ↔ parkOps fds ms' = [] := by
  unfold parkOps Parking.pollfdOps
  by_cases hms : 0 < ms
  · simp [hms, h.mp hms]
  · have hms' : ¬ 0 < ms' := fun h' => hms (h.mpr h')
    rw [if_neg hms, if_neg hms']

/-- **What a parked wait can sleep through.**  Whenever a call stands in `park_pollfds` with
something to wait for, each condition that the blocking call would have returned for completes one
of the watches, exactly if the call never parks or its interests are such as watches serve. -/
theorem park_covers_iff_served (W : Watches) (may : Bool) (c : Call) :
    (∀ evs x left, StepSystem.runFrom (step may c) Wait.init evs = some x → x.pc = .park left →
      parkOps c.pollfds left ≠ [] →
      ∀ fd cond, c.Wants fd cond → Sees W (parkOps c.pollfds left) fd cond) ↔
      (c.Parks may → parkOps c.pollfds c.timeoutMs ≠ [] → c.Served W) := by
  constructor
  · intro h hparks hops
    obtain ⟨evs, x, left, hrun, hpc, hleft⟩ := run_of_parks hparks
    have hne : parkOps c.pollfds left ≠ [] := fun e => hops ((parkOps_eq_nil_congr hleft).mp e)
    exact (call_served_iff_sees W c left).mp (h evs x left hrun hpc hne)
  · intro h evs x left hrun hpc hne
    obtain ⟨hparks, hleft⟩ := parks_of_run hrun hpc
    have hops : parkOps c.pollfds c.timeoutMs ≠ [] :=
      fun e => hne ((parkOps_eq_nil_congr hleft).mpr e)
    exact (call_served_iff_sees W c left).mpr (h hparks hops)

/-- `AsyncFd` on Linux: `EPOLLERR` alone counts as write-closed, and not as readable. -/
def asyncFd : Watches where
  completes
    | false, .readable | false, .hangup | false, .readHangup => true
    | true, .writable | true, .hangup | true, .error => true
    | _, _ => false
  readable := rfl
  writable := rfl
  hangup := by decide
  readHangup := rfl
  not_priority := by decide
  read_not_writable := rfl
  write_not_readable := rfl
  write_not_readHangup := rfl

/-- A `poll` for input on one socket and urgent data on another parks and would sleep through the
urgent data; so would a `select` for input and exceptions on one. -/
theorem urgent_data_slept_through :
    (∃ evs x, StepSystem.runFrom (step true (.poll [⟨3, pollIn⟩, ⟨4, pollPri⟩] ⟨-1, by decide⟩))
        Wait.init evs = some x ∧ x.pc = .park (-1) ∧
      parkOps [⟨3, pollIn⟩, ⟨4, pollPri⟩] (-1) = [.watch 3 false] ∧
      (Call.poll [⟨3, pollIn⟩, ⟨4, pollPri⟩] ⟨-1, by decide⟩).Wants 4 .priority ∧
      ¬ Sees asyncFd (parkOps [⟨3, pollIn⟩, ⟨4, pollPri⟩] (-1)) 4 .priority) ∧
    ∃ evs x, StepSystem.runFrom (step true (.select ⟨4, some [3], none, some [3]⟩ none))
        Wait.init evs = some x ∧ x.pc = .park (-1) ∧
      parkOps (Select.pollfds ⟨4, some [3], none, some [3]⟩) (-1) = [.watch 3 false] ∧
      (Call.select ⟨4, some [3], none, some [3]⟩ none).Wants 3 .priority ∧
      ¬ Sees asyncFd (parkOps (Select.pollfds ⟨4, some [3], none, some [3]⟩) (-1)) 3 .priority := by
  refine ⟨⟨[.go, .answer 0, .go], ⟨.park (-1), 0, 0, 0⟩, by decide, rfl, by decide, ?_, ?_⟩,
    [.go, .answer 0], ⟨.park (-1), 0, 0, 0⟩, by decide, rfl, by decide, ?_, ?_⟩
  · exact ⟨⟨4, pollPri⟩, by decide, rfl, by decide, by unfold PollFd.wants; decide⟩
  · exact fun h => asyncFd.sees_priority (sees_iff.mp h).2
  · exact ⟨3, rfl, by decide, rfl⟩
  · exact fun h => asyncFd.sees_priority (sees_iff.mp h).2

end Park

end Ignis
