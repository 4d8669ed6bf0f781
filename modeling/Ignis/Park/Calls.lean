import Mathlib.Algebra.Order.Ring.Int
import Ignis.Loop.Parking

/-!
# The waiting calls that park

`poll`, `ppoll` and `select` as `csrc/park.c` hands them over, and the part of them that
`poll_impl` and `ignis_park_select` compute before they wait: the timeout in milliseconds, the
`pollfd`s a `select` comes to, and the watches and the timer that `park_pollfds` submits for them.
-/

namespace Ignis

namespace Park

/-! ## Timeouts -/

/-- `libc::timespec`, one that the kernel takes; for any other it answers `EINVAL`. -/
structure Timespec where
  sec : ℤ
  nsec : ℤ
  sec_nonneg : 0 ≤ sec
  sec_fits : sec < 2 ^ 63
  nsec_nonneg : 0 ≤ nsec
  nsec_lt : nsec < 10 ^ 9

/-- `libc::timeval`. -/
structure Timeval where
  sec : ℤ
  usec : ℤ
  sec_nonneg : 0 ≤ sec
  sec_fits : sec < 2 ^ 63
  usec_nonneg : 0 ≤ usec
  usec_lt : usec < 10 ^ 6

def Timespec.nanoseconds (ts : Timespec) : ℤ := ts.sec * 10 ^ 9 + ts.nsec

/-- `ts_of` of `ignis_park_select`. -/
def tsOf (tv : Timeval) : Timespec where
  sec := tv.sec
  nsec := tv.usec * 1000
  sec_nonneg := tv.sec_nonneg
  sec_fits := tv.sec_fits
  nsec_nonneg := by have := tv.usec_nonneg; omega
  nsec_lt := by have := tv.usec_lt; omega

/-- `i64::saturating_mul` and `saturating_add` come to this. -/
def saturate (x : ℤ) : ℤ := max (-2 ^ 63) (min x (2 ^ 63 - 1))

/-- `c_int::MAX`. -/
def cIntMax : ℤ := 2 ^ 31 - 1

/-- `c_int`. -/
abbrev CInt := {t : ℤ // -2 ^ 31 ≤ t ∧ t ≤ cIntMax}

def millisecondsCeil (seconds subSecond unitsPerMillisecond : ℤ) : ℤ :=
  let whole := saturate (seconds * 1000)
  let remainder := (saturate (subSecond + (unitsPerMillisecond - 1))).tdiv unitsPerMillisecond
  max 0 (min (saturate (whole + remainder)) cIntMax)

def msCeil (ts : Timespec) : ℤ := millisecondsCeil ts.sec ts.nsec 1000000

/-- Nothing saturates for a timeout the kernel takes, except what the clamp caps anyway. -/
lemma msCeil_eq (ts : Timespec) :
    msCeil ts = min (ts.sec * 1000 + (ts.nsec + 999999) / 1000000) cIntMax := by
  have hsec := ts.sec_nonneg
  have hnsec := ts.nsec_nonneg
  have hlt := ts.nsec_lt
  have hdiv : (saturate (ts.nsec + (1000000 - 1))).tdiv 1000000 = (ts.nsec + 999999) / 1000000 := by
    rw [show saturate (ts.nsec + (1000000 - 1)) = ts.nsec + 999999 by unfold saturate; omega]
    exact Int.tdiv_eq_ediv_of_nonneg (by omega)
  rw [msCeil, millisecondsCeil, hdiv]
  unfold saturate cIntMax
  omega

lemma msCeil_le (ts : Timespec) : msCeil ts ≤ cIntMax := by
  rw [msCeil_eq]
  exact min_le_right _ _

/-- Rounding up never shortens a wait, as long as the milliseconds fit a `c_int`. -/
lemma nanoseconds_le_msCeil {ts : Timespec} (h : ts.nanoseconds ≤ cIntMax * 10 ^ 6) :
    ts.nanoseconds ≤ msCeil ts * 10 ^ 6 := by
  rw [msCeil_eq]
  unfold Timespec.nanoseconds cIntMax at *
  omega

/-- Past that range the wait is cut to the longest one. -/
lemma msCeil_of_lt {ts : Timespec} (h : cIntMax * 10 ^ 6 < ts.nanoseconds) :
    msCeil ts = cIntMax := by
  rw [msCeil_eq]
  unfold Timespec.nanoseconds cIntMax at *
  omega

lemma msCeil_eq_zero_iff {ts : Timespec} : msCeil ts = 0 ↔ ts.nanoseconds = 0 := by
  have := ts.sec_nonneg
  have := ts.nsec_nonneg
  rw [msCeil_eq]
  unfold cIntMax Timespec.nanoseconds
  omega

lemma nanoseconds_nonneg (ts : Timespec) : 0 ≤ ts.nanoseconds := by
  have := ts.sec_nonneg
  have := ts.nsec_nonneg
  unfold Timespec.nanoseconds
  omega

/-! ## Descriptors -/

/-- The bits of `pollfd.events`. -/
def pollIn : BitVec 16 := 0x001
def pollPri : BitVec 16 := 0x002
def pollOut : BitVec 16 := 0x004
def pollRdnorm : BitVec 16 := 0x040
def pollWrnorm : BitVec 16 := 0x100
def pollRdhup : BitVec 16 := 0x2000

/-- `libc::pollfd`. -/
structure PollFd where
  fd : ℤ
  events : BitVec 16
  deriving DecidableEq, Repr

/-- The two tests `park_pollfds` makes. -/
def PollFd.interest (p : PollFd) : Parking.PollFd :=
  ⟨p.fd, p.events &&& pollIn ≠ 0, p.events &&& pollOut ≠ 0⟩

/-- The ops that `park_pollfds` submits and races. -/
def parkOps (fds : List PollFd) (timeoutMs : ℤ) : List Op :=
  Parking.pollfdOps (fds.map PollFd.interest) timeoutMs

/-- The watches of one entry. -/
lemma watch_mem_entry {q : Parking.PollFd} {fd : ℤ} {write : Bool} :
    (Op.watch fd write ∈ if q.fd < 0 then []
      else
        (if q.pollIn then [Op.watch q.fd false] else []) ++
          (if q.pollOut then [Op.watch q.fd true] else [])) ↔
      q.fd = fd ∧ 0 ≤ fd ∧ (if write then q.pollOut else q.pollIn) = true := by
  obtain ⟨qfd, pin, pout⟩ := q
  by_cases hfd : qfd < 0
  · simp only [hfd, if_true, List.not_mem_nil, false_iff]
    rintro ⟨rfl, h, -⟩
    omega
  · cases pin <;> cases pout <;> cases write <;> simp [hfd, eq_comm] <;> omega

lemma watch_mem_parkOps {fds : List PollFd} {ms fd : ℤ} {write : Bool} :
    Op.watch fd write ∈ parkOps fds ms ↔
      ∃ p ∈ fds, p.fd = fd ∧ 0 ≤ fd ∧ p.events &&& (if write then pollOut else pollIn) ≠ 0 := by
  have htimer : Op.watch fd write ∉ (if 0 < ms then [Op.sleep (ms.toNat * 1000)] else []) := by
    split <;> simp
  unfold parkOps Parking.pollfdOps
  simp only [List.mem_append, htimer, or_false, List.mem_flatMap, watch_mem_entry, List.mem_map]
  constructor
  · rintro ⟨_, ⟨p, hp, rfl⟩, hpf, hfd, hbit⟩
    refine ⟨p, hp, hpf, hfd, ?_⟩
    cases write <;> simpa [PollFd.interest] using hbit
  · rintro ⟨p, hp, hpf, hfd, hbit⟩
    refine ⟨p.interest, ⟨p, hp, rfl⟩, hpf, hfd, ?_⟩
    cases write <;> simpa [PollFd.interest] using hbit

lemma sleep_mem_parkOps {fds : List PollFd} {ms : ℤ} {us : ℕ} :
    Op.sleep us ∈ parkOps fds ms ↔ 0 < ms ∧ us = ms.toNat * 1000 := by
  have hwatch : Op.sleep us ∉ (fds.map PollFd.interest).flatMap fun p =>
      if p.fd < 0 then []
      else
        (if p.pollIn then [Op.watch p.fd false] else []) ++
          (if p.pollOut then [Op.watch p.fd true] else []) := by
    simp only [List.mem_flatMap, not_exists, not_and]
    intro p _
    split_ifs <;> simp
  unfold parkOps Parking.pollfdOps
  rw [List.mem_append]
  by_cases hms : 0 < ms
  · simp only [hwatch, hms, if_true, List.mem_singleton, Op.sleep.injEq, false_or, true_and]
  · simp [hwatch, hms]

/-- `fd_set`, by its members; `none` is `NULL`. -/
abbrev FdSet := Option (List ℕ)

/-- `!p.is_null() && FD_ISSET(fd, p)`. -/
def FdSet.has (set : FdSet) (fd : ℕ) : Bool :=
  match set with
  | none => false
  | some fds => fds.contains fd

/-- The descriptors a `select` is about: `0..n`. -/
structure Select where
  n : ℤ
  r : FdSet
  w : FdSet
  e : FdSet
  deriving DecidableEq, Repr

/-- `events` of one descriptor in the loop of `ignis_park_select`. -/
def Select.events (sel : Select) (fd : ℕ) : BitVec 16 :=
  (if sel.r.has fd then pollIn else 0) ||| (if sel.w.has fd then pollOut else 0)

/-- A descriptor wanted for exceptions alone: the call is forwarded as it was. -/
def Select.exceptionOnly (sel : Select) : Bool :=
  (List.range sel.n.toNat).any fun fd => sel.events fd == 0 && sel.e.has fd

/-- The `pollfd`s that `ignis_park_select` parks on. -/
def Select.pollfds (sel : Select) : List PollFd :=
  (List.range sel.n.toNat).filterMap fun fd =>
    if sel.events fd = 0 then none else some ⟨fd, sel.events fd⟩

/-- One call of the three. -/
inductive Call where
  | poll (fds : List PollFd) (timeout : CInt)
  | ppoll (fds : List PollFd) (ts : Option Timespec) (mask : Bool)
  | select (sel : Select) (tv : Option Timeval)

/-- A `poll(2)` timeout in nanoseconds; `none` is for ever. -/
def ofMs (ms : ℤ) : Option ℤ := if ms < 0 then none else some (ms * 10 ^ 6)

/-- The timeout the caller asks for, in nanoseconds. -/
def Call.timeout : Call → Option ℤ
  | .poll _ timeout => ofMs timeout
  | .ppoll _ ts _ => ts.map Timespec.nanoseconds
  | .select _ tv => tv.map fun tv => (tsOf tv).nanoseconds

end Park

end Ignis
