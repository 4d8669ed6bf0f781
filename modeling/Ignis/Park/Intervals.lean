import Ignis.Park.Calls

/-!
# How long a parked call waits

`nanosleep`, `usleep`, `sleep`, `ppoll`, `select` and the calls on a socket with a timeout of its
own turn an interval of the caller into a timer of the reactor, in microseconds, or into the
milliseconds of `poll(2)`.  Here the intervals are as the caller writes them, two 64-bit fields
each; `Timespec` and `Timeval` are those among them that the kernel takes.

A wait is kept (`Kept`) when it is no shorter than asked, up to the longest one its unit can
express, and when an interval the kernel refuses is left to the kernel.  `nanosleep` rounds down
where its siblings round up, `ppoll` and `select` convert what they should refuse, and `select`
multiplies before it looks.
-/

namespace Ignis

namespace Park

/-! ## The intervals -/

/-- A field of a C structure: `time_t`, `suseconds_t` and `c_long` have 64 bits. -/
abbrev CLong := {x : ℤ // -2 ^ 63 ≤ x ∧ x < 2 ^ 63}

/-- `libc::timespec` as the caller fills it in. -/
structure RawTimespec where
  sec : CLong
  nsec : CLong

/-- `libc::timeval` as the caller fills it in. -/
structure RawTimeval where
  sec : CLong
  usec : CLong

def RawTimespec.Valid (ts : RawTimespec) : Prop :=
  0 ≤ ts.sec.val ∧ 0 ≤ ts.nsec.val ∧ ts.nsec.val < 10 ^ 9

def RawTimeval.Valid (tv : RawTimeval) : Prop :=
  0 ≤ tv.sec.val ∧ 0 ≤ tv.usec.val ∧ tv.usec.val < 10 ^ 6

/-- A call that waits for a time. -/
inductive TimedCall where
  | nanosleep (req : RawTimespec)
  | usleep (us : BitVec 32)
  | sleep (s : BitVec 32)
  /-- `n` descriptors; `elapsed` nanoseconds of the wait are over when it parks, or parks again. -/
  | ppoll (n : ℕ) (ts : RawTimespec) (mask : Bool) (elapsed : ℕ)
  | select (n : ℤ) (tv : RawTimeval)
  /-- What `getsockopt` reads of `SO_RCVTIMEO` or `SO_SNDTIMEO`; zero is no timeout. -/
  | socket (tv : Timeval)

/-- The kernel would wait for this interval. -/
def TimedCall.Valid : TimedCall → Prop
  | .nanosleep req => req.Valid
  | .usleep _ => True
  | .sleep _ => True
  | .ppoll _ ts _ _ => ts.Valid
  | .select _ tv => tv.Valid
  | .socket _ => True

/-- What is asked for, in nanoseconds. -/
def TimedCall.nanoseconds : TimedCall → ℤ
  | .nanosleep req => req.sec.val * 10 ^ 9 + req.nsec.val
  | .usleep us => us.toNat * 10 ^ 3
  | .sleep s => s.toNat * 10 ^ 9
  | .ppoll _ ts _ _ => ts.sec.val * 10 ^ 9 + ts.nsec.val
  | .select _ tv => tv.sec.val * 10 ^ 9 + tv.usec.val * 10 ^ 3
  | .socket tv => (tsOf tv).nanoseconds

/-- `u64::MAX`. -/
def u64Max : ℕ := 2 ^ 64 - 1

/-- The longest wait of the unit in use, in nanoseconds. -/
def TimedCall.longest : TimedCall → ℤ
  | .nanosleep _ | .usleep _ | .sleep _ => u64Max * 10 ^ 3
  | .ppoll _ _ _ _ | .select _ _ | .socket _ => cIntMax * 10 ^ 6

/-! ## The conversions -/

/-- `u64::saturating_mul` and `saturating_add` come to this. -/
def saturateU64 (n : ℕ) : ℕ := min n u64Max

/-- `microseconds_of`. -/
def microsecondsOf (req : RawTimespec) : Option ℕ :=
  if req.sec.val < 0 ∨ ¬ (0 ≤ req.nsec.val ∧ req.nsec.val < 1000000000) then none
  else some (saturateU64 (saturateU64 (req.sec.val.toNat * 1000000) + req.nsec.val.toNat / 1000))

/-- `unslept_seconds`. -/
def unsleptSeconds (syscallResult : ℤ) (remaining : RawTimespec) : ℤ :=
  if syscallResult = 0 then 0
  else
    let seconds := max remaining.sec.val 0
    let roundedUp := if 0 < remaining.nsec.val then saturate (seconds + 1) else seconds
    max 0 (min roundedUp (2 ^ 32 - 1))

/-- `i64::checked_mul` by a thousand, which is what the unchecked one has to be. -/
def nsecOf (usec : CLong) : Option ℤ :=
  if -2 ^ 63 ≤ usec.val * 1000 ∧ usec.val * 1000 < 2 ^ 63 then some (usec.val * 1000) else none

/-- How a call waits. -/
inductive Waits where
  /-- In its own system call, with the caller's interval. -/
  | kernel
  /-- In `poll(2)`, with this timeout. -/
  | poll (ms : ℤ)
  /-- Parked, with this timer in microseconds if there is one. -/
  | park (us : Option ℕ)
  /-- A conversion has overflown. -/
  | overflow
  deriving DecidableEq, Repr

/-- The timer that `park_pollfds` submits. -/
def timerOf (ms : ℤ) : Option ℕ := if 0 < ms then some (ms.toNat * 1000) else none

/-- The way of each call that finds nothing ready; `may` is `may_park`.  Left out are the ways out
that do not convert the interval again: `select` with interest in exceptions alone and a call that
could not park go to the kernel with what the caller gave (`ppoll` with the timeout it has). -/
def TimedCall.waits (may : Bool) : TimedCall → Waits
  | .nanosleep req =>
      match microsecondsOf req with
      | some us => if may then .park (some us) else .kernel
      | none => .kernel
  | .usleep us => if may then .park (some us.toNat) else .kernel
  | .sleep s => if may then .park (some (saturateU64 (s.toNat * 1000000))) else .kernel
  | .ppoll n ts mask elapsed =>
      if mask then .kernel
      else
        let timeout := millisecondsCeil ts.sec.val ts.nsec.val 1000000
        if may = false ∨ timeout = 0 ∨ n = 0 then .poll timeout
        else
          let remaining := timeout - (elapsed / 10 ^ 6 : ℕ)
          if remaining ≤ 0 then .poll 0 else .park (timerOf (min remaining cIntMax))
  | .select n tv =>
      match nsecOf tv.usec with
      | none => .overflow
      | some nsec =>
          let timeout := millisecondsCeil tv.sec.val nsec 1000000
          if may = false ∨ n ≤ 0 ∨ timeout = 0 then .kernel else .park (timerOf timeout)
  | .socket tv => if may then .park (timerOf (millisecondsCeil tv.sec tv.usec 1000)) else .kernel

/-- The nanoseconds of a wait that were over when it began. -/
def TimedCall.elapsed : TimedCall → ℕ
  | .ppoll _ _ _ elapsed => elapsed
  | _ => 0

/-- With what is over of it, the wait comes to `ns` nanoseconds at least. -/
def Waits.Covers (elapsed : ℕ) (ns : ℤ) : Waits → Prop
  | .kernel => True
  | .poll ms => ns ≤ elapsed + ms * 10 ^ 6
  | .park us => ns ≤ elapsed + us.getD 0 * 10 ^ 3
  | .overflow => False

instance (elapsed : ℕ) (ns : ℤ) : ∀ w : Waits, Decidable (w.Covers elapsed ns)
  | .kernel => isTrue trivial
  | .poll ms => inferInstanceAs (Decidable (ns ≤ elapsed + ms * 10 ^ 6))
  | .park us => inferInstanceAs (Decidable (ns ≤ elapsed + us.getD 0 * 10 ^ 3))
  | .overflow => isFalse id

/-- A `c_int`, or a `u64`. -/
def Waits.InRange : Waits → Prop
  | .kernel => True
  | .poll ms => 0 ≤ ms ∧ ms ≤ cIntMax
  | .park us => us.getD 0 ≤ u64Max
  | .overflow => False

/-- The wait is at least as long as asked, up to the longest one; what the kernel refuses is left to
the kernel; and every number fits its type. -/
structure Kept (may : Bool) (t : TimedCall) : Prop where
  covers : t.Valid → (t.waits may).Covers t.elapsed (min t.nanoseconds t.longest)
  refused : ¬ t.Valid → t.waits may = .kernel
  inRange : (t.waits may).InRange

/-- When a wait is kept. -/
def TimedCall.Fits (may : Bool) : TimedCall → Prop
  -- Whole microseconds, or so many of them that they saturate.
  | .nanosleep req => may = true → req.Valid →
      req.nsec.val % 1000 = 0 ∨ u64Max ≤ req.sec.val * 10 ^ 6 + req.nsec.val / 1000
  | .usleep _ => True
  | .sleep _ => True
  | .ppoll _ ts mask _ => mask = true ∨ ts.Valid
  -- What the kernel refuses comes to no milliseconds at all, or there is no descriptor.
  | .select n tv => tv.Valid ∨
      (-2 ^ 63 ≤ tv.usec.val * 1000 ∧ tv.usec.val * 1000 < 2 ^ 63) ∧
        (may = true → 0 < n →
          tv.sec.val * 10 ^ 6 + tv.usec.val ≤ if 0 < tv.sec.val then -1000 else 0)
  | .socket _ => True

/-! ## Milliseconds -/

lemma millisecondsCeil_nonneg (s x k : ℤ) : 0 ≤ millisecondsCeil s x k := le_max_left _ _

lemma millisecondsCeil_le (s x k : ℤ) : millisecondsCeil s x k ≤ cIntMax := by
  exact max_le (by decide) (min_le_right _ _)

/-- Rounding up, then saturating: nothing is lost below the longest wait. -/
lemma le_millisecondsCeil {s x k : ℤ} (hs : 0 ≤ s) (hx : 0 ≤ x) (hk : 0 < k)
    (hsum : x + k ≤ 2 ^ 62) :
    min (s * 1000 * k + x) (cIntMax * k) ≤ millisecondsCeil s x k * k := by
  have hround : x ≤ (x + (k - 1)) / k * k := by
    have hmod := Int.emod_lt_of_pos (x + (k - 1)) hk
    have hdiv := Int.emod_add_mul_ediv (x + (k - 1)) k
    rw [Int.mul_comm] at hdiv
    omega
  have hsmall : saturate (x + (k - 1)) = x + (k - 1) := by
    unfold saturate
    omega
  have hnonneg : 0 ≤ (x + (k - 1)) / k := Int.ediv_nonneg (by omega) hk.le
  have hle : (x + (k - 1)) / k ≤ x + (k - 1) := Int.ediv_le_self _ (by omega)
  have hceil : millisecondsCeil s x k = min (s * 1000 + (x + (k - 1)) / k) cIntMax := by
    rw [millisecondsCeil, hsmall, Int.tdiv_eq_ediv_of_nonneg (by omega)]
    unfold saturate cIntMax
    omega
  rw [hceil]
  rcases le_total (s * 1000 + (x + (k - 1)) / k) cIntMax with hfit | hlong
  · rw [min_eq_left hfit, Int.add_mul]
    exact (min_le_left _ _).trans (Int.add_le_add_left hround _)
  · rw [min_eq_right hlong]
    exact min_le_right _ _

/-- When the `timeval` of a `select` comes to no milliseconds. -/
lemma millisecondsCeil_eq_zero_iff {s x : ℤ} (hs : -2 ^ 63 ≤ s ∧ s < 2 ^ 63)
    (hx : -2 ^ 63 ≤ x * 1000 ∧ x * 1000 < 2 ^ 63) :
    millisecondsCeil s (x * 1000) 1000000 = 0
      ↔ s * 10 ^ 6 + x ≤ if 0 < s then -1000 else 0 := by
  rw [millisecondsCeil, Int.tdiv_eq_ediv, show Int.sign 1000000 = 1 from rfl]
  unfold saturate cIntMax
  split_ifs <;> omega

lemma getD_timerOf {ms : ℤ} (h : 0 ≤ ms) : ((timerOf ms).getD 0 : ℤ) = ms * 1000 := by
  unfold timerOf
  split_ifs with hpos
  · rw [Option.getD_some]
    omega
  · rw [Option.getD_none]
    omega

/-! ## The calls -/

lemma kept_of_kernel {may : Bool} {t : TimedCall} (h : t.waits may = .kernel) : Kept may t := by
  refine ⟨fun _ => ?_, fun _ => h, ?_⟩ <;> rw [h] <;> trivial

lemma kept_iff_of_valid {may : Bool} {t : TimedCall} (h : t.Valid) :
    Kept may t ↔ (t.waits may).Covers t.elapsed (min t.nanoseconds t.longest)
      ∧ (t.waits may).InRange :=
  ⟨fun hkept => ⟨hkept.covers h, hkept.inRange⟩,
    fun ⟨hcovers, hrange⟩ => ⟨fun _ => hcovers, fun hnot => absurd h hnot, hrange⟩⟩

lemma kept_iff_of_park {may : Bool} {t : TimedCall} {us : ℕ} (h : t.Valid)
    (hwaits : t.waits may = .park (some us)) :
    Kept may t ↔ min t.nanoseconds t.longest ≤ t.elapsed + us * 10 ^ 3 ∧ us ≤ u64Max := by
  rw [kept_iff_of_valid h, hwaits]
  exact Iff.rfl

lemma kept_iff_of_refused {may : Bool} {t : TimedCall} (h : ¬ t.Valid) :
    Kept may t ↔ t.waits may = .kernel :=
  ⟨fun hkept => hkept.refused h, kept_of_kernel⟩

lemma microsecondsOf_of_valid {req : RawTimespec} (h : req.Valid) :
    microsecondsOf req
      = some (saturateU64 (req.sec.val.toNat * 1000000 + req.nsec.val.toNat / 1000)) := by
  obtain ⟨hsec, hnsec, hlt⟩ := h
  have hkept : ¬ (req.sec.val < 0 ∨ ¬ (0 ≤ req.nsec.val ∧ req.nsec.val < 1000000000)) := by omega
  rw [microsecondsOf, if_neg hkept]
  unfold saturateU64
  congr 1
  omega

lemma microsecondsOf_of_not_valid {req : RawTimespec} (h : ¬ req.Valid) :
    microsecondsOf req = none := by
  unfold RawTimespec.Valid at h
  exact if_pos (by omega)

/-- `nanosleep` drops what does not make a whole microsecond. -/
lemma kept_nanosleep_iff (may : Bool) (req : RawTimespec) :
    Kept may (.nanosleep req) ↔ (TimedCall.nanosleep req).Fits may := by
  by_cases hvalid : req.Valid
  · cases may with
    | false =>
        have hwaits : (TimedCall.nanosleep req).waits false = .kernel := by
          simp only [TimedCall.waits, microsecondsOf_of_valid hvalid, Bool.false_eq_true, if_false]
        exact iff_of_true (kept_of_kernel hwaits) fun h => absurd h (by decide)
    | true =>
        have hwaits : (TimedCall.nanosleep req).waits true = .park
            (some (saturateU64 (req.sec.val.toNat * 1000000 + req.nsec.val.toNat / 1000))) := by
          simp only [TimedCall.waits, microsecondsOf_of_valid hvalid, if_true]
        have hvalid' : (TimedCall.nanosleep req).Valid := hvalid
        rw [kept_iff_of_park hvalid' hwaits]
        generalize hus : saturateU64 _ = us
        rw [saturateU64] at hus
        simp only [TimedCall.elapsed, TimedCall.nanoseconds, TimedCall.longest, TimedCall.Fits,
          hvalid, forall_const]
        obtain ⟨hsec, hnsec, hlt⟩ := hvalid
        -- Nothing depends on how large the maximum is.
        generalize u64Max = largest at *
        omega
  · have hwaits : (TimedCall.nanosleep req).waits may = .kernel := by
      simp only [TimedCall.waits, microsecondsOf_of_not_valid hvalid]
    exact iff_of_true (kept_of_kernel hwaits) fun _ h => absurd h hvalid

lemma kept_usleep (may : Bool) (us : BitVec 32) : Kept may (.usleep us) := by
  cases may with
  | false => exact kept_of_kernel rfl
  | true =>
      have hvalid : (TimedCall.usleep us).Valid := trivial
      have hlt := us.isLt
      refine (kept_iff_of_park hvalid rfl).mpr ⟨?_, ?_⟩
      · exact (min_le_left _ _).trans (Int.le_add_of_nonneg_left (Int.natCast_nonneg _))
      · unfold u64Max
        omega

lemma kept_sleep (may : Bool) (s : BitVec 32) : Kept may (.sleep s) := by
  cases may with
  | false => exact kept_of_kernel rfl
  | true =>
      have hwaits : (TimedCall.sleep s).waits true
          = .park (some (saturateU64 (s.toNat * 1000000))) := by
        simp only [TimedCall.waits, if_true]
      have hvalid : (TimedCall.sleep s).Valid := trivial
      rw [kept_iff_of_park hvalid hwaits]
      generalize hus : saturateU64 _ = us
      rw [saturateU64] at hus
      simp only [TimedCall.nanoseconds, TimedCall.longest, TimedCall.elapsed]
      generalize u64Max = largest at *
      omega

/-- The timer of a remaining wait fits a `u64`. -/
lemma getD_timerOf_le {ms : ℤ} (h : 0 ≤ ms) (hle : ms ≤ cIntMax) :
    (timerOf ms).getD 0 ≤ u64Max := by
  have hget := getD_timerOf h
  unfold cIntMax at hle
  unfold u64Max
  omega

/-- `ppoll` never hands an interval without a signal mask to the kernel, and rounds up. -/
lemma kept_ppoll_iff (may : Bool) (n : ℕ) (ts : RawTimespec) (mask : Bool) (elapsed : ℕ) :
    Kept may (.ppoll n ts mask elapsed) ↔ (TimedCall.ppoll n ts mask elapsed).Fits may := by
  cases mask with
  | true => exact iff_of_true (kept_of_kernel rfl) (Or.inl rfl)
  | false =>
      have hnonneg := millisecondsCeil_nonneg ts.sec.val ts.nsec.val 1000000
      have hle := millisecondsCeil_le ts.sec.val ts.nsec.val 1000000
      by_cases hvalid : ts.Valid
      · have hvalid' : (TimedCall.ppoll n ts false elapsed).Valid := hvalid
        refine iff_of_true ((kept_iff_of_valid hvalid').mpr ?_) (Or.inr hvalid)
        obtain ⟨hsec, hnsec, hlt⟩ := hvalid
        have hceil := le_millisecondsCeil (k := 1000000) hsec hnsec (by decide) (by omega)
        simp only [TimedCall.waits, Bool.false_eq_true, if_false, TimedCall.elapsed,
          TimedCall.nanoseconds, TimedCall.longest]
        generalize millisecondsCeil ts.sec.val ts.nsec.val 1000000 = ms at *
        split_ifs with hpoll hover
        · simp only [Waits.Covers, Waits.InRange]
          exact ⟨by omega, hnonneg, hle⟩
        · simp only [Waits.Covers, Waits.InRange]
          exact ⟨by omega, le_rfl, by decide⟩
        · have hleft : 0 ≤ min (ms - (elapsed / 10 ^ 6 : ℕ)) cIntMax := by
            unfold cIntMax
            omega
          simp only [Waits.Covers, Waits.InRange, getD_timerOf hleft]
          exact ⟨by omega, getD_timerOf_le hleft (min_le_right _ _)⟩
      · refine iff_of_false ?_ (by simp [TimedCall.Fits, hvalid])
        have hrefused : ¬ (TimedCall.ppoll n ts false elapsed).Valid := hvalid
        rw [kept_iff_of_refused hrefused]
        simp only [TimedCall.waits, Bool.false_eq_true, if_false]
        split_ifs <;> exact fun h => nomatch h

lemma nsecOf_eq {usec : CLong} (h : -2 ^ 63 ≤ usec.val * 1000 ∧ usec.val * 1000 < 2 ^ 63) :
    nsecOf usec = some (usec.val * 1000) := if_pos h

/-- `select` refuses nothing itself, and what it parks it has rounded up. -/
lemma kept_select_iff (may : Bool) (n : ℤ) (tv : RawTimeval) :
    Kept may (.select n tv) ↔ (TimedCall.select n tv).Fits may := by
  by_cases hfits : -2 ^ 63 ≤ tv.usec.val * 1000 ∧ tv.usec.val * 1000 < 2 ^ 63
  · have hnonneg := millisecondsCeil_nonneg tv.sec.val (tv.usec.val * 1000) 1000000
    have hle := millisecondsCeil_le tv.sec.val (tv.usec.val * 1000) 1000000
    by_cases hvalid : tv.Valid
    · have hvalid' : (TimedCall.select n tv).Valid := hvalid
      refine iff_of_true ((kept_iff_of_valid hvalid').mpr ?_) (Or.inl hvalid)
      obtain ⟨hsec, husec, hlt⟩ := hvalid
      have hceil := le_millisecondsCeil (k := 1000000) (x := tv.usec.val * 1000) hsec (by omega)
        (by decide) (by omega)
      simp only [TimedCall.waits, nsecOf_eq hfits, TimedCall.elapsed, TimedCall.nanoseconds,
        TimedCall.longest]
      generalize millisecondsCeil tv.sec.val (tv.usec.val * 1000) 1000000 = ms at *
      split_ifs with hkernel
      · exact ⟨trivial, trivial⟩
      · simp only [Waits.Covers, Waits.InRange, getD_timerOf hnonneg]
        exact ⟨by omega, getD_timerOf_le hnonneg hle⟩
    · have hrefused : ¬ (TimedCall.select n tv).Valid := hvalid
      have hzero := millisecondsCeil_eq_zero_iff tv.sec.property hfits
      rw [kept_iff_of_refused hrefused]
      simp only [TimedCall.waits, nsecOf_eq hfits, TimedCall.Fits, hvalid, false_or, hfits,
        true_and]
      rw [← hzero]
      split_ifs with hkernel
      · refine iff_of_true rfl fun hmay hn => ?_
        rcases hkernel with hno | hnone | hms
        · exact absurd (hmay.symm.trans hno) (by decide)
        · omega
        · exact hms
      · rw [not_or, not_or] at hkernel
        obtain ⟨hmay, hn, hms⟩ := hkernel
        refine iff_of_false (fun h => nomatch h) fun h => hms (h ?_ (by omega))
        exact Bool.of_not_eq_false hmay
  · have hoverflow : (TimedCall.select n tv).waits may = .overflow := by
      simp only [TimedCall.waits, nsecOf, if_neg hfits]
    have hinvalid : ¬ tv.Valid := fun h => hfits (by obtain ⟨-, husec, hlt⟩ := h; omega)
    refine iff_of_false (fun hkept => ?_) fun h => h.elim hinvalid fun h => hfits h.1
    have hrange := hkept.inRange
    rw [hoverflow] at hrange
    exact hrange

lemma kept_socket (may : Bool) (tv : Timeval) : Kept may (.socket tv) := by
  cases may with
  | false => exact kept_of_kernel rfl
  | true =>
      have hvalid : (TimedCall.socket tv).Valid := trivial
      have hnonneg := millisecondsCeil_nonneg tv.sec tv.usec 1000
      have hle := millisecondsCeil_le tv.sec tv.usec 1000
      have husec := tv.usec_lt
      have hceil := le_millisecondsCeil (k := 1000) tv.sec_nonneg tv.usec_nonneg (by decide)
        (by omega)
      refine (kept_iff_of_valid hvalid).mpr ?_
      simp only [TimedCall.waits, if_true, Waits.Covers, Waits.InRange, TimedCall.elapsed,
        TimedCall.nanoseconds, TimedCall.longest, getD_timerOf hnonneg, Timespec.nanoseconds, tsOf]
      generalize millisecondsCeil tv.sec tv.usec 1000 = ms at *
      exact ⟨by omega, getD_timerOf_le hnonneg hle⟩

/-- What `sleep` says is left is a `c_uint`, and no less than what is. -/
theorem unsleptSeconds_covers (result : ℤ) (remaining : RawTimespec) :
    (0 ≤ unsleptSeconds result remaining ∧ unsleptSeconds result remaining < 2 ^ 32)
      ∧ (result ≠ 0 → remaining.nsec.val < 10 ^ 9 →
        min (remaining.sec.val * 10 ^ 9 + remaining.nsec.val) ((2 ^ 32 - 1) * 10 ^ 9)
          ≤ unsleptSeconds result remaining * 10 ^ 9) := by
  have hsec := remaining.sec.property
  unfold unsleptSeconds saturate
  dsimp only
  constructor
  · split_ifs <;> omega
  · intro hresult hnsec
    rw [if_neg hresult]
    split_ifs <;> omega

/-- **Which waits are kept.**  A wait is no shorter than asked, is refused by the kernel where it is
not an interval, and stays within its type, exactly when it fits: a `nanosleep` of whole
microseconds or so long that it saturates, a `ppoll` that the kernel takes or that has a mask, a
`select` that the kernel takes or that comes to no milliseconds without an overflow, and any
other. -/
theorem waits_kept_iff (may : Bool) (t : TimedCall) : Kept may t ↔ t.Fits may := by
  cases t with
  | nanosleep req => exact kept_nanosleep_iff may req
  | usleep us => exact iff_of_true (kept_usleep may us) trivial
  | sleep s => exact iff_of_true (kept_sleep may s) trivial
  | ppoll n ts mask elapsed => exact kept_ppoll_iff may n ts mask elapsed
  | select n tv => exact kept_select_iff may n tv
  | socket tv => exact iff_of_true (kept_socket may tv) trivial

/-- `nanosleep` of 999 ns sets a timer of none; `ppoll` with a second too many nanoseconds waits in
`poll(2)`; and the microseconds of a `select` overflow. -/
theorem nanosleep_cut_short :
    ¬ Kept true (.nanosleep ⟨⟨0, by decide⟩, ⟨999, by decide⟩⟩)
      ∧ ¬ Kept true (.ppoll 1 ⟨⟨0, by decide⟩, ⟨10 ^ 9, by decide⟩⟩ false 0)
      ∧ ¬ Kept true (.select 1 ⟨⟨0, by decide⟩, ⟨2 ^ 62, by decide⟩⟩) := by
  refine ⟨fun h => ?_, fun h => ?_, fun h => ?_⟩
  · exact absurd (h.covers ⟨by decide, by decide, by decide⟩) (by decide)
  · exact absurd (h.refused fun hvalid => absurd hvalid.2.2 (by decide)) (by decide)
  · exact h.inRange

end Park

end Ignis
