import Ignis.Http.Connections

/-!
# What the permits and the timer come to

`Sound` is kept by every step.  From it a permit is with exactly one connection or free, and nobody
is turned away below the cap (`connections_capped`); the timer shuts a connection down at the very
moment it has been silent for `idle_timeout`, not before and not later, and what is in flight then
is answered before the connection ends (`connections_timed`).

A permit can come back: the clock, the timers and the answers can bring a connection on which no
further request begins to its end within `idle_timeout` of its last one (`connection_ends`).
-/

namespace Ignis.Connections

open StepSystem

variable {limits : Limits}

/-! ## The invariant -/

/-- What `serve_connection` keeps true of its connection. -/
structure Conn.Sound (limits : Limits) (now : ℕ) (conn : Conn) : Prop where
  answered : conn.answered + conn.inflight = conn.begun
  seen : conn.lastActivity ≤ now
  timer : ∀ at_, conn.timer = some at_ → now ≤ at_ ∧ at_ ≤ conn.lastActivity + limits.idleTimeout

/-- What the record may say. -/
def Event.Right (limits : Limits) : Event → Prop
  | .refused live => live = limits.maxConnections
  | .shutDown _ lastActivity at_ => at_ = lastActivity + limits.idleTimeout
  | .finished _ begun answered => answered = begun

structure Sound (limits : Limits) (s : State) : Prop where
  permits : s.permits + s.live = limits.maxConnections
  fresh : ∀ c conn, s.conns.get? c = some conn → c < s.next
  conns : ∀ c conn, s.conns.get? c = some conn → conn.Sound limits s.now
  log : ∀ e ∈ s.log, e.Right limits

lemma sound_init (limits : Limits) : Sound limits (init limits) where
  permits := rfl
  fresh := fun c conn h => by simp [init] at h
  conns := fun c conn h => by simp [init] at h
  log := fun e he => by simp [init] at he

lemma live_set {s : State} {c : ℕ} {conn : Conn} (hconn : s.conns.get? c = some conn)
    (conn' : Conn) : (s.conns.set c conn').total (fun _ => 1) = s.live := by
  have htotal := s.conns.total_set (fun _ => 1) c conn'
  rw [hconn] at htotal
  simpa [State.live] using htotal

lemma live_set_of_none {s : State} {c : ℕ} (hconn : s.conns.get? c = none) (conn : Conn) :
    (s.conns.set c conn).total (fun _ => 1) = s.live + 1 := by
  have htotal := s.conns.total_set (fun _ => 1) c conn
  rw [hconn] at htotal
  simpa [State.live] using htotal

lemma live_unset {s : State} {c : ℕ} {conn : Conn} (hconn : s.conns.get? c = some conn) :
    (s.conns.unset c).total (fun _ => 1) + 1 = s.live := by
  have htotal := s.conns.total_unset (fun _ => 1) c
  rw [hconn] at htotal
  simpa [State.live] using htotal

lemma Sound.get?_next {s : State} (h : Sound limits s) : s.conns.get? s.next = none := by
  cases hconn : s.conns.get? s.next with
  | none => rfl
  | some conn => exact absurd (h.fresh s.next conn hconn) (Nat.lt_irrefl _)

lemma right_append {log : List Event} {e : Event} (hlog : ∀ e ∈ log, e.Right limits)
    (he : e.Right limits) : ∀ e' ∈ log ++ [e], e'.Right limits := by
  intro e' he'
  rcases List.mem_append.mp he' with he' | he'
  · exact hlog e' he'
  · obtain rfl := List.mem_singleton.mp he'
    exact he

/-- A connection of its own goes on. -/
lemma Sound.set {s : State} (h : Sound limits s) {c : ℕ} {conn conn' : Conn}
    (hconn : s.conns.get? c = some conn) (hsound : conn'.Sound limits s.now) :
    Sound limits { s with conns := s.conns.set c conn' } where
  permits := by
    have hlive := live_set hconn conn'
    have hpermits := h.permits
    simp only [State.live] at hlive hpermits ⊢
    omega
  fresh := by
    intro c' conn₁ hget
    rw [OrdMap.get?_set] at hget
    split_ifs at hget with hc
    · subst hc
      exact h.fresh c' conn hconn
    · exact h.fresh c' conn₁ hget
  conns := by
    intro c' conn₁ hget
    rw [OrdMap.get?_set] at hget
    split_ifs at hget with hc
    · obtain rfl := Option.some.inj hget
      exact hsound
    · exact h.conns c' conn₁ hget
  log := h.log

lemma Sound.write {s : State} (h : Sound limits s) {e : Event} (he : e.Right limits) :
    Sound limits { s with log := s.log ++ [e] } :=
  ⟨h.permits, h.fresh, h.conns, right_append h.log he⟩

lemma Sound.release {s : State} (h : Sound limits s) {c : ℕ} {conn : Conn}
    (hconn : s.conns.get? c = some conn) : Sound limits (s.release c) where
  permits := by
    have hlive := live_unset hconn
    have hpermits := h.permits
    simp only [State.release, State.live] at hlive hpermits ⊢
    omega
  fresh := by
    intro c' conn₁ hget
    rw [State.release, OrdMap.get?_unset] at hget
    split_ifs at hget with hc
    exact h.fresh c' conn₁ hget
  conns := by
    intro c' conn₁ hget
    rw [State.release, OrdMap.get?_unset] at hget
    split_ifs at hget with hc
    exact h.conns c' conn₁ hget
  log := h.log

/-- Both bounds meet: a timer that is due and a silence that is long enough. -/
lemma Conn.Sound.now_eq {now at_ : ℕ} {conn : Conn} (h : conn.Sound limits now)
    (htimer : conn.timer = some at_) (hat : at_ ≤ now)
    (hidle : limits.idleTimeout ≤ now - conn.lastActivity) :
    now = conn.lastActivity + limits.idleTimeout := by
  have hbound := h.timer at_ htimer
  have hseen := h.seen
  omega

lemma sound_step {s s' : State} {a : Action} (hs : Sound limits s) (h : Move limits s a s') :
    Sound limits s' := by
  cases h with
  | tick hdue =>
      refine ⟨hs.permits, hs.fresh, fun c conn hconn => ?_, hs.log⟩
      obtain ⟨hanswered, hseen, htimer⟩ := hs.conns c conn hconn
      refine ⟨hanswered, Nat.le_succ_of_le hseen, fun at_ hat => ?_⟩
      have hbound := htimer at_ hat
      have hlater : ¬ at_ ≤ s.now := by
        intro hle
        have hdue' := due_iff.mpr ⟨at_, hat, hle⟩
        rw [hdue c conn hconn] at hdue'
        cases hdue'
      constructor
      · change s.now + 1 ≤ at_
        omega
      · exact hbound.2
  | accepted hpermits =>
      have hfresh := hs.get?_next
      refine ⟨?_, fun c conn hget => ?_, fun c conn hget => ?_, hs.log⟩
      · have hlive := live_set_of_none hfresh ⟨s.now, some s.now, 0, 0, 0⟩
        have hcount := hs.permits
        simp only [State.live] at hlive hcount ⊢
        omega
      · simp only [OrdMap.get?_set] at hget
        split_ifs at hget with hc
        · exact hc ▸ Nat.lt_succ_self s.next
        · exact Nat.lt_succ_of_lt (hs.fresh c conn hget)
      · simp only [OrdMap.get?_set] at hget
        split_ifs at hget with hc
        · obtain rfl := Option.some.inj hget
          exact ⟨rfl, Nat.le_refl _, fun at_ hat => by obtain rfl := Option.some.inj hat; simp⟩
        · exact hs.conns c conn hget
  | refused hpermits =>
      refine hs.write ?_
      have hcount := hs.permits
      simp only [Event.Right]
      omega
  | stop => exact ⟨hs.permits, hs.fresh, hs.conns, hs.log⟩
  | request c conn hconn =>
      have hsound := hs.conns c conn hconn
      refine hs.set hconn ⟨?_, Nat.le_refl _, fun at_ hat => ?_⟩
      · have hanswered := hsound.answered
        simp only
        omega
      · have hbound := hsound.timer at_ hat
        have hseen := hsound.seen
        simp only
        omega
  | answer c conn hconn hinflight =>
      have hsound := hs.conns c conn hconn
      refine hs.set hconn ⟨?_, hsound.seen, hsound.timer⟩
      have hanswered := hsound.answered
      simp only
      omega
  | shutDown c at_ conn hconn htimer hat hidle =>
      have hsound := hs.conns c conn hconn
      have hset : Sound limits { s with conns := s.conns.set c { conn with timer := none } } :=
        hs.set hconn ⟨hsound.answered, hsound.seen, fun at_ hat => absurd hat (by simp)⟩
      exact hset.write (hsound.now_eq htimer hat hidle)
  | sleepOn c at_ conn hconn htimer hat hidle =>
      have hsound := hs.conns c conn hconn
      refine hs.set hconn ⟨hsound.answered, hsound.seen, fun at_' hat' => ?_⟩
      obtain rfl := Option.some.inj hat'
      have hseen := hsound.seen
      simp only
      omega
  | finish c conn hconn htimer hinflight =>
      refine (hs.release hconn).write ?_
      have hanswered := (hs.conns c conn hconn).answered
      simp only [Event.Right]
      omega
  | drop c conn hconn => exact hs.release hconn

theorem sound_of_run {s : State} {as : List Action}
    (h : runFrom (step limits) (init limits) as = some s) : Sound limits s :=
  invariant_of_run (step limits) (fun _ _ _ hI hstep => sound_step hI (move_of_step hstep))
    (sound_init limits) h

/-! ## The cap and the timer -/

/-- **The cap.**  A permit is free or with one connection, and who is turned away is turned away at
the cap. -/
theorem connections_capped {s : State} {as : List Action}
    (h : runFrom (step limits) (init limits) as = some s) :
    s.permits + s.live = limits.maxConnections ∧
      ∀ live, Event.refused live ∈ s.log → live = limits.maxConnections :=
  have hsound := sound_of_run h
  ⟨hsound.permits, fun live hlive => hsound.log (.refused live) hlive⟩

/-- One permit, and a timeout of 2: a request at 1 keeps the connection until 3, and a second client
comes in vain. -/
def keptAlive : List Action :=
  [.accept, .check 0, .tick, .request 0, .accept, .tick, .check 0, .tick, .check 0, .answer 0,
    .finish 0]

lemma log_keptAlive :
    ∃ s, runFrom (step ⟨1, 2⟩) (init ⟨1, 2⟩) keptAlive = some s ∧
      s.log = [.refused 1, .shutDown 0 1 3, .finished 0 1 1] := ⟨_, rfl, rfl⟩

/-- The second client is refused with the one permit taken. -/
theorem connections_capped_keptAlive :
    ∃ s, runFrom (step ⟨1, 2⟩) (init ⟨1, 2⟩) keptAlive = some s ∧ Event.refused 1 ∈ s.log ∧
      s.permits + s.live = 1 ∧ ∀ live, Event.refused live ∈ s.log → live = 1 := by
  obtain ⟨s, hrun, hlog⟩ := log_keptAlive
  exact ⟨s, hrun, by simp [hlog], connections_capped hrun⟩

/-- **The timer.**  A connection that has not been shut down has been silent for no longer than
`idle_timeout`, one that has been was silent for exactly that long, and it does not end before what
had begun on it is answered. -/
theorem connections_timed {s : State} {as : List Action}
    (h : runFrom (step limits) (init limits) as = some s) :
    (∀ c conn, s.conns.get? c = some conn → conn.timer ≠ none →
      s.now ≤ conn.lastActivity + limits.idleTimeout) ∧
    (∀ c lastActivity at_, Event.shutDown c lastActivity at_ ∈ s.log →
      at_ = lastActivity + limits.idleTimeout) ∧
    ∀ c begun answered, Event.finished c begun answered ∈ s.log → answered = begun := by
  have hsound := sound_of_run h
  refine ⟨fun c conn hconn htimer => ?_, fun c last at_ he => hsound.log _ he,
    fun c begun answered he => hsound.log _ he⟩
  obtain ⟨at_, hat⟩ := Option.ne_none_iff_exists'.mp htimer
  have hbound := (hsound.conns c conn hconn).timer at_ hat
  omega

/-- The shutdown comes at 3, two after the request at 1, which is then answered. -/
theorem connections_timed_keptAlive :
    ∃ s, runFrom (step ⟨1, 2⟩) (init ⟨1, 2⟩) keptAlive = some s ∧
      Event.shutDown 0 1 3 ∈ s.log ∧ Event.finished 0 1 1 ∈ s.log ∧
      ∀ c lastActivity at_, Event.shutDown c lastActivity at_ ∈ s.log → at_ = lastActivity + 2 := by
  obtain ⟨s, hrun, hlog⟩ := log_keptAlive
  exact ⟨s, hrun, by simp [hlog], by simp [hlog], (connections_timed hrun).2.1⟩

/-! ## A permit comes back -/

/-- What brings a connection to its end: the clock, the timers, and what it has in flight. -/
def Helps (c : ℕ) : Action → Prop
  | .tick | .check _ => True
  | .answer c' | .finish c' => c' = c
  | _ => False

def State.due (s : State) : ℕ := s.conns.total fun conn => (conn.due s.now).toNat

lemma due_le_live (s : State) : s.due ≤ s.live :=
  OrdMap.total_le_total s.conns fun _ => Bool.toNat_le _

/-- What is left of a connection: the requests in flight, and before its shutdown the ticks, each
with a look at the clock for every connection. -/
def State.left (limits : Limits) (c : ℕ) (s : State) : ℕ :=
  match s.conns.get? c with
  | none => 0
  | some conn => 1 + conn.inflight +
      if conn.timer = none then 0
      else (conn.lastActivity + limits.idleTimeout - s.now) * (s.live + 1) + s.due + 1

lemma left_of_get? {s : State} {c : ℕ} {conn : Conn} (hconn : s.conns.get? c = some conn) :
    s.left limits c = 1 + conn.inflight +
      if conn.timer = none then 0
      else (conn.lastActivity + limits.idleTimeout - s.now) * (s.live + 1) + s.due + 1 := by
  rw [State.left, hconn]

@[simp] lemma check_now (s : State) (c : ℕ) (conn : Conn) :
    (check limits s c conn).now = s.now := by
  unfold check
  split_ifs <;> rfl

@[simp] lemma check_permits (s : State) (c : ℕ) (conn : Conn) :
    (check limits s c conn).permits = s.permits := by
  unfold check
  split_ifs <;> rfl

/-- A look at the clock is about the timer only, and leaves none that is due. -/
lemma check_conns (limits : Limits) (s : State) (c : ℕ) (conn : Conn) :
    ∃ timer, (check limits s c conn).conns = s.conns.set c { conn with timer := timer } ∧
      Conn.due { conn with timer := timer } s.now = false := by
  unfold check
  split_ifs with hidle
  · exact ⟨none, rfl, rfl⟩
  · refine ⟨_, rfl, ?_⟩
    simp only [Conn.due, decide_eq_false_iff_not]
    omega

lemma due_check (limits : Limits) {s : State} {c : ℕ} {conn : Conn}
    (hconn : s.conns.get? c = some conn) (hdue : conn.due s.now = true) :
    (check limits s c conn).due < s.due := by
  obtain ⟨timer, hconns, hnot⟩ := check_conns limits s c conn
  have htotal := s.conns.total_set (fun conn => (conn.due s.now).toNat) c
    { conn with timer := timer }
  rw [hconn] at htotal
  simp only [Option.elim_some, hdue, hnot, Bool.toNat_true, Bool.toNat_false] at htotal
  simp only [State.due, check_now, hconns]
  omega

lemma live_check (limits : Limits) {s : State} {c : ℕ} {conn : Conn}
    (hconn : s.conns.get? c = some conn) : (check limits s c conn).live = s.live := by
  obtain ⟨timer, hconns, -⟩ := check_conns limits s c conn
  rw [State.live, hconns, live_set hconn]

/-- On the way to the end of `c`, of which `begun` requests have begun, the last at `last`. -/
structure Ending (limits : Limits) (c begun last permits until_ : ℕ) (s : State) : Prop where
  sound : Sound limits s
  deadline : last + limits.idleTimeout ≤ until_
  now : s.now ≤ until_
  conn : (∃ conn, s.conns.get? c = some conn ∧ conn.begun = begun ∧ conn.lastActivity = last ∧
      s.permits = permits) ∨
    s.conns.get? c = none ∧ s.permits = permits + 1 ∧ Event.finished c begun begun ∈ s.log

section Ending

variable {c begun last permits until_ : ℕ} {s : State} {conn : Conn}

lemma Ending.alive (h : Ending limits c begun last permits until_ s)
    (hconn : s.conns.get? c = some conn) :
    conn.begun = begun ∧ conn.lastActivity = last ∧ s.permits = permits := by
  rcases h.conn with ⟨conn', hconn', halive⟩ | ⟨hnone, -⟩
  · obtain rfl := Option.some.inj (hconn.symm.trans hconn')
    exact halive
  · rw [hconn] at hnone
    cases hnone

lemma due_set_of_timer (hconn : s.conns.get? c = some conn) {conn' : Conn}
    (htimer : conn'.timer = conn.timer) :
    (s.conns.set c conn').total (fun conn => (conn.due s.now).toNat) = s.due := by
  have htotal := s.conns.total_set (fun conn => (conn.due s.now).toNat) c conn'
  have hdue : conn'.due s.now = conn.due s.now := by
    unfold Conn.due
    rw [htimer]
  rw [hconn, hdue] at htotal
  simpa [State.due] using htotal

lemma ending_answer (h : Ending limits c begun last permits until_ s)
    (hconn : s.conns.get? c = some conn) (hinflight : 0 < conn.inflight) :
    ∃ s', step limits s (.answer c) = some s' ∧ Ending limits c begun last permits until_ s' ∧
      s'.left limits c < s.left limits c := by
  let conn' : Conn := { conn with inflight := conn.inflight - 1, answered := conn.answered + 1 }
  have hstep : step limits s (.answer c) = some { s with conns := s.conns.set c conn' } := by
    simp [step, hconn, connStep, hinflight, conn']
  have hget : (s.conns.set c conn').get? c = some conn' := OrdMap.get?_set_self s.conns c conn'
  have halive := h.alive hconn
  refine ⟨_, hstep, ?_, ?_⟩
  · exact ⟨sound_step h.sound (move_of_step hstep), h.deadline, h.now,
      .inl ⟨conn', hget, halive⟩⟩
  · have hlive : (s.conns.set c conn').total (fun _ => 1) = s.live := live_set hconn conn'
    have hdue := due_set_of_timer hconn (rfl : conn'.timer = conn.timer)
    rw [left_of_get? hget, left_of_get? hconn]
    simp only [State.live, State.due] at hlive hdue ⊢
    rw [hlive, hdue]
    simp only [conn']
    omega

lemma ending_check (h : Ending limits c begun last permits until_ s)
    (hconn : s.conns.get? c = some conn) (htimer : conn.timer ≠ none) {c' : ℕ} {conn' : Conn}
    (hconn' : s.conns.get? c' = some conn') (hdue : conn'.due s.now = true) :
    ∃ s', step limits s (.check c') = some s' ∧ Ending limits c begun last permits until_ s' ∧
      s'.left limits c < s.left limits c := by
  have hstep : step limits s (.check c') = some (check limits s c' conn') := by
    simp [step, hconn', connStep, hdue]
  have hsound := sound_step h.sound (move_of_step hstep)
  have hlive := live_check limits hconn'
  have hless := due_check limits hconn' hdue
  have halive := h.alive hconn
  obtain ⟨timer, hconns, -⟩ := check_conns limits s c' conn'
  -- either way `c` is as before but for its timer
  obtain ⟨timer', hget⟩ : ∃ timer', (check limits s c' conn').conns.get? c
      = some { conn with timer := timer' } := by
    rw [hconns, OrdMap.get?_set]
    split_ifs with hc
    · subst hc
      obtain rfl := Option.some.inj (hconn.symm.trans hconn')
      exact ⟨timer, rfl⟩
    · exact ⟨conn.timer, hconn⟩
  refine ⟨_, hstep, ⟨hsound, h.deadline, ?_, .inl ⟨_, hget, ?_⟩⟩, ?_⟩
  · rw [check_now]
    exact h.now
  · rw [check_permits]
    exact halive
  · rw [left_of_get? hget, left_of_get? hconn, if_neg htimer, check_now, hlive]
    simp only
    split_ifs <;> omega

lemma ending_tick (h : Ending limits c begun last permits until_ s)
    (hconn : s.conns.get? c = some conn) (htimer : conn.timer ≠ none)
    (hdue : ∀ c' conn', s.conns.get? c' = some conn' → conn'.due s.now = false) :
    ∃ s', step limits s .tick = some s' ∧ Ending limits c begun last permits until_ s' ∧
      s'.left limits c < s.left limits c := by
  have hstep : step limits s .tick = some { s with now := s.now + 1 } := by
    refine if_neg fun hany => ?_
    obtain ⟨e, he, hdue'⟩ := List.any_eq_true.mp hany
    rw [hdue e.1 e.2 (OrdMap.mem_entries_iff.mp he)] at hdue'
    cases hdue'
  have hsound := sound_step h.sound (move_of_step hstep)
  obtain ⟨hbegun, hlast, hpermits⟩ := h.alive hconn
  have hlater : s.now + 1 ≤ last + limits.idleTimeout := by
    obtain ⟨at_, hat⟩ := Option.ne_none_iff_exists'.mp htimer
    have hbound := (hsound.conns c conn hconn).timer at_ hat
    simp only at hbound
    omega
  refine ⟨_, hstep, ⟨hsound, h.deadline, Nat.le_trans hlater h.deadline,
    .inl ⟨conn, hconn, hbegun, hlast, hpermits⟩⟩, ?_⟩
  -- one tick less makes up for every timer that it may have made due
  have hmany : ({ s with now := s.now + 1 } : State).due ≤ s.live := due_le_live _
  obtain ⟨left, hleft⟩ := Nat.exists_eq_add_of_le hlater
  have hbefore : last + limits.idleTimeout - s.now = left + 1 := by omega
  have hafter : last + limits.idleTimeout - (s.now + 1) = left := by omega
  have hget : ({ s with now := s.now + 1 } : State).conns.get? c = some conn := hconn
  rw [left_of_get? hget, left_of_get? hconn, if_neg htimer, if_neg htimer, hlast, hbefore]
  simp only [hafter, State.live, Nat.succ_mul] at hmany ⊢
  omega

lemma ending_finish (h : Ending limits c begun last permits until_ s)
    (hconn : s.conns.get? c = some conn) (htimer : conn.timer = none)
    (hinflight : conn.inflight = 0) :
    ∃ s', step limits s (.finish c) = some s' ∧ Ending limits c begun last permits until_ s' ∧
      s'.left limits c < s.left limits c := by
  have hstep : step limits s (.finish c) = some { s.release c with
      log := s.log ++ [.finished c conn.begun conn.answered] } := by
    simp [step, hconn, connStep, htimer, hinflight]
  obtain ⟨hbegun, -, hpermits⟩ := h.alive hconn
  have hanswered : conn.answered = begun := by
    have hcount := (h.sound.conns c conn hconn).answered
    omega
  have hget : (s.conns.unset c).get? c = none := OrdMap.get?_unset_self s.conns c
  refine ⟨_, hstep, ⟨sound_step h.sound (move_of_step hstep), h.deadline, h.now,
    .inr ⟨hget, ?_, ?_⟩⟩, ?_⟩
  · simp only [State.release, hpermits]
  · simp [hbegun, hanswered]
  · rw [left_of_get? hconn, State.left]
    simp only [State.release, hget]
    omega

lemma ending_step (h : Ending limits c begun last permits until_ s)
    (hgone : ¬ s.conns.get? c = none) :
    ∃ a s', Helps c a ∧ step limits s a = some s' ∧ Ending limits c begun last permits until_ s' ∧
      s'.left limits c < s.left limits c := by
  obtain ⟨conn, hconn⟩ := Option.ne_none_iff_exists'.mp hgone
  by_cases hinflight : 0 < conn.inflight
  · obtain ⟨s', hs'⟩ := ending_answer h hconn hinflight
    exact ⟨.answer c, s', rfl, hs'⟩
  by_cases htimer : conn.timer = none
  · obtain ⟨s', hs'⟩ := ending_finish h hconn htimer (by omega)
    exact ⟨.finish c, s', rfl, hs'⟩
  by_cases hdue : ∃ c' conn', s.conns.get? c' = some conn' ∧ conn'.due s.now = true
  · obtain ⟨c', conn', hconn', hdue'⟩ := hdue
    obtain ⟨s', hs'⟩ := ending_check h hconn htimer hconn' hdue'
    exact ⟨.check c', s', trivial, hs'⟩
  · simp only [not_exists, not_and, Bool.not_eq_true] at hdue
    obtain ⟨s', hs'⟩ := ending_tick h hconn htimer hdue
    exact ⟨.tick, s', trivial, hs'⟩

end Ending

/-- **A permit can come back.**  Where no further request begins on a connection, the clock, the
timers and the answers to what is in flight can bring it to its end, within `idle_timeout` of its
last request and with all of its requests answered. -/
theorem connection_ends {s : State} {as : List Action}
    (h : runFrom (step limits) (init limits) as = some s) {c : ℕ} {conn : Conn}
    (hconn : s.conns.get? c = some conn) :
    ∃ bs s', (∀ b ∈ bs, Helps c b) ∧ runFrom (step limits) s bs = some s' ∧
      s'.conns.get? c = none ∧ s'.permits = s.permits + 1 ∧
      s'.now ≤ max s.now (conn.lastActivity + limits.idleTimeout) ∧
      Event.finished c conn.begun conn.begun ∈ s'.log := by
  have hstart : Ending limits c conn.begun conn.lastActivity s.permits
      (max s.now (conn.lastActivity + limits.idleTimeout)) s :=
    ⟨sound_of_run h, Nat.le_max_right _ _, Nat.le_max_left _ _, .inl ⟨conn, hconn, rfl, rfl, rfl⟩⟩
  obtain ⟨bs, s', hhelps, hrun, hend, hgone⟩ :=
    reaches_of_rank (step limits) (A := Helps c) (State.left limits c)
      (fun t ht hnot => ending_step ht hnot) hstart
  rcases hend.conn with ⟨conn', hconn', -⟩ | ⟨-, hpermits, hlog⟩
  · rw [hgone] at hconn'
    cases hconn'
  · exact ⟨bs, s', hhelps, hrun, hgone, hpermits, hend.now, hlog⟩

/-- The client that has the one permit, with its request in flight. -/
theorem connection_ends_keptAlive :
    ∃ s, runFrom (step ⟨1, 2⟩) (init ⟨1, 2⟩) (keptAlive.take 5) = some s ∧ s.permits = 0 ∧
      ∃ bs s', runFrom (step ⟨1, 2⟩) s bs = some s' ∧ s'.permits = 1 ∧ s'.now ≤ 3 ∧
        Event.finished 0 1 1 ∈ s'.log := by
  obtain ⟨s, hrun, hnow, hpermits, hconn⟩ :
      ∃ s, runFrom (step ⟨1, 2⟩) (init ⟨1, 2⟩) (keptAlive.take 5) = some s ∧ s.now = 1 ∧
        s.permits = 0 ∧ s.conns.get? 0 = some ⟨1, some 2, 1, 1, 0⟩ := ⟨_, rfl, rfl, rfl, rfl⟩
  obtain ⟨bs, s', -, hends, -, hback, hlate, hlog⟩ := connection_ends hrun hconn
  refine ⟨s, hrun, hpermits, bs, s', hends, ?_, ?_, hlog⟩
  · rw [hback, hpermits]
  · simpa [hnow] using hlate

end Ignis.Connections
