import Ignis.Lib.Places
import Ignis.Watch.Settle

/-!
# No event is lost

Two invariants carry the argument.  `HoldsFlag` says that `WAKE_SCHEDULED` is set exactly when some
thread answers for it, and then one: that is why there is one waker.  `Attended` says that an event
in `LAST_EVENT` has a thread that will come back to it: a callback hands it to the waker when it
finds the flag set, and a waker that clears the flag looks at `LAST_EVENT` afterwards.

`now_ms` is zero when the system clock stands before the epoch, and zero is also what `LAST_EVENT`
holds when nothing has changed.  `PastEpoch` excludes that, and `event_lost` is what happens there.
-/

namespace Ignis

namespace Settle

/-- The flag is set exactly when a thread answers for it, and then one does. -/
def HoldsFlag (s : State) : Prop :=
  s.tasks.countP Task.holds = s.wakeScheduled.toNat

/-- If `LAST_EVENT` holds an event, some thread will come back to it. -/
def Attended (s : State) : Prop :=
  s.lastEvent ≠ 0 → ∃ task ∈ s.tasks, task.attends = true

/-- No generation has been claimed twice, and none above the one that is recorded. -/
def ClaimedOnce (s : State) : Prop :=
  s.claimed.Nodup ∧ ∀ generation ∈ s.claimed, generation ≤ s.resetGeneration

section

variable {settleMs : ℕ} {s s' : State}

lemma Moves.holds_eq {task next : Task} (h : Moves settleMs s task next) :
    next.holds = task.holds := by
  cases h <;> rfl

lemma HoldsFlag.step (h : HoldsFlag s) {a : Action} (hstep : step settleMs s a = some s') :
    HoldsFlag s' := by
  unfold HoldsFlag at h
  have heffect := effect_of_step hstep
  cases heffect with
  | event | claim => simpa [HoldsFlag, List.countP_append, Task.holds] using h
  | request | elapses | sets => exact h
  | @moves i task next hi hmove =>
      have hset := Places.countP_set Task.holds next hi
      rw [hmove.holds_eq] at hset
      simp only [HoldsFlag]
      omega
  | stores hi =>
      have hset := Places.countP_set Task.holds .arming hi
      exact (Nat.add_right_cancel hset).trans h
  | exchanges hi =>
      have hset := Places.countP_set Task.holds .bumping hi
      exact (Nat.add_right_cancel hset).trans h
  | bumps hi =>
      have hset := Places.countP_set Task.holds .releasing hi
      exact (Nat.add_right_cancel hset).trans h
  | claims hi =>
      have hset := Places.countP_set Task.holds .done hi
      exact (Nat.add_right_cancel hset).trans h
  | arms hi htask hflag =>
      have hset := Places.countP_set Task.holds .spawning hi
      rw [hflag] at h
      rcases htask with rfl | rfl <;>
      · simp only [Task.holds, Bool.toNat_true, Bool.toNat_false] at hset h
        simp only [HoldsFlag, Bool.toNat_true]
        omega
  | armed hi htask hflag =>
      have hset := Places.countP_set Task.holds .done hi
      rcases htask with rfl | rfl <;>
      · simp only [Task.holds, Bool.toNat_false] at hset
        simp only [HoldsFlag]
        omega
  | spawns hi =>
      have hset := Places.countP_set Task.holds .done hi
      simp only [Task.holds, Bool.toNat_true, Bool.toNat_false] at hset
      simp only [HoldsFlag, List.countP_append, List.countP_singleton, Task.holds, if_true]
      omega
  | releases hi =>
      have hset := Places.countP_set Task.holds .rechecking hi
      have hpos := Bool.toNat_le s.wakeScheduled
      simp only [Task.holds, Bool.toNat_true, Bool.toNat_false] at hset
      simp only [HoldsFlag, Bool.toNat_false]
      omega

/-- While the flag is set some thread answers for it. -/
lemma HoldsFlag.exists_holds (h : HoldsFlag s) (hflag : s.wakeScheduled = true) :
    ∃ (i : ℕ) (task : Task), s.tasks[i]? = some task ∧ task.holds = true := by
  have hpos : 0 < s.tasks.countP Task.holds := by
    rw [h, hflag]
    decide
  obtain ⟨task, hmem, hholds⟩ := List.countP_pos_iff.mp hpos
  obtain ⟨i, hi⟩ := List.mem_iff_getElem?.mp hmem
  exact ⟨i, task, hi, hholds⟩

lemma attends_of_holds {task : Task} (h : task.holds = true) : task.attends = true := by
  cases task <;> first | rfl | exact h

/-- A step of one thread after which that thread still attends, if it did before. -/
lemma Attended.set (h : Attended s) {i : ℕ} {task next : Task} (hi : s.tasks[i]? = some task)
    (hlast : s.lastEvent ≠ 0) (hnext : task.attends = true → next.attends = true) :
    ∃ x ∈ s.tasks.set i next, x.attends = true := by
  obtain ⟨x, hx, hattends⟩ := h hlast
  obtain ⟨j, hj⟩ := List.mem_iff_getElem?.mp hx
  by_cases hij : i = j
  · subst hij
    obtain rfl := Option.some.inj (hi.symm.trans hj)
    exact ⟨next, Places.mem_set_self hi _, hnext hattends⟩
  · exact ⟨x, Places.mem_set_of_ne hj hij, hattends⟩

lemma Moves.attends {task next : Task} (h : Moves settleMs s task next) (hlast : s.lastEvent ≠ 0)
    (htask : task.attends = true) : next.attends = true := by
  cases h with
  | stamps | reads => cases htask
  | rechecksZero hzero => exact absurd hzero hlast
  | _ => rfl

lemma Attended.step (h : Attended s) (hflag : HoldsFlag s) {a : Action}
    (hstep : step settleMs s a = some s') : Attended s' := by
  intro hlast
  have heffect := effect_of_step hstep
  cases heffect with
  | event | claim =>
      obtain ⟨x, hx, hattends⟩ := h hlast
      exact ⟨x, List.mem_append_left _ hx, hattends⟩
  | request | elapses | sets => exact h hlast
  | moves hi hmove => exact h.set hi hlast (hmove.attends hlast)
  | stores hi => exact ⟨.arming, Places.mem_set_self hi _, rfl⟩
  | arms hi => exact ⟨.spawning, Places.mem_set_self hi _, rfl⟩
  | armed hi htask hset =>
      -- The event is handed over to the thread that answers for the flag.
      obtain ⟨j, x, hj, hholds⟩ := hflag.exists_holds hset
      refine ⟨x, Places.mem_set_of_ne hj ?_, attends_of_holds hholds⟩
      rintro rfl
      obtain rfl := Option.some.inj (hi.symm.trans hj)
      rcases htask with rfl | rfl <;> cases hholds
  | spawns => exact ⟨.sleeping, List.mem_append_right _ (List.mem_singleton_self _), rfl⟩
  | exchanges => exact absurd rfl hlast
  | bumps hi => exact ⟨.releasing, Places.mem_set_self hi _, rfl⟩
  | releases hi => exact ⟨.rechecking, Places.mem_set_self hi _, rfl⟩
  | claims hi => exact h.set hi hlast fun hattends => by cases hattends

lemma ClaimedOnce.step (h : ClaimedOnce s) {a : Action} (hstep : step settleMs s a = some s') :
    ClaimedOnce s' := by
  have heffect := effect_of_step hstep
  cases heffect with
  | @claims i generation hi =>
      obtain ⟨hnodup, hle⟩ := h
      split
      case isTrue hlt =>
        refine ⟨List.nodup_cons.mpr ⟨fun hmem => ?_, hnodup⟩, fun g hg => ?_⟩
        · have hbound := hle generation hmem
          omega
        · rcases List.mem_cons.mp hg with rfl | hg
          · exact Nat.le_max_right _ _
          · exact Nat.le_trans (hle g hg) (Nat.le_max_left _ _)
      case isFalse hlt =>
        exact ⟨hnodup, fun g hg => Nat.le_trans (hle g hg) (Nat.le_max_left _ _)⟩
  | _ => exact h

/-- The flag is accounted for, every event is attended to, and no generation is claimed twice. -/
def Inv (s : State) : Prop :=
  HoldsFlag s ∧ Attended s ∧ ClaimedOnce s

lemma inv_init (clock : ℤ) : Inv (init clock) :=
  ⟨rfl, fun h => absurd rfl h, List.nodup_nil, by simp [init]⟩

theorem Inv.step (h : Inv s) {a : Action} (hstep : step settleMs s a = some s') : Inv s' :=
  ⟨h.1.step hstep, h.2.1.step h.1 hstep, h.2.2.step hstep⟩

/-- At most one waker is active. -/
lemma HoldsFlag.active_le (h : HoldsFlag s) : s.tasks.countP Task.active ≤ 1 := by
  have hle : s.tasks.countP Task.active ≤ s.tasks.countP Task.holds := by
    refine List.countP_mono_left fun task _ hactive => ?_
    cases task <;> first | rfl | exact hactive
  have hflag := Bool.toNat_le s.wakeScheduled
  rw [h] at hle
  omega

/-! ### What becomes of an event -/

/-- The time a callback is about to store is not the zero that stands for no event. -/
def StampsPast (s : State) : Prop :=
  ∀ now, .stamped now ∈ s.tasks → now ≠ 0

lemma StampsPast.set (h : StampsPast s) (i : ℕ) (next : Task)
    (hnext : ∀ now, next = .stamped now → now ≠ 0) :
    ∀ now, .stamped now ∈ s.tasks.set i next → now ≠ 0 := by
  intro now hmem
  rcases List.mem_or_eq_of_mem_set hmem with hmem | heq
  · exact h now hmem
  · exact hnext now heq.symm

lemma StampsPast.step (h : StampsPast s) {a : Action} (hpast : PastEpoch s a)
    (hstep : step settleMs s a = some s') : StampsPast s' := by
  have heffect := effect_of_step hstep
  cases heffect with
  | event | claim =>
      intro now hmem
      exact h now (by simpa using hmem)
  | request | elapses | sets => exact h
  | @moves i task next hi hmove =>
      refine h.set i next fun now hnow => ?_
      cases hmove <;> cases hnow
      have hclock : 0 < s.clock := hpast hi
      simp only [State.nowMs]
      omega
  | spawns =>
      intro now hmem
      exact h.set _ .done (by simp) now (by simpa using hmem)
  | stores | arms | armed | exchanges | bumps | releases | claims => exact h.set _ _ (by simp)

/-- `LAST_EVENT` returns to zero by the compare-exchange alone, and the thread that made it comes to
the increment next. -/
lemma exchanged_of_zero (h : StampsPast s) {a : Action} (hstep : step settleMs s a = some s')
    (hlast : s.lastEvent ≠ 0) (hzero : s'.lastEvent = 0) :
    ∃ i, a = .task i ∧ s.tasks[i]? = some (.exchanging s.lastEvent) ∧
      s'.tasks[i]? = some .bumping := by
  have heffect := effect_of_step hstep
  cases heffect with
  | stores hi => exact absurd hzero (h _ (List.mem_of_getElem? hi))
  | @exchanges i hi =>
      have hlt := (List.getElem?_eq_some_iff.mp hi).1
      exact ⟨i, rfl, hi, List.getElem?_set_self hlt⟩
  | _ => exact absurd hzero hlast

/-- Since the generation was `g` an increment has followed, or is still to come. -/
def Owes (g : ℕ) (s : State) : Prop :=
  g ≤ s.generation ∧ (g < s.generation ∨ s.lastEvent ≠ 0 ∨ .bumping ∈ s.tasks)

lemma Owes.step {g : ℕ} (h : Owes g s) (hstamps : StampsPast s) {a : Action}
    (hstep : step settleMs s a = some s') : Owes g s' := by
  obtain ⟨hle, howes⟩ := h
  have hgrows : s.generation ≤ s'.generation := by
    have heffect := effect_of_step hstep
    cases heffect with
    | request | bumps => exact Nat.le_succ _
    | _ => exact Nat.le_refl _
  refine ⟨Nat.le_trans hle hgrows, ?_⟩
  rcases howes with hlt | hlast | hbumping
  · exact .inl (Nat.lt_of_lt_of_le hlt hgrows)
  · by_cases hzero : s'.lastEvent = 0
    · obtain ⟨i, -, -, hi⟩ := exchanged_of_zero hstamps hstep hlast hzero
      exact .inr (.inr (List.mem_of_getElem? hi))
    · exact .inr (.inl hzero)
  · obtain ⟨j, hj⟩ := List.mem_iff_getElem?.mp hbumping
    have heffect := effect_of_step hstep
    -- The thread that is to make the increment stays where it is until it does.
    have hkeep : ∀ {i : ℕ} {task next : Task}, s.tasks[i]? = some task → task ≠ .bumping →
        .bumping ∈ s.tasks.set i next := by
      intro i task next hi hne
      refine Places.mem_set_of_ne hj ?_
      rintro rfl
      exact hne (Option.some.inj (hi.symm.trans hj))
    cases heffect with
    | event | claim => exact .inr (.inr (List.mem_append_left _ hbumping))
    | request => exact .inl (Nat.lt_succ_of_le hle)
    | elapses | sets => exact .inr (.inr hbumping)
    | moves hi hmove => exact .inr (.inr (hkeep hi (by rintro rfl; cases hmove)))
    | arms hi htask | armed hi htask =>
        exact .inr (.inr (hkeep hi (by rcases htask with rfl | rfl <;> simp)))
    | spawns hi => exact .inr (.inr (List.mem_append_left _ (hkeep hi (by simp))))
    | bumps => exact .inl (Nat.lt_succ_of_le hle)
    | stores hi | exchanges hi | releases hi | claims hi =>
        exact .inr (.inr (hkeep hi (by simp)))

/-! ### The increment can always be reached -/

/-- A step of the threads there are, or of time. -/
def Action.own : Action → Prop
  | .task _ | .elapses _ => True
  | _ => False

/-- The threads there are can bring the generation above `g`. -/
def Reaches (settleMs g : ℕ) (s : State) : Prop :=
  ∃ as s', (∀ a ∈ as, a.own) ∧ StepSystem.runFrom (Settle.step settleMs) s as = some s' ∧
    g < s'.generation

lemma Reaches.of_step {g : ℕ} {a : Action} (hstep : step settleMs s a = some s') (ha : a.own)
    (h : Reaches settleMs g s') : Reaches settleMs g s := by
  obtain ⟨as, t, hown, hrun, hlt⟩ := h
  refine ⟨a :: as, t, ?_, (StepSystem.runFrom_cons _).mpr ⟨s', hstep, hrun⟩, hlt⟩
  intro b hb
  rcases List.mem_cons.mp hb with rfl | hb
  · exact ha
  · exact hown b hb

/-- The thread at `i` goes on, and the increment is reached from where it then stands. -/
lemma Reaches.of_advance {g i : ℕ} {task next : Task} {t : State}
    (hi : s.tasks[i]? = some task) (hadv : advance settleMs s task = some (t, next))
    (htasks : t.tasks = s.tasks)
    (h : ({ t with tasks := s.tasks.set i next }).tasks[i]? = some next →
      Reaches settleMs g { t with tasks := s.tasks.set i next }) : Reaches settleMs g s := by
  have hlt := (List.getElem?_eq_some_iff.mp hi).1
  refine Reaches.of_step (a := .task i) ?_ trivial (h (List.getElem?_set_self hlt))
  simp [Settle.step, hi, hadv, htasks]

variable {g i : ℕ}

lemma reaches_of_bumping (hg : g ≤ s.generation) (hi : s.tasks[i]? = some .bumping) :
    Reaches settleMs g s :=
  .of_advance hi rfl rfl fun _ => ⟨[], _, by simp, rfl, Nat.lt_succ_of_le hg⟩

lemma reaches_of_exchanging (hg : g ≤ s.generation)
    (hi : s.tasks[i]? = some (.exchanging s.lastEvent)) : Reaches settleMs g s := by
  have hadv : advance settleMs s (.exchanging s.lastEvent) =
      some ({ s with lastEvent := 0 }, .bumping) := if_pos rfl
  exact .of_advance hi hadv rfl fun hi => reaches_of_bumping hg hi

/-- The waker that has read the last event only has to wait out the settle window. -/
lemma reaches_of_testing (hg : g ≤ s.generation)
    (hi : s.tasks[i]? = some (.testing s.lastEvent)) : Reaches settleMs g s := by
  have hquiet : settleMs ≤
      (s.clock + (settleMs + s.lastEvent + s.clock.natAbs : ℕ)).toNat - s.lastEvent := by omega
  let t : State := { s with clock := s.clock + (settleMs + s.lastEvent + s.clock.natAbs : ℕ) }
  have hadv : advance settleMs t (.testing s.lastEvent) = some (t, .exchanging t.lastEvent) := by
    rw [advance, if_pos (show settleMs ≤ t.nowMs - s.lastEvent from hquiet)]
  have hstep : step settleMs s (.elapses (settleMs + s.lastEvent + s.clock.natAbs)) = some t := rfl
  refine Reaches.of_step hstep trivial ?_
  exact .of_advance (i := i) hi hadv rfl fun hi => reaches_of_exchanging hg hi

lemma reaches_of_loading (hg : g ≤ s.generation) (hlast : s.lastEvent ≠ 0)
    (hi : s.tasks[i]? = some .loading) : Reaches settleMs g s :=
  .of_advance hi (by rw [advance, if_neg hlast]) rfl fun hi => reaches_of_testing hg hi

lemma reaches_of_sleeping (hg : g ≤ s.generation) (hlast : s.lastEvent ≠ 0)
    (hi : s.tasks[i]? = some .sleeping) : Reaches settleMs g s :=
  .of_advance hi rfl rfl fun hi => reaches_of_loading hg hlast hi

lemma reaches_of_exchanging_any {last : ℕ} (hg : g ≤ s.generation) (hlast : s.lastEvent ≠ 0)
    (hi : s.tasks[i]? = some (.exchanging last)) : Reaches settleMs g s := by
  by_cases heq : s.lastEvent = last
  · subst heq
    exact reaches_of_exchanging hg hi
  · exact .of_advance hi (by rw [advance, if_neg heq]) rfl fun hi =>
      reaches_of_sleeping hg hlast hi

lemma reaches_of_testing_any {last : ℕ} (hg : g ≤ s.generation) (hlast : s.lastEvent ≠ 0)
    (hi : s.tasks[i]? = some (.testing last)) : Reaches settleMs g s := by
  by_cases hquiet : settleMs ≤ s.nowMs - last
  · exact .of_advance hi (by rw [advance, if_pos hquiet]) rfl fun hi =>
      reaches_of_exchanging_any hg hlast hi
  · exact .of_advance hi (by rw [advance, if_neg hquiet]) rfl fun hi =>
      reaches_of_sleeping hg hlast hi

lemma reaches_of_spawning (hg : g ≤ s.generation) (hlast : s.lastEvent ≠ 0)
    (hi : s.tasks[i]? = some .spawning) : Reaches settleMs g s := by
  have hlt := (List.getElem?_eq_some_iff.mp hi).1
  have hstep : step settleMs s (.task i) =
      some { s with tasks := s.tasks.set i .done ++ [.sleeping] } := by
    simp [Settle.step, hi, advance, List.set_append_left _ _ hlt]
  refine Reaches.of_step hstep trivial (reaches_of_sleeping (i := s.tasks.length) hg hlast ?_)
  simp

/-- While the flag is clear, whoever arms the waker spawns it. -/
lemma reaches_of_arming {task : Task} (hg : g ≤ s.generation) (hlast : s.lastEvent ≠ 0)
    (hflag : s.wakeScheduled = false) (htask : task = .arming ∨ task = .rearming)
    (hi : s.tasks[i]? = some task) : Reaches settleMs g s := by
  have hadv : advance settleMs s task = some ({ s with wakeScheduled := true }, .spawning) := by
    rcases htask with rfl | rfl <;> simp [advance, hflag]
  exact .of_advance hi hadv rfl fun hi => reaches_of_spawning hg hlast hi

lemma reaches_of_rechecking (hg : g ≤ s.generation) (hlast : s.lastEvent ≠ 0)
    (hflag : s.wakeScheduled = false) (hi : s.tasks[i]? = some .rechecking) :
    Reaches settleMs g s :=
  .of_advance hi (by rw [advance, if_neg hlast]) rfl fun hi =>
    reaches_of_arming hg hlast hflag (.inr rfl) hi

lemma reaches_of_releasing (hg : g ≤ s.generation) (hlast : s.lastEvent ≠ 0)
    (hi : s.tasks[i]? = some .releasing) : Reaches settleMs g s :=
  .of_advance hi rfl rfl fun hi => reaches_of_rechecking hg hlast rfl hi

/-- The thread that answers for the flag comes to the increment. -/
lemma reaches_of_holds {task : Task} (hg : g ≤ s.generation) (hlast : s.lastEvent ≠ 0)
    (hi : s.tasks[i]? = some task) (hholds : task.holds = true) : Reaches settleMs g s := by
  cases task with
  | spawning => exact reaches_of_spawning hg hlast hi
  | sleeping => exact reaches_of_sleeping hg hlast hi
  | loading => exact reaches_of_loading hg hlast hi
  | testing last => exact reaches_of_testing_any hg hlast hi
  | exchanging last => exact reaches_of_exchanging_any hg hlast hi
  | bumping => exact reaches_of_bumping hg hi
  | releasing => exact reaches_of_releasing hg hlast hi
  | _ => cases hholds

/-- **Progress.**  The increment an event is owed can be reached. -/
lemma Inv.reaches (h : Inv s) (hlast : s.lastEvent ≠ 0) : Reaches settleMs s.generation s := by
  have hg := Nat.le_refl s.generation
  cases hflag : s.wakeScheduled with
  | true =>
      obtain ⟨i, task, hi, hholds⟩ := h.1.exists_holds hflag
      exact reaches_of_holds hg hlast hi hholds
  | false =>
      obtain ⟨task, hmem, hattends⟩ := h.2.1 hlast
      obtain ⟨i, hi⟩ := List.mem_iff_getElem?.mp hmem
      cases task with
      | arming => exact reaches_of_arming hg hlast hflag (.inl rfl) hi
      | rearming => exact reaches_of_arming hg hlast hflag (.inr rfl) hi
      | rechecking => exact reaches_of_rechecking hg hlast hflag hi
      | _ => exact reaches_of_holds hg hlast hi hattends

/-- **No event is lost.**  Wherever a run has come to, at most one waker is active; an event in
`LAST_EVENT` is attended to; only the compare-exchange puts zero there, and its thread makes the
increment next; an event that is there is never forgotten before an increment, which can always be
reached; and no generation has been claimed twice. -/
theorem no_event_lost {clock : ℤ} {as : List Action}
    (h : StepSystem.runFrom (Settle.step settleMs) (init clock) as = some s)
    (hpast : StepSystem.Along (Settle.step settleMs) PastEpoch (init clock) as) :
    s.tasks.countP Task.active ≤ 1 ∧
    (s.lastEvent ≠ 0 → ∃ task ∈ s.tasks, task.attends = true) ∧
    (∀ a s', step settleMs s a = some s' → s.lastEvent ≠ 0 → s'.lastEvent = 0 →
      ∃ i, a = .task i ∧ s.tasks[i]? = some (.exchanging s.lastEvent) ∧
        s'.tasks[i]? = some .bumping) ∧
    (s.lastEvent ≠ 0 → ∀ bs s', StepSystem.runFrom (Settle.step settleMs) s bs = some s' →
      StepSystem.Along (Settle.step settleMs) PastEpoch s bs →
      s.generation < s'.generation ∨ s'.lastEvent ≠ 0 ∨ .bumping ∈ s'.tasks) ∧
    (s.lastEvent ≠ 0 ∨ .bumping ∈ s.tasks → Reaches settleMs s.generation s) ∧
    s.claimed.Nodup := by
  have hinv : Inv s :=
    StepSystem.invariant_of_run _ (fun _ _ _ hI hstep => Inv.step hI hstep) (inv_init clock) h
  have hstamps : StampsPast s :=
    StepSystem.invariant_of_step _ (fun _ _ _ hI hok hstep => StampsPast.step hI hok hstep)
      (by simp [StampsPast, init]) hpast h
  refine ⟨hinv.1.active_le, hinv.2.1, fun a s' => exchanged_of_zero hstamps, ?_, ?_, hinv.2.2.1⟩
  · intro hlast bs s' hrun hbs
    have howes : Owes s.generation s' ∧ StampsPast s' :=
      StepSystem.invariant_of_step _
        (I := fun s' => Owes s.generation s' ∧ StampsPast s')
        (fun _ _ _ hI hok hstep => ⟨hI.1.step hI.2 hstep, hI.2.step hok hstep⟩)
        ⟨⟨Nat.le_refl _, .inr (.inl hlast)⟩, hstamps⟩ hbs hrun
    exact howes.1.2
  · rintro (hlast | hbumping)
    · exact hinv.reaches hlast
    · obtain ⟨i, hi⟩ := List.mem_iff_getElem?.mp hbumping
      exact reaches_of_bumping (Nat.le_refl _) hi

end

/-- A file is saved, and its callback has stored the time. -/
def saved : List Action := [.event, .task 0, .task 0]

theorem no_event_lost_saved : ∃ s,
    StepSystem.runFrom (step 300) (init 1000) saved = some s ∧ s.lastEvent = 1000 ∧
      Reaches 300 s.generation s :=
  ⟨_, rfl, rfl, (@no_event_lost 300 _ 1000 saved rfl (by decide)).2.2.2.2.1 (.inl (by decide))⟩

/-- The clock is set to a time before the epoch, and another file is saved: the second callback
stores the zero that stands for no event, and the waker finds nothing to do.  Neither save is
followed by an increment. -/
theorem event_lost : ∃ s,
    StepSystem.runFrom (step 300) (init 1000)
      (saved ++ ([.task 0, .task 0, .sets (-1), .event, .task 2, .task 2, .task 2, .task 1, .task 1,
        .task 1, .task 1] : List Action)) = some s ∧
    (∀ task ∈ s.tasks, task = .done) ∧ s.generation = 0 :=
  ⟨_, rfl, by decide, rfl⟩

end Settle

end Ignis
