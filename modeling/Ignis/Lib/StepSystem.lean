import Mathlib.Data.List.Basic
import Mathlib.Tactic.TypeStar

/-!
# Runs of a partial step function

A system is a partial function `step : σ → α → Option σ` that says what an action does to a state,
`none` when the action is not possible there.  A run is a list of actions, and `runFrom` is the
state it ends in.  `Along` restricts the runs of interest: every action of the list has to satisfy
a condition in the state it is taken in.

The rule used throughout is `invariant_of_step`, which lifts a property kept by each admissible step
to every state a run reaches.  Its counterpart is `reaches_of_rank`, for what a run can bring about.
-/

namespace StepSystem

variable {σ α : Type*} (step : σ → α → Option σ)

/-- The state after the actions `as`, if each of them was possible. -/
def runFrom : σ → List α → Option σ
  | s, [] => some s
  | s, a :: as => (step s a).bind fun s' => runFrom s' as

/-- Every action of the run satisfies `ok` in the state it is taken in. -/
def Along (ok : σ → α → Prop) : σ → List α → Prop
  | _, [] => True
  | s, a :: as => ok s a ∧ ∀ s', step s a = some s' → Along ok s' as

/-- Whether a run is admissible is found out by running it. -/
instance Along.decidable (ok : σ → α → Prop) [∀ s a, Decidable (ok s a)] :
    ∀ s as, Decidable (Along step ok s as)
  | _, [] => isTrue trivial
  | s, a :: as =>
      match h : step s a with
      | none => decidable_of_iff (ok s a)
          ⟨fun ha => ⟨ha, fun s' hs => absurd (h.symm.trans hs) (by simp)⟩, fun ha => ha.1⟩
      | some t =>
          have := Along.decidable ok t as
          decidable_of_iff (ok s a ∧ Along step ok t as)
            ⟨fun ha => ⟨ha.1, fun s' hs => Option.some.inj (h.symm.trans hs) ▸ ha.2⟩,
              fun ha => ⟨ha.1, ha.2 t h⟩⟩

@[simp] lemma runFrom_nil (s : σ) : runFrom step s [] = some s := rfl

lemma runFrom_cons {s s' : σ} {a : α} {as : List α} :
    runFrom step s (a :: as) = some s' ↔ ∃ t, step s a = some t ∧ runFrom step t as = some s' := by
  simp [runFrom, Option.bind_eq_some_iff]

/-- A system that can always move. -/
lemma runFrom_total (f : σ → α → σ) (s : σ) (as : List α) :
    runFrom (fun s a => some (f s a)) s as = some (as.foldl f s) := by
  induction as generalizing s with
  | nil => rfl
  | cons a as ih => exact (runFrom_cons _).mpr ⟨f s a, rfl, ih (f s a)⟩

/-- What the steps of such a system keep exactly when they are admissible. -/
lemma foldl_iff_along {f : σ → α → σ} {P : σ → Prop} {ok : σ → α → Prop}
    (h : ∀ s a, P (f s a) ↔ P s ∧ ok s a) (s : σ) (as : List α) :
    P (as.foldl f s) ↔ P s ∧ Along (fun s a => some (f s a)) ok s as := by
  induction as generalizing s with
  | nil => simp [Along]
  | cons a as ih =>
      rw [List.foldl_cons, ih, h, and_assoc]
      simp [Along]

lemma runFrom_append {s t u : σ} {as bs : List α} (has : runFrom step s as = some t)
    (hbs : runFrom step t bs = some u) : runFrom step s (as ++ bs) = some u := by
  induction as generalizing s with
  | nil =>
      obtain rfl := Option.some.inj has
      exact hbs
  | cons a as ih =>
      obtain ⟨v, hv, hrun⟩ := (runFrom_cons step).mp has
      exact (runFrom_cons step).mpr ⟨v, hv, ih hrun⟩

lemma along_of_forall {P : α → Prop} {as : List α} (h : ∀ a ∈ as, P a) (s : σ) :
    Along step (fun _ a => P a) s as := by
  induction as generalizing s with
  | nil => trivial
  | cons a as ih =>
      exact ⟨h a List.mem_cons_self, fun t _ => ih (fun b hb => h b (List.mem_cons_of_mem a hb)) t⟩

lemma along_and {ok ok' : σ → α → Prop} {s : σ} {as : List α} (h : Along step ok s as)
    (h' : Along step ok' s as) : Along step (fun s a => ok s a ∧ ok' s a) s as := by
  induction as generalizing s with
  | nil => trivial
  | cons a as ih => exact ⟨⟨h.1, h'.1⟩, fun t ht => ih (h.2 t ht) (h'.2 t ht)⟩

lemma along_append {ok : σ → α → Prop} {s : σ} {as bs : List α} (has : Along step ok s as)
    (hbs : ∀ t, runFrom step s as = some t → Along step ok t bs) : Along step ok s (as ++ bs) := by
  induction as generalizing s with
  | nil => exact hbs s rfl
  | cons a as ih =>
      refine ⟨has.1, fun t ht => ih (has.2 t ht) fun u hu => hbs u ?_⟩
      exact (runFrom_cons step).mpr ⟨t, ht, hu⟩

/-- An admissible run of one system is a run of any other that can make the admissible steps. -/
lemma runFrom_of_along {step' : σ → α → Option σ} {ok : σ → α → Prop}
    (hstep : ∀ s a s', ok s a → step s a = some s' → step' s a = some s') {s s' : σ} {as : List α}
    (hok : Along step ok s as) (h : runFrom step s as = some s') :
    runFrom step' s as = some s' := by
  induction as generalizing s with
  | nil => exact h
  | cons a as ih =>
      obtain ⟨t, ht, hrun⟩ := (runFrom_cons step).mp h
      exact (runFrom_cons step').mpr ⟨t, hstep s a t hok.1 ht, ih (hok.2 t ht) hrun⟩

/-- A run of a part is a run of the whole, if each of its steps is one and keeps the two related. -/
lemma runFrom_lift {τ β : Type*} {step' : τ → β → Option τ} {R : τ → σ → Prop} {A : α → Prop}
    (f : α → β)
    (hstep : ∀ t s a s', R t s → A a → step s a = some s' →
      ∃ t', step' t (f a) = some t' ∧ R t' s')
    {t : τ} {s s' : σ} {as : List α} (ht : R t s) (has : ∀ a ∈ as, A a)
    (h : runFrom step s as = some s') : ∃ t', runFrom step' t (as.map f) = some t' ∧ R t' s' := by
  induction as generalizing s t with
  | nil =>
      simp only [runFrom_nil, Option.some.injEq] at h
      exact ⟨t, rfl, h ▸ ht⟩
  | cons a as ih =>
      obtain ⟨u, hu, hrun⟩ := (runFrom_cons step).mp h
      obtain ⟨v, hv, hR⟩ := hstep t s a u ht (has a List.mem_cons_self) hu
      obtain ⟨t', ht', hR'⟩ := ih hR (fun b hb => has b (List.mem_cons_of_mem a hb)) hrun
      exact ⟨t', (runFrom_cons step').mpr ⟨v, hv, ht'⟩, hR'⟩

/-- **The refinement rule.**  If each step is a step of the specification, or one that it does not
see, then a run is a run of the specification. -/
theorem refines_of_step {τ β : Type*} {step' : τ → β → Option τ} (abs : σ → τ)
    (hstep : ∀ s a s', step s a = some s' → abs s' = abs s ∨ ∃ b, step' (abs s) b = some (abs s'))
    {s s' : σ} {as : List α} (h : runFrom step s as = some s') :
    ∃ bs, runFrom step' (abs s) bs = some (abs s') := by
  induction as generalizing s with
  | nil =>
      obtain rfl := Option.some.inj h
      exact ⟨[], rfl⟩
  | cons a as ih =>
      obtain ⟨t, ht, hrun⟩ := (runFrom_cons step).mp h
      obtain ⟨bs, hbs⟩ := ih hrun
      rcases hstep s a t ht with heq | ⟨b, hb⟩
      · exact ⟨bs, heq ▸ hbs⟩
      · exact ⟨b :: bs, (runFrom_cons step').mpr ⟨abs t, hb, hbs⟩⟩

/-- The unrestricted runs: every run satisfies the trivial condition. -/
lemma along_true (s : σ) (as : List α) : Along step (fun _ _ => True) s as := by
  induction as generalizing s with
  | nil => trivial
  | cons a as ih => exact ⟨trivial, fun s' _ => ih s'⟩

/-- **The invariant rule.**  What holds at the start and is kept by every admissible step holds
wherever an admissible run ends. -/
theorem invariant_of_step {ok : σ → α → Prop} {I : σ → Prop}
    (hstep : ∀ s a s', I s → ok s a → step s a = some s' → I s')
    {s s' : σ} {as : List α} (hs : I s) (hok : Along step ok s as)
    (h : runFrom step s as = some s') : I s' := by
  induction as generalizing s with
  | nil =>
      simp only [runFrom_nil, Option.some.injEq] at h
      exact h ▸ hs
  | cons a as ih =>
      obtain ⟨t, ht, hrun⟩ := (runFrom_cons step).mp h
      exact ih (hstep s a t hs hok.1 ht) (hok.2 t ht) hrun

/-- The rule for a system that can always move. -/
theorem foldl_of_along {f : σ → α → σ} {ok : σ → α → Prop} {I : σ → Prop}
    (hstep : ∀ s a, I s → ok s a → I (f s a)) {s : σ} {as : List α} (hs : I s)
    (hok : Along (fun s a => some (f s a)) ok s as) : I (as.foldl f s) :=
  invariant_of_step _ (fun s a _ hI ha h => Option.some.inj h ▸ hstep s a hI ha) hs hok
    (runFrom_total f s as)

/-- The rule for unrestricted runs. -/
theorem invariant_of_run {I : σ → Prop} (hstep : ∀ s a s', I s → step s a = some s' → I s')
    {s s' : σ} {as : List α} (hs : I s) (h : runFrom step s as = some s') : I s' :=
  invariant_of_step step (fun s a s' hI _ => hstep s a s' hI) hs (along_true step s as) h

lemma along_cons_of_step {ok : σ → α → Prop} {s t : σ} {a : α} {as : List α}
    (ht : step s a = some t) :
    Along step ok s (a :: as) ↔ ok s a ∧ Along step ok t as := by
  simp [Along, ht]

/-- Two conditions that agree on the states a run can pass through under the first. -/
theorem along_congr {ok ok' : σ → α → Prop} {I : σ → Prop}
    (hiff : ∀ s a s', I s → step s a = some s' → (ok s a ↔ ok' s a))
    (hI : ∀ s a s', I s → ok s a → step s a = some s' → I s')
    {s s' : σ} {as : List α} (hs : I s) (h : runFrom step s as = some s') :
    Along step ok s as ↔ Along step ok' s as := by
  induction as generalizing s with
  | nil => exact Iff.rfl
  | cons a as ih =>
      obtain ⟨t, ht, hrun⟩ := (runFrom_cons step).mp h
      rw [along_cons_of_step step ht, along_cons_of_step step ht, ← hiff s a t hs ht]
      exact and_congr_right fun hok => ih (hI s a t hs hok ht) hrun

/-- The same where every step keeps the invariant, whatever becomes of the run. -/
theorem along_congr_of_invariant {ok ok' : σ → α → Prop} {I : σ → Prop}
    (hI : ∀ s a s', I s → step s a = some s' → I s') (hiff : ∀ s a, I s → (ok s a ↔ ok' s a))
    {s : σ} {as : List α} (hs : I s) : Along step ok s as ↔ Along step ok' s as := by
  induction as generalizing s with
  | nil => exact Iff.rfl
  | cons a as ih =>
      refine and_congr (hiff s a hs) (forall₂_congr fun t ht => ih (hI s a t hs ht))

/-- What an invariant makes of the condition on a run. -/
theorem along_of_invariant {ok ok' : σ → α → Prop} {I : σ → Prop}
    (hI : ∀ s a s', I s → ok s a → step s a = some s' → I s')
    (himp : ∀ s a, I s → ok s a → ok' s a) {s : σ} {as : List α} (hs : I s)
    (h : Along step ok s as) : Along step ok' s as := by
  induction as generalizing s with
  | nil => trivial
  | cons a as ih =>
      exact ⟨himp s a hs h.1, fun t ht => ih (hI s a t hs h.1 ht) (h.2 t ht)⟩

/-- `P` holds in every state the run passes through. -/
def Always (P : σ → Prop) (s : σ) (as : List α) : Prop :=
  ∀ bs t, bs <+: as → runFrom step s bs = some t → P t

lemma always_cons_of_step {P : σ → Prop} {s t : σ} {a : α} {as : List α}
    (ht : step s a = some t) : Always step P s (a :: as) ↔ P s ∧ Always step P t as := by
  constructor
  · intro h
    refine ⟨h [] s (List.nil_prefix) rfl, fun bs u hbs hu => ?_⟩
    exact h (a :: bs) u (List.cons_prefix_cons.mpr ⟨rfl, hbs⟩)
      ((runFrom_cons step).mpr ⟨t, ht, hu⟩)
  · rintro ⟨hs, h⟩ bs u hbs hu
    cases bs with
    | nil => exact Option.some.inj hu ▸ hs
    | cons b bs =>
        obtain ⟨rfl, hrest⟩ := List.cons_prefix_cons.mp hbs
        obtain ⟨v, hv, hrun⟩ := (runFrom_cons step).mp hu
        obtain rfl := Option.some.inj (ht.symm.trans hv)
        exact h bs u hrest hrun

/-- **The exact condition of a run.**  If on the runs with a side condition a step from a state with
`P` keeps `P` exactly when it is admissible, then such a run has `P` throughout exactly when it is
admissible. -/
theorem always_iff_along_of_along {side ok : σ → α → Prop} {I P : σ → Prop}
    (hI : ∀ s a s', I s → side s a → step s a = some s' → I s')
    (hstep : ∀ s a s', I s → side s a → P s → step s a = some s' → (P s' ↔ ok s a))
    {s s' : σ} {as : List α} (hs : I s) (hP : P s) (hside : Along step side s as)
    (h : runFrom step s as = some s') : Always step P s as ↔ Along step ok s as := by
  induction as generalizing s with
  | nil =>
      refine iff_of_true (fun bs t hbs ht => ?_) trivial
      obtain rfl := List.prefix_nil.mp hbs
      exact Option.some.inj ht ▸ hP
  | cons a as ih =>
      obtain ⟨t, ht, hrun⟩ := (runFrom_cons step).mp h
      have hiff := hstep s a t hs hside.1 hP ht
      have hIt : I t := hI s a t hs hside.1 ht
      rw [always_cons_of_step step ht, along_cons_of_step step ht]
      constructor
      · rintro ⟨-, hrest⟩
        have hPt : P t := hrest [] t List.nil_prefix rfl
        exact ⟨hiff.mp hPt, (ih hIt hPt (hside.2 t ht) hrun).mp hrest⟩
      · rintro ⟨ha, hrest⟩
        have hPt : P t := hiff.mpr ha
        exact ⟨hP, (ih hIt hPt (hside.2 t ht) hrun).mpr hrest⟩

/-- The same for all runs. -/
theorem always_iff_along {ok : σ → α → Prop} {I P : σ → Prop}
    (hI : ∀ s a s', I s → step s a = some s' → I s')
    (hstep : ∀ s a s', I s → P s → step s a = some s' → (P s' ↔ ok s a))
    {s s' : σ} {as : List α} (hs : I s) (hP : P s) (h : runFrom step s as = some s') :
    Always step P s as ↔ Along step ok s as :=
  always_iff_along_of_along step (fun s a s' hI' _ => hI s a s' hI')
    (fun s a s' hI' _ => hstep s a s' hI') hs hP (along_true step s as) h

/-- A run either never comes by `Q`, or has a last time it does. -/
theorem last_or_never (Q : σ → Prop) {s s' : σ} {as : List α} (h : runFrom step s as = some s') :
    (∃ bs cs t, as = bs ++ cs ∧ runFrom step s bs = some t ∧ Q t ∧ runFrom step t cs = some s'
      ∧ Along step (fun s a => ∀ s', step s a = some s' → ¬ Q s') t cs)
    ∨ Along step (fun s a => ∀ s', step s a = some s' → ¬ Q s') s as := by
  induction as generalizing s with
  | nil => exact Or.inr trivial
  | cons a as ih =>
      obtain ⟨v, hv, hrun⟩ := (runFrom_cons step).mp h
      rcases ih hrun with ⟨bs, cs, t, rfl, hbs, hQ, hcs, halong⟩ | halong
      · exact Or.inl ⟨a :: bs, cs, t, rfl, (runFrom_cons step).mpr ⟨v, hv, hbs⟩, hQ, hcs, halong⟩
      · by_cases hQ : Q v
        · exact Or.inl ⟨[a], as, v, rfl, (runFrom_cons step).mpr ⟨v, hv, rfl⟩, hQ, hrun, halong⟩
        · refine Or.inr ((along_cons_of_step step hv).mpr ⟨fun w hw => ?_, halong⟩)
          rwa [← Option.some.inj (hv.symm.trans hw)]

/-- A run that starts at `Q` has a last time it is there. -/
theorem since_last {Q : σ → Prop} {s s' : σ} {as : List α} (hs : Q s)
    (h : runFrom step s as = some s') :
    ∃ bs cs t, as = bs ++ cs ∧ runFrom step s bs = some t ∧ Q t ∧ runFrom step t cs = some s'
      ∧ Along step (fun s a => ∀ s', step s a = some s' → ¬ Q s') t cs := by
  rcases last_or_never step Q h with hlast | hnever
  · exact hlast
  · exact ⟨[], as, s, rfl, rfl, hs, h, hnever⟩

/-- **The progress rule.**  If wherever the goal is not yet reached one of the actions of a kind can
be taken and lowers a rank, then a run of such actions reaches the goal. -/
theorem reaches_of_rank {I Q : σ → Prop} {A : α → Prop} (rank : σ → ℕ)
    (hstep : ∀ s, I s → ¬ Q s → ∃ a s', A a ∧ step s a = some s' ∧ I s' ∧ rank s' < rank s)
    {s : σ} (hs : I s) :
    ∃ as s', (∀ a ∈ as, A a) ∧ runFrom step s as = some s' ∧ I s' ∧ Q s' := by
  induction hr : rank s using Nat.strongRecOn generalizing s with
  | _ n ih =>
      subst hr
      by_cases hQ : Q s
      · exact ⟨[], s, by simp, rfl, hs, hQ⟩
      · obtain ⟨a, t, ha, ht, hIt, hlt⟩ := hstep s hs hQ
        obtain ⟨as, u, has, hu, hIu, hQu⟩ := ih (rank t) hlt hIt rfl
        refine ⟨a :: as, u, fun b hb => ?_, (runFrom_cons step).mpr ⟨t, ht, hu⟩, hIu, hQu⟩
        rcases List.mem_cons.mp hb with rfl | hb
        · exact ha
        · exact has b hb

end StepSystem
