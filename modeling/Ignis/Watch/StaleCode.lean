import Ignis.Watch.Reload

/-!
# Code that has changed since it was loaded

A worker loads files from its first instruction on, and reads the generation it will compare with
only at its first loop turn.  A file another worker has handed to the watcher may be saved in
between, and the save may settle before the generation is read: the worker then starts out from a
generation that already counts the save, and keeps the code it loaded before it.

`BootsClean` is the condition that this does not happen, and `upToDate_iff` says that it is exact:
in a run every worker that has booted is behind every save it has missed if and only if every boot
of the run is clean.
-/

namespace Ignis

namespace Watch

/-- The worker compares with `$watchGeneration`. -/
def Life.booted : Life → Bool
  | .counted | .reporting | .serving | .winding => true
  | _ => false

/-- Every save that a worker has missed is, once it has settled, ahead of the worker's generation,
and the worker sees that a newer one is there. -/
def UpToDate (s : State) : Prop :=
  ∀ w ∈ s.workers, w.life.booted = true → ∀ n ∈ w.stale, ∀ save ∈ s.saves[n]?, ∀ generation,
    save.stage = .settled generation →
      w.watchGeneration < generation ∧ w.watchGeneration < s.settle.generation

def Stage.isSettled : Stage → Bool
  | .settled _ => true
  | _ => false

/-- A worker that boots has missed no save that has settled. -/
def BootsClean (s : State) : Action → Prop
  | .boots i => ∀ w ∈ s.workers[i]?, ∀ n ∈ w.stale, ∀ save ∈ s.saves[n]?,
      save.stage.isSettled = false
  | _ => True

instance (s : State) (a : Action) : Decidable (BootsClean s a) :=
  match a with
  | .boots i => inferInstanceAs (Decidable (∀ w ∈ s.workers[i]?, ∀ n ∈ w.stale,
      ∀ save ∈ s.saves[n]?, save.stage.isSettled = false))
  | .loads _ _ | .saves _ | .notices _ | .settle _ | .endsReload _ | .reports _
  | .beginsReload _ | .stops _ | .ends _ | .respawns _ => isTrue trivial

/-- Generations that have been reached. -/
structure Reached (s : State) : Prop where
  settled : ∀ save ∈ s.saves, ∀ generation, save.stage = .settled generation →
    generation ≤ s.settle.generation
  booted : ∀ w ∈ s.workers, w.life.booted = true → w.watchGeneration ≤ s.settle.generation

lemma reached_init (clock : ℤ) (threads : ℕ) : Reached (init clock threads) where
  settled := by simp [init]
  booted := by
    intro w hw hlife
    obtain rfl := List.eq_of_mem_replicate hw
    cases hlife

section

variable {cfg : Config} {s s' : State}

/-- The generation only grows. -/
lemma generation_le {settleMs : ℕ} {t t' : Settle.State} {a : Settle.Action}
    (h : Settle.step settleMs t a = some t') : t.generation ≤ t'.generation := by
  have heffect := Settle.effect_of_step h
  cases heffect with
  | request | bumps => exact Nat.le_succ _
  | _ => exact Nat.le_refl _

/-- A save settles by the increment that follows its compare-exchange, and into the generation that
the increment makes. -/
lemma settled_of_settle {settleMs : ℕ} {t t' : Settle.State} {a : Settle.Action} {save : Save}
    {generation : ℕ} (h : Settle.step settleMs t a = some t')
    (hsettled : (save.settle t a).stage = .settled generation) :
    save.stage = .settled generation ∨
      (generation = t.generation + 1 ∧ t'.generation = t.generation + 1) := by
  cases a with
  | task i =>
      simp only [Save.settle, Stage.advance] at hsettled
      split at hsettled
      · split at hsettled
        · cases hsettled
        · exact .inl hsettled
      · split at hsettled
        · cases hsettled
        · exact .inl hsettled
      case h_3 hi hstage =>
        refine .inr ⟨(Stage.settled.inj hsettled).symm, ?_⟩
        simp only [Settle.step, hi, Option.bind_some, Settle.advance, Option.map_some,
          Option.some.injEq] at h
        rw [← h]
      · exact .inl hsettled
  | _ => exact .inl hsettled

/-- What every step but a boot has in common: a worker that has booted is one that had, with the
same generation, and has missed at most one more save, which has not settled; and what settles does
so into a new generation. -/
structure Continues (s s' : State) : Prop where
  workers : ∀ w' ∈ s'.workers, w'.life.booted = true → ∃ w ∈ s.workers, w.life.booted = true ∧
    w'.watchGeneration = w.watchGeneration ∧
    ∀ n ∈ w'.stale, n ∈ w.stale ∨ ∀ save ∈ s'.saves[n]?, save.stage = .raised
  saves : ∀ (n : ℕ) (save' : Save), s'.saves[n]? = some save' → ∀ generation,
    save'.stage = .settled generation →
      (∃ save, s.saves[n]? = some save ∧ save.stage = .settled generation) ∨
      (s.settle.generation < generation ∧ generation ≤ s'.settle.generation)
  generation_le : s.settle.generation ≤ s'.settle.generation

/-- One worker takes a step that is not a boot. -/
lemma Continues.of_update {i : ℕ} {lives : List Life} {f : Worker → Worker}
    (h : s.update i lives f = some s')
    (hf : ∀ w, w.life ∈ lives → (f w).life.booted = true →
      w.life.booted = true ∧ (f w).watchGeneration = w.watchGeneration ∧ (f w).stale = w.stale) :
    Continues s s' := by
  obtain ⟨w, hw, hlife, rfl⟩ := update_cases h
  refine ⟨fun w' hw' hbooted => ?_, fun n save hn g hg => .inl ⟨save, hn, hg⟩, Nat.le_refl _⟩
  rcases List.mem_or_eq_of_mem_set hw' with hw' | rfl
  · exact ⟨w', hw', hbooted, rfl, fun n hn => .inl hn⟩
  · obtain ⟨hwas, hgen, hstale⟩ := hf w hlife hbooted
    exact ⟨w, List.mem_of_getElem? hw, hwas, hgen, fun n hn => .inl (hstale ▸ hn)⟩

lemma continues_of_step {a : Action} (hboot : ∀ i, a ≠ .boots i) (h : step cfg s a = some s') :
    Continues s s' := by
  have hsame : ∀ w' ∈ s.workers, w'.life.booted = true → ∃ w ∈ s.workers,
      w.life.booted = true ∧ w'.watchGeneration = w.watchGeneration ∧
      ∀ n ∈ w'.stale, n ∈ w.stale ∨ ∀ save ∈ s'.saves[n]?, save.stage = .raised :=
    fun w hw hbooted => ⟨w, hw, hbooted, rfl, fun n hn => .inl hn⟩
  cases a with
  | loads i file => exact .of_update h fun w _ hbooted => ⟨hbooted, rfl, rfl⟩
  | boots i => exact absurd rfl (hboot i)
  | stops i =>
      exact .of_update h fun w hlife _ => ⟨by rw [List.mem_singleton.mp hlife]; rfl, rfl, rfl⟩
  | ends i => exact .of_update h fun w _ hbooted => by cases hbooted
  | respawns i => exact .of_update h fun w _ hbooted => by cases hbooted
  | endsReload i =>
      obtain ⟨t, ht, rfl⟩ := Option.map_eq_some_iff.mp h
      have hcont : Continues s t :=
        .of_update ht fun w hlife _ => ⟨by rw [List.mem_singleton.mp hlife]; rfl, rfl, rfl⟩
      exact ⟨hcont.workers, hcont.saves, hcont.generation_le⟩
  | reports i =>
      obtain ⟨t, ht, rfl⟩ := Option.map_eq_some_iff.mp h
      have hcont : Continues s t := by
        refine .of_update ht fun w hlife _ => ⟨?_, rfl, rfl⟩
        cases hl : w.life <;> simp [hl] at hlife ⊢ <;> rfl
      exact ⟨hcont.workers, hcont.saves, hcont.generation_le⟩
  | beginsReload i =>
      rcases beginReload_cases h with rfl | ⟨w, hw, hlife, -, rfl⟩
      · exact ⟨hsame, fun n save hn g hg => .inl ⟨save, hn, hg⟩, Nat.le_refl _⟩
      · refine ⟨fun w' hw' hbooted => ?_, fun n save hn g hg => .inl ⟨save, hn, hg⟩,
          Nat.le_refl _⟩
        rcases List.mem_or_eq_of_mem_set hw' with hw' | rfl
        · exact hsame w' hw' hbooted
        · exact ⟨w, List.mem_of_getElem? hw, by rw [hlife]; rfl, rfl, fun n hn => .inl hn⟩
  | saves file =>
      obtain rfl := Option.some.inj h
      refine ⟨fun w' hw' hbooted => ?_, fun n save hn g hg => .inl ?_, Nat.le_refl _⟩
      · obtain ⟨w, hw, rfl⟩ := List.mem_map.mp hw'
        by_cases hfile : file ∈ w.loaded
        · rw [Worker.saved, if_pos hfile] at hbooted ⊢
          refine ⟨w, hw, hbooted, rfl, fun n hn => ?_⟩
          rcases List.mem_cons.mp hn with rfl | hn
          · exact .inr (by simp)
          · exact .inl hn
        · rw [Worker.saved, if_neg hfile] at hbooted ⊢
          exact hsame w hw hbooted
      · rw [List.getElem?_append] at hn
        split at hn
        · exact ⟨save, hn, hg⟩
        · obtain rfl := List.mem_singleton.mp (List.mem_of_getElem? hn)
          cases hg
  | notices n =>
      obtain ⟨save, -, hif⟩ := Option.bind_eq_some_iff.mp h
      split at hif
      · obtain ⟨settle, hsettle, rfl⟩ := Option.map_eq_some_iff.mp hif
        refine ⟨hsame, fun m save' hm g hg => .inl ?_, generation_le hsettle⟩
        rw [List.getElem?_set] at hm
        split at hm
        · split at hm
          · obtain rfl := Option.some.inj hm
            cases hg
          · cases hm
        · exact ⟨save', hm, hg⟩
      · cases hif
  | settle a =>
      obtain ⟨settle, hsettle, rfl⟩ := Option.map_eq_some_iff.mp h
      refine ⟨fun w hw hbooted => ⟨w, hw, hbooted, rfl, fun n hn => .inl hn⟩, ?_,
        generation_le hsettle⟩
      intro n save' hn g hg
      rw [List.getElem?_map] at hn
      obtain ⟨save, hsave, rfl⟩ := Option.map_eq_some_iff.mp hn
      rcases settled_of_settle hsettle hg with hold | ⟨rfl, hnew⟩
      · exact .inl ⟨save, hsave, hold⟩
      · refine .inr ⟨Nat.lt_succ_self _, ?_⟩
        exact Nat.le_of_eq hnew.symm

lemma Reached.continues (h : Reached s) (hcont : Continues s s') : Reached s' where
  settled := by
    intro save hsave g hg
    obtain ⟨n, hn⟩ := List.mem_iff_getElem?.mp hsave
    rcases hcont.saves n save hn g hg with ⟨old, hold, hsettled⟩ | ⟨-, hle⟩
    · exact Nat.le_trans (h.settled old (List.mem_of_getElem? hold) g hsettled)
        hcont.generation_le
    · exact hle
  booted := by
    intro w' hw' hbooted
    obtain ⟨w, hw, hwas, hgen, -⟩ := hcont.workers w' hw' hbooted
    rw [hgen]
    exact Nat.le_trans (h.booted w hw hwas) hcont.generation_le

lemma UpToDate.continues (h : UpToDate s) (hr : Reached s) (hcont : Continues s s') :
    UpToDate s' := by
  intro w' hw' hbooted n hn save hsave g hg
  obtain ⟨w, hw, hwas, hgen, hstale⟩ := hcont.workers w' hw' hbooted
  rw [hgen]
  rcases hstale n hn with hn | hraised
  · rcases hcont.saves n save hsave g hg with ⟨old, hold, hsettled⟩ | ⟨hlt, hle⟩
    · obtain ⟨hlt, hlt'⟩ := h w hw hwas n hn old hold g hsettled
      exact ⟨hlt, Nat.lt_of_lt_of_le hlt' hcont.generation_le⟩
    · -- The save settles only now, and the worker's generation is one that had been reached.
      have hle' := hr.booted w hw hwas
      omega
  · cases (hraised save hsave).symm.trans hg

lemma Reached.step (h : Reached s) {a : Action} (hstep : step cfg s a = some s') :
    Reached s' := by
  by_cases hboot : ∃ i, a = .boots i
  · obtain ⟨i, rfl⟩ := hboot
    obtain ⟨w, hw, -, rfl⟩ := update_cases hstep
    refine ⟨h.settled, fun x hx hbooted => ?_⟩
    rcases List.mem_or_eq_of_mem_set hx with hx | rfl
    · exact h.booted x hx hbooted
    · exact Nat.le_refl _
  · exact h.continues (continues_of_step (fun i hi => hboot ⟨i, hi⟩) hstep)

/-- A boot leaves every worker behind what it has missed exactly if it is clean. -/
lemma upToDate_boots (hr : Reached s) (h : UpToDate s) {i : ℕ}
    (hstep : step cfg s (.boots i) = some s') : UpToDate s' ↔ BootsClean s (.boots i) := by
  obtain ⟨w, hw, -, rfl⟩ := update_cases hstep
  have hlt := (List.getElem?_eq_some_iff.mp hw).1
  constructor
  · intro hdate x hx n hn save hsave
    obtain rfl := Option.some.inj (hw.symm.trans hx)
    cases hg : save.stage with
    | raised | noticed task | stored | taken => rfl
    | settled g =>
        have hle := hr.settled save (List.mem_of_getElem? hsave) g hg
        obtain ⟨hbehind, -⟩ := hdate _ (List.mem_set hlt _) rfl n hn save hsave g hg
        exact absurd hle (Nat.not_le_of_lt hbehind)
  · intro hclean x hx hbooted n hn save hsave g hg
    rcases List.mem_or_eq_of_mem_set hx with hx | rfl
    · exact h x hx hbooted n hn save hsave g hg
    · have hopen := hclean w hw n hn save hsave
      rw [hg] at hopen
      cases hopen

/-- **No stale code, exactly when every boot is clean.** -/
theorem upToDate_iff {clock : ℤ} {threads : ℕ} {as : List Action}
    (h : StepSystem.runFrom (Watch.step cfg) (init clock threads) as = some s) :
    StepSystem.Always (Watch.step cfg) UpToDate (init clock threads) as ↔
      StepSystem.Along (Watch.step cfg) BootsClean (init clock threads) as := by
  refine StepSystem.always_iff_along _ (I := Reached) (fun _ _ _ hI hstep => Reached.step hI hstep)
    (fun s a s' hI hP hstep => ?_) (reached_init clock threads) ?_ h
  · by_cases hboot : ∃ i, a = .boots i
    · obtain ⟨i, rfl⟩ := hboot
      exact upToDate_boots hI hP hstep
    · refine iff_of_true (hP.continues hI (continues_of_step (fun i hi => hboot ⟨i, hi⟩) hstep)) ?_
      cases a with
      | boots i => exact absurd ⟨i, rfl⟩ hboot
      | _ => trivial
  · intro w hw hlife
    obtain rfl := List.eq_of_mem_replicate hw
    cases hlife

end

/-- The first worker comes up and hands file 7 to the watcher, and the second loads it. -/
def loadedByBoth : List Action :=
  [.loads 0 7, .boots 0, .endsReload 0, .reports 0, .loads 1 7]

/-- File 7 is saved, and the save goes through the settle window into generation 1. -/
def savedAndSettled : List Action :=
  ([.saves 7, .notices 0] : List Action) ++ List.replicate 4 (Action.settle (.task 0)) ++
    List.replicate 2 (Action.settle (.task 1)) ++ [Action.settle (.elapses 300)] ++
    List.replicate 3 (Action.settle (.task 1))

/-- The second worker boots before the save settles. -/
theorem upToDate_booted_first :
    StepSystem.Always (step ⟨300, 1⟩) UpToDate (init 1000 2)
      (loadedByBoth ++ [.boots 1] ++ savedAndSettled) :=
  (@upToDate_iff ⟨300, 1⟩ _ 1000 2 (loadedByBoth ++ [.boots 1] ++ savedAndSettled) rfl).mpr
    (by decide)

/-- The second worker boots after the save has settled: it starts from generation 1, and keeps the
code it loaded before. -/
theorem stale_code_kept : ∃ s,
    StepSystem.runFrom (step ⟨300, 1⟩) (init 1000 2)
      (loadedByBoth ++ savedAndSettled ++ [.boots 1]) = some s ∧
    s.saves[0]? = some { file := 7, stage := .settled 1 } ∧ ¬ UpToDate s := by
  refine ⟨_, rfl, rfl, fun h => ?_⟩
  have hbehind := h _ (List.mem_of_getElem? (i := 1) rfl) rfl 0 (by decide) _ rfl 1 rfl
  exact absurd hbehind.1 (by decide)

end Watch

end Ignis
