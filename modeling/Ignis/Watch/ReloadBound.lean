import Ignis.Lib.Places
import Ignis.Watch.Reload

/-!
# How many workers are away

`begin_reload` counts the workers that are away in `RELOADING` and `end_reload` counts them back,
but it is every boot that calls `end_reload`: a first boot, and the boot after a crash or a stop,
count back a slot that was never taken.  While another worker is away the counter is then too small,
and `begin_reload` lets one more go than the limit allows.

`BootsHeld` is the condition that no boot does so, and `away_le_parallel` the bound for every run
that meets it; under it the counter is the number of workers that are away.
-/

namespace Ignis

namespace Watch

/-- The workers that have been granted a slot and have not booted since. -/
def State.away (s : State) : ℕ := s.workers.countP Worker.away

/-- A worker without a slot boots only when none is taken. -/
def BootsHeld (s : State) : Action → Prop
  | .endsReload i => ∀ w ∈ s.workers[i]?, w.away = false → s.reloading = 0
  | _ => True

instance (s : State) (a : Action) : Decidable (BootsHeld s a) :=
  match a with
  | .endsReload i => inferInstanceAs
      (Decidable (∀ w ∈ s.workers[i]?, w.away = false → s.reloading = 0))
  | .loads _ _ | .saves _ | .notices _ | .settle _ | .boots _ | .reports _ | .beginsReload _
  | .stops _ | .ends _ | .respawns _ => isTrue trivial

/-- The counter is the number of workers that are away, and within the limit; and no worker is away
between its boot and its next turn at `begin_reload`. -/
structure Counts (cfg : Config) (s : State) : Prop where
  reloading : s.reloading = s.away
  away_le : s.away ≤ cfg.parallel
  booted : ∀ w ∈ s.workers, w.life = .reporting ∨ w.life = .serving → w.away = false

lemma counts_init (cfg : Config) (clock : ℤ) (threads : ℕ) : Counts cfg (init clock threads) where
  reloading := by simp [State.away, init, List.countP_replicate, Worker.spawned]
  away_le := by simp [State.away, init, List.countP_replicate, Worker.spawned]
  booted := by
    intro w hw hlife
    obtain rfl := List.eq_of_mem_replicate hw
    rfl

section

variable {cfg : Config} {s s' : State}

lemma Counts.booted_set (h : Counts cfg s) {i : ℕ} {w' : Worker}
    (hw' : w'.life = .reporting ∨ w'.life = .serving → w'.away = false) :
    ∀ w ∈ s.workers.set i w', w.life = .reporting ∨ w.life = .serving → w.away = false := by
  intro x hx
  rcases List.mem_or_eq_of_mem_set hx with hx | rfl
  · exact h.booted x hx
  · exact hw'

/-- A worker changes, and is away after it if it was before. -/
lemma Counts.set (h : Counts cfg s) {i : ℕ} {w w' : Worker} (hw : s.workers[i]? = some w)
    (haway : w'.away = w.away)
    (hbooted : w'.life = .reporting ∨ w'.life = .serving → w.away = false) :
    Counts cfg { s with workers := s.workers.set i w' } := by
  have hset := Places.countP_set Worker.away w' hw
  rw [haway] at hset
  have heq : (s.workers.set i w').countP Worker.away = s.away := Nat.add_right_cancel hset
  refine ⟨h.reloading.trans heq.symm, ?_, h.booted_set fun hlife => haway.trans (hbooted hlife)⟩
  simpa only [State.away, heq] using h.away_le

lemma Counts.step (h : Counts cfg s) {a : Action} (hok : BootsHeld s a)
    (hstep : step cfg s a = some s') : Counts cfg s' := by
  cases a with
  | loads i file =>
      obtain ⟨w, hw, -, rfl⟩ := update_cases hstep
      exact h.set hw rfl (h.booted w (List.mem_of_getElem? hw))
  | boots i | stops i | ends i =>
      obtain ⟨w, hw, -, rfl⟩ := update_cases hstep
      exact h.set hw rfl (by simp)
  | respawns i =>
      obtain ⟨w, hw, -, rfl⟩ := update_cases hstep
      exact h.set hw rfl (by simp [Worker.spawned])
  | reports i =>
      obtain ⟨t, ht, rfl⟩ := Option.map_eq_some_iff.mp hstep
      obtain ⟨w, hw, -, rfl⟩ := update_cases ht
      have hbooted := h.booted w (List.mem_of_getElem? hw)
      have hcounts : Counts cfg { s with workers := s.workers.set i { w with
          life := if w.life = .reporting then .serving else w.life } } := by
        refine h.set hw rfl fun hlife' => ?_
        by_cases hrep : w.life = .reporting
        · exact hbooted (.inl hrep)
        · exact hbooted (by simpa [hrep] using hlife')
      exact ⟨hcounts.reloading, hcounts.away_le, hcounts.booted⟩
  | saves file =>
      obtain rfl := Option.some.inj hstep
      have heq : (s.workers.map (Worker.saved s.saves.length file)).countP Worker.away =
          s.away := by
        rw [List.countP_map]
        refine List.countP_congr fun w _ => ?_
        simp only [Function.comp_apply, Worker.saved]
        split <;> rfl
      refine ⟨h.reloading.trans heq.symm, ?_, fun w hw => ?_⟩
      · simpa only [State.away, heq] using h.away_le
      · obtain ⟨v, hv, rfl⟩ := List.mem_map.mp hw
        have hbooted := h.booted v hv
        unfold Worker.saved
        split <;> exact hbooted
  | notices n =>
      obtain ⟨save, -, hif⟩ := Option.bind_eq_some_iff.mp hstep
      split at hif
      · obtain ⟨settle, -, rfl⟩ := Option.map_eq_some_iff.mp hif
        exact ⟨h.reloading, h.away_le, h.booted⟩
      · cases hif
  | settle a =>
      obtain ⟨settle, -, rfl⟩ := Option.map_eq_some_iff.mp hstep
      exact ⟨h.reloading, h.away_le, h.booted⟩
  | endsReload i =>
      obtain ⟨t, ht, rfl⟩ := Option.map_eq_some_iff.mp hstep
      obtain ⟨w, hw, -, rfl⟩ := update_cases ht
      have hset := Places.countP_set Worker.away { w with life := .reporting, away := false } hw
      have hheld : w.away = false → s.reloading = 0 := hok w hw
      have hreloading := h.reloading
      have hle := h.away_le
      simp only [State.away] at hreloading hle
      refine ⟨?_, ?_, h.booted_set fun _ => rfl⟩ <;> simp only [State.away] <;>
        cases haway : w.away with
        | true =>
            simp only [haway, Bool.toNat_true, Bool.toNat_false] at hset
            omega
        | false =>
            have hzero := hheld haway
            simp only [haway, Bool.toNat_false] at hset
            omega
  | beginsReload i =>
      rcases beginReload_cases hstep with rfl | ⟨w, hw, hlife, hslot, rfl⟩
      · exact h
      · have hset := Places.countP_set Worker.away { w with life := .winding, away := true } hw
        rw [h.booted w (List.mem_of_getElem? hw) (.inr hlife)] at hset
        simp only [Bool.toNat_true, Bool.toNat_false] at hset
        have hreloading := h.reloading
        simp only [State.away] at hreloading
        refine ⟨?_, ?_, h.booted_set (by simp)⟩ <;> simp only [State.away] <;> omega

/-- **The reload bound.** -/
theorem away_le_parallel {clock : ℤ} {threads : ℕ} {as : List Action}
    (h : StepSystem.runFrom (Watch.step cfg) (init clock threads) as = some s)
    (hok : StepSystem.Along (Watch.step cfg) BootsHeld (init clock threads) as) :
    s.away ≤ cfg.parallel := by
  have hcounts : Counts cfg s :=
    StepSystem.invariant_of_step _ (fun _ _ _ hI hsa hstep => Counts.step hI hsa hstep)
      (counts_init cfg clock threads) hok h
  exact hcounts.away_le

end

/-- A worker's first turns, up to its loop. -/
def bootUp (i : ℕ) : List Action := [.boots i, .endsReload i, .reports i]

/-- Two workers come up, a reload is requested, and the first goes down and comes back. -/
theorem away_le_parallel_reloaded : ∃ s,
    StepSystem.runFrom (step ⟨300, 1⟩) (init 1000 2)
      (bootUp 0 ++ bootUp 1 ++
        ([.settle .request, .beginsReload 0, .ends 0, .respawns 0] : List Action) ++
        bootUp 0) = some s ∧ s.away ≤ 1 :=
  ⟨_, rfl, @away_le_parallel ⟨300, 1⟩ _ 1000 2
    (bootUp 0 ++ bootUp 1 ++
      ([.settle .request, .beginsReload 0, .ends 0, .respawns 0] : List Action) ++ bootUp 0)
    rfl (by decide)⟩

/-- While the first worker is away the second dies and is respawned: its boot gives the slot back,
and the third worker takes it. -/
theorem two_away : ∃ s,
    StepSystem.runFrom (step ⟨300, 1⟩) (init 1000 3)
      (bootUp 0 ++ bootUp 1 ++ bootUp 2 ++ ([.settle .request, .beginsReload 0, .ends 1,
        .respawns 1] : List Action) ++ bootUp 1 ++ [Action.beginsReload 2]) = some s ∧ s.away = 2 :=
  ⟨_, rfl, rfl⟩

end Watch

end Ignis
