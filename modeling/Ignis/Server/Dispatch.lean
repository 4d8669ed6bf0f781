import Mathlib.Data.List.Rotate
import Ignis.Server.Process

/-!
# Least-loaded dispatch

`Registry::pick` scans the reactors from a rotating start, keeps the first strict minimum and stops
at a load of zero, which nothing can beat.  What it returns is the first reactor of least load in
the cyclic order from the start (`IsFirstLeast`); when all loads are equal that is the start itself,
so the picks go round.
-/

namespace Ignis

namespace Process

/-! ## The first least value -/

/-- `k` is the first of the places before `n` where `f` is least. -/
structure IsFirstLeast (f : ℕ → ℕ) (n k : ℕ) : Prop where
  lt : k < n
  le : ∀ j < n, f k ≤ f j
  first : ∀ j < k, f k < f j

lemma IsFirstLeast.unique {f : ℕ → ℕ} {n k k' : ℕ} (h : IsFirstLeast f n k)
    (h' : IsFirstLeast f n k') : k = k' := by
  rcases Nat.lt_trichotomy k k' with hlt | heq | hgt
  · exact absurd (h'.first k hlt) (not_lt.mpr (h.le k' h'.lt))
  · exact heq
  · exact absurd (h.first k' hgt) (not_lt.mpr (h'.le k h.lt))

/-- One more place that is not lower leaves the first least one where it is. -/
lemma IsFirstLeast.skip {f : ℕ → ℕ} {n k : ℕ} (h : IsFirstLeast f n k) (hn : f k ≤ f n) :
    IsFirstLeast f (n + 1) k where
  lt := Nat.lt_succ_of_lt h.lt
  le := fun j hj => by
    rcases Nat.lt_succ_iff_lt_or_eq.mp hj with hj | rfl
    · exact h.le j hj
    · exact hn
  first := h.first

/-- One more place that is lower takes over. -/
lemma IsFirstLeast.take {f : ℕ → ℕ} {n k : ℕ} (h : IsFirstLeast f n k) (hn : f n < f k) :
    IsFirstLeast f (n + 1) n where
  lt := Nat.lt_succ_self n
  le := fun j hj => by
    rcases Nat.lt_succ_iff_lt_or_eq.mp hj with hj | rfl
    · exact hn.le.trans (h.le j hj)
    · exact le_rfl
  first := fun j hj => hn.trans_le (h.le j hj)

/-- Nothing that follows can beat a zero. -/
lemma IsFirstLeast.of_zero {f : ℕ → ℕ} {m n k : ℕ} (h : IsFirstLeast f m k) (hmn : m ≤ n)
    (hzero : f k = 0) : IsFirstLeast f n k where
  lt := h.lt.trans_le hmn
  le := fun _ _ => hzero ▸ Nat.zero_le _
  first := h.first

lemma isFirstLeast_one (f : ℕ → ℕ) : IsFirstLeast f 1 0 where
  lt := Nat.zero_lt_one
  le := fun j hj => by rw [Nat.lt_one_iff.mp hj]
  first := fun j hj => absurd hj (Nat.not_lt_zero j)

lemma isFirstLeast_of_constant {f : ℕ → ℕ} {n : ℕ} (hn : 0 < n) (h : ∀ j < n, f j = f 0) :
    IsFirstLeast f n 0 where
  lt := hn
  le := fun j hj => (h j hj).ge
  first := fun j hj => absurd hj (Nat.not_lt_zero j)

/-! ## The scan -/

/-- The load at the `k`-th place of the scan. -/
def scanned (n start : ℕ) (load : ℕ → ℕ) (k : ℕ) : ℕ := load ((start + k) % n)

lemma pickLoop_cons (n start : ℕ) (load : ℕ → ℕ) (m : ℕ) (ks : List ℕ) (best bestLoad : ℕ) :
    pickLoop n start load (m :: ks) best bestLoad
      = if scanned n start load m < bestLoad then
          if scanned n start load m = 0 then (start + m) % n
          else pickLoop n start load ks ((start + m) % n) (scanned n start load m)
        else pickLoop n start load ks best bestLoad := rfl

/-- The scan from its `m`-th place on, with the best of the places before. -/
lemma pickLoop_of_best {n start : ℕ} {load : ℕ → ℕ} (rest m k : ℕ) (hrest : m + rest = n)
    (hk : IsFirstLeast (scanned n start load) m k) :
    ∃ k', IsFirstLeast (scanned n start load) n k' ∧
      pickLoop n start load (List.range' m rest) ((start + k) % n) (scanned n start load k)
        = (start + k') % n := by
  induction rest generalizing m k with
  | zero => exact ⟨k, hrest ▸ hk, rfl⟩
  | succ rest ih =>
      have hm : m + 1 + rest = n := by omega
      rw [List.range'_succ, pickLoop_cons]
      by_cases hlt : scanned n start load m < scanned n start load k
      · have htake := hk.take hlt
        rw [if_pos hlt]
        split_ifs with hzero
        · exact ⟨m, htake.of_zero (by omega) hzero, rfl⟩
        · exact ih (m + 1) m hm htake
      · rw [if_neg hlt]
        exact ih (m + 1) k hm (hk.skip (not_lt.mp hlt))

/-- The first turn starts from `usize::MAX`, which a load can equal and not exceed. -/
lemma pickLoop_range {n start : ℕ} {load : ℕ → ℕ} (hn : 0 < n) (hstart : start < n)
    (hload : ∀ i < n, load i ≤ usizeMax) :
    ∃ k, IsFirstLeast (scanned n start load) n k ∧
      pickLoop n start load (List.range n) start usizeMax = (start + k) % n := by
  obtain ⟨rest, rfl⟩ := Nat.exists_eq_succ_of_ne_zero hn.ne'
  have hplace : (start + 0) % (rest + 1) = start := by
    rw [Nat.add_zero, Nat.mod_eq_of_lt hstart]
  have hfirst := isFirstLeast_one (scanned (rest + 1) start load)
  have hscan := pickLoop_of_best rest 1 0 (Nat.add_comm 1 rest) hfirst
  have hle : scanned (rest + 1) start load 0 ≤ usizeMax := hload _ (Nat.mod_lt _ hn)
  rw [List.range_eq_range', List.range'_succ, pickLoop_cons]
  split_ifs with hlt hzero
  · exact ⟨0, hfirst.of_zero (Nat.succ_pos rest) hzero, rfl⟩
  · exact hscan
  · rwa [hplace, le_antisymm hle (not_lt.mp hlt)] at hscan

/-! ## The picks -/

/-- What `pick` returns is at the first place of least load. -/
lemma pick_of_firstLeast {registry : List ℕ} {next : ℕ} {load : ℕ → ℕ} {k : ℕ}
    (hload : ∀ i < registry.length, load i ≤ usizeMax)
    (hk : IsFirstLeast (scanned registry.length (next % registry.length) load) registry.length k) :
    pick registry next load
      = registry[(next % registry.length + k) % registry.length]? := by
  have hn : 0 < registry.length := (Nat.zero_le k).trans_lt hk.lt
  obtain ⟨k', hk', hloop⟩ := pickLoop_range hn (Nat.mod_lt next hn) hload
  rw [pick, if_neg hn.ne', hloop, hk.unique hk']

/-- Consecutive picks, and the loads each of them finds. -/
def picks (registry : List ℕ) : ℕ → (ℕ → ℕ → ℕ) → ℕ → List (Option ℕ)
  | _, _, 0 => []
  | next, loads, m + 1 =>
      pick registry next (loads 0) ::
        picks registry (fetchAdd next) (fun t => loads (t + 1)) m

/-- With equal loads the `m` picks from `next` are the next `m` places of the circle. -/
lemma picks_of_equal {registry : List ℕ} (hne : registry ≠ []) (m next : ℕ) (loads : ℕ → ℕ → ℕ)
    (hequal : ∀ t, ∃ c ≤ usizeMax, ∀ i < registry.length, loads t i = c)
    (hwrap : next + m ≤ usizeMax + 1) :
    picks registry next loads m
      = (List.range m).map fun t => registry[(next + t) % registry.length]? := by
  have hn : 0 < registry.length := List.length_pos_of_ne_nil hne
  induction m generalizing next loads with
  | zero => rfl
  | succ m ih =>
      obtain ⟨c, hc, hloads⟩ := hequal 0
      have hscan : ∀ j, scanned registry.length (next % registry.length) (loads 0) j = c :=
        fun j => hloads _ (Nat.mod_lt _ hn)
      have hpick := pick_of_firstLeast (fun i hi => (hloads i hi).trans_le hc)
        (isFirstLeast_of_constant hn fun j _ => by rw [hscan, hscan])
      have hrest : picks registry (fetchAdd next) (fun t => loads (t + 1)) m
          = (List.range m).map fun t => registry[(next + 1 + t) % registry.length]? := by
        rcases Nat.eq_zero_or_pos m with rfl | hm
        · rfl
        · rw [show fetchAdd next = next + 1 from Nat.mod_eq_of_lt (by omega)]
          exact ih (next + 1) _ (fun t => hequal (t + 1)) (by omega)
      rw [picks, hpick, hrest, List.range_succ_eq_map, List.map_cons, List.map_map]
      congr 1
      · rw [Nat.add_zero, Nat.mod_mod]
        rfl
      · refine List.map_congr_left fun t _ => ?_
        rw [Function.comp_apply, Nat.succ_eq_one_add, Nat.add_assoc]

/-- **Least-loaded dispatch.**  `pick` returns the reactor at the first place of least load in the
cyclic order from `next mod n`; and as long as the loads stay equal, any `n` consecutive picks
return each registered reactor once. -/
theorem pick_least_loaded {registry : List ℕ} (hne : registry ≠ []) {next : ℕ} {load : ℕ → ℕ}
    (hload : ∀ i < registry.length, load i ≤ usizeMax) :
    (∃ k, IsFirstLeast (fun j => load ((next % registry.length + j) % registry.length))
        registry.length k ∧
      pick registry next load
        = registry[(next % registry.length + k) % registry.length]?) ∧
    ∀ loads : ℕ → ℕ → ℕ, (∀ t, ∃ c ≤ usizeMax, ∀ i < registry.length, loads t i = c) →
      next + registry.length ≤ usizeMax + 1 →
        (picks registry next loads registry.length).Perm (registry.map some) ∧
        (registry.Nodup →
          ∀ r ∈ registry, (picks registry next loads registry.length).count (some r) = 1) := by
  have hn : 0 < registry.length := List.length_pos_of_ne_nil hne
  constructor
  · obtain ⟨k, hk, -⟩ := pickLoop_range hn (Nat.mod_lt next hn) hload
    exact ⟨k, hk, pick_of_firstLeast hload hk⟩
  · intro loads hequal hwrap
    have hrotate : picks registry next loads registry.length = (registry.rotate next).map some := by
      rw [picks_of_equal hne _ _ _ hequal hwrap]
      refine List.ext_getElem? fun t => ?_
      rw [List.getElem?_map, List.getElem?_map]
      rcases Nat.lt_or_ge t registry.length with ht | ht
      · rw [List.getElem?_range ht, List.getElem?_rotate ht, Option.map_some, Nat.add_comm next t,
          List.getElem?_eq_getElem (Nat.mod_lt _ hn)]
        rfl
      · rw [List.getElem?_eq_none (by simpa using ht),
          List.getElem?_eq_none (by simpa using ht)]
        rfl
    have hperm : (picks registry next loads registry.length).Perm (registry.map some) := by
      rw [hrotate]
      exact (List.rotate_perm registry next).map some
    refine ⟨hperm, fun hnodup r hr => ?_⟩
    rw [hperm.count_eq]
    exact List.count_eq_one_of_mem (hnodup.map (Option.some_injective _)) (List.mem_map_of_mem hr)

/-- The third reactor is as little loaded as the second, which the scan meets first. -/
theorem pick_least_loaded_three :
    (∃ k, IsFirstLeast (fun j => if (4 % 3 + j) % 3 = 0 then 2 else 1) 3 k ∧
      pick [7, 8, 9] 4 (fun i => if i = 0 then 2 else 1) = [7, 8, 9][(4 % 3 + k) % 3]?) ∧
    (picks [7, 8, 9] 4 (fun _ _ => 0) 3).Perm [some 7, some 8, some 9] := by
  obtain ⟨hleast, hround⟩ := pick_least_loaded (List.cons_ne_nil 7 [8, 9])
    (show ∀ i < 3, (if i = 0 then 2 else 1) ≤ usizeMax by decide)
  exact ⟨hleast, (hround (fun _ _ => 0) (fun _ => ⟨0, Nat.zero_le _, fun _ _ => rfl⟩)
    (by decide)).1⟩

end Process

end Ignis
