import Ignis.Loop.Reachable

/-!
# One role per fiber

The pool hands one fiber to handlers, children and background jobs in any order, so the tables that
name a fiber name, at different times, different jobs.  This file says what keeps them apart: every
fiber of the pool is parked in `$idle`, or holds one job it has not started, or runs one job, and
the maps that `cancelRequest()` reads speak only of fibers that have a job.
-/

namespace Ignis

namespace Pool

/-- The fibers that hold a job they have not started: in `$ready` or `$pending`, or in the batch one
of the two was moved to. -/
def unstarted (p : Pool) : List FiberId :=
  ((p.ready ++ p.readyBatch).filterMap fun e =>
    match e.2 with
    | .job _ => some e.1
    | .wake => none) ++ (p.pending ++ p.startBatch).map Prod.fst

/-- The roles of the fibers, and what the maps of requests may say about them. -/
structure Partition (p : Pool) : Prop where
  one_role : ∀ f < p.fibersCreated, p.idle.count f + p.unstarted.count f
    + (if (p.status f).isBusy then 1 else 0) = 1
  idle_unmapped : ∀ f ∈ p.idle, (∀ id, p.requestFibers.get? id ≠ some f)
    ∧ ∀ id, f ∉ p.childrenOf id
  one_request : ∀ f id id', p.requestFibers.get? id = some f → p.requestFibers.get? id' = some f →
    id = id'
  one_parent : ∀ f id id', f ∈ p.childrenOf id → f ∈ p.childrenOf id' → id = id'
  not_both : ∀ f id id', p.requestFibers.get? id = some f → f ∉ p.childrenOf id'

/-! ## Counting the unstarted -/

/-- Where only the entry `b` is about `f`, counting the entries about `f` is counting `b`. -/
lemma count_filterMap_eq {β : Type} [BEq β] [LawfulBEq β] {g : β → Option FiberId} {f : FiberId}
    {b : β} (hb : g b = some f) {L : List β} (h : ∀ x ∈ L, g x = some f → x = b) :
    (L.filterMap g).count f = L.count b := by
  induction L with
  | nil => rfl
  | cons x L ih =>
      have ih := ih fun y hy => h y (List.mem_cons_of_mem _ hy)
      have hx := h x List.mem_cons_self
      rw [List.filterMap_cons, List.count_cons]
      cases hg : g x with
      | none =>
          have hne : ¬ x = b := by
            rintro rfl
            rw [hb] at hg
            exact absurd hg (by simp)
          simp [hne, ih]
      | some k =>
          by_cases hk : k = f
          · subst hk
            simp [hx hg, ih]
          · have hne : ¬ x = b := by
              rintro rfl
              rw [hb] at hg
              exact hk (Option.some.inj hg).symm
            simp [hne, hk, ih]

lemma Places.handed_of_mem {p : Pool} (h : Places p) {f : FiberId} {j : Job} :
    (f, .job j) ∈ p.ready ++ p.readyBatch ↔ p.status f = .handed j := by
  rw [← List.count_pos_iff, h.handed_count f j]
  split_ifs with hs <;> simp [hs]

lemma Places.pending_of_mem {p : Pool} (h : Places p) {f : FiberId} {j : Job} :
    (f, j) ∈ p.pending ++ p.startBatch ↔ p.status f = .pending j := by
  rw [← List.count_pos_iff, h.pending_count f j]
  split_ifs with hs <;> simp [hs]

/-- The fibers named by the jobs in `$ready`. -/
lemma Places.count_handed {p : Pool} (h : Places p) (f : FiberId) :
    ((p.ready ++ p.readyBatch).filterMap fun e =>
        match e.2 with
        | .job _ => some e.1
        | .wake => none).count f
      = match p.status f with | .handed _ => 1 | _ => 0 := by
  have hentry : ∀ e : FiberId × Resume, (match e.2 with | .job _ => some e.1 | .wake => none)
      = some f → ∃ k, e = (f, .job k) := by
    rintro ⟨g, k | _⟩ he
    · obtain rfl : g = f := Option.some.inj he
      exact ⟨k, rfl⟩
    · exact absurd he (by simp)
  by_cases hh : ∃ j, p.status f = .handed j
  · obtain ⟨j, hj⟩ := hh
    rw [count_filterMap_eq (b := (f, .job j)) rfl ?_, h.handed_count f j, hj]
    · simp
    · intro e he hg
      obtain ⟨k, rfl⟩ := hentry e hg
      have := h.handed_of_mem.mp he
      rw [hj] at this
      rw [Status.handed.inj this]
  · rw [List.count_eq_zero.mpr]
    · split
      · rename_i j hj
        exact absurd ⟨j, hj⟩ hh
      · rfl
    · intro hf
      obtain ⟨e, he, hg⟩ := List.mem_filterMap.mp hf
      obtain ⟨k, rfl⟩ := hentry e hg
      exact hh ⟨k, h.handed_of_mem.mp he⟩

/-- The fibers named in `$pending`. -/
lemma Places.count_pending {p : Pool} (h : Places p) (f : FiberId) :
    ((p.pending ++ p.startBatch).map Prod.fst).count f
      = match p.status f with | .pending _ => 1 | _ => 0 := by
  by_cases hh : ∃ j, p.status f = .pending j
  · obtain ⟨j, hj⟩ := hh
    rw [← List.filterMap_eq_map, count_filterMap_eq (b := (f, j)) rfl ?_, h.pending_count f j, hj]
    · simp
    · rintro ⟨g, k⟩ he hg
      obtain rfl : g = f := Option.some.inj hg
      have := h.pending_of_mem.mp he
      rw [hj] at this
      rw [Status.pending.inj this]
  · rw [List.count_eq_zero.mpr]
    · split
      · rename_i j hj
        exact absurd ⟨j, hj⟩ hh
      · rfl
    · intro hf
      obtain ⟨⟨g, k⟩, he, rfl⟩ := List.mem_map.mp hf
      exact hh ⟨k, h.pending_of_mem.mp he⟩

theorem Inv.partition {p : Pool} (h : Inv p) : Partition p where
  one_role := by
    intro f hf
    have habs := h.absent_iff f
    have halive := h.alive f
    rw [unstarted, List.count_append, h.count_handed f, h.count_pending f, h.idle_count f]
    cases hs : p.status f with
    | absent => exact absurd (habs.mp hs) (Nat.not_le_of_lt hf)
    | terminated => exact absurd hs halive
    | pending _ | idle | handed _ | running _ _ | blocked _ _ _ => simp [Status.isBusy]
  idle_unmapped := by
    intro f hf
    have hs := h.status_of_mem_idle hf
    refine ⟨fun id hid => ?_, fun id hid => ?_⟩
    · have := (h.serving_iff f id).mp hid
      rw [hs] at this
      exact absurd this (by simp [Status.serving?])
    · obtain ⟨j, hj, -⟩ := h.children_request f id hid
      rw [hs] at hj
      exact absurd hj (by simp [Status.job?])
  one_request := by
    intro f id id' hid hid'
    have h₁ := (h.serving_iff f id).mp hid
    have h₂ := (h.serving_iff f id').mp hid'
    exact Option.some.inj (h₁.symm.trans h₂)
  one_parent := by
    intro f id id' hid hid'
    obtain ⟨j, hj, hr⟩ := h.children_request f id hid
    obtain ⟨k, hk, hr'⟩ := h.children_request f id' hid'
    obtain rfl := Option.some.inj (hj.symm.trans hk)
    exact Option.some.inj (hr.symm.trans hr')
  not_both := fun f id id' hid => h.parent_not_child hid

end Pool

namespace Loop

/-- **The fiber pool.**  In every reachable state every fiber of the pool has exactly one role, and
the maps of requests agree with it.  So `cancelRequest()` never throws into a fiber parked in
`nextJob()`, `spawn()` takes only fibers that are parked there, and a job is started only on a fiber
that has not begun one. -/
theorem pool_partition {s : State} (h : Reachable s) : s.pool.Partition
    ∧ (∀ id rest f todo, s.pc = .cancelRequest id rest → s.pool.todo = f :: todo →
        f ∉ s.pool.idle ∧ (s.pool.running = none → (s.pool.status f).isWaiting = true))
    ∧ (∀ f, s.pool.idle.getLast? = some f → s.pool.status f = .idle)
    ∧ (s.pool.running = none → ∀ f j, s.startsNext = some (f, j) →
        s.pool.status f = .pending j ∨ s.pool.status f = .handed j) := by
  have hi := h.inv
  refine ⟨hi.pool.partition, ?_, ?_, ?_⟩
  · intro id rest f todo hpc htodo
    have hw := hi.pool.todo_waits f (by simp [htodo])
    refine ⟨fun hidle => ?_, fun _ => hw⟩
    rw [hi.pool.status_of_mem_idle hidle] at hw
    exact absurd hw (by simp [Status.isWaiting])
  · intro f hf
    exact hi.pool.status_of_mem_idle (List.mem_of_getLast? hf)
  · intro hmain f j hnext
    unfold State.startsNext at hnext
    split at hnext
    · have hmem := List.mem_of_head? hnext
      exact Or.inl (hi.pool.pending_of_mem.mp (List.mem_append_right _ hmem))
    · split at hnext
      · rename_i hhead
        obtain ⟨rfl, rfl⟩ := Prod.mk.inj (Option.some.inj hnext)
        have hmem := List.mem_of_head? hhead
        exact Or.inr (hi.pool.handed_of_mem.mp (List.mem_append_right _ hmem))
      · simp at hnext
    · simp at hnext

/-- A background job that has started and a second one that waits for its fiber. -/
theorem pool_partition_background : ∃ s, Reachable s ∧ s.pool.fibersCreated = 2
    ∧ s.pool.Partition :=
  ⟨_, ⟨0, 0, [], false, fun _ => true,
      [.async, .async, .run false, .turn false, .advance, .advance], rfl⟩, rfl,
    (pool_partition ⟨0, 0, [], false, fun _ => true,
      [.async, .async, .run false, .turn false, .advance, .advance], rfl⟩).1⟩

end Loop

end Ignis
