import Mathlib.Data.List.Nodup

/-!
# The children of one process

A table of the processes that one process has forked and not yet waited for.  Each carries its pid,
a tag that says what it was forked for, and its exit status from the moment it has ended.  No two of
them carry the same pid, which is the field `nodup`: `fork` refuses a pid that is still in the
table, and only `reap` gives a pid back.

What an argument about a table needs to know of it is `Holds`, and there is one lemma for what each
operation does to it.
-/

/-- A child that has not been waited for. -/
structure ChildProcess (τ : Type*) where
  pid : ℕ
  tag : τ
  /-- The exit status, once the process has ended. -/
  ended : Option ℕ
  deriving DecidableEq, Repr

structure ProcessTable (τ : Type*) where
  procs : List (ChildProcess τ)
  nodup : (procs.map ChildProcess.pid).Nodup

namespace ProcessTable

variable {τ : Type*}

def empty : ProcessTable τ where
  procs := []
  nodup := List.nodup_nil

/-- `fork` returned `pid`, for a process that is to be `tag`. -/
def fork (T : ProcessTable τ) (pid : ℕ) (tag : τ) : Option (ProcessTable τ) :=
  if h : pid ∈ T.procs.map ChildProcess.pid then none
  else some { procs := ⟨pid, tag, none⟩ :: T.procs, nodup := List.nodup_cons.mpr ⟨h, T.nodup⟩ }

/-- The process `pid`, if it is one of ours and runs, ends with `status`. -/
def exit (T : ProcessTable τ) (pid status : ℕ) : ProcessTable τ where
  procs := T.procs.map fun p =>
    if p.pid = pid ∧ p.ended = none then { p with ended := some status } else p
  nodup := by
    have hpids : (T.procs.map fun p =>
        if p.pid = pid ∧ p.ended = none then { p with ended := some status } else p).map
          ChildProcess.pid = T.procs.map ChildProcess.pid := by
      rw [List.map_map]
      refine List.map_congr_left fun p _ => ?_
      simp only [Function.comp_apply]
      split <;> rfl
    rw [hpids]
    exact T.nodup

/-- What `waitpid(pid, WNOHANG)` finds: the status of a child that has ended. -/
def status (T : ProcessTable τ) (pid : ℕ) : Option ℕ :=
  (T.procs.find? fun p => p.pid = pid).bind ChildProcess.ended

/-- The child `pid` has been waited for. -/
def reap (T : ProcessTable τ) (pid : ℕ) : ProcessTable τ where
  procs := T.procs.filter fun p => p.pid ≠ pid
  nodup := T.nodup.sublist (List.filter_sublist.map ChildProcess.pid)

/-- None of the children waits to be reaped. -/
def AllRun (T : ProcessTable τ) : Prop :=
  ∀ p ∈ T.procs, p.ended = none

instance (T : ProcessTable τ) : Decidable T.AllRun :=
  inferInstanceAs (Decidable (∀ p ∈ T.procs, p.ended = none))

/-- The process `pid` was forked for `tag` and has not been waited for. -/
def Holds (T : ProcessTable τ) (pid : ℕ) (tag : τ) : Prop :=
  ∃ p ∈ T.procs, p.pid = pid ∧ p.tag = tag

/-- The process `pid` was forked and has not been waited for. -/
def Unreaped (T : ProcessTable τ) (pid : ℕ) : Prop :=
  ∃ p ∈ T.procs, p.pid = pid

instance [DecidableEq τ] (T : ProcessTable τ) (pid : ℕ) (tag : τ) : Decidable (T.Holds pid tag) :=
  inferInstanceAs (Decidable (∃ p ∈ T.procs, p.pid = pid ∧ p.tag = tag))

instance (T : ProcessTable τ) (pid : ℕ) : Decidable (T.Unreaped pid) :=
  inferInstanceAs (Decidable (∃ p ∈ T.procs, p.pid = pid))

variable {T : ProcessTable τ}

lemma Holds.unreaped {pid : ℕ} {tag : τ} (h : T.Holds pid tag) : T.Unreaped pid := by
  obtain ⟨p, hp, hpid, -⟩ := h
  exact ⟨p, hp, hpid⟩

/-- A pid stands for one process. -/
lemma Holds.unique {pid : ℕ} {tag tag' : τ} (h : T.Holds pid tag) (h' : T.Holds pid tag') :
    tag = tag' := by
  obtain ⟨p, hp, hpid, rfl⟩ := h
  obtain ⟨q, hq, hqid, rfl⟩ := h'
  rw [List.inj_on_of_nodup_map T.nodup hp hq (hpid.trans hqid.symm)]

lemma holds_fork {T' : ProcessTable τ} {pid p : ℕ} {tag t : τ} (h : T.fork pid tag = some T') :
    T'.Holds p t ↔ (pid = p ∧ tag = t) ∨ T.Holds p t := by
  unfold fork at h
  split at h
  · cases h
  · obtain rfl := Option.some.inj h
    simp [Holds]

@[simp] lemma holds_exit {pid status p : ℕ} {t : τ} :
    (T.exit pid status).Holds p t ↔ T.Holds p t := by
  unfold Holds exit
  simp only [List.mem_map]
  constructor
  · rintro ⟨_, ⟨q, hq, rfl⟩, hpid, htag⟩
    refine ⟨q, hq, ?_⟩
    split at hpid <;> split at htag <;> exact ⟨hpid, htag⟩
  · rintro ⟨q, hq, hpid, htag⟩
    refine ⟨_, ⟨q, hq, rfl⟩, ?_⟩
    split <;> exact ⟨hpid, htag⟩

@[simp] lemma holds_reap {pid p : ℕ} {t : τ} :
    (T.reap pid).Holds p t ↔ p ≠ pid ∧ T.Holds p t := by
  unfold Holds reap
  simp only [List.mem_filter, ne_eq, decide_not, Bool.not_eq_true', decide_eq_false_iff_not]
  constructor
  · rintro ⟨q, ⟨hq, hne⟩, rfl, rfl⟩
    exact ⟨hne, q, hq, rfl, rfl⟩
  · rintro ⟨hne, q, hq, rfl, rfl⟩
    exact ⟨q, ⟨hq, hne⟩, rfl, rfl⟩

lemma unreaped_iff {pid : ℕ} : T.Unreaped pid ↔ ∃ tag, T.Holds pid tag := by
  simp [Unreaped, Holds]

@[simp] lemma unreaped_exit {pid status p : ℕ} :
    (T.exit pid status).Unreaped p ↔ T.Unreaped p := by
  simp [unreaped_iff]

lemma Unreaped.of_reap {pid p : ℕ} (h : (T.reap pid).Unreaped p) : T.Unreaped p := by
  obtain ⟨tag, htag⟩ := unreaped_iff.mp h
  exact (holds_reap.mp htag).2.unreaped

end ProcessTable
