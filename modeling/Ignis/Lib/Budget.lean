import Mathlib.Algebra.Order.Ring.Nat

/-!
# A budget per window, and a pause

Two ways to slow down something that is done again and again.  A budget counts what it grants in a
window of time, refuses past a limit, and opens a new window when the one it has is over.  A pause
makes its user wait before the next attempt.

Both are bounds on a rate: what has been granted since a moment is at most linear in the time that
has passed.  `Budget.Granted` and `Paused` are the invariants that say so, with a lemma for each
thing that can happen to them.  Time is counted in whatever unit one likes.
-/

/-- The window that is open, and what has been granted in it. -/
structure Budget where
  opened : ℕ
  spent : ℕ
  deriving DecidableEq, Repr

namespace Budget

variable {limit window start now total : ℕ} {b : Budget}

/-- The window is over. -/
def Over (window now : ℕ) (b : Budget) : Prop := window < now - b.opened

instance : Decidable (b.Over window now) := inferInstanceAs (Decidable (_ < _))

/-- `total` grants since `start`, each in a window of its own kind: all but those of the open window
were granted in windows that have been over. -/
structure Granted (limit window start now total : ℕ) (b : Budget) : Prop where
  started : start ≤ b.opened
  opened : b.opened ≤ now
  spent : b.spent ≤ limit
  total : ∃ closed, closed * window ≤ b.opened - start ∧ total ≤ limit * closed + b.spent

lemma granted_start (limit window : ℕ) (hle : start ≤ now) :
    Granted limit window start now 0 ⟨now, 0⟩ where
  started := hle
  opened := le_refl _
  spent := Nat.zero_le _
  total := ⟨0, by simp, by simp⟩

lemma Granted.elapse (h : Granted limit window start now total b) {later : ℕ} (hle : now ≤ later) :
    Granted limit window start later total b :=
  { h with opened := h.opened.trans hle }

/-- A window that is over is closed with at most `limit` grants. -/
lemma Granted.renew (h : Granted limit window start now total b) (hover : b.Over window now) :
    Granted limit window start now total ⟨now, 0⟩ where
  started := h.started.trans h.opened
  opened := le_refl _
  spent := Nat.zero_le _
  total := by
    obtain ⟨closed, hclosed, htotal⟩ := h.total
    refine ⟨closed + 1, ?_, ?_⟩
    · have hopened := h.opened
      have hstarted := h.started
      have hlong : window < now - b.opened := hover
      rw [Nat.add_one_mul]
      show closed * window + window ≤ now - start
      omega
    · have hspent := h.spent
      rw [Nat.mul_add_one]
      show total ≤ limit * closed + limit + 0
      omega

lemma Granted.grant (h : Granted limit window start now total b) (hleft : b.spent < limit) :
    Granted limit window start now (total + 1) { b with spent := b.spent + 1 } :=
  { h with
    spent := hleft
    total := by
      obtain ⟨closed, hclosed, htotal⟩ := h.total
      exact ⟨closed, hclosed, by show total + 1 ≤ limit * closed + (b.spent + 1); omega⟩ }

/-- **The rate.**  At most `limit` grants for each window that has passed, and for the open one. -/
theorem Granted.total_le (h : Granted limit window start now total b) (hwindow : 0 < window) :
    total ≤ limit * ((now - start) / window + 1) := by
  obtain ⟨closed, hclosed, htotal⟩ := h.total
  have hopened := h.opened
  have hle : closed ≤ (now - start) / window :=
    (Nat.le_div_iff_mul_le hwindow).mpr (hclosed.trans (by omega))
  calc total ≤ limit * closed + limit := htotal.trans (Nat.add_le_add_left h.spent _)
    _ = limit * (closed + 1) := (Nat.mul_add_one limit closed).symm
    _ ≤ limit * ((now - start) / window + 1) := Nat.mul_le_mul_left _ (Nat.add_le_add_right hle 1)

end Budget

/-- `done` attempts since `start`, each after a pause; `due` is the end of the pause that runs. -/
def Paused (pause start now done : ℕ) : Option ℕ → Prop
  | none => done * pause ≤ now - start
  | some due => start ≤ now ∧ due ≤ now + pause ∧ (done + 1) * pause ≤ due - start

namespace Paused

variable {pause start now done : ℕ} {due : Option ℕ}

lemma begin (pause start : ℕ) : Paused pause start start 0 none := by
  simp [Paused]

lemma elapse (h : Paused pause start now done due) {later : ℕ} (hle : now ≤ later) :
    Paused pause start later done due := by
  cases due with
  | none => exact h.trans (Nat.sub_le_sub_right hle start)
  | some due => exact ⟨h.1.trans hle, h.2.1.trans (Nat.add_le_add_right hle pause), h.2.2⟩

/-- A pause begins. -/
lemma wait (h : Paused pause start now done none) (hstart : start ≤ now) :
    Paused pause start now done (some (now + pause)) := by
  have hdone : done * pause ≤ now - start := h
  refine ⟨hstart, le_refl _, ?_⟩
  rw [Nat.add_one_mul]
  omega

/-- The pause is over, and the attempt is made. -/
lemma attempt {due : ℕ} (h : Paused pause start now done (some due)) (hdue : due ≤ now) :
    Paused pause start now (done + 1) none :=
  h.2.2.trans (Nat.sub_le_sub_right hdue start)

/-- **The rate.**  At most one attempt for each pause that has passed. -/
theorem done_le (h : Paused pause start now done due) (hpause : 0 < pause) :
    done ≤ (now - start) / pause := by
  refine (Nat.le_div_iff_mul_le hpause).mpr ?_
  cases due with
  | none => exact h
  | some due =>
      obtain ⟨hstart, hdue, hdone⟩ := h
      rw [Nat.add_one_mul] at hdone
      omega

end Paused
