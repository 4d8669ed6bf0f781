import Mathlib.Data.List.Basic
import Mathlib.Tactic.TypeStar
import Ignis.Lib.StepSystem

/-!
# Loops that may throw

`forEach f s as` goes through a list with a state, collects what each turn puts out, and stops at
the first turn that fails.  What the turns have made of the state up to then stays.
-/

namespace Fallible

variable {σ α β ε : Type*}

/-- What went through a map without an error. -/
lemma of_map_eq_ok {x : Except ε α} {g : α → β} {b : β} (h : x.map g = .ok b) :
    ∃ a, x = .ok a ∧ g a = b := by
  cases x with
  | error e => cases h
  | ok a => exact ⟨a, rfl, Except.ok.inj h⟩

/-- A map over a list in which nothing fails. -/
lemma mapM_eq_map {α β : Type} {m : Type → Type} [Monad m] [LawfulMonad m] {f : α → m β}
    {g : α → β} {l : List α} (h : ∀ a ∈ l, f a = pure (g a)) :
    l.mapM f = pure (l.map g) := by
  induction l with
  | nil => rfl
  | cons a l ih =>
      have hrest := ih fun a' ha' => h a' (List.mem_cons_of_mem _ ha')
      rw [List.mapM_cons, h a List.mem_cons_self, pure_bind, hrest, pure_bind, List.map_cons]

/-- One of a list that fails fails the whole. -/
lemma ok_of_mapM_eq_ok {f : α → Except ε β} {as : List α} {bs : List β} (h : as.mapM f = .ok bs)
    {a : α} (ha : a ∈ as) : ∃ b, f a = .ok b := by
  induction as generalizing bs with
  | nil => cases ha
  | cons a' as ih =>
      rw [List.mapM_cons] at h
      cases hfirst : f a' with
      | error e =>
          rw [hfirst] at h
          cases h
      | ok b =>
          rcases List.mem_cons.1 ha with rfl | ha
          · exact ⟨b, hfirst⟩
          · rw [hfirst] at h
            cases hrest : as.mapM f with
            | error e =>
                change (as.mapM f >>= _) = _ at h
                rw [hrest] at h
                cases h
            | ok rest => exact ih hrest ha

lemma some_of_mapM_eq_some {f : α → Option β} {as : List α} {bs : List β}
    (h : as.mapM f = some bs) {a : α} (ha : a ∈ as) : ∃ b, f a = some b := by
  induction as generalizing bs with
  | nil => cases ha
  | cons a' as ih =>
      rw [List.mapM_cons] at h
      obtain ⟨b, hb, h⟩ := Option.bind_eq_some_iff.1 h
      obtain ⟨rest, hrest, -⟩ := Option.bind_eq_some_iff.1 h
      rcases List.mem_cons.1 ha with rfl | ha
      · exact ⟨b, hb⟩
      · exact ih hrest ha

def forEach (f : σ → α → σ × Except ε (List β)) (s : σ) : List α → σ × Except ε (List β)
  | [] => (s, .ok [])
  | a :: as =>
      match f s a with
      | (s, .error e) => (s, .error e)
      | (s, .ok out) =>
          match forEach f s as with
          | (s, .error e) => (s, .error e)
          | (s, .ok rest) => (s, .ok (out ++ rest))

/-- The turns that were taken: up to the first that fails, which is one of them. -/
def reached (f : σ → α → σ × Except ε (List β)) (s : σ) : List α → List α
  | [] => []
  | a :: as =>
      match f s a with
      | (_, .error _) => [a]
      | (s, .ok _) => a :: reached f s as

variable {f : σ → α → σ × Except ε (List β)}

@[simp] lemma forEach_nil (s : σ) : forEach f s [] = (s, .ok []) := rfl

lemma forEach_cons_error {s : σ} {a : α} {as : List α} {e : ε} (h : (f s a).2 = .error e) :
    forEach f s (a :: as) = ((f s a).1, .error e) := by
  rw [forEach]
  generalize f s a = r at h
  obtain ⟨t, o⟩ := r
  obtain rfl : o = .error e := h
  rfl

lemma forEach_cons_ok {s : σ} {a : α} {as : List α} {out : List β} (h : (f s a).2 = .ok out) :
    forEach f s (a :: as)
      = ((forEach f (f s a).1 as).1, (forEach f (f s a).1 as).2.map fun rest => out ++ rest) := by
  rw [forEach]
  generalize f s a = r at h
  obtain ⟨t, o⟩ := r
  obtain rfl : o = .ok out := h
  simp only
  cases hrest : forEach f t as with
  | mk u o => cases o <;> rfl

/-- A loop that ends has gone through its first turn and through the others. -/
lemma of_forEach_cons_eq_ok {s : σ} {a : α} {as : List α} {out : List β}
    (h : (forEach f s (a :: as)).2 = .ok out) :
    ∃ first rest, (f s a).2 = .ok first ∧ (forEach f (f s a).1 as).2 = .ok rest ∧
      first ++ rest = out := by
  cases ha : (f s a).2 with
  | error e =>
      rw [forEach_cons_error ha] at h
      cases h
  | ok first =>
      rw [forEach_cons_ok ha] at h
      obtain ⟨rest, hrest, hout⟩ := of_map_eq_ok h
      exact ⟨first, rest, rfl, hrest, hout⟩

lemma reached_cons_error {s : σ} {a : α} {as : List α} {e : ε} (h : (f s a).2 = .error e) :
    reached f s (a :: as) = [a] := by
  rw [reached]
  generalize f s a = r at h
  obtain ⟨t, o⟩ := r
  obtain rfl : o = .error e := h
  rfl

lemma reached_cons_ok {s : σ} {a : α} {as : List α} {out : List β} (h : (f s a).2 = .ok out) :
    reached f s (a :: as) = a :: reached f (f s a).1 as := by
  rw [reached]
  generalize f s a = r at h
  obtain ⟨t, o⟩ := r
  obtain rfl : o = .ok out := h
  rfl

/-- A loop that ends has taken every turn. -/
lemma reached_of_ok {s : σ} {as : List α} {out : List β} (h : (forEach f s as).2 = .ok out) :
    reached f s as = as := by
  induction as generalizing s out with
  | nil => rfl
  | cons a as ih =>
      obtain ⟨first, rest, ha, hrest, -⟩ := of_forEach_cons_eq_ok h
      rw [reached_cons_ok ha, ih hrest]

/-- A part of the state that each turn changes by itself, over the whole loop. -/
theorem view_forEach {τ : Type*} (view : σ → τ) {g : τ → α → τ}
    (hstep : ∀ s a, view (f s a).1 = g (view s) a) (s : σ) (as : List α) :
    view (forEach f s as).1 = (reached f s as).foldl g (view s) := by
  induction as generalizing s with
  | nil => rfl
  | cons a as ih =>
      cases ha : (f s a).2 with
      | error e =>
          rw [forEach_cons_error ha, reached_cons_error ha]
          exact hstep s a
      | ok out =>
          rw [forEach_cons_ok ha, reached_cons_ok ha, List.foldl_cons, ← hstep s a]
          exact ih (f s a).1

/-- The first turn that fails, if any, and all turns before it keep the invariant. -/
theorem forEach_invariant {I : σ → Prop} {as : List α} {s : σ}
    (hstep : ∀ s a, a ∈ as → I s → I (f s a).1) (hs : I s) : I (forEach f s as).1 := by
  induction as generalizing s with
  | nil => exact hs
  | cons a as ih =>
      have ha := hstep s a List.mem_cons_self hs
      cases h : (f s a).2 with
      | error e =>
          rw [forEach_cons_error h]
          exact ha
      | ok out =>
          rw [forEach_cons_ok h]
          exact ih (fun s b hb => hstep s b (List.mem_cons_of_mem a hb)) ha

/-! ## Each turn by itself

The turns are the steps of a system whose actions are the elements of the list, so that what is to
hold of each of them, in the state it finds, is a condition along a run.
-/

def turn (f : σ → α → σ × Except ε (List β)) (s : σ) (a : α) : Option σ := some (f s a).1

/-- A loop ends exactly when no turn fails. -/
theorem forEach_ok_iff {s : σ} {as : List α} :
    (∃ out, (forEach f s as).2 = .ok out)
      ↔ StepSystem.Along (turn f) (fun s a => ∃ out, (f s a).2 = .ok out) s as := by
  induction as generalizing s with
  | nil => exact iff_of_true ⟨[], rfl⟩ trivial
  | cons a as ih =>
      rw [StepSystem.along_cons_of_step (turn f) rfl, ← ih]
      constructor
      · rintro ⟨out, hout⟩
        obtain ⟨first, rest, ha, hrest, -⟩ := of_forEach_cons_eq_ok hout
        exact ⟨⟨first, ha⟩, rest, hrest⟩
      · rintro ⟨⟨first, ha⟩, rest, hrest⟩
        rw [forEach_cons_ok ha, hrest]
        exact ⟨first ++ rest, rfl⟩

/-- What a turn puts out is part of what the loop puts out. -/
theorem parts_of_forEach_ok {s : σ} {as : List α} {out : List β}
    (h : (forEach f s as).2 = .ok out) :
    StepSystem.Along (turn f) (fun s a => ∃ part, (f s a).2 = .ok part ∧ part ⊆ out) s as := by
  suffices H : ∀ all, out ⊆ all →
      StepSystem.Along (turn f) (fun s a => ∃ part, (f s a).2 = .ok part ∧ part ⊆ all) s as from
    H out (List.Subset.refl out)
  induction as generalizing s out with
  | nil => exact fun _ _ => trivial
  | cons a as ih =>
      intro all hall
      obtain ⟨first, rest, ha, hrest, rfl⟩ := of_forEach_cons_eq_ok h
      rw [StepSystem.along_cons_of_step (turn f) rfl]
      exact ⟨⟨first, ha, fun x hx => hall (List.mem_append_left _ hx)⟩,
        ih hrest all fun x hx => hall (List.mem_append_right _ hx)⟩

/-- What is so after a turn and is not undone is so at the end. -/
theorem lasting_of_forEach_ok {ι : Type*} {P : ι → σ → Prop}
    (hP : ∀ i s a, P i s → P i (f s a).1) {s : σ} {as : List α} {out : List β}
    (h : (forEach f s as).2 = .ok out) :
    StepSystem.Along (turn f) (fun t a => ∀ i, P i (f t a).1 → P i (forEach f s as).1) s as := by
  induction as generalizing s out with
  | nil => trivial
  | cons a as ih =>
      obtain ⟨first, rest, ha, hrest, -⟩ := of_forEach_cons_eq_ok h
      rw [StepSystem.along_cons_of_step (turn f) rfl, forEach_cons_ok ha]
      exact ⟨fun i => forEach_invariant fun t b _ => hP i t b, ih hrest⟩

end Fallible
