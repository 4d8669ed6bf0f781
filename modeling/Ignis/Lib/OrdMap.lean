import Mathlib.Algebra.BigOperators.Group.List.Basic
import Mathlib.Algebra.GroupWithZero.Nat
import Mathlib.Data.List.Nodup

/-!
# Insertion-ordered finite maps

A finite map that remembers the order in which its keys were first written.  Writing a key that is
already there replaces the value and keeps the key's place; removing a key and writing it again
moves it to the end.  This is the array of several scripting languages, and the order is part of
its meaning: a traversal visits the entries as listed.

The keys of a map are distinct by construction (`OrdMap.nodup`), so a lookup has at most one
answer and `mem_entries_iff` may be used in both directions.
-/

/-- An insertion-ordered finite map: the entries in order of first insertion, no key twice. -/
structure OrdMap (κ α : Type) where
  entries : List (κ × α)
  nodup : (entries.map Prod.fst).Nodup

namespace OrdMap

variable {κ α : Type} [DecidableEq κ]

/-! ## The operations on entry lists -/

/-- The value under `k`, if any. -/
def lookup (k : κ) : List (κ × α) → Option α
  | [] => none
  | (k', v) :: rest => if k' = k then some v else lookup k rest

/-- Overwrite the value under `k` in place, or append the pair. -/
def insertList (k : κ) (v : α) : List (κ × α) → List (κ × α)
  | [] => [(k, v)]
  | (k', v') :: rest => if k' = k then (k, v) :: rest else (k', v') :: insertList k v rest

lemma keys_insertList (k : κ) (v : α) (l : List (κ × α)) :
    (insertList k v l).map Prod.fst
      = if k ∈ l.map Prod.fst then l.map Prod.fst else l.map Prod.fst ++ [k] := by
  induction l with
  | nil => simp [insertList]
  | cons p rest ih =>
      obtain ⟨k', v'⟩ := p
      by_cases h : k' = k
      · simp [insertList, h]
      · have h' : ¬ k = k' := fun e => h e.symm
        by_cases hm : k ∈ rest.map Prod.fst
        · simp only [insertList, h, if_false, List.map_cons, ih, hm, if_true, List.mem_cons,
            h', or_true]
        · simp only [insertList, h, if_false, List.map_cons, ih, hm, List.mem_cons, h',
            or_false, List.cons_append]

lemma lookup_insertList (k k' : κ) (v : α) (l : List (κ × α)) :
    lookup k' (insertList k v l) = if k' = k then some v else lookup k' l := by
  induction l with
  | nil =>
      by_cases h : k' = k
      · simp [insertList, lookup, h]
      · simp [insertList, lookup, h, Ne.symm h]
  | cons p rest ih =>
      obtain ⟨k₀, v₀⟩ := p
      by_cases h₀ : k₀ = k
      · subst h₀
        by_cases h : k' = k₀
        · simp [insertList, lookup, h]
        · simp [insertList, lookup, h, Ne.symm h]
      · by_cases h : k₀ = k'
        · subst h
          simp [insertList, lookup, h₀]
        · simp [insertList, lookup, h₀, h, ih]

/-- A key that is not there goes to the end. -/
lemma insertList_of_notMem {k : κ} (v : α) {l : List (κ × α)} (h : k ∉ l.map Prod.fst) :
    insertList k v l = l ++ [(k, v)] := by
  induction l with
  | nil => rfl
  | cons e rest ih =>
      obtain ⟨k', v'⟩ := e
      rw [List.map_cons, List.mem_cons, not_or] at h
      rw [insertList, if_neg (Ne.symm h.1), ih h.2, List.cons_append]

lemma lookup_filter_ne (k k' : κ) (l : List (κ × α)) :
    lookup k' (l.filter fun p => p.1 ≠ k) = if k' = k then none else lookup k' l := by
  induction l with
  | nil => simp [lookup]
  | cons p rest ih =>
      obtain ⟨k₀, v₀⟩ := p
      by_cases h₀ : k₀ = k
      · subst h₀
        by_cases h : k' = k₀
        · simpa [lookup, h] using ih
        · simpa [lookup, h, Ne.symm h] using ih
      · by_cases h : k₀ = k'
        · subst h
          simp [lookup, h₀]
        · simpa [lookup, h₀, h] using ih

lemma mem_of_lookup {k : κ} {v : α} {l : List (κ × α)} (h : lookup k l = some v) : (k, v) ∈ l := by
  induction l with
  | nil => simp [lookup] at h
  | cons p rest ih =>
      obtain ⟨k', v'⟩ := p
      by_cases hk : k' = k
      · subst hk
        simp only [lookup, if_true, Option.some.injEq] at h
        simp [h]
      · simp only [lookup, hk, if_false] at h
        exact List.mem_cons_of_mem _ (ih h)

lemma lookup_of_mem {k : κ} {v : α} {l : List (κ × α)} (hnd : (l.map Prod.fst).Nodup)
    (h : (k, v) ∈ l) : lookup k l = some v := by
  induction l with
  | nil => simp at h
  | cons p rest ih =>
      obtain ⟨k', v'⟩ := p
      simp only [List.map_cons, List.nodup_cons] at hnd
      rcases List.mem_cons.mp h with h | h
      · simp only [Prod.mk.injEq] at h
        simp [lookup, h.1, h.2]
      · have hk : k' ≠ k := by
          rintro rfl
          exact hnd.1 (List.mem_map.mpr ⟨(k', v), h, rfl⟩)
        simpa [lookup, hk] using ih hnd.2 h

/-! ## The maps -/

/-- The map with no entries. -/
def empty : OrdMap κ α := ⟨[], List.nodup_nil⟩

instance : EmptyCollection (OrdMap κ α) := ⟨empty⟩

/-- The value under `k`, if any. -/
def get? (m : OrdMap κ α) (k : κ) : Option α := lookup k m.entries

/-- Write `v` under `k`: in place when `k` is present, at the end otherwise. -/
def set (m : OrdMap κ α) (k : κ) (v : α) : OrdMap κ α :=
  ⟨insertList k v m.entries, by
    rw [keys_insertList]
    split_ifs with h
    · exact m.nodup
    · exact List.nodup_append.mpr ⟨m.nodup, by simp, by
        intro a ha b hb
        rw [List.mem_singleton] at hb
        rintro rfl
        exact h (hb ▸ ha)⟩⟩

/-- Drop the entry under `k`, if there is one. -/
def unset (m : OrdMap κ α) (k : κ) : OrdMap κ α :=
  ⟨m.entries.filter fun p => p.1 ≠ k, m.nodup.sublist (List.filter_sublist.map _)⟩

/-- The keys, in order of first insertion. -/
def keys (m : OrdMap κ α) : List κ := m.entries.map Prod.fst

/-- Whether `k` is present. -/
def has (m : OrdMap κ α) (k : κ) : Bool := (m.get? k).isSome

omit [DecidableEq κ] in
/-- A map is its entries: the proof of distinctness carries no data. -/
@[ext] lemma ext {m m' : OrdMap κ α} (h : m.entries = m'.entries) : m = m' := by
  cases m
  cases m'
  simp_all

instance [DecidableEq α] : DecidableEq (OrdMap κ α) := fun m m' =>
  decidable_of_iff (m.entries = m'.entries) ⟨ext, congrArg entries⟩

@[simp] lemma get?_empty (k : κ) : (∅ : OrdMap κ α).get? k = none := rfl

omit [DecidableEq κ] in
@[simp] lemma keys_empty : (∅ : OrdMap κ α).keys = [] := rfl

@[simp] lemma has_empty (k : κ) : (∅ : OrdMap κ α).has k = false := rfl

lemma get?_set (m : OrdMap κ α) (k k' : κ) (v : α) :
    (m.set k v).get? k' = if k' = k then some v else m.get? k' :=
  lookup_insertList k k' v m.entries

@[simp] lemma get?_set_self (m : OrdMap κ α) (k : κ) (v : α) : (m.set k v).get? k = some v := by
  simp [get?_set]

lemma get?_unset (m : OrdMap κ α) (k k' : κ) :
    (m.unset k).get? k' = if k' = k then none else m.get? k' :=
  lookup_filter_ne k k' m.entries

@[simp] lemma get?_unset_self (m : OrdMap κ α) (k : κ) : (m.unset k).get? k = none := by
  simp [get?_unset]

/-- An entry is listed exactly when it is what the lookup finds. -/
lemma mem_entries_iff {m : OrdMap κ α} {k : κ} {v : α} :
    (k, v) ∈ m.entries ↔ m.get? k = some v :=
  ⟨lookup_of_mem m.nodup, mem_of_lookup⟩

lemma mem_keys_iff {m : OrdMap κ α} {k : κ} : k ∈ m.keys ↔ ∃ v, m.get? k = some v := by
  simp only [keys, List.mem_map, Prod.exists, exists_and_right, exists_eq_right]
  exact exists_congr fun v => mem_entries_iff

lemma insertList_insertList (k : κ) (v v' : α) (l : List (κ × α)) :
    insertList k v' (insertList k v l) = insertList k v' l := by
  induction l with
  | nil => simp [insertList]
  | cons e rest ih =>
      obtain ⟨k₀, v₀⟩ := e
      by_cases h : k₀ = k
      · simp [insertList, h]
      · simp [insertList, h, ih]

/-- The last write under a key counts. -/
lemma set_set (m : OrdMap κ α) (k : κ) (v v' : α) : (m.set k v).set k v' = m.set k v' :=
  ext (insertList_insertList k v v' m.entries)

lemma has_iff {m : OrdMap κ α} {k : κ} : m.has k = true ↔ ∃ v, m.get? k = some v := by
  simp [has, Option.isSome_iff_exists]

lemma has_set {m : OrdMap κ α} {k k' : κ} {v : α} :
    (m.set k v).has k' = true ↔ k' = k ∨ m.has k' = true := by
  by_cases h : k' = k
  · simp [has, h]
  · simp [has, get?_set, h]

lemma has_unset {m : OrdMap κ α} {k k' : κ} :
    (m.unset k).has k' = true ↔ k' ≠ k ∧ m.has k' = true := by
  by_cases h : k' = k
  · simp [has, h]
  · simp [has, get?_unset, h]

/-! ## A map of a list of entries -/

/-- The entries written one after the other. -/
def ofList (l : List (κ × α)) : OrdMap κ α := l.foldl (fun m e => m.set e.1 e.2) ∅

lemma entries_foldl_set (l : List (κ × α)) (m : OrdMap κ α)
    (h : ((m.entries ++ l).map Prod.fst).Nodup) :
    (l.foldl (fun m e => m.set e.1 e.2) m).entries = m.entries ++ l := by
  induction l generalizing m with
  | nil => rw [List.foldl_nil, List.append_nil]
  | cons e l ih =>
      have hnotMem : e.1 ∉ m.entries.map Prod.fst := by
        intro hmem
        rw [List.map_append, List.nodup_append] at h
        exact h.2.2 _ hmem _ (List.mem_map_of_mem List.mem_cons_self) rfl
      have hset : (m.set e.1 e.2).entries = m.entries ++ [e] := insertList_of_notMem e.2 hnotMem
      have hsplit : m.entries ++ [e] ++ l = m.entries ++ e :: l := List.append_cons _ _ _ |>.symm
      rw [List.foldl_cons, ih _ (by rw [hset, hsplit]; exact h), hset, hsplit]

/-- The entries of a map make the map again. -/
lemma ofList_entries (m : OrdMap κ α) : ofList m.entries = m :=
  ext ((entries_foldl_set m.entries ∅ m.nodup).trans (List.nil_append _))

lemma get?_foldl_entries (l : List (κ × α)) (m : OrdMap κ α) (k : κ) :
    (∃ e ∈ l, e.1 = k ∧ (l.foldl (fun m e => m.set e.1 e.2) m).get? k = some e.2) ∨
      (∀ e ∈ l, e.1 ≠ k) ∧ (l.foldl (fun m e => m.set e.1 e.2) m).get? k = m.get? k := by
  induction l generalizing m with
  | nil => exact .inr ⟨by simp, rfl⟩
  | cons e l ih =>
      rw [List.foldl_cons]
      rcases ih (m.set e.1 e.2) with ⟨e', he', hk, hget⟩ | ⟨hnone, hget⟩
      · exact .inl ⟨e', List.mem_cons_of_mem _ he', hk, hget⟩
      · rw [get?_set] at hget
        by_cases hk : k = e.1
        · exact .inl ⟨e, List.mem_cons_self, hk.symm, by rw [hget, if_pos hk]⟩
        · refine .inr ⟨fun e' he' => ?_, by rw [hget, if_neg hk]⟩
          rcases List.mem_cons.mp he' with rfl | he'
          · exact Ne.symm hk
          · exact hnone e' he'

/-- A list of entries can be read back from the map it makes when no key comes with two values. -/
lemma get?_ofList_iff {l : List (κ × α)} :
    (∀ e ∈ l, (ofList l).get? e.1 = some e.2) ↔
      ∀ e ∈ l, ∀ e' ∈ l, e.1 = e'.1 → e.2 = e'.2 := by
  constructor
  · intro h e he e' he' hk
    have heq := (h e he).symm.trans (hk ▸ h e' he')
    exact Option.some.inj heq
  · intro h e he
    rcases get?_foldl_entries l ∅ e.1 with ⟨e', he', hk, hget⟩ | ⟨hnone, -⟩
    · exact hget.trans (congrArg some (h e' he' e he hk))
    · exact absurd rfl (hnone e he)

/-! ## Keeping some of the keys -/

/-- The entries whose key satisfies `p`. -/
def filterKeys (m : OrdMap κ α) (p : κ → Bool) : OrdMap κ α :=
  ⟨m.entries.filter fun e => p e.1, m.nodup.sublist (List.filter_sublist.map _)⟩

lemma lookup_filter (p : κ → Bool) (k : κ) (l : List (κ × α)) :
    lookup k (l.filter fun e => p e.1) = if p k then lookup k l else none := by
  induction l with
  | nil => simp [lookup]
  | cons e rest ih =>
      obtain ⟨k₀, v₀⟩ := e
      by_cases hk : k₀ = k
      · subst hk
        by_cases hp : p k₀ = true
        · simp [lookup, hp]
        · simpa [lookup, hp] using ih
      · by_cases hp : p k₀ = true
        · simpa [lookup, hp, hk] using ih
        · simpa [lookup, hp, hk] using ih

lemma get?_filterKeys (m : OrdMap κ α) (p : κ → Bool) (k : κ) :
    (m.filterKeys p).get? k = if p k then m.get? k else none :=
  lookup_filter p k m.entries

/-! ## Totals -/

/-- What the values of a list of entries add up to, measured by `f`. -/
def sumList (f : α → ℕ) (l : List (κ × α)) : ℕ := (l.map fun e => f e.2).sum

lemma sumList_insertList (f : α → ℕ) (k : κ) (v : α) (l : List (κ × α)) :
    sumList f (insertList k v l) + (lookup k l).elim 0 f = sumList f l + f v := by
  induction l with
  | nil => simp [sumList, insertList, lookup]
  | cons e rest ih =>
      obtain ⟨k₀, v₀⟩ := e
      by_cases hk : k₀ = k
      · simp only [insertList, lookup, hk, if_true, sumList, List.map_cons, List.sum_cons,
          Option.elim_some]
        omega
      · simp only [insertList, lookup, hk, if_false, sumList, List.map_cons, List.sum_cons] at ih ⊢
        omega

omit [DecidableEq κ] in
lemma sumList_filter (f : α → ℕ) (p : κ → Bool) (l : List (κ × α)) :
    sumList f (l.filter fun e => p e.1) + sumList f (l.filter fun e => !p e.1) = sumList f l := by
  induction l with
  | nil => rfl
  | cons e rest ih =>
      by_cases hp : p e.1 = true
      · simp only [List.filter_cons, hp, if_true, Bool.not_true, Bool.false_eq_true, if_false,
          sumList, List.map_cons, List.sum_cons] at ih ⊢
        omega
      · simp only [Bool.not_eq_true] at hp
        simp only [List.filter_cons, hp, Bool.false_eq_true, if_false, Bool.not_false, if_true,
          sumList, List.map_cons, List.sum_cons] at ih ⊢
        omega

lemma sumList_filter_eq (f : α → ℕ) (k : κ) {l : List (κ × α)} (hl : (l.map Prod.fst).Nodup) :
    sumList f (l.filter fun e => e.1 = k) = (lookup k l).elim 0 f := by
  induction l with
  | nil => rfl
  | cons e rest ih =>
      obtain ⟨k₀, v₀⟩ := e
      rw [List.map_cons, List.nodup_cons] at hl
      by_cases hk : k₀ = k
      · subst hk
        have hrest : rest.filter (fun e => e.1 = k₀) = [] := by
          refine List.filter_eq_nil_iff.mpr fun e he heq => hl.1 ?_
          exact List.mem_map.mpr ⟨e, he, of_decide_eq_true heq⟩
        simp [sumList, lookup, hrest]
      · simpa [lookup, hk, sumList] using ih hl.2

/-- What the values of a map add up to, measured by `f`. -/
def total (f : α → ℕ) (m : OrdMap κ α) : ℕ := sumList f m.entries

omit [DecidableEq κ] in
@[simp] lemma total_empty (f : α → ℕ) : (∅ : OrdMap κ α).total f = 0 := rfl

/-- A write displaces the value that was there. -/
lemma total_set (f : α → ℕ) (m : OrdMap κ α) (k : κ) (v : α) :
    (m.set k v).total f + (m.get? k).elim 0 f = m.total f + f v :=
  sumList_insertList f k v m.entries

omit [DecidableEq κ] in
/-- The entries that are kept and those that are not make up the map. -/
lemma total_filterKeys (f : α → ℕ) (m : OrdMap κ α) (p : κ → Bool) :
    (m.filterKeys p).total f + (m.filterKeys fun k => !p k).total f = m.total f :=
  sumList_filter f p m.entries

lemma total_unset (f : α → ℕ) (m : OrdMap κ α) (k : κ) :
    (m.unset k).total f + (m.get? k).elim 0 f = m.total f := by
  have hsplit := sumList_filter f (fun k' => decide (k' = k)) m.entries
  rw [sumList_filter_eq f k m.nodup] at hsplit
  have hunset : (m.unset k).total f = sumList f (m.entries.filter fun e => !decide (e.1 = k)) := by
    simp [total, unset]
  rw [hunset, Nat.add_comm]
  exact hsplit

/-- A value is a part of the total. -/
lemma le_total (f : α → ℕ) {m : OrdMap κ α} {k : κ} {v : α} (h : m.get? k = some v) :
    f v ≤ m.total f := by
  have htotal := m.total_unset f k
  rw [h, Option.elim_some] at htotal
  omega

omit [DecidableEq κ] in
lemma total_le_total {f g : α → ℕ} (m : OrdMap κ α) (h : ∀ v, f v ≤ g v) :
    m.total f ≤ m.total g := by
  unfold total sumList
  induction m.entries with
  | nil => exact Nat.le_refl 0
  | cons e rest ih =>
      rw [List.map_cons, List.map_cons, List.sum_cons, List.sum_cons]
      exact Nat.add_le_add (h e.2) ih

/-! ## Writing and dropping a list of keys -/

lemma get?_foldl_unset (m : OrdMap κ α) (ks : List κ) (k : κ) :
    (ks.foldl unset m).get? k = if k ∈ ks then none else m.get? k := by
  induction ks generalizing m with
  | nil => simp
  | cons k' ks ih =>
      rw [List.foldl_cons, ih, get?_unset]
      by_cases h : k = k'
      · simp [h]
      · simp [h]

/-- `$a + $b`: the entries of the second whose keys the first does not have follow its own. -/
def union (a b : OrdMap κ α) : OrdMap κ α :=
  b.entries.foldl (fun m e => if m.has e.1 then m else m.set e.1 e.2) a

lemma get?_foldl_union (l : List (κ × α)) (a : OrdMap κ α) (k : κ) :
    (l.foldl (fun m e => if m.has e.1 then m else m.set e.1 e.2) a).get? k
      = (a.get? k).or (lookup k l) := by
  induction l generalizing a with
  | nil => simp [lookup]
  | cons e l ih =>
      rw [List.foldl_cons, ih]
      by_cases hhas : a.has e.1 = true
      · rw [if_pos hhas]
        obtain ⟨v, hv⟩ := has_iff.1 hhas
        by_cases h : e.1 = k
        · simp [← h, hv]
        · simp [lookup, h]
      · have hnone : a.get? e.1 = none :=
          Option.eq_none_iff_forall_ne_some.2 fun v hv => hhas (has_iff.2 ⟨v, hv⟩)
        rw [if_neg hhas, get?_set]
        by_cases h : e.1 = k
        · simp [lookup, ← h, hnone]
        · simp [lookup, h, Ne.symm h]

lemma get?_union (a b : OrdMap κ α) (k : κ) : (a.union b).get? k = (a.get? k).or (b.get? k) :=
  get?_foldl_union b.entries a k

section Indexed

variable {β : Type} {l : List β} {index : β → κ} {value : β → α} {P P' : κ → β → Prop}
  {m : OrdMap κ α}

/-- A map that lists the items with `P` by their index, when an item with a new index comes in. -/
lemma get?_set_of_indexed
    (h : ∀ k v, m.get? k = some v ↔ ∃ i ∈ l, index i = k ∧ P k i ∧ v = value i) (item : β)
    (hitem : P (index item) item) (hfresh : ∀ i ∈ l, index i ≠ index item) (k : κ) (v : α) :
    (m.set (index item) (value item)).get? k = some v ↔
      ∃ i ∈ l ++ [item], index i = k ∧ P k i ∧ v = value i := by
  rw [get?_set]
  by_cases hk : k = index item
  · subst hk
    rw [if_pos rfl]
    constructor
    · rintro ⟨⟩
      exact ⟨item, List.mem_append_right _ (List.mem_singleton_self _), rfl, hitem, rfl⟩
    · rintro ⟨i, hi, hindex, -, rfl⟩
      rcases List.mem_append.1 hi with hi | hi
      · exact absurd hindex (hfresh i hi)
      · rw [List.mem_singleton.1 hi]
  · rw [if_neg hk, h]
    constructor
    · rintro ⟨i, hi, hrest⟩
      exact ⟨i, List.mem_append_left _ hi, hrest⟩
    · rintro ⟨i, hi, hindex, hrest⟩
      rcases List.mem_append.1 hi with hi | hi
      · exact ⟨i, hi, hindex, hrest⟩
      · rw [List.mem_singleton.1 hi] at hindex
        exact absurd hindex.symm hk

/-- And when an index is taken out. -/
lemma get?_unset_of_indexed
    (h : ∀ k v, m.get? k = some v ↔ ∃ i ∈ l, index i = k ∧ P k i ∧ v = value i) (gone : κ)
    (hP : ∀ i ∈ l, P' (index i) i ↔ P (index i) i ∧ index i ≠ gone) (k : κ) (v : α) :
    (m.unset gone).get? k = some v ↔ ∃ i ∈ l, index i = k ∧ P' k i ∧ v = value i := by
  rw [get?_unset]
  by_cases hk : k = gone
  · rw [if_pos hk]
    constructor
    · rintro ⟨⟩
    · rintro ⟨i, hi, rfl, hP', -⟩
      exact absurd hk ((hP i hi).1 hP').2
  · rw [if_neg hk, h]
    constructor
    · rintro ⟨i, hi, rfl, hPi, rfl⟩
      exact ⟨i, hi, rfl, (hP i hi).2 ⟨hPi, hk⟩, rfl⟩
    · rintro ⟨i, hi, rfl, hP', rfl⟩
      exact ⟨i, hi, rfl, ((hP i hi).1 hP').1, rfl⟩

end Indexed

lemma get?_foldl_set (m : OrdMap κ α) (ks : List κ) (v : α) (k : κ) :
    (ks.foldl (fun m k => m.set k v) m).get? k = if k ∈ ks then some v else m.get? k := by
  induction ks generalizing m with
  | nil => simp
  | cons k' ks ih =>
      rw [List.foldl_cons, ih, get?_set]
      by_cases h : k = k'
      · simp [h]
      · simp [h]

/-- A traversal that treats each key by itself: what becomes of a key does not depend on the
others. -/
lemma foldl_local {σ β : Type} {f : σ → κ → σ} (view : σ → κ → β) {g : β → β}
    (hself : ∀ s k, view (f s k) k = g (view s k))
    (hother : ∀ s k k', k' ≠ k → view (f s k) k' = view s k') {ks : List κ} (hks : ks.Nodup)
    (s : σ) (k : κ) : view (ks.foldl f s) k = if k ∈ ks then g (view s k) else view s k := by
  induction ks generalizing s with
  | nil => simp
  | cons k' ks ih =>
      rw [List.nodup_cons] at hks
      rw [List.foldl_cons, ih hks.2]
      by_cases h : k = k'
      · subst h
        simp [hks.1, hself]
      · simp [h, hother s k' k h]

omit [DecidableEq κ] in
/-- The same for what such a traversal adds up: each key adds what it costs at the start. -/
lemma foldl_sum {σ : Type} {f : σ → κ → σ} (size : σ → ℤ) {cost : σ → κ → ℕ}
    (hself : ∀ s k, size (f s k) = size s + cost s k)
    (hother : ∀ s k k', k' ≠ k → cost (f s k) k' = cost s k') {ks : List κ} (hks : ks.Nodup)
    (s : σ) : size (ks.foldl f s) = size s + (ks.map (cost s)).sum := by
  induction ks generalizing s with
  | nil => simp
  | cons k ks ih =>
      rw [List.nodup_cons] at hks
      have hcost : ks.map (cost (f s k)) = ks.map (cost s) :=
        List.map_congr_left fun k' hk' => hother s k k' fun e => hks.1 (e ▸ hk')
      rw [List.foldl_cons, ih hks.2, hself, hcost, List.map_cons, List.sum_cons]
      omega

/-! ## Rewriting every value -/

omit [DecidableEq κ] in
lemma keys_map_values (f : κ → α → α) (l : List (κ × α)) :
    (l.map fun e => (e.1, f e.1 e.2)).map Prod.fst = l.map Prod.fst := by
  simp

/-- Every value rewritten, with a look at its key.  The keys stay in their places. -/
def mapWithKey (f : κ → α → α) (m : OrdMap κ α) : OrdMap κ α :=
  ⟨m.entries.map fun e => (e.1, f e.1 e.2), by rw [keys_map_values]; exact m.nodup⟩

lemma lookup_map (f : κ → α → α) (k : κ) (l : List (κ × α)) :
    lookup k (l.map fun e => (e.1, f e.1 e.2)) = (lookup k l).map (f k) := by
  induction l with
  | nil => rfl
  | cons e rest ih =>
      obtain ⟨k', v⟩ := e
      by_cases h : k' = k
      · simp [lookup, h]
      · simpa [lookup, h] using ih

lemma get?_mapWithKey (f : κ → α → α) (m : OrdMap κ α) (k : κ) :
    (m.mapWithKey f).get? k = (m.get? k).map (f k) :=
  lookup_map f k m.entries

omit [DecidableEq κ] in
/-- Two rewritings that agree on what is there. -/
lemma mapWithKey_congr {f g : κ → α → α} {m : OrdMap κ α}
    (h : ∀ k v, (k, v) ∈ m.entries → f k v = g k v) : m.mapWithKey f = m.mapWithKey g :=
  ext (List.map_congr_left fun e he => congrArg (e.1, ·) (h e.1 e.2 he))

omit [DecidableEq κ] in
lemma mapWithKey_mapWithKey (f g : κ → α → α) (m : OrdMap κ α) :
    (m.mapWithKey f).mapWithKey g = m.mapWithKey fun k v => g k (f k v) :=
  ext (by simp [mapWithKey, Function.comp_def])

omit [DecidableEq κ] in
lemma mapWithKey_id {f : κ → α → α} {m : OrdMap κ α}
    (h : ∀ k v, (k, v) ∈ m.entries → f k v = v) : m.mapWithKey f = m :=
  ext ((List.map_congr_left fun e he => by rw [h e.1 e.2 he, id]).trans (List.map_id _))

lemma insertList_of_mem {k : κ} (v : α) {l : List (κ × α)} (hnd : (l.map Prod.fst).Nodup)
    (h : k ∈ l.map Prod.fst) :
    insertList k v l = l.map fun e => (e.1, if e.1 = k then v else e.2) := by
  induction l with
  | nil => simp at h
  | cons e rest ih =>
      obtain ⟨k', v'⟩ := e
      rw [List.map_cons, List.nodup_cons] at hnd
      by_cases hk : k' = k
      · subst hk
        have hrest : ∀ e ∈ rest, e.1 ≠ k' := fun e he hkey =>
          hnd.1 (List.mem_map.mpr ⟨e, he, hkey⟩)
        rw [insertList, if_pos rfl, List.map_cons, if_pos rfl]
        refine congrArg _ ((List.map_id rest).symm.trans (List.map_congr_left fun e he => ?_))
        rw [if_neg (hrest e he)]
        rfl
      · have hmem : k ∈ rest.map Prod.fst :=
          (List.mem_cons.mp h).resolve_left fun e => hk e.symm
        rw [insertList, if_neg hk, List.map_cons, if_neg hk, ih hnd.2 hmem]

/-- Writing under a key that is there rewrites that value. -/
lemma set_eq_mapWithKey {m : OrdMap κ α} {k : κ} (h : m.has k = true) (v : α) :
    m.set k v = m.mapWithKey fun k' v' => if k' = k then v else v' :=
  ext (insertList_of_mem v m.nodup (mem_keys_iff.mpr (has_iff.mp h)))

end OrdMap
