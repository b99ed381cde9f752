import Mathlib.Tactic

/-!
Tables of bounded size: an array of fixed capacity together with the number of
entries in use, kept as the list of the entries in use and the bound on its
length.
-/

/-- A table of at most `cap` entries. -/
structure Table (α : Type) (cap : ℕ) where
  toList : List α
  length_le : toList.length ≤ cap

namespace Table

variable {α : Type} {cap : ℕ}

/-- The table without entries. -/
def empty : Table α cap := ⟨[], Nat.zero_le cap⟩

/-- The number of entries in use. -/
def count (t : Table α cap) : ℕ := t.toList.length

/-- The entry at an index, if it is in use. -/
def entry (t : Table α cap) (i : ℕ) : Option α := t.toList[i]?

/-- Overwrite the entry at an index in use. -/
def set (t : Table α cap) (i : ℕ) (a : α) : Table α cap :=
  ⟨t.toList.set i a, by simpa using t.length_le⟩

/-- Append an entry; `none` if the table is full. -/
def push (t : Table α cap) (a : α) : Option (Table α cap) :=
  if h : t.count < cap then some ⟨t.toList ++ [a], by simpa [count] using h⟩ else none

/-- Remove the entry at an index and close the gap. -/
def erase (t : Table α cap) (i : ℕ) : Table α cap :=
  ⟨t.toList.eraseIdx i, (List.length_eraseIdx_le _ _).trans t.length_le⟩

/-- Change every entry in use. -/
def map (f : α → α) (t : Table α cap) : Table α cap :=
  ⟨t.toList.map f, by simpa using t.length_le⟩

@[ext] lemma ext {t u : Table α cap} (h : t.toList = u.toList) : t = u := by
  cases t; cases u; simpa using h

@[simp] lemma toList_empty : (empty : Table α cap).toList = [] := rfl

@[simp] lemma toList_set (t : Table α cap) (i : ℕ) (a : α) :
    (t.set i a).toList = t.toList.set i a := rfl

@[simp] lemma toList_erase (t : Table α cap) (i : ℕ) :
    (t.erase i).toList = t.toList.eraseIdx i := rfl

@[simp] lemma toList_map (f : α → α) (t : Table α cap) :
    (t.map f).toList = t.toList.map f := rfl

lemma toList_push {t u : Table α cap} {a : α} (h : t.push a = some u) :
    u.toList = t.toList ++ [a] := by
  rw [push] at h
  split at h
  · rw [← Option.some.inj h]
  · simp at h

lemma push_isSome {t : Table α cap} (h : t.count < cap) (a : α) : (t.push a).isSome := by
  rw [push, dif_pos h]
  rfl

lemma mem_of_entry {t : Table α cap} {i : ℕ} {a : α} (h : t.entry i = some a) :
    a ∈ t.toList := List.mem_of_getElem? h

/-- An entry after an overwrite is the new one or an old one at another index. -/
lemma mem_set {t : Table α cap} {i : ℕ} {a b : α} (h : b ∈ (t.set i a).toList) :
    b = a ∨ ∃ j, j ≠ i ∧ t.entry j = some b := by
  obtain ⟨j, hj⟩ := List.mem_iff_getElem?.mp h
  by_cases hij : i = j
  · subst hij
    rw [toList_set, List.getElem?_set_self'] at hj
    obtain ⟨_, _, hab⟩ := Option.map_eq_some_iff.mp hj
    exact Or.inl hab.symm
  · rw [toList_set, List.getElem?_set_ne hij] at hj
    exact Or.inr ⟨j, fun h => hij h.symm, hj⟩

/-- An overwrite that keeps a property of the entry keeps the list of the properties. -/
lemma map_set_of_eq {β : Type} {t : Table α cap} {i : ℕ} {a b : α} (f : α → β)
    (h : t.entry i = some a) (hf : f b = f a) :
    (t.set i b).toList.map f = t.toList.map f := by
  obtain ⟨hi, ha⟩ := List.getElem?_eq_some_iff.mp h
  rw [toList_set, List.map_set, hf, ← ha, ← List.getElem_map f (h := by simpa using hi)]
  exact List.set_getElem_self _

lemma entry_set_self {t : Table α cap} {i : ℕ} {a b : α} (h : t.entry i = some a) :
    (t.set i b).entry i = some b := by
  obtain ⟨hi, _⟩ := List.getElem?_eq_some_iff.mp h
  simp [entry, hi]

/-- The list of the entries, one of them taken out. -/
lemma perm_of_entry {t : Table α cap} {i : ℕ} {a : α} (h : t.entry i = some a) :
    t.toList.Perm (a :: t.toList.eraseIdx i) := by
  obtain ⟨hi, ha⟩ := List.getElem?_eq_some_iff.mp h
  rw [← ha]
  exact (List.getElem_cons_eraseIdx_perm hi).symm

/-- An overwrite puts the new entry in the place of the one taken out. -/
lemma perm_set {t : Table α cap} {i : ℕ} {a : α} (h : t.entry i = some a) (b : α) :
    (t.set i b).toList.Perm (b :: t.toList.eraseIdx i) := by
  have hset := perm_of_entry (entry_set_self (b := b) h)
  rwa [toList_set, List.eraseIdx_set_eq] at hset

lemma entry_set_ne {t : Table α cap} {i j : ℕ} (h : i ≠ j) (b : α) :
    (t.set i b).entry j = t.entry j := by
  simp [entry, h]

end Table
