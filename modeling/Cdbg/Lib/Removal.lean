import Cdbg.Lib.Table
import Mathlib.Data.List.Sort

/-!
Removing entries by their indices.

The indices name positions before any removal. Removing them one after the other, each
closing its gap, removes the entries at exactly these positions if the last index comes first
(`eraseIdx_last`). `exchangeSort` is the sort that compares a place with all places behind it
and exchanges the two when they are in the wrong order; it puts the largest first
(`exchangeSort_eq`).
-/

namespace List

variable {α : Type}

/-- The entries whose indices are among the given ones. -/
def only (l : List α) (is : List ℕ) : List α :=
  (l.zipIdx.filter fun e => e.2 ∈ is).map Prod.fst

/-- The entries whose indices are not among the given ones. -/
def without (l : List α) (is : List ℕ) : List α :=
  (l.zipIdx.filter fun e => e.2 ∉ is).map Prod.fst

@[simp] lemma only_nil (l : List α) : l.only [] = [] := by
  simp [only]

@[simp] lemma without_nil (l : List α) : l.without [] = l := by
  simp [without]

lemma length_without_le (l : List α) (is : List ℕ) : (l.without is).length ≤ l.length := by
  rw [without, length_map]
  exact (length_filter_le _ _).trans (by rw [length_zipIdx])

/-- Only the indices themselves matter, not how they are listed. -/
lemma only_congr {is js : List ℕ} (h : ∀ i, i ∈ is ↔ i ∈ js) (l : List α) :
    l.only is = l.only js := by
  have hfun : (fun e : α × ℕ => decide (e.2 ∈ is)) = fun e => decide (e.2 ∈ js) := by
    funext e
    exact decide_eq_decide.mpr (h e.2)
  rw [only, only, hfun]

lemma without_congr {is js : List ℕ} (h : ∀ i, i ∈ is ↔ i ∈ js) (l : List α) :
    l.without is = l.without js := by
  have hfun : (fun e : α × ℕ => decide (e.2 ∉ is)) = fun e => decide (e.2 ∉ js) := by
    funext e
    exact decide_eq_decide.mpr (not_congr (h e.2))
  rw [without, without, hfun]

lemma mem_only {l : List α} {is : List ℕ} {a : α} :
    a ∈ l.only is ↔ ∃ i ∈ is, l[i]? = some a := by
  simp only [only, mem_map, mem_filter, decide_eq_true_eq, Prod.exists, mk_mem_zipIdx_iff_getElem?]
  constructor
  · rintro ⟨b, i, ⟨hb, hi⟩, rfl⟩
    exact ⟨i, hi, hb⟩
  · rintro ⟨i, hi, ha⟩
    exact ⟨a, i, ⟨ha, hi⟩, rfl⟩

section Last

variable {is : List ℕ} {pre : List α}

/-- Behind an index above the given ones there is none of them. -/
lemma filter_behind (h : ∀ j ∈ is, j < pre.length) (post : List α) {k : ℕ} (hk : pre.length ≤ k) :
    ((post.zipIdx k).filter fun e => e.2 ∈ is) = [] ∧
      ((post.zipIdx k).filter fun e => e.2 ∉ is) = post.zipIdx k := by
  have hnot : ∀ e ∈ post.zipIdx k, e.2 ∉ is := by
    intro e he hmem
    have hlt := h _ hmem
    have hle := le_snd_of_mem_zipIdx he
    omega
  exact ⟨filter_eq_nil_iff.mpr fun e he => by simpa using hnot e he,
    filter_eq_self.mpr fun e he => decide_eq_true (hnot e he)⟩

lemma only_append (h : ∀ j ∈ is, j < pre.length) (post : List α) :
    (pre ++ post).only is = pre.only is := by
  rw [only, zipIdx_append, filter_append, Nat.zero_add, (filter_behind h post le_rfl).1, append_nil,
    only]

lemma without_append (h : ∀ j ∈ is, j < pre.length) (post : List α) :
    (pre ++ post).without is = pre.without is ++ post := by
  rw [without, zipIdx_append, filter_append, Nat.zero_add, (filter_behind h post le_rfl).2,
    map_append, zipIdx_map_fst, without]

/-- In front of an index it makes no difference. -/
lemma filter_before : (pre.zipIdx.filter fun e => e.2 ∈ pre.length :: is) =
      (pre.zipIdx.filter fun e => e.2 ∈ is) ∧
    (pre.zipIdx.filter fun e => e.2 ∉ pre.length :: is) =
      (pre.zipIdx.filter fun e => e.2 ∉ is) := by
  have hne : ∀ e ∈ pre.zipIdx, e.2 ≠ pre.length := fun e he =>
    (Nat.add_zero pre.length ▸ snd_lt_of_mem_zipIdx he).ne
  constructor <;> exact filter_congr fun e he => by simp [hne e he]

lemma only_append_cons (h : ∀ j ∈ is, j < pre.length) (a : α) (post : List α) :
    (pre ++ a :: post).only (pre.length :: is) = pre.only is ++ [a] := by
  have hbehind : ((post.zipIdx (pre.length + 1)).filter fun e => e.2 ∈ pre.length :: is) = [] := by
    refine filter_eq_nil_iff.mpr fun e he => ?_
    have hle := le_snd_of_mem_zipIdx he
    have hne : e.2 ≠ pre.length := by omega
    have hnot := filter_eq_nil_iff.mp (filter_behind h post (Nat.le_succ _)).1 e he
    simpa [hne] using hnot
  rw [only, zipIdx_append, filter_append, filter_before.1, Nat.zero_add, zipIdx_cons,
    filter_cons_of_pos (by simp), hbehind, map_append, only]
  rfl

lemma without_append_cons (h : ∀ j ∈ is, j < pre.length) (a : α) (post : List α) :
    (pre ++ a :: post).without (pre.length :: is) = pre.without is ++ post := by
  have hbehind : ((post.zipIdx (pre.length + 1)).filter fun e => e.2 ∉ pre.length :: is) =
      post.zipIdx (pre.length + 1) := by
    refine filter_eq_self.mpr fun e he => ?_
    have hle := le_snd_of_mem_zipIdx he
    have hne : e.2 ≠ pre.length := by omega
    have hnot := filter_eq_nil_iff.mp (filter_behind h post (Nat.le_succ _)).1 e he
    simpa [hne] using hnot
  rw [without, zipIdx_append, filter_append, filter_before.2, Nat.zero_add, zipIdx_cons,
    filter_cons_of_neg (by simp), hbehind, map_append, zipIdx_map_fst, without]

end Last

/-- Removing one entry and then those at smaller indices removes them all; these are as they
were, and the first one removed was the last of them. -/
lemma eraseIdx_last {is : List ℕ} {i : ℕ} (h : ∀ j ∈ is, j < i) {l : List α} {a : α}
    (ha : l[i]? = some a) : (l.eraseIdx i).without is = l.without (i :: is) ∧
      (l.eraseIdx i).only is = l.only is ∧ l.only (i :: is) = l.only is ++ [a] := by
  obtain ⟨pre, post, rfl, rfl⟩ : ∃ pre post, l = pre ++ a :: post ∧ pre.length = i := by
    obtain ⟨hi, hget⟩ := getElem?_eq_some_iff.mp ha
    refine ⟨l.take i, l.drop (i + 1), ?_, length_take_of_le hi.le⟩
    rw [← hget, ← drop_eq_getElem_cons, take_append_drop]
  have herase : (pre ++ a :: post).eraseIdx pre.length = pre ++ post := by
    rw [eraseIdx_append_of_length_le le_rfl, Nat.sub_self, eraseIdx_cons_zero]
  rw [herase, without_append h, without_append_cons h, only_append h, only_append h,
    only_append_cons h]
  exact ⟨rfl, rfl, rfl⟩

/-! ### Exchange sort -/

variable [LinearOrder α]

/-- Compare `x` with the entries behind it and exchange it with each larger one: what stands in
its place at the end, and the entries behind it. -/
def sweep : α → List α → α × List α
  | x, [] => (x, [])
  | x, y :: l =>
      if x < y then ((sweep y l).1, x :: (sweep y l).2)
      else ((sweep x l).1, y :: (sweep x l).2)

lemma sweep_perm : ∀ (l : List α) (x : α), ((sweep x l).1 :: (sweep x l).2).Perm (x :: l)
  | [], _ => Perm.refl _
  | y :: l, x => by
      rw [sweep]
      split
      · exact (Perm.swap _ _ _).trans ((sweep_perm l y).cons x)
      · exact (Perm.swap _ _ _).trans (((sweep_perm l x).cons y).trans (Perm.swap _ _ _))

lemma length_sweep (x : α) (l : List α) : (sweep x l).2.length = l.length :=
  Nat.succ.inj (sweep_perm l x).length_eq

lemma le_sweep : ∀ (l : List α) (x : α), x ≤ (sweep x l).1
  | [], _ => le_rfl
  | y :: l, x => by
      rw [sweep]
      split
      next hlt => exact hlt.le.trans (le_sweep l y)
      · exact le_sweep l x

/-- What a sweep puts first is not below anything behind it. -/
lemma sweep_le : ∀ (l : List α) (x : α), ∀ z ∈ (sweep x l).2, z ≤ (sweep x l).1
  | [], _, _, h => absurd h not_mem_nil
  | y :: l, x, z, h => by
      rw [sweep] at h ⊢
      split at h
      next hlt =>
        rw [if_pos hlt]
        rcases mem_cons.mp h with rfl | hz
        · exact hlt.le.trans (le_sweep l y)
        · exact sweep_le l y z hz
      next hle =>
        rw [if_neg hle]
        rcases mem_cons.mp h with rfl | hz
        · exact (not_lt.mp hle).trans (le_sweep l x)
        · exact sweep_le l x z hz

/-- Sort in descending order by exchanging. -/
def exchangeSort : List α → List α
  | [] => []
  | x :: l => (sweep x l).1 :: exchangeSort (sweep x l).2
termination_by l => l.length
decreasing_by simp [length_sweep]

lemma exchangeSort_perm (l : List α) : (exchangeSort l).Perm l := by
  induction l using exchangeSort.induct with
  | case1 => simp [exchangeSort]
  | case2 x l ih =>
      rw [exchangeSort]
      exact (ih.cons _).trans (sweep_perm l x)

lemma exchangeSort_sorted (l : List α) : (exchangeSort l).Pairwise (· ≥ ·) := by
  induction l using exchangeSort.induct with
  | case1 => simp [exchangeSort]
  | case2 x l ih =>
      rw [exchangeSort, pairwise_cons]
      exact ⟨fun z hz => sweep_le l x z ((exchangeSort_perm _).mem_iff.mp hz), ih⟩

lemma exchangeSort_eq (l : List α) : exchangeSort l = l.insertionSort (· ≥ ·) :=
  ((exchangeSort_perm l).trans (perm_insertionSort (· ≥ ·) l).symm).eq_of_pairwise
    (fun _ _ _ _ h h' => le_antisymm h' h) (exchangeSort_sorted l)
    (pairwise_insertionSort (· ≥ ·) l)

end List

/-- The table without the entries at these indices. -/
def Table.without {α : Type} {cap : ℕ} (t : Table α cap) (is : List ℕ) : Table α cap :=
  ⟨t.toList.without is, (t.toList.length_without_le is).trans t.length_le⟩
