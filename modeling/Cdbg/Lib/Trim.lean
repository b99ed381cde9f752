import Cdbg.Lib.CString
import Mathlib.Data.List.DropRight

/-!
Texts trimmed at both ends.

Trimming stops at the first and at the last character that is no blank, so a text that has
one shields what stands beyond it.
-/

namespace CString

variable {s t : Str}

/-- A text with a character that is no blank. -/
def NonBlank (s : Str) : Prop := ∃ c ∈ s, isspace c = false

instance (s : Str) : Decidable (NonBlank s) :=
  List.decidableBEx (fun c => isspace c = false) s

/-- Drop the blanks at the end. -/
def trimEnd (s : Str) : Str := s.rdropWhile isspace

lemma trimSpace_eq (s : Str) : trimSpace s = trimEnd (s.dropWhile isspace) := rfl

lemma length_trimSpace_le (s : Str) : (trimSpace s).length ≤ s.length := by
  have hback := (List.dropWhile_suffix isspace (l := (s.dropWhile isspace).reverse)).length_le
  have hfront := (List.dropWhile_suffix isspace (l := s)).length_le
  rw [List.length_reverse] at hback
  rw [trimSpace, List.length_reverse]
  exact hback.trans hfront

lemma nonBlank_append : NonBlank (s ++ t) ↔ NonBlank s ∨ NonBlank t := by
  simp [NonBlank, or_and_right, exists_or]

lemma not_nonBlank : ¬ NonBlank s ↔ ∀ c ∈ s, isspace c = true := by simp [NonBlank]

lemma dropWhile_of_not_nonBlank (h : ¬ NonBlank s) : s.dropWhile isspace = [] :=
  List.dropWhile_eq_nil_iff.mpr (not_nonBlank.mp h)

/-- What is no blank stops the trimming from the left. -/
lemma dropWhile_append_of_nonBlank (h : NonBlank s) (t : Str) :
    (s ++ t).dropWhile isspace = s.dropWhile isspace ++ t := by
  have hne : (s.dropWhile isspace).isEmpty = false := by
    rw [Bool.eq_false_iff, ne_eq, List.isEmpty_iff, List.dropWhile_eq_nil_iff]
    exact mt not_nonBlank.mpr (not_not.mpr h)
  rw [List.dropWhile_append, hne]
  rfl

/-- And from the right. -/
lemma trimEnd_append_of_nonBlank (s : Str) (h : NonBlank t) :
    trimEnd (s ++ t) = s ++ trimEnd t := by
  obtain ⟨c, hc, hsp⟩ := h
  have hr : NonBlank t.reverse := ⟨c, List.mem_reverse.mpr hc, hsp⟩
  rw [trimEnd, trimEnd, List.rdropWhile, List.rdropWhile, List.reverse_append,
    dropWhile_append_of_nonBlank hr, List.reverse_append, List.reverse_reverse]

lemma trimSpace_append (hs : NonBlank s) (ht : NonBlank t) :
    trimSpace (s ++ t) = s.dropWhile isspace ++ trimEnd t := by
  rw [trimSpace_eq, dropWhile_append_of_nonBlank hs, trimEnd_append_of_nonBlank _ ht]

lemma trimSpace_dropWhile (s : Str) : trimSpace (s.dropWhile isspace) = trimSpace s := by
  rw [trimSpace_eq, trimSpace_eq, List.dropWhile_idempotent]

lemma nonBlank_dropWhile : NonBlank (s.dropWhile isspace) ↔ NonBlank s := by
  have happ := List.takeWhile_append_dropWhile (p := isspace) (l := s)
  have htake : ¬ NonBlank (s.takeWhile isspace) :=
    not_nonBlank.mpr fun c hc => List.mem_takeWhile_imp hc
  conv_rhs => rw [← happ, nonBlank_append]
  exact ⟨.inr, fun h => h.resolve_left htake⟩

lemma nonBlank_trimEnd : NonBlank (trimEnd s) ↔ NonBlank s := by
  have happ : s.rdropWhile isspace ++ s.rtakeWhile isspace = s :=
    List.rdropWhile_append_rtakeWhile
  have htake : ¬ NonBlank (s.rtakeWhile isspace) :=
    not_nonBlank.mpr fun c hc => List.mem_rtakeWhile_imp hc
  conv_rhs => rw [← happ, nonBlank_append]
  exact ⟨.inl, fun h => h.resolve_right htake⟩

lemma trimSpace_eq_nil : trimSpace s = [] ↔ ¬ NonBlank s := by
  rw [trimSpace_eq, trimEnd, List.rdropWhile_eq_nil_iff, ← not_nonBlank, nonBlank_dropWhile]

lemma trimSpace_ne_nil (h : NonBlank s) : trimSpace s ≠ [] := fun hs => trimSpace_eq_nil.mp hs h

/-- Blanks at the end are dropped. -/
lemma trimEnd_append_blanks (s : Str) (h : ∀ c ∈ t, isspace c = true) :
    trimEnd (s ++ t) = trimEnd s := by
  induction t using List.reverseRecOn with
  | nil => rw [List.append_nil]
  | append_singleton t c ih =>
      have hc : isspace c = true := h c (by simp)
      rw [← List.append_assoc, trimEnd, List.rdropWhile_concat_pos _ _ _ hc]
      exact ih fun d hd => h d (List.mem_append_left _ hd)

/-- Trimming the end first changes nothing. -/
lemma trimSpace_trimEnd (s : Str) : trimSpace (trimEnd s) = trimSpace s := by
  by_cases h : NonBlank s
  · have happ : trimEnd s ++ s.rtakeWhile isspace = s := List.rdropWhile_append_rtakeWhile
    have hdrop : s.dropWhile isspace =
        (trimEnd s).dropWhile isspace ++ s.rtakeWhile isspace := by
      conv_lhs => rw [← happ]
      exact dropWhile_append_of_nonBlank (nonBlank_trimEnd.mpr h) _
    rw [trimSpace_eq, trimSpace_eq, hdrop]
    exact (trimEnd_append_blanks _ fun c hc => List.mem_rtakeWhile_imp hc).symm
  · rw [trimSpace_eq_nil.mpr h, trimSpace_eq_nil.mpr (mt nonBlank_trimEnd.mp h)]

/-- Trimming removes blanks only. -/
lemma countP_trimSpace (s : Str) :
    (trimSpace s).countP (fun c => ! isspace c) = s.countP fun c => ! isspace c := by
  have hend : ∀ t : Str, (trimEnd t).countP (fun c => ! isspace c) =
      t.countP fun c => ! isspace c := by
    intro t
    have happ : trimEnd t ++ t.rtakeWhile isspace = t := List.rdropWhile_append_rtakeWhile
    have hzero : (t.rtakeWhile isspace).countP (fun c => ! isspace c) = 0 := by
      rw [List.countP_eq_zero]
      intro c hc
      simp [List.mem_rtakeWhile_imp hc]
    conv_rhs => rw [← happ, List.countP_append, hzero, Nat.add_zero]
  have happ := List.takeWhile_append_dropWhile (p := isspace) (l := s)
  have hzero : (s.takeWhile isspace).countP (fun c => ! isspace c) = 0 := by
    rw [List.countP_eq_zero]
    intro c hc
    simp [List.mem_takeWhile_imp hc]
  rw [trimSpace_eq, hend]
  conv_rhs => rw [← happ, List.countP_append, hzero, Nat.zero_add]

/-- A part that begins with no blank is not cut by trimming from the left. -/
lemma infix_dropWhile {d : Char} {t : Str} (hd : isspace d = false) :
    d :: t <:+: s.dropWhile isspace ↔ d :: t <:+: s := by
  induction s with
  | nil => rfl
  | cons c s ih =>
      by_cases hc : isspace c = true
      · have hne : ¬ d :: t <+: c :: s := by
          intro hpre
          rw [(List.cons_prefix_cons.mp hpre).1, hc] at hd
          cases hd
        rw [List.dropWhile_cons_of_pos hc, ih, List.infix_cons_iff]
        exact ⟨.inr, fun h => h.resolve_left hne⟩
      · rw [List.dropWhile_cons_of_neg hc]

/-- A part whose first and last characters are no blanks is not cut by trimming. -/
lemma infix_trimSpace {d e : Char} {t : Str} (hd : isspace d = false) (he : isspace e = false) :
    d :: t ++ [e] <:+: trimSpace s ↔ d :: t ++ [e] <:+: s := by
  have hrev : (d :: t ++ [e]).reverse = e :: (d :: t).reverse := by simp
  rw [trimSpace, ← List.reverse_infix, List.reverse_reverse, hrev, infix_dropWhile he, ← hrev,
    List.reverse_infix]
  exact infix_dropWhile hd

/-- A text whose first and last characters are no blanks is trimmed already. -/
lemma trimSpace_eq_self (hfirst : ∀ c ∈ s.head?, isspace c = false)
    (hlast : ∀ c ∈ s.getLast?, isspace c = false) : trimSpace s = s := by
  have hdrop : s.dropWhile isspace = s := by
    cases s with
    | nil => rfl
    | cons c s => rw [List.dropWhile_cons_of_neg (by simp [hfirst c rfl])]
  rw [trimSpace_eq, hdrop, trimEnd, List.rdropWhile_eq_self_iff]
  intro hne
  simp [hlast _ (List.getLast?_eq_some_getLast hne)]

/-- The first character of a trimmed text is no blank. -/
lemma head_trimSpace (s : Str) : ∀ c ∈ (trimSpace s).head?, isspace c = false := by
  intro c hc
  obtain ⟨t, ht⟩ : trimSpace s <+: s.dropWhile isspace := List.rdropWhile_prefix _ _
  have hhead : (s.dropWhile isspace).head? = some c := by
    rw [← ht, List.head?_append, hc]
    rfl
  have hne : s.dropWhile isspace ≠ [] := by
    rintro h
    rw [h] at hhead
    cases hhead
  have hnot := List.head_dropWhile_not isspace hne
  rwa [List.head_eq_iff_head?_eq_some hne |>.mpr hhead] at hnot

/-- And so is the last. -/
lemma getLast_trimSpace (s : Str) : ∀ c ∈ (trimSpace s).getLast?, isspace c = false := by
  intro c hc
  have hne : trimSpace s ≠ [] := by
    rintro h
    rw [h] at hc
    cases hc
  have hnot := List.rdropWhile_last_not (p := isspace) _ hne
  have hlast : (trimSpace s).getLast hne = c := by
    rw [List.getLast?_eq_some_getLast hne] at hc
    exact Option.some.inj hc
  rw [← hlast]
  exact Bool.eq_false_iff.mpr hnot

end CString
