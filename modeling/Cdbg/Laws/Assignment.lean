import Cdbg.Lib.Trim
import Cdbg.Repl.Commands

/-!
Where `split_assignment` splits the argument of `set`.

The scan decides for an `=` from its neighbours: it passes over one behind `<`, `>` or `!`
and over one before another `=`. The second sign of `==` is neither, so an assignment is
split there. Without `==` the scan runs over the left side and stops at the assignment sign
(`splitAtEq_compares`); with it, it has stopped before (`splitAtEq_of_double`).
-/

namespace Cdbg

open CString

/-- A text in which every `=` belongs to one of the operators `==`, `!=`, `<=` and `>=`. -/
inductive Compares : Str → Prop
  | nil : Compares []
  | char {c : Char} {s : Str} (hc : c ≠ '=') (h : Compares s) : Compares (c :: s)
  | eq {s : Str} (h : Compares s) : Compares ('=' :: '=' :: s)
  | order {c : Char} {s : Str} (hc : c ∈ ['!', '<', '>']) (h : Compares s) :
      Compares (c :: '=' :: s)

/-- What stands before an assignment sign and what stands behind it; the sign itself is not a
part of an operator. -/
structure Assigns (l r : Str) : Prop where
  compares : Compares l
  lhs : NonBlank l
  rhs : NonBlank r
  before : ∀ c ∈ l.getLast?, c ∉ ['=', '!', '<', '>']
  behind : r.head? ≠ some '='

/-- The first word of a text, without the blanks around the text. -/
def firstWord (s : Str) : Str := (trimSpace s).takeWhile fun c => ! isspace c

/-- What follows the first word. -/
def afterWord (s : Str) : Str := trimSpace ((trimSpace s).dropWhile fun c => ! isspace c)

namespace Compares

variable {s : Str}

lemma ne_of_mem_order {c : Char} (hc : c ∈ ['!', '<', '>']) : c ≠ '=' := by
  rintro rfl
  exact absurd hc (by decide)

lemma of_cons {c : Char} (h : Compares (c :: s)) (hc : isspace c = true) : Compares s := by
  cases h with
  | char _ h => exact h
  | eq h => exact absurd hc (by decide)
  | order hc' h =>
      simp only [List.mem_cons, List.not_mem_nil, or_false] at hc'
      rcases hc' with rfl | rfl | rfl <;> exact absurd hc (by decide)

lemma dropWhile (h : Compares s) : Compares (s.dropWhile isspace) := by
  induction s with
  | nil => exact h
  | cons c s ih =>
      by_cases hc : isspace c = true
      · rw [List.dropWhile_cons_of_pos hc]
        exact ih (h.of_cons hc)
      · rwa [List.dropWhile_cons_of_neg hc]

lemma of_concat {t : Str} {c : Char} (h : Compares t) (hc : c ≠ '=') :
    ∀ {s : Str}, t = s ++ [c] → Compares s := by
  induction h with
  | nil => simp
  | char hd h ih =>
      intro s hs
      cases s with
      | nil => exact nil
      | cons e s =>
          obtain ⟨rfl, htail⟩ := List.cons.inj hs
          exact char hd (ih htail)
  | eq h ih =>
      intro s hs
      match s, hs with
      | [], hs => simp at hs
      | [_], hs => exact absurd (List.cons.inj (List.cons.inj hs).2).1.symm hc
      | e :: f :: s, hs =>
          obtain ⟨rfl, htail⟩ := List.cons.inj hs
          obtain ⟨rfl, hrest⟩ := List.cons.inj htail
          exact eq (ih hrest)
  | order hd h ih =>
      intro s hs
      match s, hs with
      | [], hs => simp at hs
      | [_], hs => exact absurd (List.cons.inj (List.cons.inj hs).2).1.symm hc
      | e :: f :: s, hs =>
          obtain ⟨rfl, htail⟩ := List.cons.inj hs
          obtain ⟨rfl, hrest⟩ := List.cons.inj htail
          exact order hd (ih hrest)

lemma trimEnd (h : Compares s) : Compares (trimEnd s) := by
  induction s using List.reverseRecOn with
  | nil => exact h
  | append_singleton s c ih =>
      by_cases hc : isspace c = true
      · have hne : c ≠ '=' := by
          rintro rfl
          exact absurd hc (by decide)
        rw [CString.trimEnd, List.rdropWhile_concat_pos _ _ _ hc]
        exact ih (h.of_concat hne rfl)
      · rwa [CString.trimEnd, List.rdropWhile_concat_neg _ _ _ hc]

lemma trimSpace (h : Compares s) : Compares (trimSpace s) := h.dropWhile.trimEnd

end Compares

/-! ### The scan -/

lemma splitAtEq_char {c : Char} (hc : c ≠ '=') (before s : Str) :
    splitAtEq before (c :: s) = splitAtEq (before ++ [c]) s := by
  rw [splitAtEq, if_neg fun h => hc h.1]

lemma splitAtEq_order {c : Char} (hc : c ∈ ['!', '<', '>']) (before s : Str) :
    splitAtEq before (c :: '=' :: s) = splitAtEq (before ++ [c] ++ ['=']) s := by
  have hany : (before ++ [c]).getLast?.any (fun d => d = '<' || d = '>' || d = '!') = true := by
    simp only [List.mem_cons, List.not_mem_nil, or_false] at hc
    rw [List.getLast?_concat]
    rcases hc with rfl | rfl | rfl <;> decide
  rw [splitAtEq_char (Compares.ne_of_mem_order hc), splitAtEq, if_neg fun h => h.2.1 hany]

/-- Without `==` the scan passes over the signs of the operators. -/
lemma splitAtEq_compares {l : Str} (h : Compares l) (hno : ¬ ['=', '='] <:+: l) (before t : Str) :
    splitAtEq before (l ++ t) = splitAtEq (before ++ l) t := by
  induction h generalizing before with
  | nil => rw [List.nil_append, List.append_nil]
  | @char c s hc h ih =>
      have hrest := ih (fun hi => hno (List.infix_cons hi)) (before ++ [c])
      rw [List.cons_append, splitAtEq_char hc, hrest, List.append_assoc, List.singleton_append]
  | @eq s h ih => exact absurd (List.prefix_append ['=', '='] s).isInfix hno
  | @order c s hc h ih =>
      have hrest := ih (fun hi => hno (List.infix_cons (List.infix_cons hi)))
        (before ++ [c] ++ ['='])
      rw [List.cons_append, List.cons_append, splitAtEq_order hc, hrest]
      simp

/-- Behind an `=`, or at `==`, the scan stops at the last sign of a row. -/
lemma splitAtEq_of_double {l t : Str} (ht : t.head? = some '=' → l.getLast? ≠ some '=')
    (before : Str)
    (h : ['=', '='] <:+: l ∨ before.getLast? = some '=' ∧ l.head? = some '=') :
    ∃ b a, splitAtEq before (l ++ t) = some (b, a) ∧ b ++ ['='] <+: before ++ l := by
  induction l generalizing before with
  | nil =>
      rcases h with h | h
      · exact absurd (List.infix_nil.mp h) (by simp)
      · cases h.2
  | cons c l ih =>
      rw [List.cons_append, splitAtEq]
      split
      next hc =>
        refine ⟨before, l ++ t, rfl, ?_⟩
        rw [hc.1]
        exact ⟨l, by simp⟩
      next hc =>
        have happ : before ++ c :: l = before ++ [c] ++ l := by simp
        rw [happ]
        have htl : t.head? = some '=' → l.getLast? ≠ some '=' := by
          intro hth hl
          refine ht hth ?_
          cases l with
          | nil => cases hl
          | cons d l => rwa [List.getLast?_cons_cons]
        -- either `==` starts here, or it lies further on, or a row goes on
        have hrow : c = '=' ∧ l.head? = some '=' ∨ ['=', '='] <:+: l := by
          rcases h with h | ⟨hb, hl⟩
          · rcases List.infix_cons_iff.mp h with hpre | hin
            · obtain ⟨rfl, hnext⟩ := List.cons_prefix_cons.mp hpre
              obtain ⟨s, rfl⟩ := hnext
              exact .inl ⟨rfl, rfl⟩
            · exact .inr hin
          · obtain rfl : c = '=' := Option.some.inj hl
            rw [hb] at hc
            have hnext : (l ++ t).head? = some '=' := by
              by_contra hne
              exact hc ⟨rfl, by decide, hne⟩
            cases l with
            | nil => exact absurd rfl (ht hnext)
            | cons d l => exact .inl ⟨rfl, hnext⟩
        rcases hrow with ⟨rfl, hl⟩ | hin
        · exact ih htl _ (.inr ⟨List.getLast?_concat, hl⟩)
        · exact ih htl _ (.inl hin)

/-- Where every `=` belongs to an operator, a split is behind the first sign of `==`. -/
lemma getLast_of_splitAtEq {s : Str} (h : Compares s) {before b a : Str}
    (hs : splitAtEq before s = some (b, a)) : b.getLast? = some '=' := by
  induction h generalizing before with
  | nil => cases hs
  | char hc h ih =>
      rw [splitAtEq_char hc] at hs
      exact ih hs
  | eq h ih =>
      rw [splitAtEq, if_neg (by simp), splitAtEq] at hs
      split at hs
      · obtain ⟨rfl, -⟩ := Prod.mk.inj (Option.some.inj hs)
        exact List.getLast?_concat
      · exact ih hs
  | order hc h ih =>
      rw [splitAtEq_order hc] at hs
      exact ih hs

/-! ### The split -/

lemma splitAssignment_of_split {s b a : Str} (h : splitAtEq [] (trimSpace s) = some (b, a)) :
    splitAssignment s =
      if trimSpace b = [] ∨ trimSpace a = [] then none else some (trimSpace b, trimSpace a) := by
  rw [splitAssignment, h]

lemma splitAssignment_of_none {s w rest : Str} {c : Char}
    (h : splitAtEq [] (trimSpace s) = none)
    (hw : (trimSpace s).takeWhile (fun c => ! isspace c) = w)
    (hrest : (trimSpace s).dropWhile (fun c => ! isspace c) = c :: rest) :
    splitAssignment s = if trimSpace w = [] ∨ trimSpace rest = [] then none
      else some (trimSpace w, trimSpace rest) := by
  simp only [splitAssignment, h, hw, hrest]

/-- A text cannot be the same as one it lies in with a character more that is no blank. -/
lemma trimSpace_ne_of_prefix {b l : Str} {d : Char} (hd : isspace d = false)
    (h : b ++ [d] <+: l) : trimSpace b ≠ trimSpace l := by
  intro heq
  have hle := (h.sublist.countP_le (p := fun c => ! isspace c))
  rw [← countP_trimSpace l, ← heq, countP_trimSpace, List.countP_append] at hle
  simp [hd] at hle

namespace Assigns

variable {l r : Str}

/-- The text that is scanned. -/
lemma trimSpace_eq (h : Assigns l r) :
    trimSpace (l ++ '=' :: r) = l.dropWhile isspace ++ '=' :: trimEnd r := by
  have hsign : NonBlank ('=' :: r) := ⟨'=', List.mem_cons_self, by decide⟩
  rw [trimSpace_append h.lhs hsign]
  exact congrArg _ (trimEnd_append_of_nonBlank ['='] h.rhs)

/-- The assignment sign is found if nothing before it is. -/
lemma split (h : Assigns l r) (hno : ¬ ['=', '='] <:+: l) :
    splitAtEq [] (trimSpace (l ++ '=' :: r)) = some (l.dropWhile isspace, trimEnd r) := by
  have hdrop : ¬ ['=', '='] <:+: l.dropWhile isspace := fun hi =>
    hno ((infix_dropWhile (by decide)).mp hi)
  have hlast : (l.dropWhile isspace).getLast? = l.getLast? := by
    have hne : l.dropWhile isspace ≠ [] := by
      obtain ⟨c, hc, _⟩ := nonBlank_dropWhile.mpr h.lhs
      exact List.ne_nil_of_mem hc
    conv_rhs => rw [← List.takeWhile_append_dropWhile (p := isspace) (l := l)]
    exact (List.getLast?_append_of_ne_nil _ hne).symm
  have hbefore : (l.dropWhile isspace).getLast?.any (fun d => d = '<' || d = '>' || d = '!') ≠
      true := by
    rw [hlast]
    intro hany
    obtain ⟨c, hc, hcs⟩ := (Option.any_eq_true _ _).mp hany
    refine h.before c hc ?_
    simp only [Bool.or_eq_true, decide_eq_true_eq] at hcs
    rcases hcs with (rfl | rfl) | rfl <;> decide
  have hbehind : (trimEnd r).head? ≠ some '=' := by
    obtain ⟨s, hs⟩ : trimEnd r <+: r := List.rdropWhile_prefix _ _
    intro hhead
    refine h.behind ?_
    rw [← hs, List.head?_append, hhead]
    rfl
  rw [h.trimSpace_eq, splitAtEq_compares h.compares.dropWhile hdrop, List.nil_append, splitAtEq,
    if_pos ⟨rfl, hbefore, hbehind⟩]

end Assigns

/-- A word and the text behind it, in a text with a blank inside. -/
lemma firstWord_cases {s : Str} (hs : ∃ c ∈ trimSpace s, isspace c = true) :
    ∃ c rest, isspace c = true ∧ trimSpace s = firstWord s ++ c :: rest ∧
      (trimSpace s).dropWhile (fun c => ! isspace c) = c :: rest ∧
      trimSpace (firstWord s) = firstWord s ∧ firstWord s ≠ [] ∧ NonBlank rest := by
  have happ := List.takeWhile_append_dropWhile (p := fun c => ! isspace c) (l := trimSpace s)
  have hword : ∀ c ∈ firstWord s, isspace c = false := fun c hc => by
    simpa using List.mem_takeWhile_imp hc
  cases hdrop : (trimSpace s).dropWhile fun c => ! isspace c with
  | nil =>
      obtain ⟨c, hc, hsp⟩ := hs
      have hall := List.dropWhile_eq_nil_iff.mp hdrop c hc
      simp [hsp] at hall
  | cons c rest =>
      -- the word ends at a blank
      have hc : isspace c = true := by
        have hnot := List.head_dropWhile_not (fun c => ! isspace c) (l := trimSpace s)
          (by rw [hdrop]; exact List.cons_ne_nil _ _)
        simpa [hdrop] using hnot
      rw [hdrop] at happ
      refine ⟨c, rest, hc, happ.symm, rfl, ?_, ?_, ?_⟩
      · exact trimSpace_eq_self (fun d hd => hword d (List.mem_of_mem_head? hd))
          fun d hd => hword d (List.mem_of_mem_getLast? hd)
      · intro hnil
        have hhead : (trimSpace s).head? = some c := by
          rw [← happ]
          change (firstWord s ++ c :: rest).head? = some c
          rw [hnil]
          rfl
        rw [head_trimSpace s c hhead] at hc
        cases hc
      -- the trimmed text does not end in blanks, so something follows
      · by_contra hblank
        have hall := not_nonBlank.mp hblank
        have hend : ∀ d ∈ (c :: rest).getLast?, isspace d = true := by
          intro d hd
          rcases List.mem_cons.mp (List.mem_of_mem_getLast? hd) with rfl | hd
          · exact hc
          · exact hall d hd
        have hlast : (trimSpace s).getLast? = (c :: rest).getLast? := by
          rw [← happ, List.getLast?_append_of_ne_nil _ (List.cons_ne_nil c rest)]
        have hd := List.getLast?_eq_some_getLast (List.cons_ne_nil c rest)
        have hfalse := getLast_trimSpace s _ (hlast.trans hd)
        rw [hend _ hd] at hfalse
        cases hfalse

/-- An assignment is split at its sign exactly without `==` before the sign. -/
lemma splitAssignment_assigns {l r : Str} (h : Assigns l r) :
    splitAssignment (l ++ '=' :: r) = some (trimSpace l, trimSpace r) ↔ ¬ "==".toList <:+: l := by
  have hsign : isspace '=' = false := by decide
  refine ⟨fun hsplit hin => ?_, fun hno => ?_⟩
  -- the split lies inside the left side
  · have hdrop : ['=', '='] <:+: l.dropWhile isspace := (infix_dropWhile hsign).mpr hin
    have hlast : ('=' :: trimEnd r).head? = some '=' →
        (l.dropWhile isspace).getLast? ≠ some '=' := by
      intro _ hl
      refine h.before '=' ?_ (by simp)
      rw [← List.takeWhile_append_dropWhile (p := isspace) (l := l), List.getLast?_append, hl]
      rfl
    obtain ⟨b, a, hb, hpre⟩ := splitAtEq_of_double hlast [] (.inl hdrop)
    rw [splitAssignment_of_split (h.trimSpace_eq ▸ hb)] at hsplit
    split at hsplit
    · cases hsplit
    · obtain ⟨heq, -⟩ := Prod.mk.inj (Option.some.inj hsplit)
      rw [← trimSpace_dropWhile l] at heq
      exact trimSpace_ne_of_prefix hsign hpre heq
  · have hl : trimSpace (l.dropWhile isspace) = trimSpace l := trimSpace_dropWhile l
    have hr : trimSpace (trimEnd r) = trimSpace r := trimSpace_trimEnd r
    rw [splitAssignment_of_split (h.split hno), hl, hr,
      if_neg (not_or.mpr ⟨trimSpace_ne_nil h.lhs, trimSpace_ne_nil h.rhs⟩)]

/-- A text without an assignment sign is split behind its first word exactly without `==`. -/
lemma splitAssignment_compares {s : Str} (hs : Compares s)
    (hblank : ∃ c ∈ trimSpace s, isspace c = true) :
    splitAssignment s = some (firstWord s, afterWord s) ↔ ¬ "==".toList <:+: s := by
  have hsign : isspace '=' = false := by decide
  refine ⟨fun hsplit hin => ?_, fun hno => ?_⟩
  -- the split lies behind an `=`, which ends no word followed by a blank
  · obtain ⟨c, rest, hc, htext, -, -, -, -⟩ := firstWord_cases hblank
    have hinside : ['=', '='] <:+: trimSpace s :=
      (infix_trimSpace (t := []) hsign hsign).mpr hin
    obtain ⟨b, a, hb, hpre⟩ := splitAtEq_of_double (t := []) nofun [] (.inl hinside)
    rw [List.append_nil] at hb
    rw [List.nil_append] at hpre
    have hbtrim : trimSpace b = b := by
      refine trimSpace_eq_self (fun d hd => head_trimSpace s d ?_) fun d hd => ?_
      · obtain ⟨t, ht⟩ := hpre
        rw [← ht, List.head?_append, List.head?_append, hd]
        rfl
      · rw [getLast_of_splitAtEq hs.trimSpace hb] at hd
        exact Option.some.inj hd ▸ hsign
    rw [splitAssignment_of_split hb] at hsplit
    split at hsplit
    · cases hsplit
    · obtain ⟨heq, -⟩ := Prod.mk.inj (Option.some.inj hsplit)
      rw [hbtrim] at heq
      rw [heq, htext, List.prefix_append_right_inj] at hpre
      rw [(List.cons_prefix_cons.mp hpre).1.symm, hsign] at hc
      cases hc
  · obtain ⟨c, rest, hc, -, hdrop, hw, hne, hrest⟩ := firstWord_cases hblank
    have hinside : ¬ ['=', '='] <:+: trimSpace s := fun hi =>
      hno ((infix_trimSpace (t := []) hsign hsign).mp hi)
    have hnone : splitAtEq [] (trimSpace s) = none := by
      have hscan := splitAtEq_compares hs.trimSpace hinside [] []
      rwa [List.append_nil] at hscan
    have hafter : afterWord s = trimSpace rest := by
      rw [afterWord, hdrop, trimSpace_eq, List.dropWhile_cons_of_pos hc, ← trimSpace_eq]
    have hkeep : ¬ (trimSpace (firstWord s) = [] ∨ trimSpace rest = []) :=
      not_or.mpr ⟨hw.symm ▸ hne, trimSpace_ne_nil hrest⟩
    rw [splitAssignment_of_none hnone (w := firstWord s) rfl hdrop, if_neg hkeep, hw, hafter]

/-- An assignment is split at its sign, and a text without one behind its first word, exactly
if there is no `==` before the sign, in the text. -/
theorem splitAssignment_iff (l r s : Str) :
    (Assigns l r → (splitAssignment (l ++ '=' :: r) = some (trimSpace l, trimSpace r) ↔
      ¬ "==".toList <:+: l)) ∧
    (Compares s → (∃ c ∈ trimSpace s, isspace c = true) →
      (splitAssignment s = some (firstWord s, afterWord s) ↔ ¬ "==".toList <:+: s)) :=
  ⟨splitAssignment_assigns, splitAssignment_compares⟩

/-- A comparison of another kind in the index, and any in the value, do no harm. -/
theorem splitAssignment_order :
    splitAssignment ("a[i<=1] ".toList ++ '=' :: " b==2".toList) =
      some (trimSpace "a[i<=1] ".toList, trimSpace " b==2".toList) := by
  refine ((splitAssignment_iff _ _ []).1
    ⟨?_, by decide, by decide, fun c hc => ?_, by decide⟩).mpr (by decide)
  on_goal 2 =>
    obtain rfl : ' ' = c := Option.some.inj hc
    decide
  exact .char (by decide) (.char (by decide) (.char (by decide) (.order (by decide)
    (.char (by decide) (.char (by decide) (.char (by decide) .nil))))))

/-- An element chosen by `==` is not assigned to: the text is split inside the operator. -/
theorem splitAssignment_subscript :
    Assigns "a[i==1] ".toList " 5".toList ∧
      splitAssignment ("a[i==1] ".toList ++ '=' :: " 5".toList) =
        some ("a[i=".toList, "1] = 5".toList) ∧
      splitAssignment ("a[i==1] ".toList ++ '=' :: " 5".toList) ≠
        some (trimSpace "a[i==1] ".toList, trimSpace " 5".toList) := by
  refine ⟨⟨?_, by decide, by decide, fun c hc => ?_, by decide⟩, by decide, by decide⟩
  on_goal 2 =>
    obtain rfl : ' ' = c := Option.some.inj hc
    decide
  exact .char (by decide) (.char (by decide) (.char (by decide) (.eq (.char (by decide)
    (.char (by decide) (.char (by decide) .nil))))))

end Cdbg
