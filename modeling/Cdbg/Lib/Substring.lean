import Cdbg.Lib.Numeral

/-!
Texts put together of parts, and what is read back of them: where `strstr` finds a word, how
`fgets` cuts lines, and hexadecimal numbers as `printf` pads them.
-/

namespace CString

/-! ### Occurrence -/

/-- A part without the first character of a word is passed over. -/
lemma strstr_append_of_notMem {p t : Str} {d : Char} (ht : t.head? = some d) (hp : d ∉ p)
    (s : Str) : strstr (p ++ s) t = strstr s t := by
  obtain ⟨t, rfl⟩ := List.head?_eq_some_iff.mp ht
  induction p with
  | nil => rfl
  | cons c p ih =>
      obtain ⟨hc, hp⟩ := not_or.mp (mt List.mem_cons.mpr hp)
      rw [List.cons_append, strstr_cons, if_neg (by simp [List.isPrefixOf, hc])]
      exact ih hp

/-- A word is found where a text begins with it. -/
lemma strstr_self_append (t s : Str) : strstr (t ++ s) t = some (t ++ s) := by
  cases t with
  | nil => cases s <;> rfl
  | cons c t =>
      rw [List.cons_append, strstr_cons, if_pos]
      exact List.isPrefixOf_iff_prefix.mpr ⟨s, rfl⟩

/-- Behind a word goes on what follows it. -/
lemma drop_word (w : String) (s : Str) : (w.toList ++ s).drop w.length = s :=
  List.drop_left' w.length_toList

lemma hasSubstr_append_of_notMem {p t : Str} {d : Char} (ht : t.head? = some d) (hp : d ∉ p)
    (s : Str) : hasSubstr (p ++ s) t = hasSubstr s t := by
  rw [hasSubstr, strstr_append_of_notMem ht hp, hasSubstr]

lemma hasSubstr_self_append (t s : Str) : hasSubstr (t ++ s) t = true := by
  rw [hasSubstr, strstr_self_append]
  rfl

/-- A word with a character that a text lacks does not occur in it. -/
lemma hasSubstr_eq_false {s t : Str} {c : Char} (ht : c ∈ t) (hs : c ∉ s) :
    hasSubstr s t = false := by
  rw [← Bool.not_eq_true, hasSubstr_iff]
  exact fun h => hs (h.subset ht)

/-- Where a part of a word does not occur, the word does not. -/
lemma hasSubstr_of_isInfix {s t u : Str} (h : hasSubstr s u = false) (hu : u <:+: t) :
    hasSubstr s t = false := by
  rw [← Bool.not_eq_true, hasSubstr_iff] at h ⊢
  exact fun ht => h (hu.trans ht)

lemma strstr_eq_none {s t : Str} (h : hasSubstr s t = false) : strstr s t = none :=
  Option.isNone_iff_eq_none.mp (Option.isSome_eq_false_iff.mp h)

/-- A word without this character lies on one side of it. -/
lemma hasSubstr_append_cons {t : Str} {c : Char} (ht : c ∉ t) (hne : t ≠ []) (p s : Str) :
    hasSubstr (p ++ c :: s) t = (hasSubstr p t || hasSubstr s t) := by
  have hpre (u : Str) (hu : u ≠ []) (hsub : u ⊆ t) : ¬ u <+: c :: s := by
    cases u with
    | nil => exact absurd rfl hu
    | cons d u =>
        intro h
        obtain ⟨rfl, -⟩ := List.cons_prefix_cons.mp h
        exact ht (hsub List.mem_cons_self)
  rw [Bool.eq_iff_iff, Bool.or_eq_true, hasSubstr_iff, hasSubstr_iff, hasSubstr_iff,
    List.infix_append_iff_ne_nil, List.infix_cons_iff]
  constructor
  · rintro (h | (h | h) | ⟨u, v, -, hv, rfl, -, hvs⟩)
    · exact .inl h
    · exact absurd h (hpre t hne (List.Subset.refl t))
    · exact .inr h
    · exact absurd hvs (hpre v hv (List.subset_append_right u v))
  · rintro (h | h)
    · exact .inl h
    · exact .inr (.inl (.inr h))

/-- A word without this character is not made by adding it. -/
lemma hasSubstr_concat {s t : Str} {c : Char} (ht : c ∉ t) (hne : t ≠ []) :
    hasSubstr (s ++ [c]) t = hasSubstr s t := by
  have hnil : hasSubstr [] t = false := by
    rw [hasSubstr, strstr, if_neg hne]
    rfl
  rw [hasSubstr_append_cons ht hne, hnil, Bool.or_false]

/-- A word that begins like a text, but goes on otherwise, where its first character does not
occur again. -/
lemma strstr_append_of_ne {d : Char} {p s t : Str} (ht : t.head? = some d) (hd : d ∉ p)
    (hne : ¬ t.take (d :: p).length <+: d :: p) : strstr (d :: (p ++ s)) t = strstr s t := by
  have hpre : ¬ t.isPrefixOf (d :: (p ++ s)) = true := by
    rw [List.isPrefixOf_iff_prefix]
    intro h
    exact hne (List.prefix_of_prefix_length_le ((List.take_prefix _ t).trans h)
      (List.prefix_append (d :: p) s) (List.length_take_le _ t))
  rw [strstr_cons, if_neg hpre, strstr_append_of_notMem ht hd]

lemma hasSubstr_append_of_ne {d : Char} {p s t : Str} (ht : t.head? = some d) (hd : d ∉ p)
    (hne : ¬ t.take (d :: p).length <+: d :: p) :
    hasSubstr (d :: (p ++ s)) t = hasSubstr s t := by
  rw [hasSubstr, strstr_append_of_ne ht hd hne, hasSubstr]

/-- A word that begins like a text, where its beginning does not occur again. -/
lemma hasSubstr_append_append {d : Char} {p s : Str} (hd : d ∉ p)
    (hs : hasSubstr s (d :: p) = false) (t : Str) :
    hasSubstr (d :: (p ++ s)) (d :: (p ++ t)) = decide (t <+: s) := by
  have hpre : (d :: (p ++ t)).isPrefixOf (d :: (p ++ s)) = decide (t <+: s) := by
    rw [Bool.eq_iff_iff, List.isPrefixOf_iff_prefix, decide_eq_true_eq, List.cons_prefix_cons,
      List.prefix_append_right_inj]
    exact and_iff_right rfl
  have hrest : strstr (p ++ s) (d :: (p ++ t)) = none := by
    rw [strstr_append_of_notMem rfl hd]
    exact strstr_eq_none (hasSubstr_of_isInfix hs (List.prefix_append (d :: p) t).isInfix)
  rw [hasSubstr, strstr_cons, hpre, hrest]
  by_cases h : t <+: s <;> simp [h]

/-! ### Lines -/

/-- A line as `fgets` reads it. -/
def ended (l : Str) : Str := l ++ ['\n']

/-- Lines that fit the buffer are read one by one. -/
lemma fgetsAll_of_short {size : ℕ} {ls : List Str} (h : ∀ l ∈ ls, l.length + 1 < size) :
    fgetsAll size ls = ls.map ended := by
  have hpiece : ∀ l ∈ ls, pieces (size - 2) (l.length + 1) (l ++ ['\n']) = [ended l] := by
    intro l hl
    have hlt := h l hl
    cases l with
    | nil => simp [pieces, ended]
    | cons c l =>
        have hlen : (l ++ ['\n']).length ≤ size - 2 := by
          simp only [List.length_cons, List.length_append, List.length_nil] at hlt ⊢
          omega
        rw [List.cons_append, pieces, List.take_of_length_le hlen, List.drop_of_length_le hlen]
        rfl
  rw [fgetsAll, List.map_eq_flatMap]
  exact List.flatMap_congr hpiece

/-! ### Numbers with leading zeros -/

/-- `printf ("%0*x", width, n)`. -/
def padHex (width n : ℕ) : Str :=
  List.replicate (width - (Nat.toDigits 16 n).length) '0' ++ Nat.toDigits 16 n

/-- A number that is not too large fills the width. -/
lemma length_padHex {width n : ℕ} (hw : 0 < width) (hn : n < 16 ^ width) :
    (padHex width n).length = width := by
  have hlen : (Nat.toDigits 16 n).length ≤ width :=
    Nat.toDigits_length 16 n width hw hn
  rw [padHex, List.length_append, List.length_replicate]
  omega

/-- `printf ("%*u", width, n)`. -/
def padDec (width n : ℕ) : Str :=
  List.replicate (width - (Nat.toDigits 10 n).length) ' ' ++ Nat.toDigits 10 n

/-- `printf ("0x%0*x", width, n)`. -/
def hexText (width n : ℕ) : Str := '0' :: 'x' :: padHex width n

lemma digits_zeros (base k : ℕ) (hb : 0 < base) (s : Str) :
    digits base 0 (List.replicate k '0' ++ s) = digits base 0 s := by
  induction k with
  | zero => rfl
  | succ k ih =>
      rw [List.replicate_succ, List.cons_append, digits, if_pos (by simpa [digitValue, isdigit])]
      simpa [digitValue, isdigit] using ih

/-- The first digit of a padded number. -/
lemma padHex_eq_cons (width n : ℕ) : ∃ c ds, padHex width n = c :: ds ∧ digitValue c < 16 := by
  obtain ⟨c, ds, hcs, hc⟩ := toDigits_eq_cons (by decide : 1 < 16) (by decide) n
  rw [padHex]
  cases width - (Nat.toDigits 16 n).length with
  | zero => exact ⟨c, ds, hcs, hc⟩
  | succ k => exact ⟨'0', List.replicate k '0' ++ Nat.toDigits 16 n, rfl, by decide⟩

/-- A padded number is read to its end. -/
lemma digits_padHex (width n : ℕ) {s : Str} (hs : NoDigit 16 s) :
    digits 16 0 (padHex width n ++ s) = (n, s) := by
  rw [padHex, List.append_assoc, digits_zeros 16 _ (by decide)]
  exact digits_toDigits (by decide) (by decide) n hs

/-- The digits of a number. -/
lemma mem_toDigits {base n : ℕ} (hb : 1 < base) (hb' : base ≤ 16) {c : Char}
    (h : c ∈ Nat.toDigits base n) : c ∈ "0123456789abcdef".toList := by
  have hdigit : ∀ d < 16, Nat.digitChar d ∈ "0123456789abcdef".toList := by decide
  induction n using Nat.strong_induction_on with
  | _ n ih =>
    rw [Nat.toDigits_eq_if hb] at h
    split at h
    next hlt =>
      rw [List.mem_singleton.mp h]
      exact hdigit n (by omega)
    next =>
      rcases List.mem_append.mp h with h | h
      · exact ih _ (Nat.div_lt_self (by omega) hb) h
      · rw [List.mem_singleton.mp h]
        exact hdigit _ ((Nat.mod_lt _ (by omega)).trans_le hb')

lemma mem_padHex {width n : ℕ} {c : Char} (h : c ∈ padHex width n) :
    c ∈ "0123456789abcdef".toList := by
  rcases List.mem_append.mp h with h | h
  · rw [List.eq_of_mem_replicate h]
    decide
  · exact mem_toDigits (by decide) (by decide) h

lemma mem_padDec {width n : ℕ} {c : Char} (h : c ∈ padDec width n) :
    c ∈ " 0123456789abcdef".toList := by
  rcases List.mem_append.mp h with h | h
  · rw [List.eq_of_mem_replicate h]
    decide
  · exact List.mem_cons_of_mem _ (mem_toDigits (by decide) (by decide) h)

/-- The characters of a written number. -/
lemma mem_hexText {width n : ℕ} {c : Char} (h : c ∈ hexText width n) :
    c ∈ "0123456789abcdefx".toList := by
  have hsub : "0123456789abcdef".toList ⊆ "0123456789abcdefx".toList := by decide
  rcases List.mem_cons.mp h with rfl | h
  · decide
  rcases List.mem_cons.mp h with rfl | h
  · decide
  exact hsub (mem_padHex h)

/-- `strtoull` reads a number with the prefix `0x` back. -/
lemma strtoull_hexText (width : ℕ) (n : BitVec 64) {s : Str} (hs : NoDigit 16 s) :
    strtoull 16 (hexText width n.toNat ++ s) = some (n, s) := by
  obtain ⟨c, ds, hcs, hc⟩ := padHex_eq_cons width n.toNat
  have hread := digits_padHex width n.toNat hs
  rw [hcs, List.cons_append] at hread
  have hscan : scanNumber 16 (hexText width n.toNat ++ s) = some (false, n.toNat, s) := by
    have hsp : isspace '0' = false := by decide
    rw [hexText, hcs]
    simp [scanNumber, hsp, baseOf, hexPrefixed, hc, hread]
  rw [strtoull, hscan]
  simp only [Bool.false_eq_true, if_false]
  rw [if_neg (by have := n.isLt; omega), BitVec.ofNat_toNat, BitVec.setWidth_eq]

/-- Without a zero there is no prefix. -/
lemma hexPrefixed_eq_none {c : Char} (h : c ≠ '0') (s : Str) : hexPrefixed (c :: s) = none := by
  rw [hexPrefixed.eq_def]
  split
  next heq => exact absurd (List.cons.inj heq).1 h
  next => rfl

/-- `strtoull` reads a padded number back. -/
lemma strtoull_padHex {width : ℕ} (hw : 2 ≤ width) (n : BitVec 64) {s : Str}
    (hs : NoDigit 16 s) : strtoull 16 (padHex width n.toNat ++ s) = some (n, s) := by
  obtain ⟨c, ds, hcs, hc⟩ := padHex_eq_cons width n.toNat
  obtain ⟨hsp, hminus, hplus⟩ := not_isspace_of_digitValue (c := c) (by omega)
  have hread := digits_padHex width n.toNat hs
  rw [hcs, List.cons_append] at hread
  -- the second character is a digit, so there is no prefix
  have hprefix : hexPrefixed (c :: (ds ++ s)) = none := by
    have hlen : 2 ≤ (padHex width n.toNat).length := by
      rw [padHex, List.length_append, List.length_replicate]
      omega
    rcases ds with _ | ⟨d, ds⟩
    · rw [hcs] at hlen
      simp at hlen
    · have hmem : d ∈ padHex width n.toNat := by
        rw [hcs]
        simp
      have hd : d ∈ "0123456789abcdef".toList := mem_padHex hmem
      have hx : d ≠ 'x' ∧ d ≠ 'X' := by
        constructor <;> rintro rfl <;> revert hd <;> decide
      rw [hexPrefixed.eq_def]
      split
      next heq =>
        obtain ⟨-, heq⟩ := List.cons.inj heq
        obtain ⟨rfl, -⟩ := List.cons.inj heq
        simp [hx]
      · rfl
  have hscan : scanNumber 16 (padHex width n.toNat ++ s) = some (false, n.toNat, s) := by
    rw [hcs, List.cons_append]
    simp [scanNumber, hsp, hminus, hplus, baseOf, hprefix, hc, hread]
  rw [strtoull, hscan]
  simp only [Bool.false_eq_true, if_false]
  rw [if_neg (by have := n.isLt; omega), BitVec.ofNat_toNat, BitVec.setWidth_eq]

end CString
