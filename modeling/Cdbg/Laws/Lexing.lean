import Cdbg.Expr.Print
import Cdbg.Lib.Numeral
import Mathlib.Data.List.TakeWhile

/-!
Tokens joined with blanks are lexed back: a blank ends every token, for no rule of the lexer
goes on over one.
-/

namespace Cdbg

open CString

namespace Token

/-- Whether a text is empty or starts with a blank. -/
def AtBlank (s : Str) : Prop := ∀ c ∈ s.head?, c = ' '

lemma atBlank_nil : AtBlank [] := nofun

lemma atBlank_cons (s : Str) : AtBlank (' ' :: s) := by
  intro c hc
  exact (Option.mem_some.mp hc).symm

variable {rest : Str}

lemma takeWhile_append {p : Char → Bool} (hp : p ' ' = false) (hr : AtBlank rest) (s : Str) :
    (s ++ rest).takeWhile p = s.takeWhile p := by
  induction s with
  | nil =>
      cases rest with
      | nil => rfl
      | cons c rest =>
          obtain rfl := hr c rfl
          rw [List.nil_append, List.takeWhile_cons_of_neg (by simp [hp]), List.takeWhile_nil]
  | cons c s ih => rw [List.cons_append, List.takeWhile_cons, List.takeWhile_cons, ih]

lemma dropWhile_append {p : Char → Bool} (hp : p ' ' = false) (hr : AtBlank rest) (s : Str) :
    (s ++ rest).dropWhile p = s.dropWhile p ++ rest := by
  induction s with
  | nil =>
      cases rest with
      | nil => rfl
      | cons c rest =>
          obtain rfl := hr c rfl
          rw [List.nil_append, List.dropWhile_cons_of_neg (by simp [hp])]
          rfl
  | cons c s ih =>
      rw [List.cons_append, List.dropWhile_cons, List.dropWhile_cons, ih]
      split <;> rfl

/-! ### Numbers -/

lemma digits_append_blank (hr : AtBlank rest) (n : ℕ) (s : Str) :
    digits 10 n (s ++ rest) = ((digits 10 n s).1, (digits 10 n s).2 ++ rest) := by
  induction s generalizing n with
  | nil =>
      refine digits_of_noDigit fun c hc => ?_
      rw [hr c hc]
      decide
  | cons c s ih =>
      rw [List.cons_append, digits, digits]
      split
      · exact ih _
      · rfl

lemma dropSuffix_append {letters : List Char} (hl : ' ' ∉ letters) (hr : AtBlank rest) (s : Str) :
    dropSuffix letters (s ++ rest) = dropSuffix letters s ++ rest := by
  cases s with
  | nil =>
      cases rest with
      | nil => rfl
      | cons c rest =>
          obtain rfl := hr c rfl
          exact if_neg hl
  | cons c s =>
      rw [List.cons_append, dropSuffix, dropSuffix]
      split <;> rfl

lemma hexPrefixed_of_ne {c : Char} (h : c ≠ '0') (s : Str) : hexPrefixed (c :: s) = none := by
  rw [hexPrefixed]
  intro x d s' heq
  exact h (List.cons.inj heq).1

lemma hexPrefixed_append (hr : AtBlank rest) (s : Str) :
    hexPrefixed (s ++ rest) = (hexPrefixed s).map (· ++ rest) := by
  rcases s with _ | ⟨a, s⟩
  · cases rest with
    | nil => rfl
    | cons c rest =>
        obtain rfl := hr c rfl
        rfl
  by_cases ha : a = '0'
  · subst ha
    rcases s with _ | ⟨b, _ | ⟨c, s⟩⟩
    · rcases rest with _ | ⟨c, _ | ⟨d, rest⟩⟩
      · rfl
      · rfl
      · obtain rfl := hr c rfl
        rfl
    · cases rest with
      | nil => rfl
      | cons c rest =>
          obtain rfl := hr c rfl
          -- a blank is no digit
          have hblank : ((b = 'x' || b = 'X') && digitValue ' ' < 16) = false := by
            rw [Bool.and_eq_false_imp]
            exact fun _ => by decide
          exact if_neg (by rw [hblank]; decide)
    · simp only [List.cons_append, hexPrefixed]
      split <;> rfl
  · rw [List.cons_append, hexPrefixed_of_ne ha, hexPrefixed_of_ne ha]
    rfl

/-- The digits of an exponent, behind its sign. -/
def exponentDigits (neg : Bool) (s : Str) : Option (ℤ × Str) :=
  match s with
  | [] => none
  | c :: _ =>
      if isdigit c then
        some (if neg then -((digits 10 0 s).1 : ℤ) else (digits 10 0 s).1, (digits 10 0 s).2)
      else none

lemma exponentDigits_append (hr : AtBlank rest) (neg : Bool) (s : Str) :
    exponentDigits neg (s ++ rest) = (exponentDigits neg s).map fun r => (r.1, r.2 ++ rest) := by
  rcases s with _ | ⟨c, s⟩
  · cases rest with
    | nil => rfl
    | cons c rest =>
        obtain rfl := hr c rfl
        rfl
  · rw [List.cons_append, exponentDigits, exponentDigits, ← List.cons_append,
      digits_append_blank hr]
    split <;> rfl

/-- The sign of an exponent and the text behind it. -/
def exponentSign (s : Str) : Bool × Str :=
  match s with
  | '+' :: s' => (false, s')
  | '-' :: s' => (true, s')
  | _ => (false, s)

lemma exponentSign_of_ne {c : Char} (hplus : c ≠ '+') (hminus : c ≠ '-') (s : Str) :
    exponentSign (c :: s) = (false, c :: s) := by
  rw [exponentSign]
  · intro t ht
    exact hplus (List.cons.inj ht).1
  · intro t ht
    exact hminus (List.cons.inj ht).1

lemma exponentSign_append (hr : AtBlank rest) (s : Str) :
    exponentSign (s ++ rest) = ((exponentSign s).1, (exponentSign s).2 ++ rest) := by
  rcases s with _ | ⟨c, s⟩
  · cases rest with
    | nil => rfl
    | cons c rest =>
        obtain rfl := hr c rfl
        rfl
  · by_cases hplus : c = '+'
    · rw [hplus]
      rfl
    · by_cases hminus : c = '-'
      · rw [hminus]
        rfl
      · rw [List.cons_append, exponentSign_of_ne hplus hminus, exponentSign_of_ne hplus hminus]
        rfl

lemma exponent_cons {e : Char} (he : e = 'e' ∨ e = 'E') (s : Str) :
    exponent (e :: s) = exponentDigits (exponentSign s).1 (exponentSign s).2 := if_pos he

lemma exponent_of_ne {e : Char} (he : ¬ (e = 'e' ∨ e = 'E')) (s : Str) :
    exponent (e :: s) = none := if_neg he

lemma exponent_append (hr : AtBlank rest) (s : Str) :
    exponent (s ++ rest) = (exponent s).map fun r => (r.1, r.2 ++ rest) := by
  rcases s with _ | ⟨e, s⟩
  · cases rest with
    | nil => rfl
    | cons c rest =>
        obtain rfl := hr c rfl
        rfl
  · rw [List.cons_append]
    by_cases he : e = 'e' ∨ e = 'E'
    · rw [exponent_cons he, exponent_cons he, exponentSign_append hr, exponentDigits_append hr]
    · rw [exponent_of_ne he, exponent_of_ne he]
      rfl

/-- The part of a number behind its first digits. -/
def lexFraction (whole s : Str) : Token × Str :=
  match s with
  | '.' :: rest =>
      match exponent (rest.dropWhile isdigit) with
      | some (e, rest') =>
          (float whole (rest.takeWhile isdigit) e, dropSuffix ['f', 'F', 'l', 'L'] rest')
      | none =>
          (float whole (rest.takeWhile isdigit) 0,
            dropSuffix ['f', 'F', 'l', 'L'] (rest.dropWhile isdigit))
  | rest =>
      match exponent rest with
      | some (e, rest') => (float whole [] e, dropSuffix ['f', 'F', 'l', 'L'] rest')
      | none => (integer whole, rest)

lemma lexNumber_eq (s : Str) : lexNumber s =
    match hexPrefixed s with
    | some h => (integer ('0' :: 'x' :: h.takeWhile isxdigit), h.dropWhile isxdigit)
    | none => lexFraction (s.takeWhile isdigit) (s.dropWhile isdigit) := rfl

lemma lexFraction_of_ne {s : Str} (h : ∀ t, s ≠ '.' :: t) (whole : Str) :
    lexFraction whole s =
      match exponent s with
      | some (e, rest) => (float whole [] e, dropSuffix ['f', 'F', 'l', 'L'] rest)
      | none => (integer whole, s) := by
  rw [lexFraction]
  exact h

lemma lexFraction_append (hr : AtBlank rest) (whole s : Str) :
    lexFraction whole (s ++ rest) =
      ((lexFraction whole s).1, (lexFraction whole s).2 ++ rest) := by
  have hdrop : ∀ t, dropSuffix ['f', 'F', 'l', 'L'] (t ++ rest) =
      dropSuffix ['f', 'F', 'l', 'L'] t ++ rest := dropSuffix_append (by decide) hr
  by_cases hdot : ∃ t, s = '.' :: t
  · obtain ⟨t, rfl⟩ := hdot
    simp only [List.cons_append, lexFraction, takeWhile_append (p := isdigit) rfl hr,
      dropWhile_append (p := isdigit) rfl hr, exponent_append hr, hdrop]
    cases exponent (t.dropWhile isdigit) <;> simp [hdrop]
  · have hs : ∀ t, s ≠ '.' :: t := fun t ht => hdot ⟨t, ht⟩
    have hsr : ∀ t, s ++ rest ≠ '.' :: t := by
      intro t ht
      rcases s with _ | ⟨c, s⟩
      · exact absurd (hr '.' (by rw [List.nil_append] at ht; rw [ht]; rfl)) (by decide)
      · exact hs s (by rw [(List.cons.inj ht).1])
    rw [lexFraction_of_ne hs, lexFraction_of_ne hsr, exponent_append hr]
    cases exponent s <;> simp [hdrop]

lemma lexNumber_append (hr : AtBlank rest) (s : Str) :
    lexNumber (s ++ rest) = ((lexNumber s).1, (lexNumber s).2 ++ rest) := by
  rw [lexNumber_eq, lexNumber_eq, hexPrefixed_append hr]
  cases hexPrefixed s with
  | none =>
      simp only [Option.map_none, takeWhile_append (p := isdigit) rfl hr,
        dropWhile_append (p := isdigit) rfl hr, lexFraction_append hr]
  | some h =>
      simp only [Option.map_some, takeWhile_append (p := isxdigit) (by decide) hr,
        dropWhile_append (p := isxdigit) (by decide) hr]

/-! ### Decimal numbers -/

lemma lexOne_digit {c : Char} (h : isdigit c = true) (s : Str) :
    lexOne c s = (some (lexNumber (c :: s)).1, (lexNumber (c :: s)).2) := by
  have hblank : ¬ (c = ' ' ∨ c = '\t' ∨ c = '\n') := by
    rintro (rfl | rfl | rfl) <;> exact absurd h (by decide)
  rw [lexOne.eq_def, if_neg hblank, if_pos h]

/-- A positive number does not begin with a zero. -/
lemma toDigits_head_ne_zero {n : ℕ} (h : n ≠ 0) : ∀ c ∈ (Nat.toDigits 10 n).head?, c ≠ '0' := by
  induction n using Nat.strong_induction_on with
  | _ n ih =>
    rw [Nat.toDigits_eq_if (by decide)]
    split
    · rename_i hlt
      rintro c hc rfl
      have hchar : ∀ m < 10, m ≠ 0 → Nat.digitChar m ≠ '0' := by decide
      exact hchar n hlt h (Option.mem_some.mp hc)
    · have hdiv : n / 10 ≠ 0 := by omega
      have hhead := ih (n / 10) (by omega) hdiv
      obtain ⟨c, ds, hcs, -⟩ := toDigits_eq_cons (by decide : 1 < 10) (by decide) (n / 10)
      rw [hcs] at hhead ⊢
      exact hhead

/-- An integer in decimal is a literal. -/
lemma isLiteral_decimal (n : BitVec 64) : IsLiteral n false (Nat.toDigits 10 n.toNat) := by
  by_cases hzero : n.toNat = 0
  · have hn : n = 0 := BitVec.eq_of_toNat_eq hzero
    subst hn
    decide
  obtain ⟨c, ds, hcs, hc⟩ := toDigits_eq_cons (by decide : 1 < 10) (by decide) n.toNat
  have hne : c ≠ '0' := toDigits_head_ne_zero hzero c (by rw [hcs]; rfl)
  have hall : ∀ d ∈ c :: ds, isdigit d = true := by
    intro d hd
    refine isdigit_of_digitValue ?_
    exact digitValue_lt_of_mem_toDigits (by decide : 1 < 10) (by decide) n.toNat d (hcs ▸ hd)
  have htake : (c :: ds).takeWhile isdigit = c :: ds := List.takeWhile_eq_self_iff.mpr hall
  have hdrop : (c :: ds).dropWhile isdigit = [] := List.dropWhile_eq_nil_iff.mpr hall
  have hbase : strtoull 0 (c :: ds) = strtoull 10 (c :: ds) := by
    obtain ⟨hsp, hminus, hplus⟩ := not_isspace_of_digitValue (c := c) (by omega)
    simp [strtoull, scanNumber, hsp, hminus, hplus, baseOf, hexPrefixed_of_ne hne, hne]
  have hvalue : strtoull 0 (c :: ds) = some (n, []) := by
    have hread := strtoull_decimal n.toNat (noDigit_nil 10)
    have hlt := n.isLt
    rw [List.append_nil, if_neg (by omega), BitVec.ofNat_toNat, BitVec.setWidth_eq, hcs] at hread
    rw [hbase, hread]
  have hlex : lexNumber (c :: ds) = (.number n false, []) := by
    rw [lexNumber_eq, hexPrefixed_of_ne hne, htake, hdrop]
    change (integer (c :: ds), ([] : Str)) = _
    rw [integer, hvalue]
    rfl
  rw [hcs]
  refine ⟨.inl (hall c List.mem_cons_self), ?_⟩
  rw [lexOne_digit (hall c List.mem_cons_self), hlex]

/-! ### Tokens -/

/-- A text that is one number is read up to the blank behind it. -/
lemma lexOne_literal {value : BitVec 64} {isFloat : Bool} {c : Char} {s : Str}
    (hr : AtBlank rest) (h : IsLiteral value isFloat (c :: s)) :
    lexOne c (s ++ rest) = (some (.number value isFloat), rest) := by
  obtain ⟨hstart, hlex⟩ := h
  by_cases hc : isdigit c = true
  · rw [lexOne_digit hc] at hlex ⊢
    obtain ⟨htoken, hrest⟩ := Prod.mk.inj hlex
    rw [← List.cons_append, lexNumber_append hr, htoken, hrest]
    rfl
  · obtain rfl := hstart.resolve_left hc
    rcases s with _ | ⟨d, s⟩
    · cases hlex
    · have hthird : ∀ t : Str, lexOne '.' (d :: t) =
          if '.' = '.' ∧ isdigit d = true then
            (some (float [] ((d :: t).takeWhile isdigit) 0),
              dropSuffix ['f', 'F'] ((d :: t).dropWhile isdigit))
          else (some (.char '.'), d :: t) := fun _ => rfl
      by_cases hd : isdigit d = true
      · have hpoint := fun t => (hthird t).trans (if_pos ⟨rfl, hd⟩)
        rw [hpoint] at hlex
        obtain ⟨htoken, hrest⟩ := Prod.mk.inj hlex
        rw [List.cons_append, hpoint, ← List.cons_append, takeWhile_append (p := isdigit) rfl hr,
          dropWhile_append (p := isdigit) rfl hr, dropSuffix_append (by decide) hr, htoken, hrest]
        rfl
      · rw [hthird, if_neg fun hand => hd hand.2] at hlex
        cases hlex

lemma isIdStart_not_digit {c : Char} (h : isIdStart c = true) : isdigit c = false := by
  by_contra hd
  rw [Bool.not_eq_false, isdigit, Bool.and_eq_true, decide_eq_true_eq, decide_eq_true_eq] at hd
  rw [isIdStart, isalpha, Bool.or_eq_true, Bool.or_eq_true, Bool.and_eq_true, Bool.and_eq_true,
    decide_eq_true_eq, decide_eq_true_eq, decide_eq_true_eq, decide_eq_true_eq,
    decide_eq_true_eq] at h
  obtain ⟨_, hle⟩ := hd
  rcases h with (⟨hge, _⟩ | ⟨hge, _⟩) | rfl
  · exact absurd (Char.le_trans hge hle) (by decide)
  · exact absurd (Char.le_trans hge hle) (by decide)
  · exact absurd hle (by decide)

/-- An identifier is read up to what does not belong to it. -/
lemma lexOne_name {c : Char} {s r : Str} (hstart : isIdStart c = true)
    (hchars : ∀ d ∈ s, isIdChar d = true) (hr : ∀ d ∈ r.head?, isIdChar d = false) :
    lexOne c (s ++ r) = (some (.ident (truncate 128 (c :: s))), r) := by
  have hblank : ¬ (c = ' ' ∨ c = '\t' ∨ c = '\n') := by
    rintro (rfl | rfl | rfl) <;> exact absurd hstart (by decide)
  have hdigit : ¬ isdigit c = true := by
    rw [isIdStart_not_digit hstart]
    decide
  have htake : (s ++ r).takeWhile isIdChar = s ∧ (s ++ r).dropWhile isIdChar = r := by
    rw [List.takeWhile_append_of_pos hchars, List.dropWhile_append_of_pos hchars]
    cases r with
    | nil => simp
    | cons d r =>
        have hd : isIdChar d = false := hr d rfl
        rw [List.takeWhile_cons_of_neg (by simp [hd]), List.dropWhile_cons_of_neg (by simp [hd]),
          List.append_nil]
        exact ⟨rfl, rfl⟩
  rw [lexOne.eq_def, if_neg hblank, if_neg hdigit, if_pos hstart, htake.1, htake.2]

/-- Its first 127 characters are kept, and it ends at a blank. -/
lemma lexOne_identifier {c : Char} {s : Str} (hr : AtBlank rest) (h : IsIdentifier (c :: s)) :
    lexOne c (s ++ rest) = (some (.ident (c :: s)), rest) := by
  obtain ⟨hstart, hchars, hlen⟩ := h
  have hcut : truncate 128 (c :: s) = c :: s := by
    rw [truncate, List.take_of_length_le]
    rw [List.length_cons]
    omega
  have hends : ∀ d ∈ rest.head?, isIdChar d = false := by
    intro d hd
    rw [hr d hd]
    decide
  rw [lexOne_name hstart hchars hends, hcut]

/-- The characters that are tokens of their own. -/
def symbols : List Char :=
  ['|', '^', '&', '<', '>', '+', '-', '*', '/', '%', '!', '~', '.', '(', ')', '[', ']']

lemma lexOne_symbol {c : Char} (hr : AtBlank rest) (h : c ∈ symbols) :
    lexOne c rest = (some (.char c), rest) := by
  simp only [symbols, List.mem_cons, List.not_mem_nil, or_false] at h
  rcases rest with _ | ⟨d, rest⟩
  · rcases h with h | h | h | h | h | h | h | h | h | h | h | h | h | h | h | h | h <;>
      subst h <;> rfl
  · obtain rfl := hr d rfl
    rcases h with h | h | h | h | h | h | h | h | h | h | h | h | h | h | h | h | h <;>
      subst h <;> rfl

/-- The tokens that have a text. -/
def Valid (spell : BitVec 64 → Bool → Str) : Token → Prop
  | .number value isFloat => IsLiteral value isFloat (spell value isFloat)
  | .ident name => IsIdentifier name
  | .char c => c ∈ symbols
  | .arrow | .andand | .oror | .eq | .ne | .le | .ge | .shl | .shr => True

/-- The text of a token is read up to the blank behind it. -/
lemma lexOne_text {spell : BitVec 64 → Bool → Str} {t : Token} (h : t.Valid spell) :
    ∃ c s, t.text spell = c :: s ∧
      ∀ rest, AtBlank rest → lexOne c (s ++ rest) = (some t, rest) := by
  cases t with
  | number value isFloat =>
      change IsLiteral value isFloat (spell value isFloat) at h
      rw [text]
      rcases hs : spell value isFloat with _ | ⟨c, s⟩
      · rw [hs] at h
        exact h.elim
      · rw [hs] at h
        exact ⟨c, s, rfl, fun rest hr => lexOne_literal hr h⟩
  | ident name =>
      rcases name with _ | ⟨c, s⟩
      · exact h.elim
      · exact ⟨c, s, rfl, fun rest hr => lexOne_identifier hr h⟩
  | char c => exact ⟨c, [], rfl, fun rest hr => lexOne_symbol hr h⟩
  | arrow | andand | oror | eq | ne | le | ge | shl | shr => exact ⟨_, _, rfl, fun _ _ => rfl⟩

lemma lexFuel_nil (n : ℕ) : lexFuel n [] = [] := by
  cases n <;> rfl

/-- Tokens joined with blanks are lexed back. -/
lemma lex_join {spell : BitVec 64 → Bool → Str} {ts : List Token} (h : ∀ t ∈ ts, t.Valid spell) :
    lex (join spell ts) = ts := by
  suffices hfuel : ∀ n, (join spell ts).length ≤ n → lexFuel n (join spell ts) = ts from
    hfuel _ le_rfl
  induction ts with
  | nil => exact fun n _ => lexFuel_nil n
  | cons t ts ih =>
      obtain ⟨c, s, htext, hlex⟩ := lexOne_text (h t List.mem_cons_self)
      intro n hn
      cases ts with
      | nil =>
          have hone := hlex [] atBlank_nil
          rw [List.append_nil] at hone
          rw [join, htext, List.length_cons] at hn
          obtain ⟨m, rfl⟩ : ∃ m, n = m + 1 := ⟨n - 1, by omega⟩
          rw [join, htext, lexFuel, hone]
          exact congrArg (t :: ·) (lexFuel_nil m)
      | cons u ts =>
          have hrest := ih fun v hv => h v (List.mem_cons_of_mem t hv)
          have hone := hlex (' ' :: join spell (u :: ts)) (atBlank_cons _)
          rw [join, htext, List.cons_append, List.length_cons, List.length_append,
            List.length_cons] at hn
          obtain ⟨m, rfl⟩ : ∃ m, n = m + 2 := ⟨n - 2, by omega⟩
          have hblank : lexFuel (m + 1) (' ' :: join spell (u :: ts)) =
              lexFuel m (join spell (u :: ts)) := rfl
          rw [join, htext, List.cons_append, lexFuel, hone]
          change t :: lexFuel (m + 1) (' ' :: join spell (u :: ts)) = _
          rw [hblank, hrest m (by omega)]

end Token

end Cdbg
