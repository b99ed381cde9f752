import Cdbg.Lib.CString
import Mathlib.Data.List.TakeWhile
import Mathlib.Data.Nat.Log

/-!
Numbers written in a base and read back by the `strtol` family.

A number is written with the digits of `Nat.toDigits`; the reader stops at the first
character that is no digit of the base, so what follows the number must not begin with
one.
-/

namespace CString

/-- Whether a text does not go on with a digit of a base. -/
def NoDigit (base : ℕ) (s : Str) : Prop := ∀ c ∈ s.head?, base ≤ digitValue c

lemma noDigit_nil (base : ℕ) : NoDigit base [] := by
  intro c hc
  cases hc

lemma noDigit_cons {base : ℕ} {c : Char} {s : Str} :
    NoDigit base (c :: s) ↔ base ≤ digitValue c := by
  simp [NoDigit]

/-- The reader at a text that does not go on with a digit. -/
lemma digits_of_noDigit {base n : ℕ} {s : Str} (h : NoDigit base s) :
    digits base n s = (n, s) := by
  cases s with
  | nil => rfl
  | cons c s => rw [digits, if_neg (by have := noDigit_cons.mp h; omega)]

/-- The reader runs over a block of digits. -/
lemma digits_append {base : ℕ} {ds : Str} (hds : ∀ c ∈ ds, digitValue c < base) (n : ℕ) (s : Str) :
    digits base n (ds ++ s) = digits base (ds.foldl (fun m c => m * base + digitValue c) n) s := by
  induction ds generalizing n with
  | nil => rfl
  | cons c ds ih =>
      rw [List.cons_append, digits, if_pos (hds c List.mem_cons_self), List.foldl_cons]
      exact ih (fun d hd => hds d (List.mem_cons_of_mem c hd)) _

lemma digitValue_digitChar : ∀ d < 16, digitValue (Nat.digitChar d) = d := by decide

lemma digitValue_lt_of_mem_toDigits {base : ℕ} (hb : 1 < base) (hb' : base ≤ 16) (n : ℕ) :
    ∀ c ∈ Nat.toDigits base n, digitValue c < base := by
  induction n using Nat.strong_induction_on with
  | _ n ih =>
    intro c hc
    rw [Nat.toDigits_eq_if hb] at hc
    split at hc
    · rw [List.mem_singleton.mp hc, digitValue_digitChar n (by omega)]
      assumption
    · rcases List.mem_append.mp hc with hc | hc
      · exact ih _ (Nat.div_lt_self (by omega) hb) c hc
      · have hlt := Nat.mod_lt n (show base > 0 by omega)
        rw [List.mem_singleton.mp hc, digitValue_digitChar _ (by omega)]
        exact hlt

lemma foldl_toDigits {base : ℕ} (hb : 1 < base) (hb' : base ≤ 16) (n : ℕ) :
    (Nat.toDigits base n).foldl (fun m c => m * base + digitValue c) 0 = n := by
  induction n using Nat.strong_induction_on with
  | _ n ih =>
    rw [Nat.toDigits_eq_if hb]
    split
    · rw [List.foldl_cons, List.foldl_nil, digitValue_digitChar n (by omega)]
      omega
    · have hlt := Nat.mod_lt n (show base > 0 by omega)
      rw [List.foldl_append, ih _ (Nat.div_lt_self (by omega) hb), List.foldl_cons,
        List.foldl_nil, digitValue_digitChar _ (by omega)]
      exact Nat.div_add_mod' n base

/-- What is written is read back. -/
lemma digits_toDigits {base : ℕ} (hb : 1 < base) (hb' : base ≤ 16) (n : ℕ) {s : Str}
    (hs : NoDigit base s) : digits base 0 (Nat.toDigits base n ++ s) = (n, s) := by
  rw [digits_append (digitValue_lt_of_mem_toDigits hb hb' n), foldl_toDigits hb hb',
    digits_of_noDigit hs]

/-- The first character of a written number. -/
lemma toDigits_eq_cons {base : ℕ} (hb : 1 < base) (hb' : base ≤ 16) (n : ℕ) :
    ∃ c ds, Nat.toDigits base n = c :: ds ∧ digitValue c < base := by
  cases h : Nat.toDigits base n with
  | nil => exact absurd h Nat.toDigits_ne_nil
  | cons c ds =>
      exact ⟨c, ds, rfl, digitValue_lt_of_mem_toDigits hb hb' n c (h ▸ List.mem_cons_self)⟩

/-- A digit is neither a blank nor a sign. -/
lemma not_isspace_of_digitValue {c : Char} (h : digitValue c < 36) :
    isspace c = false ∧ c ≠ '-' ∧ c ≠ '+' := by
  refine ⟨?_, ?_, ?_⟩
  · by_contra hsp
    rw [Bool.not_eq_false, isspace] at hsp
    simp only [Bool.or_eq_true, decide_eq_true_eq] at hsp
    rcases hsp with ((((rfl | rfl) | rfl) | rfl) | rfl) | rfl <;> exact absurd h (by decide)
  · rintro rfl
    exact absurd h (by decide)
  · rintro rfl
    exact absurd h (by decide)

/-- A decimal number at the start of a text. -/
lemma scanNumber_decimal (n : ℕ) {s : Str} (hs : NoDigit 10 s) :
    scanNumber 10 (Nat.toDigits 10 n ++ s) = some (false, n, s) := by
  obtain ⟨c, ds, hcs, hc⟩ := toDigits_eq_cons (by decide : 1 < 10) (by decide) n
  obtain ⟨hsp, hminus, hplus⟩ := not_isspace_of_digitValue (c := c) (by omega)
  have hdrop : (Nat.toDigits 10 n ++ s).dropWhile isspace = c :: (ds ++ s) := by
    rw [hcs, List.cons_append, List.dropWhile_cons_of_neg (by simp [hsp])]
  have hread := digits_toDigits (by decide : 1 < 10) (by decide) n hs
  rw [hcs, List.cons_append] at hread
  simp [scanNumber, hdrop, hminus, hplus, baseOf, hc, hread]

/-- `strtoull` reads a decimal number back, as far as it fits. -/
lemma strtoull_decimal (n : ℕ) {s : Str} (hs : NoDigit 10 s) :
    strtoull 10 (Nat.toDigits 10 n ++ s) =
      some (if 2 ^ 64 ≤ n then BitVec.allOnes 64 else BitVec.ofNat 64 n, s) := by
  rw [strtoull, scanNumber_decimal n hs]
  simp only [Bool.false_eq_true, if_false]
  split <;> rfl

/-- A decimal number with a sign in front. -/
lemma scanNumber_signed (neg : Bool) (n : ℕ) {s : Str} (hs : NoDigit 10 s) :
    scanNumber 10 ((if neg = true then '-' else '+') :: (Nat.toDigits 10 n ++ s)) =
      some (neg, n, s) := by
  obtain ⟨c, ds, hcs, hc⟩ := toDigits_eq_cons (by decide : 1 < 10) (by decide) n
  have hread := digits_toDigits (by decide : 1 < 10) (by decide) n hs
  have hminus : isspace '-' = false := by decide
  have hplus : isspace '+' = false := by decide
  rw [hcs, List.cons_append] at hread ⊢
  cases neg <;> simp [scanNumber, hminus, hplus, baseOf, hc, hread]

/-! ### What has been read -/

/-- The reader takes the digits at the start and adds them up. -/
lemma digits_spec {base m : ℕ} {rest : Str} : ∀ {s : Str} {n : ℕ}, digits base n s = (m, rest) →
    ∃ ds, s = ds ++ rest ∧ (∀ c ∈ ds, digitValue c < base) ∧
      m = ds.foldl (fun m c => m * base + digitValue c) n
  | [], n, h => by
      obtain ⟨rfl, rfl⟩ := Prod.mk.inj h
      exact ⟨[], rfl, by simp, rfl⟩
  | c :: s, n, h => by
      rw [digits] at h
      split at h
      next hc =>
        obtain ⟨ds, hs, hds, hm⟩ := digits_spec h
        refine ⟨c :: ds, by rw [hs, List.cons_append], ?_, hm⟩
        intro d hd
        rcases List.mem_cons.mp hd with rfl | hd
        · exact hc
        · exact hds d hd
      next =>
        obtain ⟨rfl, rfl⟩ := Prod.mk.inj h
        exact ⟨[], rfl, by simp, rfl⟩

lemma isdigit_of_digitValue {c : Char} (h : digitValue c < 10) : isdigit c = true := by
  by_contra hd
  rw [digitValue, if_neg hd] at h
  split at h
  · omega
  · split at h <;> omega

/-- A decimal digit is written with its own character. -/
lemma digitChar_digitValue {c : Char} (h : digitValue c < 10) :
    Nat.digitChar (digitValue c) = c := by
  have hc := isdigit_of_digitValue h
  have hval : digitValue c = c.toNat - '0'.toNat := by rw [digitValue, if_pos hc]
  simp only [isdigit, Bool.and_eq_true, decide_eq_true_eq] at hc
  have hlow : '0'.toNat ≤ c.toNat := hc.1
  have hchar : c = Char.ofNat ('0'.toNat + digitValue c) := by
    rw [hval, Nat.add_sub_cancel' hlow, Char.ofNat_toNat]
  rw [hchar]
  generalize digitValue c = d at h
  revert d
  decide

/-- Decimal digits are a number with zeros before it. -/
lemma eq_zeros_append_toDigits {ds : Str} (h : ∀ c ∈ ds, digitValue c < 10) (hne : ds ≠ []) :
    ∃ zeros, (∀ c ∈ zeros, c = '0') ∧
      ds = zeros ++ Nat.toDigits 10 (ds.foldl (fun m c => m * 10 + digitValue c) 0) := by
  induction ds using List.reverseRecOn with
  | nil => exact absurd rfl hne
  | append_singleton ds c ih =>
      have hc := h c (by simp)
      have hchar := digitChar_digitValue hc
      rw [List.foldl_append, List.foldl_cons, List.foldl_nil]
      rcases eq_or_ne ds [] with rfl | hds
      · refine ⟨[], by simp, ?_⟩
        rw [List.foldl_nil, Nat.zero_mul, Nat.zero_add, Nat.toDigits_of_lt_base hc, hchar,
          List.nil_append]
      · obtain ⟨zeros, hz, hrest⟩ := ih (fun d hd => h d (List.mem_append_left _ hd)) hds
        generalize ds.foldl (fun m c => m * 10 + digitValue c) 0 = n at hrest ⊢
        rw [hrest]
        rcases Nat.eq_zero_or_pos n with rfl | hn
        · refine ⟨zeros ++ ['0'], ?_, ?_⟩
          · intro d hd
            rcases List.mem_append.mp hd with hd | hd
            · exact hz d hd
            · exact List.mem_singleton.mp hd
          · rw [Nat.zero_mul, Nat.zero_add, Nat.toDigits_of_lt_base hc, hchar]
            rfl
        · refine ⟨zeros, hz, ?_⟩
          have hdiv : (n * 10 + digitValue c) / 10 = n := by omega
          have hmod : (n * 10 + digitValue c) % 10 = digitValue c := by omega
          rw [Nat.toDigits_eq_if (n := n * 10 + digitValue c) (by decide), if_neg (by omega), hdiv,
            hmod, hchar, List.append_assoc]

/-- The sign before a number. -/
def signText : Option Bool → Str
  | none => []
  | some false => ['+']
  | some true => ['-']

/-- The spellings of a decimal number with which `strtol` agrees: blanks, a sign and zeros
before its plain digits. -/
def Spells (sign : Option Bool) (n : ℕ) (s : Str) : Prop :=
  ∃ blanks zeros, (∀ c ∈ blanks, isspace c = true) ∧ (∀ c ∈ zeros, c = '0') ∧
    s = blanks ++ (signText sign ++ (zeros ++ Nat.toDigits 10 n))

lemma spells_toDigits (n : ℕ) : Spells none n (Nat.toDigits 10 n) :=
  ⟨[], [], by simp, by simp, rfl⟩

/-- The digits at the start of a text, after a sign. -/
def signedDigits (neg : Bool) (s : Str) : Option (Bool × ℕ × Str) :=
  match s with
  | [] => none
  | c :: _ => if digitValue c < 10 then some (neg, digits 10 0 s) else none

lemma scanNumber_ten (s : Str) :
    scanNumber 10 s = match s.dropWhile isspace with
      | '-' :: t => signedDigits true t
      | '+' :: t => signedDigits false t
      | t => signedDigits false t := by
  unfold scanNumber
  generalize s.dropWhile isspace = u
  cases u with
  | nil => rfl
  | cons c t =>
      by_cases hminus : c = '-'
      · subst hminus
        cases t <;> rfl
      by_cases hplus : c = '+'
      · subst hplus
        cases t <;> rfl
      · simp [hminus, hplus, baseOf, signedDigits]

lemma signedDigits_of_zeros {neg : Bool} {n : ℕ} {zeros : Str} (hz : ∀ c ∈ zeros, c = '0') :
    signedDigits neg (zeros ++ Nat.toDigits 10 n) = some (neg, n, []) := by
  have hdigits : ∀ c ∈ zeros ++ Nat.toDigits 10 n, digitValue c < 10 := by
    intro c hc
    rcases List.mem_append.mp hc with hc | hc
    · rw [hz c hc]
      decide
    · exact digitValue_lt_of_mem_toDigits (by decide) (by decide) n c hc
  have hfold : (zeros ++ Nat.toDigits 10 n).foldl (fun m c => m * 10 + digitValue c) 0 = n := by
    have hzero : zeros.foldl (fun m c => m * 10 + digitValue c) 0 = 0 := by
      clear hdigits
      induction zeros with
      | nil => rfl
      | cons c zeros ih =>
          rw [hz c List.mem_cons_self, List.foldl_cons]
          exact ih fun d hd => hz d (List.mem_cons_of_mem c hd)
    rw [List.foldl_append, hzero, foldl_toDigits (by decide) (by decide)]
  have hread := digits_append hdigits 0 []
  have hne : zeros ++ Nat.toDigits 10 n ≠ [] := by simp [Nat.toDigits_ne_nil]
  rw [List.append_nil, hfold] at hread
  obtain ⟨c, ds, hcs⟩ := List.exists_cons_of_ne_nil hne
  rw [hcs] at hdigits hread ⊢
  rw [signedDigits, if_pos (hdigits c List.mem_cons_self), hread]
  rfl

lemma zeros_of_signedDigits {neg neg' : Bool} {n : ℕ} {s : Str}
    (h : signedDigits neg s = some (neg', n, [])) :
    neg' = neg ∧ ∃ zeros, (∀ c ∈ zeros, c = '0') ∧ s = zeros ++ Nat.toDigits 10 n := by
  cases s with
  | nil => cases h
  | cons c s =>
      rw [signedDigits] at h
      split at h
      · obtain ⟨rfl, hread⟩ := Prod.mk.inj (Option.some.inj h)
        obtain ⟨ds, hs, hds, rfl⟩ := digits_spec hread
        rw [List.append_nil] at hs
        refine ⟨rfl, ?_⟩
        rw [hs]
        exact eq_zeros_append_toDigits hds (hs ▸ List.cons_ne_nil c s)
      · cases h

lemma scanNumber_of_spells {sign : Option Bool} {n : ℕ} {s : Str} (h : Spells sign n s) :
    scanNumber 10 s = some (sign.getD false, n, []) := by
  obtain ⟨blanks, zeros, hblanks, hzeros, rfl⟩ := h
  have hnumber : ∀ neg, signedDigits neg (zeros ++ Nat.toDigits 10 n) = some (neg, n, []) :=
    fun neg => signedDigits_of_zeros hzeros
  rw [scanNumber_ten, List.dropWhile_append_of_pos hblanks]
  rcases sign with _ | _ | _
  · have hne : zeros ++ Nat.toDigits 10 n ≠ [] := by simp [Nat.toDigits_ne_nil]
    obtain ⟨c, ds, hcs⟩ := List.exists_cons_of_ne_nil hne
    have hc : digitValue c < 10 := by
      have hread := hnumber false
      rw [hcs, signedDigits] at hread
      by_contra hc
      rw [if_neg hc] at hread
      cases hread
    obtain ⟨hsp, hminus, hplus⟩ := not_isspace_of_digitValue (c := c) (by omega)
    rw [signText, List.nil_append, hcs, List.dropWhile_cons_of_neg (by simp [hsp])]
    have hread := hnumber false
    rw [hcs] at hread
    split
    next heq => exact absurd (List.cons.inj heq).1 hminus
    next heq => exact absurd (List.cons.inj heq).1 hplus
    next => exact hread
  · exact hnumber false
  · exact hnumber true

/-- A text read to its end spells a number. -/
lemma spells_of_scanNumber {s : Str} {neg : Bool} {n : ℕ}
    (h : scanNumber 10 s = some (neg, n, [])) :
    ∃ sign, Spells sign n s ∧ sign.getD false = neg := by
  have happ := List.takeWhile_append_dropWhile (p := isspace) (l := s)
  have hblanks : ∀ c ∈ s.takeWhile isspace, isspace c = true := fun c hc =>
    List.mem_takeWhile_imp hc
  rw [scanNumber_ten] at h
  split at h
  next t ht =>
    obtain ⟨rfl, zeros, hz, rfl⟩ := zeros_of_signedDigits h
    exact ⟨some true, ⟨_, zeros, hblanks, hz, happ.symm.trans (congrArg _ ht)⟩, rfl⟩
  next t ht =>
    obtain ⟨rfl, zeros, hz, rfl⟩ := zeros_of_signedDigits h
    exact ⟨some false, ⟨_, zeros, hblanks, hz, happ.symm.trans (congrArg _ ht)⟩, rfl⟩
  next =>
    obtain ⟨rfl, zeros, hz, hs⟩ := zeros_of_signedDigits h
    exact ⟨none, ⟨_, zeros, hblanks, hz, by rw [signText, List.nil_append, ← hs, happ]⟩, rfl⟩

/-! ### One numeral in two bases -/

/-- The number that digits write in a base. -/
def numeral (base : ℕ) (ds : Str) : ℕ := ds.foldl (fun m c => m * base + digitValue c) 0

lemma numeral_append_singleton (base : ℕ) (ds : Str) (c : Char) :
    numeral base (ds ++ [c]) = numeral base ds * base + digitValue c := by
  rw [numeral, List.foldl_append]
  rfl

/-- A block of digits is read to its end. -/
lemma digits_eq_numeral {base : ℕ} {ds : Str} (h : ∀ c ∈ ds, digitValue c < base) :
    digits base 0 ds = (numeral base ds, []) := by
  have hread := digits_append h 0 []
  rwa [List.append_nil] at hread

/-- What is read to its end is a block of digits. -/
lemma eq_numeral_of_digits {base m : ℕ} {ds : Str} (h : digits base 0 ds = (m, [])) :
    (∀ c ∈ ds, digitValue c < base) ∧ m = numeral base ds := by
  obtain ⟨ds', hs, hds, hm⟩ := digits_spec h
  rw [List.append_nil] at hs
  subst hs
  exact ⟨hds, hm⟩

/-- In a smaller base a numeral writes a smaller number, unless it has one digit beside zeros. -/
lemma numeral_lt_numeral {b b' : ℕ} (hb : 0 < b) (hlt : b < b') {ds : Str}
    (h : ∀ c ∈ ds, digitValue c < b) : numeral b ds ≤ numeral b' ds ∧
      (0 < numeral b' ds → 0 < numeral b ds) ∧
      (numeral b' ds < b → numeral b ds = numeral b' ds) ∧
      (b ≤ numeral b' ds → numeral b ds < numeral b' ds) := by
  induction ds using List.reverseRecOn with
  | nil => simp [numeral, hb.ne']
  | append_singleton ds c ih =>
      obtain ⟨hle, hpos, -, -⟩ := ih fun d hd => h d (List.mem_append_left _ hd)
      have hc : digitValue c < b := h c (by simp)
      rw [numeral_append_singleton, numeral_append_singleton]
      generalize numeral b ds = m at hle hpos ⊢
      generalize numeral b' ds = m' at hle hpos ⊢
      rcases Nat.eq_zero_or_pos m' with rfl | hm'
      · obtain rfl : m = 0 := by omega
        simp only [Nat.zero_mul, Nat.zero_add]
        exact ⟨le_rfl, id, fun _ => trivial, fun hge => absurd hge (by omega)⟩
      · have hm := hpos hm'
        have hless : m * b < m' * b' :=
          calc m * b < m * b' := Nat.mul_lt_mul_of_pos_left hlt hm
            _ ≤ m' * b' := Nat.mul_le_mul_right b' hle
        have hbig : b' ≤ m' * b' := Nat.le_mul_of_pos_left b' hm'
        have hsmall : 0 < m * b := Nat.mul_pos hm hb
        exact ⟨by omega, fun _ => by omega, fun hlow => absurd hlow (by omega), fun _ => by omega⟩

/-- Decimal digits, read with the base left open: a leading zero makes them octal. -/
lemma scanNumber_open {c : Char} {ds : Str} (h : ∀ d ∈ c :: ds, digitValue d < 10) :
    scanNumber 0 (c :: ds) = some (false, digits (if c = '0' then 8 else 10) 0 (c :: ds)) := by
  have hc := h c List.mem_cons_self
  obtain ⟨hsp, hminus, hplus⟩ := not_isspace_of_digitValue (c := c) (by omega)
  have hhex : hexPrefixed (c :: ds) = none := by
    rcases ds with _ | ⟨x, _ | ⟨d, ds⟩⟩
    · simp [hexPrefixed]
    · simp [hexPrefixed]
    · have hx := h x (by simp)
      have hnx : x ≠ 'x' ∧ x ≠ 'X' := by
        constructor
        · rintro rfl
          exact absurd hx (by decide)
        · rintro rfl
          exact absurd hx (by decide)
      by_cases hzero : c = '0'
      · simp [hexPrefixed, hzero, hnx.1, hnx.2]
      · simp [hexPrefixed, hzero]
  have hdrop : (c :: ds).dropWhile isspace = c :: ds := by
    rw [List.dropWhile_cons_of_neg (by simp [hsp])]
  by_cases hzero : c = '0'
  · have hval : digitValue '0' < 8 := by decide
    subst hzero
    simp [scanNumber, hdrop, baseOf, hhex, hval]
  · simp [scanNumber, hdrop, hminus, hplus, baseOf, hhex, hzero, hc]

end CString
