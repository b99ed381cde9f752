import Mathlib.Tactic

/-!
C strings as lists of characters, and the functions of the C library on them.

A position inside a string is the suffix from there on, so `strchr` and `strstr`
return suffixes. The number parsers return the value and the suffix at which they
stopped, `none` when no conversion was performed.
-/

/-- A C string, without its terminating NUL. -/
abbrev Str := List Char

namespace CString

/-- `isspace` of the C locale. -/
def isspace (c : Char) : Bool :=
  c = ' ' || c = '\t' || c = '\n' || c = '\x0b' || c = '\x0c' || c = '\r'

/-- `isdigit`. -/
def isdigit (c : Char) : Bool := '0' ≤ c && c ≤ '9'

/-- `isalpha` of the C locale. -/
def isalpha (c : Char) : Bool := ('a' ≤ c && c ≤ 'z') || ('A' ≤ c && c ≤ 'Z')

/-- `isalnum` of the C locale. -/
def isalnum (c : Char) : Bool := isalpha c || isdigit c

/-- `strchr`: the suffix from the first occurrence of a character. -/
def strchr : Str → Char → Option Str
  | [], _ => none
  | c :: s, d => if c = d then some (c :: s) else strchr s d

lemma strchr_append {s : Str} {d : Char} (h : d ∉ s) (t : Str) :
    strchr (s ++ d :: t) d = some (d :: t) := by
  induction s with
  | nil => simp [strchr]
  | cons c s ih =>
      have hc : c ≠ d := fun hc => h (hc ▸ List.mem_cons_self)
      rw [List.cons_append, strchr, if_neg hc]
      exact ih fun hd => h (List.mem_cons_of_mem c hd)

lemma strchr_eq_none {s : Str} {d : Char} (h : d ∉ s) : strchr s d = none := by
  induction s with
  | nil => rfl
  | cons c s ih =>
      obtain ⟨hc, hs⟩ := not_or.mp (mt List.mem_cons.mpr h)
      rw [strchr, if_neg (Ne.symm hc)]
      exact ih hs

lemma takeWhile_ne_append {s : Str} {d : Char} (h : d ∉ s) (t : Str) :
    (s ++ d :: t).takeWhile (· ≠ d) = s := by
  have hs : ∀ c ∈ s, decide (c ≠ d) = true := by
    intro c hc
    exact decide_eq_true fun hcd => h (hcd ▸ hc)
  rw [List.takeWhile_append_of_pos hs]
  simp

/-- `strrchr`: the part before the last occurrence of a character and the part after it. -/
def strrchr (s : Str) (d : Char) : Option (Str × Str) :=
  match strchr s.reverse d with
  | none => none
  | some t => some (t.tail.reverse, (s.reverse.takeWhile (· ≠ d)).reverse)

/-- `strstr`: the suffix from the first occurrence of a text. -/
def strstr : Str → Str → Option Str
  | [], t => if t = [] then some [] else none
  | c :: s, t => if t.isPrefixOf (c :: s) then some (c :: s) else strstr s t

/-- Whether a text occurs: `strstr (s, t) != NULL`. -/
def hasSubstr (s t : Str) : Bool := (strstr s t).isSome

lemma strstr_cons (c : Char) (s t : Str) :
    strstr (c :: s) t = if t.isPrefixOf (c :: s) then some (c :: s) else strstr s t := rfl

/-- `strstr` decides whether a word is a part of a text. -/
lemma hasSubstr_iff {s t : Str} : hasSubstr s t = true ↔ t <:+: s := by
  rw [hasSubstr]
  induction s with
  | nil =>
      rw [strstr, List.infix_nil]
      by_cases h : t = [] <;> simp [h]
  | cons c s ih =>
      rw [strstr_cons, List.infix_cons_iff, ← ih]
      by_cases h : t.isPrefixOf (c :: s) = true
      · rw [if_pos h]
        exact iff_of_true rfl (.inl (List.isPrefixOf_iff_prefix.mp h))
      · rw [if_neg h]
        exact ⟨.inr, fun h' => h'.resolve_left fun hp => h (List.isPrefixOf_iff_prefix.mpr hp)⟩

/-- What follows the last occurrence of a character is the end of the text. -/
lemma suffix_of_strrchr {s a b : Str} {d : Char} (h : strrchr s d = some (a, b)) : b <:+ s := by
  rw [strrchr] at h
  split at h
  · cases h
  · obtain ⟨-, rfl⟩ := Prod.mk.inj (Option.some.inj h)
    simpa using List.reverse_suffix.mpr (List.takeWhile_prefix (l := s.reverse) (· ≠ d))

/-- `strpbrk`: the suffix from the first character of a given set. -/
def strpbrk : Str → (Char → Bool) → Option Str
  | [], _ => none
  | c :: s, p => if p c then some (c :: s) else strpbrk s p

/-- What `snprintf (out, size, "%s", s)` leaves in `out`. -/
def truncate (size : ℕ) (s : Str) : Str := s.take (size - 1)

/-- Drop the blanks at both ends. -/
def trimSpace (s : Str) : Str :=
  (((s.dropWhile isspace).reverse).dropWhile isspace).reverse

/-- The tokens `strtok` cuts at blanks and tabs. -/
def strtok (s : Str) : List Str :=
  (s.splitOnP fun c => c = ' ' || c = '\t').filter (· ≠ [])

/-- A text cut into pieces of `n + 1` characters, the last one shorter. -/
def pieces (n : ℕ) : ℕ → Str → List Str
  | 0, _ => []
  | _ + 1, [] => []
  | fuel + 1, c :: s => (c :: s.take n) :: pieces n fuel (s.drop n)

/-- What repeated `fgets (buf, size, fp)` reads of the given lines: each line with its
newline, in pieces that fit the buffer. -/
def fgetsAll (size : ℕ) (lines : List Str) : List Str :=
  lines.flatMap fun l => pieces (size - 2) (l.length + 1) (l ++ ['\n'])

/-! ### Numbers -/

/-- The value of a digit or letter in the bases of `strtoull`. -/
def digitValue (c : Char) : ℕ :=
  if isdigit c then c.toNat - '0'.toNat
  else if 'a' ≤ c && c ≤ 'z' then c.toNat - 'a'.toNat + 10
  else if 'A' ≤ c && c ≤ 'Z' then c.toNat - 'A'.toNat + 10
  else 36

/-- The digits of a base at the start of a string, as a number after the digits
read so far, and the rest. -/
def digits (base : ℕ) : ℕ → Str → ℕ × Str
  | n, [] => (n, [])
  | n, c :: s =>
      if digitValue c < base then digits base (n * base + digitValue c) s else (n, c :: s)

/-- The prefix `0x` is taken only before a hexadecimal digit. -/
def hexPrefixed (s : Str) : Option Str :=
  match s with
  | '0' :: x :: d :: s' =>
      if (x = 'x' || x = 'X') && digitValue d < 16 then some (d :: s') else none
  | _ => none

/-- The base in force and the position of the digits, for a requested base
(`0` reads the base off the text). -/
def baseOf (base : ℕ) (s : Str) : ℕ × Str :=
  match (if base = 0 || base = 16 then hexPrefixed s else none) with
  | some s' => (16, s')
  | none => if base = 0 then (if s.head? = some '0' then 8 else 10, s) else (base, s)

/-- The common part of the `strtol` family: blanks, a sign, a prefix, digits. -/
def scanNumber (base : ℕ) (s : Str) : Option (Bool × ℕ × Str) :=
  let s := s.dropWhile isspace
  let (neg, s) := match s with
    | '-' :: s' => (true, s')
    | '+' :: s' => (false, s')
    | _ => (false, s)
  let (b, s) := baseOf base s
  match s with
  | [] => none
  | c :: _ =>
      if digitValue c < b then
        let (n, rest) := digits b 0 s
        some (neg, n, rest)
      else none

/-- `strtoull`: unsigned, saturating at `2^64 - 1`. -/
def strtoull (base : ℕ) (s : Str) : Option (BitVec 64 × Str) :=
  match scanNumber base s with
  | none => none
  | some (neg, n, rest) =>
      if 2 ^ 64 ≤ n then some (BitVec.allOnes 64, rest)
      else some (if neg then - BitVec.ofNat 64 n else BitVec.ofNat 64 n, rest)

/-- `strtoll` (and the 64-bit `strtol`): signed, saturating at both ends. -/
def strtoll (base : ℕ) (s : Str) : Option (ℤ × Str) :=
  match scanNumber base s with
  | none => none
  | some (neg, n, rest) =>
      some (if neg then max (-(n : ℤ)) (-2 ^ 63) else min (n : ℤ) (2 ^ 63 - 1), rest)

end CString
