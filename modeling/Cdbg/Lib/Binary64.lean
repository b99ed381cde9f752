import Mathlib.Tactic

/-!
The double nearest to a decimal number, as its 64 bits: what `strtod` computes for a
plain decimal literal. Ties go to the even neighbour, numbers that are too large
become infinite.
-/

namespace Binary64

/-- `n / d` rounded to the nearest integer, ties to even. -/
def roundHalfEven (n d : ℕ) : ℕ :=
  let q := n / d
  let r := n % d
  if 2 * r < d then q else if d < 2 * r then q + 1 else q + q % 2

/-- Numerator and denominator of `n / d / 2 ^ e`. -/
def scale (n d : ℕ) (e : ℤ) : ℕ × ℕ :=
  if 0 ≤ e then (n, d * 2 ^ e.toNat) else (n * 2 ^ (-e).toNat, d)

/-- The exponent of the last place of the double nearest to `n / d`. -/
def lastPlace (n d : ℕ) : ℤ :=
  let e : ℤ := (Nat.log2 n : ℤ) - Nat.log2 d - 53
  let s := scale n d e
  max (-1074) (if 2 ^ 53 ≤ s.1 / s.2 then e + 1 else e)

/-- The bits of positive infinity. -/
def infinity : ℕ := 0x7ff * 2 ^ 52

/-- The bits of the double nearest to `n / d`. -/
def ofRatio (n d : ℕ) : BitVec 64 :=
  if n = 0 then 0
  else
    let e := lastPlace n d
    let s := scale n d e
    BitVec.ofNat 64 (min infinity ((e + 1074).toNat * 2 ^ 52 + roundHalfEven s.1 s.2))

/-- The bits of the double nearest to `n * 10 ^ e`, where `n` has `k` digits. -/
def ofDecimal (n k : ℕ) (e : ℤ) : BitVec 64 :=
  if n = 0 ∨ e + k < -330 then 0
  else if 330 < e + k then BitVec.ofNat 64 infinity
  else if 0 ≤ e then ofRatio (n * 10 ^ e.toNat) 1
  else ofRatio n (10 ^ (-e).toNat)

example : ofDecimal 15 2 (-1) = 0x3ff8000000000000 := by decide +kernel

end Binary64
