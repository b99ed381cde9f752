import Cdbg.Lib.Memory

/-!
The signed 64-bit integers of C beside the unsigned words that hold them.

A value is an integer in range (`Fits`), its word the two's-complement `pattern`. An
operation is an `Option`: it is `none` where C leaves the behaviour undefined. The second
half says when the operation of unsigned words gives the pattern of the signed result:
always for `+`, `-`, `*`, `<<`, `~` and equality, and under a condition on the signs for
`/` (`DivAgrees`), `%` (`ModAgrees`), `>>` and the order. A load of `k` bytes gives the
pattern of the `n`-byte value there if the bytes above are its sign (`Extends`).
-/

namespace CInt

/-- The values of the type. -/
def Fits (a : ℤ) : Prop := -2 ^ 63 ≤ a ∧ a < 2 ^ 63

instance : DecidablePred Fits := fun _ => inferInstanceAs (Decidable (_ ∧ _))

/-- The word of a value. -/
def pattern (a : ℤ) : BitVec 64 := BitVec.ofInt 64 a

/-- The word of a value as a number. -/
def unsigned (a : ℤ) : ℤ := if 0 ≤ a then a else a + 2 ^ 64

/-- The result of an arithmetic operation, which must not overflow. -/
def fit (a : ℤ) : Option ℤ := if Fits a then some a else none

/-- `a / b`. -/
def div (a b : ℤ) : Option ℤ := if b = 0 then none else fit (a.tdiv b)

/-- `a % b`, undefined where `a / b` is. -/
def mod (a b : ℤ) : Option ℤ := (div a b).map fun _ => a.tmod b

/-- `a << b`. -/
def shl (a b : ℤ) : Option ℤ :=
  if 0 ≤ a ∧ 0 ≤ b ∧ b < 64 then fit (a * 2 ^ b.toNat) else none

/-- `a >> b`, the arithmetic shift. -/
def shr (a b : ℤ) : Option ℤ :=
  if 0 ≤ b ∧ b < 64 then some (a / 2 ^ b.toNat) else none

/-- The value of a comparison. -/
def truth (p : Bool) : ℤ := if p then 1 else 0

/-- The value whose word is computed from the words of two values bit by bit. -/
def bitwise (f : BitVec 64 → BitVec 64 → BitVec 64) (a b : ℤ) : ℤ :=
  (f (pattern a) (pattern b)).toInt

lemma fit_eq_some {a v : ℤ} : fit a = some v ↔ Fits a ∧ v = a := by
  unfold fit
  split
  · simp [*, eq_comm]
  · simp [*]

lemma div_eq_some {a b v : ℤ} : div a b = some v ↔ b ≠ 0 ∧ Fits (a.tdiv b) ∧ v = a.tdiv b := by
  unfold div
  split
  · simp [*]
  · simp [*, fit_eq_some]

lemma mod_eq_some {a b v : ℤ} : mod a b = some v ↔ b ≠ 0 ∧ Fits (a.tdiv b) ∧ v = a.tmod b := by
  rw [mod, Option.map_eq_some_iff]
  constructor
  · rintro ⟨q, hq, rfl⟩
    obtain ⟨h0, hf, _⟩ := div_eq_some.mp hq
    exact ⟨h0, hf, rfl⟩
  · rintro ⟨h0, hf, rfl⟩
    exact ⟨_, div_eq_some.mpr ⟨h0, hf, rfl⟩, rfl⟩

lemma shl_eq_some {a b v : ℤ} :
    shl a b = some v ↔ (0 ≤ a ∧ 0 ≤ b ∧ b < 64) ∧ Fits (a * 2 ^ b.toNat) ∧
      v = a * 2 ^ b.toNat := by
  unfold shl
  split
  · simp [*, fit_eq_some]
  · simp [*]

lemma shr_eq_some {a b v : ℤ} :
    shr a b = some v ↔ (0 ≤ b ∧ b < 64) ∧ v = a / 2 ^ b.toNat := by
  unfold shr
  split
  · simp [*, eq_comm]
  · simp [*]

lemma fits_zero : Fits 0 := by decide

lemma fits_truth (p : Bool) : Fits (truth p) := by
  cases p <;> decide

lemma fits_toInt (x : BitVec 64) : Fits x.toInt := ⟨x.le_toInt, x.toInt_lt⟩

lemma fits_not {a : ℤ} (h : Fits a) : Fits (-a - 1) := by
  obtain ⟨h1, h2⟩ := h
  constructor <;> omega

/-- A remainder is no larger than the dividend. -/
lemma fits_tmod {a : ℤ} (h : Fits a) (b : ℤ) : Fits (a.tmod b) := by
  have hle : (a.tmod b).natAbs ≤ a.natAbs := by
    rw [Int.natAbs_tmod]
    exact Nat.mod_le _ _
  obtain ⟨h1, h2⟩ := h
  rcases le_or_gt 0 a with ha | ha
  · have := Int.tmod_nonneg b ha
    constructor <;> omega
  · have hneg := Int.tmod_nonneg b (by omega : 0 ≤ -a)
    rw [Int.neg_tmod] at hneg
    constructor <;> omega

lemma fits_shr {a : ℤ} (h : Fits a) (k : ℕ) : Fits (a / 2 ^ k) := by
  have hk : (0 : ℤ) < 2 ^ k := by positivity
  obtain ⟨h1, h2⟩ := h
  constructor
  · rw [Int.le_ediv_iff_mul_le hk]
    nlinarith
  · rw [Int.ediv_lt_iff_lt_mul hk]
    nlinarith

/-! ### Words -/

lemma toNat_pattern {a : ℤ} (h : Fits a) : ((pattern a).toNat : ℤ) = unsigned a := by
  obtain ⟨h1, h2⟩ := h
  rw [pattern, unsigned, BitVec.toNat_ofInt]
  split <;> omega

lemma toInt_pattern {a : ℤ} (h : Fits a) : (pattern a).toInt = a :=
  BitVec.toInt_ofInt_eq_self (by decide) h.1 h.2

lemma pattern_toInt (x : BitVec 64) : pattern x.toInt = x := BitVec.ofInt_toInt

/-- A word is the pattern of a value if it is its unsigned number. -/
lemma eq_pattern_iff {a : ℤ} (h : Fits a) (x : BitVec 64) :
    x = pattern a ↔ (x.toNat : ℤ) = unsigned a := by
  rw [← toNat_pattern h, ← BitVec.toNat_inj, Nat.cast_inj]

lemma pattern_inj {a b : ℤ} (ha : Fits a) (hb : Fits b) : pattern a = pattern b ↔ a = b := by
  constructor
  · intro h
    rw [← toInt_pattern ha, h, toInt_pattern hb]
  · rintro rfl
    rfl

lemma pattern_eq_zero {a : ℤ} (ha : Fits a) : pattern a = 0#64 ↔ a = 0 :=
  pattern_inj ha fits_zero

lemma pattern_add (a b : ℤ) : pattern a + pattern b = pattern (a + b) :=
  (BitVec.ofInt_add a b).symm

lemma pattern_mul (a b : ℤ) : pattern a * pattern b = pattern (a * b) :=
  (BitVec.ofInt_mul a b).symm

lemma pattern_neg (a : ℤ) : -pattern a = pattern (-a) := BitVec.ofInt_neg.symm

lemma pattern_sub (a b : ℤ) : pattern a - pattern b = pattern (a - b) := by
  rw [BitVec.sub_eq_add_neg, pattern_neg, pattern_add, sub_eq_add_neg]

lemma pattern_not (a : ℤ) : ~~~ pattern a = pattern (-a - 1) := by
  rw [BitVec.not_eq_neg_add, pattern_neg, ← pattern_sub]
  rfl

lemma pattern_truth (p : Bool) : pattern (truth p) = if p then 1 else 0 := by
  cases p <;> rfl

lemma pattern_bitwise (f : BitVec 64 → BitVec 64 → BitVec 64) (a b : ℤ) :
    pattern (bitwise f a b) = f (pattern a) (pattern b) := pattern_toInt _

/-- A shift amount below `64` as a word. -/
lemma toNat_amount {b : ℤ} (h0 : 0 ≤ b) (h : b < 64) : (pattern b).toNat % 64 = b.toNat := by
  have hb := toNat_pattern (a := b) ⟨by omega, by omega⟩
  rw [unsigned, if_pos h0] at hb
  omega

lemma pattern_shl (a : ℤ) {k : ℕ} (hk : k < 64) : pattern a <<< k = pattern (a * 2 ^ k) := by
  have htwo : BitVec.twoPow 64 k = pattern (2 ^ k) := by
    apply BitVec.eq_of_toNat_eq
    have hlt : 2 ^ k < 2 ^ 64 := Nat.pow_lt_pow_right (by omega) hk
    rw [BitVec.toNat_twoPow, pattern, BitVec.toNat_ofInt]
    norm_cast
  rw [BitVec.shiftLeft_eq_mul_twoPow, htwo, pattern_mul]

/-! ### Division, right shift and order -/

/-- The operands on which unsigned and signed division agree. -/
def DivAgrees (a b : ℤ) : Prop :=
  (0 ≤ a ∧ (0 < b ∨ a < -b)) ∨ (a < 0 ∧ (b = 1 ∨ a = b))

/-- The operands on which unsigned and signed remainder agree. -/
def ModAgrees (a b : ℤ) : Prop :=
  (0 ≤ a ∧ (0 < b ∨ a < -b)) ∨ (a < 0 ∧ ((0 < b ∧ b ∣ a ∧ b ∣ 2 ^ 64) ∨ a = b))

instance (a b : ℤ) : Decidable (DivAgrees a b) := inferInstanceAs (Decidable (_ ∨ _))

instance (a b : ℤ) : Decidable (ModAgrees a b) := inferInstanceAs (Decidable (_ ∨ _))

lemma one_le_ediv {a b : ℤ} (hb : 0 < b) (h : b ≤ a) : 1 ≤ a / b :=
  (Int.le_ediv_iff_mul_le hb).mpr (by omega)

lemma unsigned_ediv_iff {a b : ℤ} (ha : Fits a) (hb : Fits b) (h0 : b ≠ 0) :
    unsigned a / unsigned b = unsigned (a.tdiv b) ↔ DivAgrees a b := by
  obtain ⟨ha1, ha2⟩ := ha
  obtain ⟨hb1, hb2⟩ := hb
  unfold unsigned DivAgrees
  -- by the signs of dividend and divisor
  rcases le_or_gt 0 a with ha | ha <;> rcases lt_or_gt_of_ne h0 with hb | hb
  -- the unsigned divisor is larger than the dividend
  · have hq : a.tdiv b = -(a / -b) := by
      rw [Int.tdiv_eq_ediv_of_nonneg ha, Int.ediv_neg, neg_neg]
    have hu : a / (b + 2 ^ 64) = 0 := Int.ediv_eq_zero_of_lt ha (by omega)
    have hle : a / -b ≤ a := Int.ediv_le_self _ ha
    rw [if_pos ha, if_neg (not_le.mpr hb), hu, hq]
    rcases lt_or_ge a (-b) with h | h
    · rw [Int.ediv_eq_zero_of_lt ha h]
      simp [ha, h]
    · have hpos := one_le_ediv (by omega) h
      rw [if_neg (by omega)]
      omega
  -- neither is negative
  · rw [if_pos ha, if_pos hb.le, Int.tdiv_eq_ediv_of_nonneg ha,
      if_pos (Int.ediv_nonneg ha hb.le)]
    omega
  -- both are negative: the unsigned quotient is one or zero
  · have hq : a.tdiv b = -a / -b := by
      rw [← Int.tdiv_eq_ediv_of_nonneg (by omega : 0 ≤ -a), Int.neg_tdiv, Int.tdiv_neg, neg_neg]
    have hpos : 0 ≤ -a / -b := Int.ediv_nonneg (by omega) (by omega)
    rw [if_neg (by omega), if_neg (by omega), hq, if_pos hpos]
    rcases lt_trichotomy a b with h | rfl | h
    · have hu : (a + 2 ^ 64) / (b + 2 ^ 64) = 0 := Int.ediv_eq_zero_of_lt (by omega) (by omega)
      have := one_le_ediv (by omega : 0 < -b) (by omega : -b ≤ -a)
      omega
    · rw [Int.ediv_self (by omega), Int.ediv_self (by omega)]
      omega
    · have hu : (a + 2 ^ 64) / (b + 2 ^ 64) < 2 := Int.ediv_lt_of_lt_mul (by omega) (by omega)
      have hu' := one_le_ediv (by omega : 0 < b + 2 ^ 64) (by omega : b + 2 ^ 64 ≤ a + 2 ^ 64)
      have : -a / -b = 0 := Int.ediv_eq_zero_of_lt (by omega) (by omega)
      omega
  -- the unsigned quotient is below `2 ^ 63` unless the divisor is one
  · have hq : a.tdiv b = -(-a / b) := by
      rw [← Int.tdiv_eq_ediv_of_nonneg (by omega : 0 ≤ -a), Int.neg_tdiv, neg_neg]
    have hpos : 0 ≤ -a / b := Int.ediv_nonneg (by omega) hb.le
    have hle : -a / b ≤ -a := Int.ediv_le_self _ (by omega)
    have hu := one_le_ediv hb (by omega : b ≤ a + 2 ^ 64)
    rw [if_neg (by omega), if_pos hb.le, hq]
    rcases eq_or_lt_of_le (Int.add_one_le_iff.mpr hb) with h | h
    · obtain rfl : b = 1 := by omega
      rw [Int.ediv_one, Int.ediv_one, if_neg (by omega)]
      omega
    · have hu2 : (a + 2 ^ 64) / b < 2 ^ 63 := Int.ediv_lt_of_lt_mul hb (by omega)
      split <;> omega

lemma unsigned_emod_iff {a b : ℤ} (ha : Fits a) (hb : Fits b) (h0 : b ≠ 0) :
    unsigned a % unsigned b = unsigned (a.tmod b) ↔ ModAgrees a b := by
  obtain ⟨ha1, ha2⟩ := ha
  obtain ⟨hb1, hb2⟩ := hb
  unfold unsigned ModAgrees
  -- by the signs of dividend and divisor
  rcases le_or_gt 0 a with ha | ha <;> rcases lt_or_gt_of_ne h0 with hb | hb
  -- the unsigned remainder is the dividend
  · have hr : a.tmod b = a % -b := by
      rw [Int.tmod_eq_emod_of_nonneg ha, Int.emod_neg]
    have hu : a % (b + 2 ^ 64) = a := Int.emod_eq_of_lt ha (by omega)
    have hpos : 0 ≤ a % -b := Int.emod_nonneg _ (by omega)
    have hlt : a % -b < -b := Int.emod_lt_of_pos _ (by omega)
    rw [if_pos ha, if_neg (not_le.mpr hb), hu, hr, if_pos hpos]
    rcases lt_or_ge a (-b) with h | h
    · rw [Int.emod_eq_of_lt ha h]
      simp [ha, h]
    · omega
  -- neither is negative
  · rw [if_pos ha, if_pos hb.le, Int.tmod_eq_emod_of_nonneg ha,
      if_pos (Int.emod_nonneg _ hb.ne')]
    omega
  -- both are negative: the unsigned quotient is one or zero
  · have hr : a.tmod b = -(-a % -b) := by
      rw [← Int.tmod_eq_emod_of_nonneg (by omega : 0 ≤ -a), Int.neg_tmod, Int.tmod_neg, neg_neg]
    have hpos : 0 ≤ -a % -b := Int.emod_nonneg _ (by omega)
    have hlt : -a % -b < -b := Int.emod_lt_of_pos _ (by omega)
    rw [if_neg (by omega), if_neg (by omega), hr]
    -- the remainder is the dividend, zero or the difference
    rcases lt_trichotomy a b with h | rfl | h
    · have hu : (a + 2 ^ 64) % (b + 2 ^ 64) = a + 2 ^ 64 :=
        Int.emod_eq_of_lt (by omega) (by omega)
      rw [hu]
      split <;> omega
    · rw [Int.emod_self, Int.emod_self]
      omega
    · have hu : (a + 2 ^ 64) % (b + 2 ^ 64) = a - b := by
        rw [← Int.sub_emod_right, Int.emod_eq_of_lt (by omega) (by omega)]
        omega
      have : -a % -b = -a := Int.emod_eq_of_lt (by omega) (by omega)
      rw [hu, this]
      split <;> omega
  -- the unsigned remainder is below `2 ^ 63`, so both have to be zero
  · have hr : a.tmod b = -(-a % b) := by
      rw [← Int.tmod_eq_emod_of_nonneg (by omega : 0 ≤ -a), Int.neg_tmod, neg_neg]
    have hpos : 0 ≤ -a % b := Int.emod_nonneg _ (by omega)
    have hlt : -a % b < b := Int.emod_lt_of_pos _ hb
    have hu : 0 ≤ (a + 2 ^ 64) % b := Int.emod_nonneg _ (by omega)
    have hu2 : (a + 2 ^ 64) % b < b := Int.emod_lt_of_pos _ hb
    have hdvd : (b ∣ a ∧ b ∣ 2 ^ 64) ↔ -a % b = 0 ∧ (a + 2 ^ 64) % b = 0 := by
      rw [← Int.dvd_iff_emod_eq_zero, ← Int.dvd_iff_emod_eq_zero, dvd_neg]
      refine and_congr_right fun h => ?_
      rw [Int.dvd_add_right h]
    rw [hdvd, if_neg (by omega), if_pos hb.le, hr]
    split <;> omega

lemma pattern_udiv_iff {a b : ℤ} (ha : Fits a) (hb : Fits b) (h0 : b ≠ 0)
    (hd : Fits (a.tdiv b)) :
    pattern a / pattern b = pattern (a.tdiv b) ↔ DivAgrees a b := by
  rw [eq_pattern_iff hd, BitVec.toNat_udiv, Int.natCast_ediv, toNat_pattern ha,
    toNat_pattern hb, unsigned_ediv_iff ha hb h0]

lemma pattern_umod_iff {a b : ℤ} (ha : Fits a) (hb : Fits b) (h0 : b ≠ 0) :
    pattern a % pattern b = pattern (a.tmod b) ↔ ModAgrees a b := by
  rw [eq_pattern_iff (fits_tmod ha b), BitVec.toNat_umod, Int.natCast_emod, toNat_pattern ha,
    toNat_pattern hb, unsigned_emod_iff ha hb h0]

/-- The logical shift fills with zeros, so it agrees on values that are not negative. -/
lemma pattern_shr_iff {a : ℤ} (ha : Fits a) {k : ℕ} (hk : k < 64) :
    pattern a >>> k = pattern (a / 2 ^ k) ↔ 0 ≤ a ∨ k = 0 := by
  have h2 : (0 : ℤ) < 2 ^ k := by positivity
  rw [eq_pattern_iff (fits_shr ha k), BitVec.toNat_ushiftRight, Nat.shiftRight_eq_div_pow,
    Int.natCast_ediv, toNat_pattern ha]
  push_cast
  unfold unsigned
  rcases le_or_gt 0 a with h | h
  · rw [if_pos h, if_pos (Int.ediv_nonneg h h2.le)]
    simp [h]
  · have hneg : a / 2 ^ k < 0 := Int.ediv_neg_of_neg_of_pos h h2
    have hsplit : (2 : ℤ) ^ 64 = 2 ^ (64 - k) * 2 ^ k := by
      rw [← pow_add, Nat.sub_add_cancel hk.le]
    have hsum : (a + 2 ^ 64) / 2 ^ k = a / 2 ^ k + 2 ^ (64 - k) := by
      rw [hsplit, Int.add_mul_ediv_right _ _ h2.ne']
    rw [if_neg (by omega), if_neg (by omega), hsum, add_right_inj]
    constructor
    · intro he
      have hinj : 64 - k = 64 := Nat.pow_right_injective (le_refl 2) (by exact_mod_cast he)
      omega
    · rintro (h' | rfl)
      · omega
      · rfl

/-- The order of words is the order of values of one sign. -/
lemma pattern_lt_agrees {a b : ℤ} (ha : Fits a) (hb : Fits b) :
    (pattern a < pattern b ↔ a < b) ↔ (a < 0 ↔ b < 0) := by
  rw [BitVec.lt_def, ← Nat.cast_lt (α := ℤ), toNat_pattern ha, toNat_pattern hb]
  obtain ⟨ha1, ha2⟩ := ha
  obtain ⟨hb1, hb2⟩ := hb
  unfold unsigned
  split <;> split <;> omega

lemma pattern_le_agrees {a b : ℤ} (ha : Fits a) (hb : Fits b) :
    (pattern a ≤ pattern b ↔ a ≤ b) ↔ (a < 0 ↔ b < 0) := by
  have hlt := pattern_lt_agrees hb ha
  rw [BitVec.lt_def] at hlt
  rw [BitVec.le_def]
  omega

/-! ### Loads -/

/-- The value of `n` bytes that hold the number `u`. -/
def signed (n u : ℕ) : ℤ := if 2 * u < 256 ^ n then u else u - (256 ^ n : ℕ)

lemma signed_of_lt {n u : ℕ} (h : 2 * u < 256 ^ n) : signed n u = u := if_pos h

lemma signed_of_le {n u : ℕ} (h : 256 ^ n ≤ 2 * u) : signed n u = u - (256 ^ n : ℕ) :=
  if_neg (not_lt.mpr h)

lemma signed_neg_iff {n u : ℕ} (hu : u < 256 ^ n) : signed n u < 0 ↔ 256 ^ n ≤ 2 * u := by
  rcases lt_or_ge (2 * u) (256 ^ n) with h | h
  · rw [signed_of_lt h]
    omega
  · rw [signed_of_le h]
    omega

lemma fits_signed {n u : ℕ} (hu : u < 256 ^ n) (hn : n ≤ 8) : Fits (signed n u) := by
  have hle : 256 ^ n ≤ 256 ^ 8 := Nat.pow_le_pow_right (by omega) hn
  rcases lt_or_ge (2 * u) (256 ^ n) with h | h
  · rw [signed_of_lt h]
    constructor <;> omega
  · rw [signed_of_le h]
    constructor <;> omega

/-- The `k` bytes at an address are those of the value of the `n` bytes there, and a negative
value has all `8`. -/
def Extends (m : Memory) (a : Addr) (n k : ℕ) : Prop :=
  (k = 8 ∨ 0 ≤ signed n (m.read a n) ∧ signed n (m.read a n) < 256 ^ k) ∧
    ∀ i < k, n ≤ i →
      m (a + BitVec.ofNat 64 i) = if signed n (m.read a n) < 0 then 255 else 0

instance (m : Memory) (a : Addr) (n k : ℕ) : Decidable (Extends m a n k) :=
  inferInstanceAs (Decidable (_ ∧ _))

/-- The word of a value of `n` bytes. -/
lemma toNat_pattern_signed {n u : ℕ} (hu : u < 256 ^ n) (hn : n ≤ 8) :
    (pattern (signed n u)).toNat = if signed n u < 0 then u + (256 ^ 8 - 256 ^ n) else u := by
  have hle : 256 ^ n ≤ 256 ^ 8 := Nat.pow_le_pow_right (by omega) hn
  have h := toNat_pattern (fits_signed hu hn)
  rw [unsigned] at h
  rcases lt_or_ge (2 * u) (256 ^ n) with hs | hs
  · have hpos : ¬ signed n u < 0 := by
      rw [signed_neg_iff hu]
      omega
    rw [if_pos (not_lt.mp hpos), signed_of_lt hs] at h
    rw [if_neg hpos, signed_of_lt hs]
    omega
  · have hneg : signed n u < 0 := (signed_neg_iff hu).mpr hs
    rw [if_neg (not_le.mpr hneg), signed_of_le hs] at h
    rw [if_pos hneg, signed_of_le hs]
    omega

/-- The bytes of that word above the value are its sign. -/
lemma byte_pattern_signed {n u i : ℕ} (hu : u < 256 ^ n) (hni : n ≤ i) (hi : i < 8) :
    BitVec.ofNat 8 ((pattern (signed n u)).toNat / 256 ^ i) =
      if signed n u < 0 then 255 else 0 := by
  have hle : 256 ^ n ≤ 256 ^ i := Nat.pow_le_pow_right (by omega) hni
  rw [toNat_pattern_signed hu (by omega)]
  split
  · have hle' : 256 ^ i ≤ 256 ^ 8 := Nat.pow_le_pow_right (by omega) hi.le
    have hv : u + (256 ^ 8 - 256 ^ n) =
        256 ^ i * (256 ^ (8 - i) - 1) + (256 ^ i - (256 ^ n - u)) := by
      rw [Nat.mul_sub, ← pow_add, Nat.add_sub_cancel' hi.le, Nat.mul_one]
      omega
    have hpow : 256 ^ (8 - i) = 256 * 256 ^ (7 - i) := by
      rw [← pow_succ', show 7 - i + 1 = 8 - i by omega]
    have hone : 1 ≤ 256 ^ (7 - i) := Nat.one_le_pow _ _ (by omega)
    have hmod : (256 ^ (8 - i) - 1) % 256 = 255 := by omega
    have hrest : (256 ^ i - (256 ^ n - u)) / 256 ^ i = 0 := Nat.div_eq_of_lt (by omega)
    rw [hv, Nat.mul_add_div (by positivity), hrest, Nat.add_zero]
    exact BitVec.eq_of_toNat_eq (by simpa using hmod)
  · rw [Nat.div_eq_of_lt (by omega)]
    rfl

/-- The bytes of that word below are those of the value. -/
lemma byte_pattern_signed_of_lt {n u i : ℕ} (hu : u < 256 ^ n) (hn : n ≤ 8) (hi : i < n) :
    BitVec.ofNat 8 ((pattern (signed n u)).toNat / 256 ^ i) = BitVec.ofNat 8 (u / 256 ^ i) := by
  refine Memory.byte_congr ?_ hi
  rw [toNat_pattern_signed hu hn]
  split
  · have hsplit : 256 ^ 8 - 256 ^ n = 256 ^ n * (256 ^ (8 - n) - 1) := by
      rw [Nat.mul_sub, ← pow_add, Nat.add_sub_cancel' hn, Nat.mul_one]
    rw [hsplit, Nat.add_mul_mod_self_left]
  · rfl

/-- Loading `k` bytes gives the value of `n` bytes. -/
lemma load_eq_iff {m : Memory} {a : Addr} {n k : ℕ} (hn : n ≤ 8) (hk : k ≤ 8) :
    BitVec.ofNat 64 (m.read a k) = pattern (signed n (m.read a n)) ↔ Extends m a n k := by
  have hu := Memory.read_lt m n a
  have hlt := Memory.read_lt m k a
  have hpow : 256 ^ k ≤ 256 ^ 8 := Nat.pow_le_pow_right (by omega) hk
  have hnat : (BitVec.ofNat 64 (m.read a k) = pattern (signed n (m.read a n))) ↔
      m.read a k = (pattern (signed n (m.read a n))).toNat := by
    rw [← BitVec.toNat_inj, BitVec.toNat_ofNat, Nat.mod_eq_of_lt (by omega)]
  rw [hnat, Memory.read_eq_iff, Extends]
  refine and_congr ?_ (forall_congr' fun i => ?_)
  -- a negative value fills all eight bytes
  · have hfit := toNat_pattern (fits_signed hu hn)
    have hmin := (fits_signed hu hn).1
    have hword := (pattern (signed n (m.read a n))).isLt
    have hcast : ((256 : ℤ) ^ k) = ((256 ^ k : ℕ) : ℤ) := by push_cast; rfl
    rcases eq_or_lt_of_le hk with rfl | hk8
    · simpa using hword
    · have hpow7 : 256 ^ k ≤ 256 ^ 7 := Nat.pow_le_pow_right (by omega) (by omega)
      rw [unsigned] at hfit
      rw [hcast]
      split at hfit <;> omega
  · refine forall_congr' fun hi => ?_
    rcases lt_or_ge i n with hin | hin
    · rw [byte_pattern_signed_of_lt hu hn hin, Memory.byte_read m n i a hin]
      simp [not_le.mpr hin]
    · rw [byte_pattern_signed hu hin (by omega)]
      simp [hin]

end CInt
