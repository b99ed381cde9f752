import Mathlib.Data.Nat.Bitwise
import Mathlib.Data.Nat.Size
import Mathlib.Tactic

/-!
Ranges of unsigned words.

A range is a lowest and a highest number. Each operation on ranges holds every result of the
operation on words of these ranges; where a result may wrap around, it is the range of all
words, and where there is no result the empty one. An operation keeps a range with one word
where it can, so ranges follow constants.
-/

/-- A range of words of `n` bits. -/
structure WordRange (n : ℕ) where
  lo : ℕ
  hi : ℕ
  deriving DecidableEq, Repr

namespace WordRange

variable {n : ℕ} {r s : WordRange n} {a b : BitVec n}

instance : Membership (BitVec n) (WordRange n) where
  mem r a := r.lo ≤ a.toNat ∧ a.toNat ≤ r.hi

lemma mem_iff : a ∈ r ↔ r.lo ≤ a.toNat ∧ a.toNat ≤ r.hi := Iff.rfl

instance (r : WordRange n) : DecidablePred (· ∈ r) := fun _ => inferInstanceAs (Decidable (_ ∧ _))

/-! ### Ranges -/

/-- The words up to a number. -/
def upTo (hi : ℕ) : WordRange n := ⟨0, hi⟩

/-- All words. -/
def all : WordRange n := upTo (2 ^ n - 1)

/-- One word. -/
def single (a : BitVec n) : WordRange n := ⟨a.toNat, a.toNat⟩

/-- No word. -/
def empty : WordRange n := ⟨1, 0⟩

/-- Whether a range has no word. -/
def isEmpty (r : WordRange n) : Bool := decide (r.hi < r.lo)

/-- The numbers between two bounds if they are words, and else all words. -/
def fit (lo hi : ℕ) : WordRange n := if hi < 2 ^ n then ⟨lo, hi⟩ else all

lemma mem_upTo {hi : ℕ} : a ∈ (upTo hi : WordRange n) ↔ a.toNat ≤ hi :=
  and_iff_right (Nat.zero_le _)

lemma mem_all (a : BitVec n) : a ∈ (all : WordRange n) := by
  have := a.isLt
  exact mem_upTo.mpr (by omega)

lemma mem_single (a : BitVec n) : a ∈ single a := ⟨le_rfl, le_rfl⟩

lemma isEmpty_of_mem (ha : a ∈ r) : r.isEmpty = false :=
  decide_eq_false (not_lt.mpr (ha.1.trans ha.2))

/-- A word that stands for a number modulo `2 ^ n` lies where the number does. -/
lemma mem_fit {lo hi v : ℕ} (h : a.toNat = v % 2 ^ n) (hlo : lo ≤ v) (hhi : v ≤ hi) :
    a ∈ (fit lo hi : WordRange n) := by
  rw [fit]
  split
  · rw [Nat.mod_eq_of_lt (by omega)] at h
    exact ⟨h ▸ hlo, h ▸ hhi⟩
  · exact mem_all a

/-! ### Arithmetic -/

/-- The sums. -/
def add (r s : WordRange n) : WordRange n := fit (r.lo + s.lo) (r.hi + s.hi)

/-- The differences. -/
def sub (r s : WordRange n) : WordRange n :=
  if s.hi ≤ r.lo then ⟨r.lo - s.hi, r.hi - s.lo⟩ else all

/-- The products. -/
def mul (r s : WordRange n) : WordRange n := fit (r.lo * s.lo) (r.hi * s.hi)

/-- The quotients by words that are not zero. -/
def div (r s : WordRange n) : WordRange n :=
  if s.hi = 0 then empty else ⟨r.lo / s.hi, r.hi / max s.lo 1⟩

/-- The remainders by words that are not zero. -/
def mod (r s : WordRange n) : WordRange n :=
  if s.hi = 0 then empty else upTo (min r.hi (s.hi - 1))

/-- The negations. -/
def neg (r : WordRange n) : WordRange n :=
  if 0 < r.lo then ⟨2 ^ n - r.hi, 2 ^ n - r.lo⟩ else if r.hi = 0 then upTo 0 else all

lemma mem_add (ha : a ∈ r) (hb : b ∈ s) : a + b ∈ r.add s :=
  mem_fit (BitVec.toNat_add a b) (Nat.add_le_add ha.1 hb.1) (Nat.add_le_add ha.2 hb.2)

lemma mem_mul (ha : a ∈ r) (hb : b ∈ s) : a * b ∈ r.mul s :=
  mem_fit (BitVec.toNat_mul a b) (Nat.mul_le_mul ha.1 hb.1) (Nat.mul_le_mul ha.2 hb.2)

lemma mem_sub (ha : a ∈ r) (hb : b ∈ s) : a - b ∈ r.sub s := by
  obtain ⟨ha, ha'⟩ := ha
  obtain ⟨hb, hb'⟩ := hb
  rw [sub]
  split
  · have hle : b ≤ a := BitVec.le_def.mpr (by omega)
    rw [mem_iff, BitVec.toNat_sub_of_le hle]
    constructor <;> dsimp only <;> omega
  · exact mem_all _

/-- A range with a word that is not zero. -/
lemma hi_ne_zero (hb : b ∈ s) (h0 : b ≠ 0) : 0 < b.toNat ∧ s.hi ≠ 0 := by
  have hpos : 0 < b.toNat := Nat.pos_of_ne_zero fun h => h0 (BitVec.eq_of_toNat_eq h)
  exact ⟨hpos, (hpos.trans_le hb.2).ne'⟩

lemma mem_div (ha : a ∈ r) (hb : b ∈ s) (h0 : b ≠ 0) : a / b ∈ r.div s := by
  obtain ⟨hpos, hhi⟩ := hi_ne_zero hb h0
  rw [div, if_neg hhi, mem_iff, BitVec.toNat_udiv]
  constructor
  · exact Nat.div_le_div ha.1 hb.2 hpos.ne'
  · exact Nat.div_le_div ha.2 (max_le hb.1 hpos) (by omega)

lemma mem_mod (ha : a ∈ r) (hb : b ∈ s) (h0 : b ≠ 0) : a % b ∈ r.mod s := by
  obtain ⟨hpos, hhi⟩ := hi_ne_zero hb h0
  have hlt := Nat.mod_lt a.toNat hpos
  have hle := Nat.mod_le a.toNat b.toNat
  have ha' := ha.2
  have hb' := hb.2
  rw [mod, if_neg hhi, mem_upTo, BitVec.toNat_umod]
  omega

lemma mem_neg (ha : a ∈ r) : -a ∈ r.neg := by
  obtain ⟨ha, ha'⟩ := ha
  have hlt := a.isLt
  rw [neg]
  split
  · rw [mem_iff, BitVec.toNat_neg, Nat.mod_eq_of_lt (by omega)]
    constructor <;> dsimp only <;> omega
  · split
    · have hzero : a = 0 := BitVec.eq_of_toNat_eq (by simp; omega)
      rw [mem_upTo, hzero]
      simp
    · exact mem_all _

/-! ### Bits -/

/-- The complements. -/
def not (r : WordRange n) : WordRange n := ⟨2 ^ n - 1 - r.hi, 2 ^ n - 1 - r.lo⟩

/-- The bits in common. -/
def and (r s : WordRange n) : WordRange n := upTo (min r.hi s.hi)

/-- The bits in one of them at least. -/
def or (r s : WordRange n) : WordRange n := upTo (2 ^ (max r.hi s.hi).size - 1)

/-- The words shifted to the left. -/
def shl (r s : WordRange n) : WordRange n :=
  if s.hi < n then fit (r.lo * 2 ^ s.lo) (r.hi * 2 ^ s.hi) else all

/-- The words shifted to the right. -/
def shr (r s : WordRange n) : WordRange n :=
  if s.hi < n then ⟨r.lo / 2 ^ s.hi, r.hi / 2 ^ s.lo⟩ else all

lemma mem_not (ha : a ∈ r) : ~~~a ∈ r.not := by
  obtain ⟨ha, ha'⟩ := ha
  rw [mem_iff, BitVec.toNat_not]
  constructor <;> dsimp only [not] <;> omega

lemma mem_and (ha : a ∈ r) (hb : b ∈ s) : a &&& b ∈ r.and s := by
  rw [and, mem_upTo, BitVec.toNat_and, le_min_iff]
  exact ⟨Nat.and_le_left.trans ha.2, Nat.and_le_right.trans hb.2⟩

/-- The words of two ranges have no more bits than their highest words. -/
lemma lt_two_pow_size (ha : a ∈ r) (hb : b ∈ s) :
    a.toNat < 2 ^ (max r.hi s.hi).size ∧ b.toNat < 2 ^ (max r.hi s.hi).size := by
  have hlt := Nat.lt_size_self (max r.hi s.hi)
  exact ⟨(ha.2.trans (le_max_left _ _)).trans_lt hlt, (hb.2.trans (le_max_right _ _)).trans_lt hlt⟩

lemma mem_or (ha : a ∈ r) (hb : b ∈ s) : a ||| b ∈ r.or s := by
  obtain ⟨ha, hb⟩ := lt_two_pow_size ha hb
  have hlt := Nat.or_lt_two_pow ha hb
  rw [or, mem_upTo, BitVec.toNat_or]
  omega

lemma mem_xor (ha : a ∈ r) (hb : b ∈ s) : a ^^^ b ∈ r.or s := by
  obtain ⟨ha, hb⟩ := lt_two_pow_size ha hb
  have hlt := Nat.xor_lt_two_pow ha hb
  rw [or, mem_upTo, BitVec.toNat_xor]
  omega

lemma mem_shl (ha : a ∈ r) (hb : b ∈ s) : a <<< b.toNat ∈ r.shl s := by
  rw [shl]
  split
  · refine mem_fit (v := a.toNat * 2 ^ b.toNat) ?_ ?_ ?_
    · rw [BitVec.toNat_shiftLeft, Nat.shiftLeft_eq]
    · exact Nat.mul_le_mul ha.1 (Nat.pow_le_pow_right (by decide) hb.1)
    · exact Nat.mul_le_mul ha.2 (Nat.pow_le_pow_right (by decide) hb.2)
  · exact mem_all _

lemma mem_shr (ha : a ∈ r) (hb : b ∈ s) : a >>> b.toNat ∈ r.shr s := by
  rw [shr]
  split
  · rw [mem_iff, BitVec.toNat_ushiftRight, Nat.shiftRight_eq_div_pow]
    constructor
    · exact Nat.div_le_div ha.1 (Nat.pow_le_pow_right (by decide) hb.2) (by positivity)
    · exact Nat.div_le_div ha.2 (Nat.pow_le_pow_right (by decide) hb.1) (by positivity)
  · exact mem_all _

end WordRange
