import Mathlib.Tactic

/-!
Numbers in bytes, the lowest first: with a fixed number of bytes (`leBytes`) and in LEB128.

A number in LEB128 has digits of seven bits, one to a byte, where all bytes but the last
have their high bit set. The same digits stand for an unsigned number or, in two's
complement over all digits, for a signed one. An encoding need not be the shortest.
-/

/-- A byte. -/
abbrev Byte := BitVec 8

/-- A number in `n` bytes, the lowest first. -/
def leBytes : ℕ → ℕ → List Byte
  | 0, _ => []
  | n + 1, v => BitVec.ofNat 8 v :: leBytes n (v / 256)

@[simp] lemma length_leBytes : ∀ n v : ℕ, (leBytes n v).length = n
  | 0, _ => rfl
  | n + 1, v => by rw [leBytes, List.length_cons, length_leBytes n]

lemma toNat_append_byte {n : ℕ} (x : BitVec n) (b : Byte) :
    (x ++ b).toNat = 256 * x.toNat + b.toNat := by
  rw [BitVec.toNat_append, ← Nat.shiftLeft_add_eq_or_of_lt b.isLt, Nat.shiftLeft_eq]
  omega

namespace Leb128

/-- The byte of a digit that is not the last. -/
def more (d : BitVec 7) : Byte := 0x80 ||| d.setWidth 8

/-- The byte of the last digit. -/
def stop (d : BitVec 7) : Byte := d.setWidth 8

/-- The number of a list of digits. -/
def number : List (BitVec 7) → ℕ
  | [] => 0
  | d :: ds => d.toNat + 128 * number ds

@[simp] lemma more_high (d : BitVec 7) : more d &&& 0x80 ≠ 0 := by
  intro h
  have hbit := congrArg (fun x => x.getLsbD 7) h
  simp [more] at hbit

@[simp] lemma stop_high (d : BitVec 7) : stop d &&& 0x80 = 0 := by
  apply BitVec.eq_of_getLsbD_eq
  intro i hi
  interval_cases i <;> simp [stop]

@[simp] lemma more_low (d : BitVec 7) : more d &&& 0x7f = d.setWidth 8 := by
  apply BitVec.eq_of_getLsbD_eq
  intro i hi
  interval_cases i <;> simp [more]

@[simp] lemma stop_low (d : BitVec 7) : stop d &&& 0x7f = d.setWidth 8 := by
  apply BitVec.eq_of_getLsbD_eq
  intro i hi
  interval_cases i <;> simp [stop]

lemma stop_sign (d : BitVec 7) : stop d &&& 0x40 ≠ 0 ↔ d.msb := by
  have hmsb : d.msb = d[6] := BitVec.msb_eq_getLsbD_last d
  rw [hmsb]
  constructor
  · intro h
    by_contra hd
    refine h (BitVec.eq_of_getLsbD_eq fun i hi => ?_)
    rw [Bool.not_eq_true] at hd
    interval_cases i <;> simp [stop, hd]
  · intro hd h
    have hbit := congrArg (fun x => x.getLsbD 6) h
    simp [stop, hd] at hbit

lemma number_lt : ∀ ds : List (BitVec 7), number ds < 2 ^ (7 * ds.length)
  | [] => by simp [number]
  | d :: ds => by
      have ih := number_lt ds
      have hd := d.isLt
      rw [number, List.length_cons, Nat.mul_add, pow_add]
      omega

/-- Setting the bits above a number adds them. -/
lemma ofNat_or_shiftLeft {v s : ℕ} (h : v < 2 ^ s) (x : BitVec 64) :
    BitVec.ofNat 64 v ||| x <<< s = BitVec.ofNat 64 (v + 2 ^ s * x.toNat) := by
  rw [Nat.add_comm, Nat.mul_comm, ← Nat.shiftLeft_eq, Nat.shiftLeft_add_eq_or_of_lt h,
    BitVec.ofNat_or, BitVec.or_comm]
  congr 1

/-- A word does not change with multiples of `2 ^ 64`. -/
lemma ofInt_add_mul (a k : ℤ) : BitVec.ofInt 64 (a + 2 ^ 64 * k) = BitVec.ofInt 64 a := by
  have hzero : BitVec.ofInt 64 (2 ^ 64) = 0#64 := rfl
  rw [BitVec.ofInt_add, BitVec.ofInt_mul, hzero, BitVec.zero_mul, BitVec.add_zero]

/-- Setting all bits above a number makes it negative. -/
lemma ofNat_or_ones {v s : ℕ} (h : v < 2 ^ s) :
    BitVec.ofNat 64 v ||| BitVec.allOnes 64 <<< s = BitVec.ofInt 64 (v - 2 ^ s) := by
  have hcast : ((v + 2 ^ s * 18446744073709551615 : ℕ) : ℤ) = (v - 2 ^ s) + 2 ^ 64 * 2 ^ s := by
    push_cast
    ring
  rw [← ofInt_add_mul _ (2 ^ s), ← hcast, BitVec.ofInt_natCast]
  exact ofNat_or_shiftLeft h _

end Leb128

/-- A number in LEB128. -/
structure Leb where
  init : List (BitVec 7)
  last : BitVec 7
  deriving DecidableEq, Repr

namespace Leb

open Leb128

/-- The digits, lowest first. -/
def digits (n : Leb) : List (BitVec 7) := n.init ++ [n.last]

/-- The bytes. -/
def bytes (n : Leb) : List Byte := n.init.map more ++ [stop n.last]

/-- The number of bytes. -/
def size (n : Leb) : ℕ := n.init.length + 1

/-- The unsigned value. -/
def unsigned (n : Leb) : ℕ := number n.digits

/-- The signed value. -/
def signed (n : Leb) : ℤ :=
  if n.last.msb then n.unsigned - 2 ^ (7 * n.size) else n.unsigned

/-- The number of one byte. -/
def single (d : BitVec 7) : Leb := ⟨[], d⟩

@[simp] lemma length_bytes (n : Leb) : n.bytes.length = n.size := by
  simp [bytes, size]

lemma unsigned_lt (n : Leb) : n.unsigned < 2 ^ (7 * n.size) := by
  have h := number_lt n.digits
  rwa [digits, List.length_append, List.length_singleton] at h

/-- The word that sign extension makes of the digits is that of the signed value. -/
lemma extend_sign (n : Leb) :
    (if stop n.last &&& 0x40 ≠ 0 ∧ 7 * n.size < 64 then
      BitVec.ofNat 64 n.unsigned ||| BitVec.allOnes 64 <<< (7 * n.size)
      else BitVec.ofNat 64 n.unsigned) = BitVec.ofInt 64 n.signed := by
  rw [signed]
  rcases Bool.eq_false_or_eq_true n.last.msb with h | h
  · have hsign := (stop_sign n.last).mpr h
    rcases lt_or_ge (7 * n.size) 64 with hs | hs
    · rw [if_pos ⟨hsign, hs⟩, if_pos h, ofNat_or_ones n.unsigned_lt]
    · obtain ⟨k, hk⟩ := Nat.exists_eq_add_of_le hs
      have hsub : (n.unsigned : ℤ) = (n.unsigned - 2 ^ (7 * n.size)) + 2 ^ 64 * 2 ^ k := by
        rw [hk, pow_add]
        ring
      rw [if_neg fun hc => not_lt.mpr hs hc.2, if_pos h, ← BitVec.ofInt_natCast, hsub,
        ofInt_add_mul, ← hsub]
  · have hsign : ¬ stop n.last &&& 0x40 ≠ 0 := by
      rw [stop_sign, h]
      exact Bool.false_ne_true
    rw [if_neg fun hc => hsign hc.1, if_neg (by simp [h]), BitVec.ofInt_natCast]

end Leb

/-! ### Encodings as bytes -/

namespace Leb128

/-- The number of the low seven bits of some bytes. -/
def payload : List Byte → ℕ
  | [] => 0
  | b :: bs => b.toNat % 128 + 128 * payload bs

/-- Bytes that are a number in LEB128: the high bit is set in all of them but the last. -/
structure Form (bytes : List Byte) : Prop where
  ne_nil : bytes ≠ []
  init : ∀ b ∈ bytes.dropLast, b.msb = true
  last : ∀ b ∈ bytes.getLast?, b.msb = false

/-- The second highest bit of the last byte, the sign. -/
def negative (bytes : List Byte) : Bool := bytes.getLast?.any fun b => b.getLsbD 6

/-- Bytes that encode an unsigned number. -/
def Encodes (bytes : List Byte) (v : ℕ) : Prop := Form bytes ∧ payload bytes = v

/-- Bytes that encode a signed number, in two's complement over all digits. -/
def EncodesSigned (bytes : List Byte) (v : ℤ) : Prop :=
  Form bytes ∧
    (if negative bytes then (payload bytes : ℤ) - 2 ^ (7 * bytes.length) else payload bytes) = v

/-- A byte with its high bit set is that of a digit that is not the last. -/
lemma more_setWidth {b : Byte} (h : b.msb = true) : more (b.setWidth 7) = b := by
  rw [BitVec.msb_eq_getLsbD_last] at h
  apply BitVec.eq_of_getLsbD_eq
  intro i hi
  interval_cases i <;> simp_all [more]

lemma stop_setWidth {b : Byte} (h : b.msb = false) : stop (b.setWidth 7) = b := by
  rw [BitVec.msb_eq_getLsbD_last] at h
  apply BitVec.eq_of_getLsbD_eq
  intro i hi
  interval_cases i <;> simp_all [stop]

/-- The bytes of digits stand for the number of the digits. -/
lemma payload_bytes (n : Leb) : payload n.bytes = n.unsigned := by
  have hlow (x : BitVec 7) : x.toNat % 256 % 128 = x.toNat := by
    have hlt := x.isLt
    omega
  have hmore (d : BitVec 7) : (more d).toNat % 128 = d.toNat := by
    have hmask := congrArg BitVec.toNat (more_low d)
    rw [BitVec.toNat_and, BitVec.toNat_setWidth] at hmask
    have hlt := d.isLt
    have h7 := Nat.and_two_pow_sub_one_eq_mod (more d).toNat 7
    rw [show (2 : ℕ) ^ 7 - 1 = (0x7f : Byte).toNat from rfl, hmask] at h7
    omega
  have hall : ∀ init : List (BitVec 7), payload (init.map more ++ [stop n.last]) =
      number (init ++ [n.last]) := by
    intro init
    induction init with
    | nil => simp [payload, number, stop, hlow]
    | cons d init ih =>
        rw [List.map_cons, List.cons_append, payload, ih, hmore, List.cons_append, number]
  exact hall n.init

lemma negative_bytes (n : Leb) : negative n.bytes = n.last.msb := by
  rw [negative, Leb.bytes, List.getLast?_concat, Option.any_some, BitVec.msb_eq_getLsbD_last]
  simp [stop]

/-- Bytes of this form are those of some digits. -/
lemma exists_leb {bytes : List Byte} (h : Form bytes) : ∃ n : Leb, n.bytes = bytes := by
  obtain ⟨init, last, rfl⟩ := (List.eq_nil_or_concat' bytes).resolve_left h.ne_nil
  have hinit := h.init
  have hlast := h.last last (by simp)
  rw [List.dropLast_concat] at hinit
  refine ⟨⟨init.map (BitVec.setWidth 7), last.setWidth 7⟩, ?_⟩
  rw [Leb.bytes, stop_setWidth hlast, List.map_map]
  congr 1
  conv_rhs => rw [← List.map_id init]
  exact List.map_congr_left fun b hb => more_setWidth (hinit b hb)

lemma exists_unsigned {bytes : List Byte} {v : ℕ} (h : Encodes bytes v) :
    ∃ n : Leb, n.bytes = bytes ∧ n.unsigned = v := by
  obtain ⟨n, rfl⟩ := exists_leb h.1
  exact ⟨n, rfl, (payload_bytes n).symm.trans h.2⟩

lemma exists_signed {bytes : List Byte} {v : ℤ} (h : EncodesSigned bytes v) :
    ∃ n : Leb, n.bytes = bytes ∧ n.signed = v := by
  obtain ⟨n, rfl⟩ := exists_leb h.1
  refine ⟨n, rfl, Eq.trans ?_ h.2⟩
  rw [payload_bytes, negative_bytes, Leb.length_bytes, Leb.signed]

end Leb128
