import Cdbg.Lib.ByteNumber
import Cdbg.Lib.CString
import Cdbg.Lib.Reader

/-!
`lineno.c`, the functions that read from a cursor (`parse_cursor_t`). A read of a fixed
size that does not fit before the end gives `0` and leaves the cursor where it is.
-/

namespace Cdbg

open CString Reader

/-- A reader of bytes. -/
abbrev ByteReader (α : Type) : Type := Reader Byte α

/-- The character of a byte. -/
def charOf (b : Byte) : Char := Char.ofNat b.toNat

/-- The C string that starts here: it goes on behind the end of the cursor. -/
def cstrOf (bytes : List Byte) : Str := (bytes.takeWhile (· ≠ 0)).map charOf

/-- `cursor_ok`, which fails the function that asks. -/
def cursorOk (n : ℕ) : ByteReader Unit := fun c =>
  if n ≤ c.inside.length then some ((), c) else none

/-- `read_u8`. -/
def readU8 : ByteReader Byte := fun c =>
  match c.inside with
  | [] => some (0, c)
  | b :: rest => some (b, ⟨rest, c.outside⟩)

/-- `read_u16`. -/
def readU16 : ByteReader (BitVec 16) := fun c =>
  match c.inside with
  | b0 :: b1 :: rest => some (b1 ++ b0, ⟨rest, c.outside⟩)
  | _ => some (0, c)

/-- `read_u32`. -/
def readU32 : ByteReader (BitVec 32) := fun c =>
  match c.inside with
  | b0 :: b1 :: b2 :: b3 :: rest => some (b3 ++ b2 ++ b1 ++ b0, ⟨rest, c.outside⟩)
  | _ => some (0, c)

/-- `read_u64`: byte by byte. -/
def readU64 : ByteReader (BitVec 64) := do
  let b0 ← readU8
  let b1 ← readU8
  let b2 ← readU8
  let b3 ← readU8
  let b4 ← readU8
  let b5 ← readU8
  let b6 ← readU8
  let b7 ← readU8
  return b7 ++ b6 ++ b5 ++ b4 ++ b3 ++ b2 ++ b1 ++ b0

/-- The loop of `read_uleb128` and `read_sleb128`: the value, the shift reached and the
last byte. -/
def lebLoop : ℕ → ℕ → BitVec 64 → Byte → ByteReader (BitVec 64 × ℕ × Byte)
  | 0, shift, value, byte => pure (value, shift, byte)
  | n + 1, shift, value, _ => do
      let byte ← readU8
      let value := value ||| (byte &&& 0x7f).setWidth 64 <<< shift
      if byte &&& 0x80 = 0 then
        return (value, shift + 7, byte)
      lebLoop n (shift + 7) value byte

/-- `read_uleb128`: at most ten bytes. -/
def readUleb128 : ByteReader (BitVec 64) := do
  let r ← lebLoop 10 0 0 0
  return r.1

/-- `read_sleb128`: at most ten bytes. -/
def readSleb128 : ByteReader (BitVec 64) := do
  let (value, shift, byte) ← lebLoop 10 0 0 0
  return if byte &&& 0x40 ≠ 0 ∧ shift < 64 then value ||| BitVec.allOnes 64 <<< shift else value

/-- `read_cstr`: the cursor stops behind the NUL, or at its end. -/
def readCstr : ByteReader Str := fun c =>
  some (cstrOf (c.inside ++ c.outside), ⟨(c.inside.dropWhile (· ≠ 0)).tail, c.outside⟩)

/-- Move on by some bytes. -/
def advance (n : ℕ) : ByteReader Unit := fun c => some ((), ⟨c.inside.drop n, c.outside⟩)

/-- `skip_padding_zeros`. -/
def skipPaddingZeros : ByteReader Unit := fun c =>
  some ((), ⟨c.inside.dropWhile (· = 0), c.outside⟩)

/-! ### What they read -/

lemma reads_readU8 (b : Byte) : Reads readU8 [b] b := fun _ _ => rfl

lemma reads_readU16 {v : ℕ} (h : v < 2 ^ 16) :
    Reads readU16 (leBytes 2 v) (BitVec.ofNat 16 v) := by
  intro rest out
  have hv : BitVec.ofNat 8 (v / 256) ++ BitVec.ofNat 8 v = BitVec.ofNat 16 v := by
    apply BitVec.eq_of_toNat_eq
    rw [toNat_append_byte]
    simp only [BitVec.toNat_ofNat]
    omega
  exact congrArg (fun x => some (x, _)) hv

lemma reads_readU32 {v : ℕ} (h : v < 2 ^ 32) :
    Reads readU32 (leBytes 4 v) (BitVec.ofNat 32 v) := by
  intro rest out
  have hv : BitVec.ofNat 8 (v / 256 / 256 / 256) ++ BitVec.ofNat 8 (v / 256 / 256) ++
      BitVec.ofNat 8 (v / 256) ++ BitVec.ofNat 8 v = BitVec.ofNat 32 v := by
    apply BitVec.eq_of_toNat_eq
    rw [toNat_append_byte, toNat_append_byte, toNat_append_byte]
    simp only [BitVec.toNat_ofNat]
    omega
  exact congrArg (fun x => some (x, _)) hv

lemma reads_readU64 {v : ℕ} (h : v < 2 ^ 64) :
    Reads readU64 (leBytes 8 v) (BitVec.ofNat 64 v) := by
  intro rest out
  have hv : BitVec.ofNat 8 (v / 256 / 256 / 256 / 256 / 256 / 256 / 256) ++
      BitVec.ofNat 8 (v / 256 / 256 / 256 / 256 / 256 / 256) ++
      BitVec.ofNat 8 (v / 256 / 256 / 256 / 256 / 256) ++
      BitVec.ofNat 8 (v / 256 / 256 / 256 / 256) ++ BitVec.ofNat 8 (v / 256 / 256 / 256) ++
      BitVec.ofNat 8 (v / 256 / 256) ++ BitVec.ofNat 8 (v / 256) ++ BitVec.ofNat 8 v =
      BitVec.ofNat 64 v := by
    apply BitVec.eq_of_toNat_eq
    simp only [toNat_append_byte, BitVec.toNat_ofNat]
    omega
  exact congrArg (fun x => some (x, _)) hv

/-- The loop on the digits that are left. -/
lemma reads_lebLoop : ∀ (init : List (BitVec 7)) (last : BitVec 7) (n s v : ℕ) (b : Byte),
    init.length < n → v < 2 ^ s →
    Reads (lebLoop n s (BitVec.ofNat 64 v) b) (init.map Leb128.more ++ [Leb128.stop last])
      (BitVec.ofNat 64 (v + 2 ^ s * Leb128.number (init ++ [last])), s + 7 * (init.length + 1),
        Leb128.stop last)
  | [], last, n + 1, s, v, b, _, hv => by
      have hlow : ((Leb128.stop last &&& 0x7f).setWidth 64).toNat = last.toNat := by
        have hlt := last.isLt
        rw [Leb128.stop_low]
        simp
        omega
      refine (reads_readU8 _).bind_nil ?_
      rw [Leb128.ofNat_or_shiftLeft hv, hlow, if_pos (Leb128.stop_high last)]
      simp only [List.nil_append, Leb128.number, Nat.mul_zero, Nat.add_zero, List.length_nil]
      exact Reads.pure _
  | d :: init, last, n + 1, s, v, b, hn, hv => by
      have hlow : ((Leb128.more d &&& 0x7f).setWidth 64).toNat = d.toNat := by
        have hlt := d.isLt
        rw [Leb128.more_low]
        simp
        omega
      -- the seven bits lie above what has been read
      have hnext : v + 2 ^ s * d.toNat < 2 ^ (s + 7) := by
        have hlt := d.isLt
        rw [pow_add]
        nlinarith
      have ih := reads_lebLoop init last n (s + 7) (v + 2 ^ s * d.toNat) (Leb128.more d)
        (by simpa using hn) hnext
      have hval : v + 2 ^ s * d.toNat + 2 ^ (s + 7) * Leb128.number (init ++ [last]) =
          v + 2 ^ s * Leb128.number (d :: init ++ [last]) := by
        rw [List.cons_append, Leb128.number, pow_add]
        ring
      have hshift : s + 7 + 7 * (init.length + 1) = s + 7 * ((d :: init).length + 1) := by
        rw [List.length_cons]
        omega
      rw [hval, hshift] at ih
      refine (reads_readU8 _).bind ?_
      rw [Leb128.ofNat_or_shiftLeft hv, hlow, if_neg (Leb128.more_high d)]
      exact ih

lemma reads_leb (n : Leb) (h : n.size ≤ 10) :
    Reads (lebLoop 10 0 0 0) n.bytes
      (BitVec.ofNat 64 n.unsigned, 7 * n.size, Leb128.stop n.last) := by
  have hloop := reads_lebLoop n.init n.last 10 0 0 0 h (by decide)
  rwa [Nat.zero_add, pow_zero, Nat.one_mul, Nat.zero_add] at hloop

lemma reads_readUleb128 (n : Leb) (h : n.size ≤ 10) :
    Reads readUleb128 n.bytes (BitVec.ofNat 64 n.unsigned) :=
  (reads_leb n h).bind_nil (Reads.pure _)

lemma reads_readSleb128 (n : Leb) (h : n.size ≤ 10) :
    Reads readSleb128 n.bytes (BitVec.ofInt 64 n.signed) := by
  rw [← n.extend_sign]
  exact (reads_leb n h).bind_nil (Reads.pure _)

/-- A string that is closed before the end. -/
lemma reads_readCstr {s : List Byte} (h : ∀ b ∈ s, b ≠ 0) :
    Reads readCstr (s ++ [0]) (s.map charOf) := by
  intro rest out
  have hne : ∀ b ∈ s, decide (b ≠ 0) = true := fun b hb => decide_eq_true (h b hb)
  have htake : cstrOf (s ++ [0] ++ rest ++ out) = s.map charOf := by
    rw [cstrOf, List.append_assoc, List.append_assoc, List.takeWhile_append_of_pos hne]
    simp
  have hdrop : ((s ++ [0] ++ rest).dropWhile (· ≠ 0)).tail = rest := by
    rw [List.append_assoc, List.dropWhile_append_of_pos hne]
    simp
  exact congrArg some (Prod.ext htake (congrArg (fun l => Cursor.mk l out) hdrop))

lemma reads_advance (xs : List Byte) : Reads (advance xs.length) xs () := by
  intro rest out
  exact congrArg (fun l => some ((), Cursor.mk l out)) List.drop_left

/-- Bytes that are there can be skipped. -/
lemma reads_skip {xs : List Byte} {n : ℕ} (h : xs.length = n) :
    Reads (do cursorOk n; advance n) xs () := by
  subst h
  intro rest out
  have hle : xs.length ≤ (xs ++ rest).length := by simp
  have hok : (cursorOk xs.length).run ⟨xs ++ rest, out⟩ = some ((), ⟨xs ++ rest, out⟩) :=
    if_pos hle
  rw [StateT.run_bind, hok]
  exact reads_advance xs rest out

end Cdbg
