import Cdbg.Source.Cursor

/-!
`read_uleb128` and `read_sleb128` on encodings of at most ten bytes, the shortest or padded.
-/

namespace Cdbg

open Leb128

/-- **LEB128 decoding** inverts encoding: an encoding of at most ten bytes of a number that fits
64 bits is read as this number, and the cursor is left behind it. -/
theorem leb128_decoded {bytes : List Byte} (hlen : bytes.length ≤ 10) (rest out : List Byte) :
    (∀ v : ℕ, v < 2 ^ 64 → Encodes bytes v →
      ∃ r, readUleb128.run ⟨bytes ++ rest, out⟩ = some (r, ⟨rest, out⟩) ∧ r.toNat = v) ∧
    ∀ v : ℤ, -2 ^ 63 ≤ v → v < 2 ^ 63 → EncodesSigned bytes v →
      ∃ r, readSleb128.run ⟨bytes ++ rest, out⟩ = some (r, ⟨rest, out⟩) ∧ r.toInt = v := by
  constructor
  · intro v hv henc
    obtain ⟨n, rfl, rfl⟩ := exists_unsigned henc
    rw [Leb.length_bytes] at hlen
    refine ⟨_, reads_readUleb128 n hlen rest out, ?_⟩
    rw [BitVec.toNat_ofNat, Nat.mod_eq_of_lt hv]
  · intro v hlow hhigh henc
    obtain ⟨n, rfl, rfl⟩ := exists_signed henc
    rw [Leb.length_bytes] at hlen
    refine ⟨_, reads_readSleb128 n hlen rest out, ?_⟩
    rw [BitVec.toInt_ofInt]
    exact Int.bmod_eq_of_le_mul_two (by norm_num; omega) (by norm_num; omega)

/-- The number 624485 with two bytes of padding, and the least of all signed numbers. -/
theorem leb128_decoded_padded :
    (∃ r, readUleb128.run ⟨[0xe5, 0x8e, 0xa6, 0x80, 0x00] ++ [7], []⟩ = some (r, ⟨[7], []⟩) ∧
      r.toNat = 624485) ∧
    ∃ r, readSleb128.run ⟨List.replicate 9 0x80 ++ [0x7f] ++ [7], []⟩ = some (r, ⟨[7], []⟩) ∧
      r.toInt = -2 ^ 63 :=
  ⟨(leb128_decoded (by decide) _ _).1 624485 (by decide)
      ⟨⟨by decide, by decide, by decide⟩, by decide⟩,
    (leb128_decoded (by decide) _ _).2 (-2 ^ 63) (by decide) (by decide)
      ⟨⟨by decide, by decide, by decide⟩, by decide⟩⟩

end Cdbg
