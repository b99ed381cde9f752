import Cdbg.Control.Inversion
import Cdbg.Laws.Indirection
import Cdbg.Repl.Print

/-!
A scalar that has been written is read back, and its sign extension is what was written if that
fits in its bytes.
-/

namespace Cdbg

variable {σ : Type}

/-! ### Masks and signs -/

section Mask

variable {n i : ℕ}

/-- The bits of the mask of a size. -/
lemma getLsbD_mask (hn : n < 8) (hi : i < 64) :
    ((1 : BitVec 64) <<< (n * 8) - 1).getLsbD i = decide (i < n * 8) := by
  have hmask : ((1 : BitVec 64) <<< (n * 8) - 1) = BitVec.ofNat 64 (2 ^ (n * 8) - 1) := by
    interval_cases n <;> rfl
  rw [hmask, BitVec.getLsbD_ofNat, Nat.testBit_two_pow_sub_one]
  simp [hi]

lemma getLsbD_maskToSize (v : BitVec 64) (hn : 1 ≤ n) (hi : i < 64) :
    (maskToSize v n).getLsbD i = (v.getLsbD i && decide (i < n * 8)) := by
  rw [maskToSize]
  split
  next h =>
    have h8 : i < n * 8 := by omega
    simp [h8]
  next h => rw [BitVec.getLsbD_and, getLsbD_mask (by omega) hi]

lemma maskToSize_toNat (v : BitVec 64) (hn : 1 ≤ n) :
    (maskToSize v n).toNat = v.toNat % 2 ^ (8 * n) := by
  refine Nat.eq_of_testBit_eq fun i => ?_
  rw [Nat.testBit_mod_two_pow, Nat.mul_comm]
  by_cases hi : i < 64
  · have h := getLsbD_maskToSize v hn hi
    rw [BitVec.getLsbD, BitVec.getLsbD] at h
    rw [h, Bool.and_comm]
  · have hlarge : ∀ x : BitVec 64, x.toNat.testBit i = false := fun x =>
      Nat.testBit_lt_two_pow (lt_of_lt_of_le x.isLt (Nat.pow_le_pow_right (by omega) (by omega)))
    rw [hlarge, hlarge, Bool.and_false]

/-- A number that fits in some bits has all higher bits like its sign. -/
lemma getLsbD_of_fits {v : BitVec 64} {k : ℕ} (hlow : -2 ^ k ≤ v.toInt) (hhigh : v.toInt < 2 ^ k)
    (hk : k ≤ i) (hi : i < 64) : v.getLsbD i = v.msb := by
  have hpow : (2 : ℤ) ^ k = ((2 ^ k : ℕ) : ℤ) := by push_cast; rfl
  have hle : 2 ^ k ≤ 2 ^ i := Nat.pow_le_pow_right (by omega) hk
  rw [hpow] at hlow hhigh
  cases hm : v.msb with
  | false =>
      rw [BitVec.toInt_eq_msb_cond, hm, if_neg (by simp)] at hhigh
      exact Nat.testBit_lt_two_pow (by omega)
  | true =>
      rw [BitVec.toInt_eq_msb_cond, hm, if_pos rfl] at hlow
      have hnot : (~~~ v).getLsbD i = false := by
        refine Nat.testBit_lt_two_pow ?_
        rw [BitVec.toNat_not]
        have hlt := v.isLt
        push_cast at hlow
        omega
      rw [BitVec.getLsbD_not] at hnot
      simpa [hi] using hnot

/-- The sign extension of the low bytes of a number that fits in them is the number. -/
lemma signExtendValue_maskToSize {v : BitVec 64} (hn : 1 ≤ n) (hlow : -2 ^ (8 * n - 1) ≤ v.toInt)
    (hhigh : v.toInt < 2 ^ (8 * n - 1)) : signExtendValue (maskToSize v n) n = v := by
  rw [signExtendValue]
  split
  next h => rw [maskToSize, if_pos h]
  next h =>
  obtain ⟨h0, h8⟩ := not_or.mp h
  -- from the sign bit of the width on every bit of the value is its sign
  have hbits : ∀ i, 8 * n - 1 ≤ i → i < 64 → v.getLsbD i = v.msb := fun i hk hi =>
    getLsbD_of_fits hlow hhigh hk hi
  have hmasked (j : ℕ) (hj : j < 64) :
      (maskToSize v n &&& ((1 : BitVec 64) <<< (n * 8) - 1)).getLsbD j =
        (v.getLsbD j && decide (j < n * 8)) := by
    rw [BitVec.getLsbD_and, getLsbD_maskToSize v hn hj, getLsbD_mask (by omega) hj, Bool.and_assoc,
      Bool.and_self]
  -- the sign bit that is tested is that of the value
  have hsign : (maskToSize v n &&& ((1 : BitVec 64) <<< (n * 8) - 1)) &&&
      (1 : BitVec 64) <<< (n * 8 - 1) ≠ 0 ↔ v.msb = true := by
    have hbit : (maskToSize v n &&& ((1 : BitVec 64) <<< (n * 8) - 1)).getLsbD (n * 8 - 1) =
        v.msb := by
      rw [hmasked _ (by omega), hbits _ (by omega) (by omega), decide_eq_true (by omega),
        Bool.and_true]
    have hpow : BitVec.twoPow 64 (n * 8 - 1) ≠ 0#64 := by
      intro hzero
      have htoNat := congrArg BitVec.toNat hzero
      rw [BitVec.toNat_twoPow_eq_ite, if_pos (by omega), BitVec.toNat_ofNat, Nat.zero_mod] at htoNat
      exact absurd htoNat (by positivity)
    have hone : (1 : BitVec 64) <<< (n * 8 - 1) = BitVec.twoPow 64 (n * 8 - 1) :=
      (BitVec.twoPow_eq 64 (n * 8 - 1)).symm
    rw [hone, BitVec.and_twoPow, hbit]
    cases v.msb <;> simp [hpow]
  -- so the extension restores the value bit by bit
  refine BitVec.eq_of_getLsbD_eq fun i hi => ?_
  dsimp only
  split
  next hneg =>
    rw [BitVec.getLsbD_or, hmasked i hi, BitVec.getLsbD_not, getLsbD_mask (by omega) hi]
    by_cases hin : i < n * 8
    · simp [hin]
    · rw [hbits i (by omega) hi, hsign.mp hneg]
      simp [hin, hi]
  next hpos =>
    rw [hmasked i hi]
    by_cases hin : i < n * 8
    · simp [hin]
    · have hmsb : v.msb = false := by simpa using fun h => hpos (hsign.mpr h)
      rw [hbits i (by omega) hi, hmsb, Bool.false_and]

end Mask

/-- **Set, then print**: `write_scalar_value` changes only the bytes it is given, and
`read_scalar_value` then gives the low bytes of the value, whose sign extension is the value if
it fits in them. -/
theorem scalar_round_trip {w : World σ} {p : Proc} (hp : w.taskForPid w.dbg.pid = some p)
    {a : Addr} {n : ℕ} (hn : 1 ≤ n) (hn8 : n ≤ 8) (ha : a.toNat + n ≤ 2 ^ 64)
    (hmapped : p.mappedSpan a n = true) (v : BitVec 64) :
    ∃ m : Memory, (writeScalarValue a n v w).value = some 0 ∧
      (writeScalarValue a n v w).final = w.setProc { p with mem := m } ∧
      (∀ x : Addr, x.toNat < a.toNat ∨ a.toNat + n ≤ x.toNat → m x = p.mem x) ∧
      ∃ r, (writeScalarValue a n v w).final.readScalarValue a n = some r ∧
        r.toNat = v.toNat % 2 ^ (8 * n) ∧ r = maskToSize v n ∧
        (-2 ^ (8 * n - 1) ≤ v.toInt → v.toInt < 2 ^ (8 * n - 1) → signExtendValue r n = v) := by
  have hwidth : scalarWidth n = n := if_neg (by omega)
  obtain ⟨hproc, hpid⟩ := World.taskForPid_eq_some.mp hp
  have hrun : writeScalarValue a n v w =
      ⟨some 0, w.setProc { p with mem := p.mem.write a n v.toNat }, [⟨.store a n, w⟩]⟩ := by
    rcases writeScalarValue_cases a n v w with ⟨hnone, _⟩ | ⟨q, hq, ⟨_, h⟩ | ⟨hno, _⟩⟩
    · rw [hp] at hnone
      cases hnone
    · obtain rfl : p = q := Option.some.inj (hp.symm.trans hq)
      rw [h, hwidth]
    · obtain rfl : p = q := Option.some.inj (hp.symm.trans hq)
      rw [hwidth, hmapped] at hno
      cases hno
  refine ⟨p.mem.write a n v.toNat, by rw [hrun], by rw [hrun], fun x hx => ?_, maskToSize v n, ?_,
    maskToSize_toNat v hn, rfl, fun hlow hhigh => signExtendValue_maskToSize hn hlow hhigh⟩
  · refine Memory.write_of_notMem fun hmem => ?_
    rw [Memory.mem_span] at hmem
    bv_omega
  · have hread : (w.setProc { p with mem := p.mem.write a n v.toNat }).readMem w.dbg.pid a n =
        some (v.toNat % 256 ^ n) := by
      refine World.readMem_eq_some.mpr ⟨{ p with mem := p.mem.write a n v.toNat },
        World.taskForPid_eq_some.mpr ⟨rfl, hpid⟩, hmapped, ?_⟩
      exact Memory.read_write_self _ _ (by omega) _
    rw [hrun, World.readScalarValue, hwidth, World.setProc_dbg, hread, Option.map_some]
    refine congrArg some (BitVec.eq_of_toNat_eq ?_)
    rw [maskToSize_toNat v hn, BitVec.toNat_ofNat, show (256 : ℕ) = 2 ^ 8 from rfl, ← pow_mul]
    exact Nat.mod_eq_of_lt (lt_of_le_of_lt (Nat.mod_le _ _) v.isLt)

/-- Minus two in the four bytes at 8. -/
theorem scalar_round_trip_int :
    ∃ r, (writeScalarValue 8 4 (-2) (stoppedAtLocal "int" fun _ => 0)).final.readScalarValue 8 4 =
        some r ∧ r.toNat = 2 ^ 32 - 2 ∧ signExtendValue r 4 = -2 := by
  obtain ⟨_, _, _, _, r, hread, hlow, _, hsign⟩ :=
    scalar_round_trip (w := stoppedAtLocal "int" fun _ => 0) (a := 8) (n := 4)
      (World.taskForPid_eq_some.mpr ⟨rfl, rfl⟩) (by decide) (by decide) (by decide) (by decide) (-2)
  exact ⟨r, hread, hlow, hsign (by decide) (by decide)⟩

end Cdbg
