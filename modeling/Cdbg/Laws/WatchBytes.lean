import Cdbg.Control.DebugPort
import Cdbg.Control.Slots
import Cdbg.Machine.Script

/-!
The bytes a watchpoint register pair watches.

A pair fires on a byte whose doubleword is the one in the value register and whose place in
it is selected in the control register. `cdbg_watch_arm` writes the bytes of the watchpoint
there, and `cdbg_watch_addr_hit` asks for the same bytes of a fault address.
-/

namespace Cdbg

variable {σ : Type}

/-- Whether a register pair fires on a byte: its address with the low three bits cleared is
in the value register, and its bit is set among the byte address select bits. -/
def FiresOn (wvr wcr : BitVec 64) (x : Addr) : Prop :=
  x &&& ~~~ 7 = wvr ∧ wcr.getLsbD (5 + x.toNat % 8) = true

/-- The bits of a control register that are in use: enable, privilege, load and store, and
byte address select. -/
def controlBits : List ℕ := [0, 1, 2, 3, 4, 5, 6, 7, 8, 9, 10, 11, 12]

/-- The bytes from `addr` on lie in one doubleword. -/
def InGranule (addr : Addr) (size : ℕ) : Prop :=
  ∀ i < size, (addr.toNat + i) / 8 = addr.toNat / 8

lemma toNat_and_seven (x : Addr) : (x &&& 7).toNat = x.toNat % 8 := by
  rw [BitVec.toNat_and]
  exact Nat.and_two_pow_sub_one_eq_mod x.toNat 3

/-- Clearing the low three bits leaves the number of the doubleword. -/
lemma clear_eq_iff (x y : Addr) : x &&& ~~~ 7 = y &&& ~~~ 7 ↔ x.toNat / 8 = y.toNat / 8 := by
  have hlow : ∀ i, (7 : BitVec 64).getLsbD i = decide (i < 3) := by
    intro i
    change (7 : ℕ).testBit i = _
    exact Nat.testBit_two_pow_sub_one 3 i
  have hbit : ∀ (z : Addr) i, (z &&& ~~~ 7).getLsbD i = (decide (3 ≤ i) && z.getLsbD i) := by
    intro z i
    rw [BitVec.getLsbD_and, BitVec.getLsbD_not, hlow]
    by_cases hi : i < 64
    · by_cases h3 : i < 3
      · simp [h3]
      · simp [h3, hi, not_lt.mp h3]
    · rw [BitVec.getLsbD_of_ge z i (not_lt.mp hi)]
      simp
  constructor
  · intro h
    refine Nat.eq_of_testBit_eq fun i => ?_
    have hi := congrArg (fun z : Addr => z.getLsbD (3 + i)) h
    simp only [hbit, Nat.le_add_right, decide_true, Bool.true_and] at hi
    rw [show (8 : ℕ) = 2 ^ 3 by rfl, Nat.testBit_div_two_pow, Nat.testBit_div_two_pow,
      Nat.add_comm i]
    exact hi
  · intro h
    refine BitVec.eq_of_getLsbD_eq fun i hi => ?_
    rw [hbit, hbit]
    by_cases h3 : 3 ≤ i
    · have hdiv := congrArg (fun n : ℕ => n.testBit (i - 3)) h
      simp only [show (8 : ℕ) = 2 ^ 3 by rfl, Nat.testBit_div_two_pow] at hdiv
      rw [Nat.sub_add_cancel h3] at hdiv
      simp only [h3, decide_true, Bool.true_and]
      exact hdiv
    · simp [h3]

lemma inGranule_iff {addr : Addr} {size : ℕ} (h0 : 0 < size) :
    InGranule addr size ↔ (addr &&& 7).toNat + size ≤ 8 := by
  rw [toNat_and_seven]
  constructor
  · intro h
    have hlast := h (size - 1) (by omega)
    by_contra hover
    omega
  · intro h i hi
    omega

/-- The registers written for a watchpoint fire on its bytes. -/
lemma firesOn_iff {wp : Watchpoint} (he : wp.enabled = true) (h8 : wp.size ≤ 8)
    (hfit : (wp.addr &&& 7).toNat + wp.size ≤ 8) (hsum : wp.addr.toNat + wp.size < 2 ^ 64)
    (x : Addr) : FiresOn (wp.addr &&& ~~~ 7) (watchControl wp.addr wp.size wp.kind) x ↔
      wp.addrHit x = true := by
  rw [FiresOn, clear_eq_iff, DebugState.watchControl_byte _ _ _ (Nat.mod_lt _ (by decide)),
    toNat_and_seven, Watchpoint.addrHit]
  rw [toNat_and_seven] at hfit
  simp only [he, Bool.true_and, Bool.and_eq_true, decide_eq_true_eq]
  have hend : (wp.addr + BitVec.ofNat 64 wp.size).toNat = wp.addr.toNat + wp.size := by
    rw [BitVec.toNat_add, BitVec.toNat_ofNat]
    omega
  rw [BitVec.le_def, BitVec.lt_def, hend]
  omega

/-- From the thirteenth on no bit of a control register is set. -/
lemma watchControl_high {addr : Addr} {size : ℕ} (kind : WatchKind)
    (hfit : (addr &&& 7).toNat + size ≤ 8) {b : ℕ} (hb : 8 ≤ b) :
    (watchControl addr size kind).getLsbD (5 + b) = false := by
  have hr : (if kind.reads then 1 <<< 3 else 0 : ℕ) < 32 := by cases kind <;> decide
  have hw : (if kind.writes then 2 <<< 3 else 0 : ℕ) < 32 := by cases kind <;> decide
  rw [watchControl, BitVec.getLsbD_or, BitVec.getLsbD_or, BitVec.getLsbD_or, BitVec.getLsbD_or,
    DebugState.getLsbD_ofNat_of_lt (by decide), DebugState.getLsbD_ofNat_of_lt (by decide),
    DebugState.getLsbD_ofNat_of_lt hr, DebugState.getLsbD_ofNat_of_lt hw,
    BitVec.getLsbD_shiftLeft, BitVec.getLsbD_shiftLeft, BitVec.getLsbD_ofNat,
    Nat.testBit_two_pow_sub_one, Nat.add_sub_cancel_left]
  have hout : decide (b - (addr &&& 7).toNat < size) = false := by
    rw [decide_eq_false_iff_not]
    omega
  rw [hout]
  simp

/-- What a register pair must hold to stand for an enabled watchpoint. -/
structure Watchpoint.Watches (wp : Watchpoint) (wvr wcr : BitVec 64) : Prop where
  aligned : wvr &&& 7 = 0
  on : wcr.getLsbD 0 = true
  loads : wcr.getLsbD 3 = wp.kind.reads
  stores : wcr.getLsbD 4 = wp.kind.writes
  bytes : ∀ x, FiresOn wvr wcr x ↔ wp.addrHit x = true
  others : ∀ b, wcr.getLsbD b = true → b ∈ controlBits

/-- The registers `cdbg_watch_arm` writes watch the bytes of the watchpoint. -/
lemma watches_of_fits {wp : Watchpoint} (he : wp.enabled = true) (h8 : wp.size ≤ 8)
    (hfit : (wp.addr &&& 7).toNat + wp.size ≤ 8) (hsum : wp.addr.toNat + wp.size < 2 ^ 64) :
    wp.Watches (wp.addr &&& ~~~ 7) (watchControl wp.addr wp.size wp.kind) := by
  obtain ⟨hloads, hstores⟩ := DebugState.watchControl_kind wp.addr wp.size wp.kind
  refine ⟨?_, DebugState.watchControl_on _ _ _, hloads, hstores,
    firesOn_iff he h8 hfit hsum, fun b hb => ?_⟩
  · rw [BitVec.and_assoc]
    have hnone : (~~~ 7 &&& 7 : BitVec 64) = 0 := by decide
    rw [hnone]
    exact BitVec.and_zero
  · have hlt : b < 13 := by
      by_contra hge
      have hhigh := watchControl_high wp.kind hfit (b := b - 5) (by omega)
      rw [Nat.add_sub_cancel' (by omega), hb] at hhigh
      cases hhigh
    rw [controlBits]
    interval_cases b <;> decide

/-- **The armed bytes are the watched bytes**: with the register calls succeeding,
`cdbg_watch_arm` accepts exactly the sizes from one to eight that stay within a doubleword, and
the register pair it leaves behind watches exactly the bytes `cdbg_watch_addr_hit` asks for. -/
theorem watchArm_watches (wp : Watchpoint) (pid : ℕ) (tid : Tid) (w : World σ) (t : Thread)
    (ht : w.resolvePort pid tid = some t) (he : wp.enabled = true)
    (hslot : wp.slot < maxWatchpoints) (hsum : wp.addr.toNat + wp.size < 2 ^ 64) :
    ∃ rc w', (worldPort pid).watchArm tid wp.slot wp.addr wp.size wp.kind w =
        ⟨some rc, w', []⟩ ∧
      (rc = 0 ↔ 1 ≤ wp.size ∧ wp.size ≤ 8 ∧ InGranule wp.addr wp.size) ∧
      (rc = 0 → ∃ t', w'.resolvePort pid tid = some t' ∧
        ∀ i : Fin 16, i.val = wp.slot → wp.Watches (t'.debug.wvr i) (t'.debug.wcr i)) := by
  rw [worldPort_watchArm]
  by_cases hfits : 0 < wp.size ∧ wp.size ≤ 8 ∧ (wp.addr &&& 7).toNat + wp.size ≤ 8
  · obtain ⟨h0, h8, hfit⟩ := hfits
    obtain ⟨w', hset, -, ht'⟩ := setDebugState_resolve ht (t.debug.setSlot wp.slot
      (wp.addr &&& ~~~ 7) (watchControl wp.addr wp.size wp.kind))
    refine ⟨0, w', ?_, iff_of_true rfl ⟨h0, h8, (inGranule_iff h0).mpr hfit⟩,
      fun _ => ⟨_, ht', fun i hi => ?_⟩⟩
    · have hread : regsGetDebugState pid tid w = ⟨some (some t.debug), w, []⟩ := by
        simp only [regsGetDebugState, Prog.get_bind, ht, Option.map_some, Prog.pure_apply]
      rw [watchArm, if_neg (not_le.mpr hslot), if_neg (by omega), if_neg (by omega),
        Prog.bind_of_eq hread]
      simp only [hset, List.append_nil]
    · simp only [DebugState.setSlot, if_pos hi]
      exact watches_of_fits he h8 hfit hsum
  · refine ⟨-1, w, ?_, iff_of_false (by decide) ?_, fun h => by cases h⟩
    · rw [watchArm, if_neg (not_le.mpr hslot)]
      split
      · rfl
      next hsize => rw [if_pos (by omega)]; rfl
    · rintro ⟨h1, h8, hin⟩
      exact hfits ⟨h1, h8, (inGranule_iff h1).mp hin⟩

/-- A stopped child with one thread. -/
def oneThread : World Unit where
  dbg := { Dbg.init with pid := 7, state := .stopped }
  proc := some (.resting (.numbered (.at 1 0x1000) []) fun _ => 0)
  host := ()

/-- Armed for the four bytes from `0x1003` on, a register pair fires on the last of them and
not on the one behind. -/
theorem watchArm_watches_four : ∃ w' t',
    (worldPort 7).watchArm 0 2 0x1003 4 .write oneThread = ⟨some 0, w', []⟩ ∧
      w'.resolvePort 7 0 = some t' ∧ FiresOn (t'.debug.wvr 2) (t'.debug.wcr 2) 0x1006 ∧
      ¬ FiresOn (t'.debug.wvr 2) (t'.debug.wcr 2) 0x1007 := by
  obtain ⟨rc, w', hrun, hiff, hregs⟩ := watchArm_watches ⟨0x1003, 4, .write, true, 2, [], 0, false⟩
    7 0 oneThread (.at 1 0x1000) rfl rfl (by decide) (by decide)
  have hrc : rc = 0 := hiff.mpr ⟨by decide, by decide, (inGranule_iff (by decide)).mpr (by decide)⟩
  obtain ⟨t', ht', hwatches⟩ := hregs hrc
  have hbytes := (hwatches 2 rfl).bytes
  exact ⟨w', t', hrc ▸ hrun, ht', (hbytes _).mpr (by decide), fun h => absurd ((hbytes _).mp h)
    (by decide)⟩

end Cdbg
