import Mathlib.Tactic

/-!
The registers of a thread, as `regs.h` holds them: the general-purpose state and
the floating-point state of an ARM64 thread, and the watchpoint registers of the
debug state.
-/

namespace Cdbg

/-- `arm_thread_state64_t`. -/
structure NativeRegs where
  x : Fin 29 → BitVec 64
  fp : BitVec 64
  lr : BitVec 64
  sp : BitVec 64
  pc : BitVec 64
  cpsr : BitVec 32

/-- `arm_neon_state64_t`. -/
structure NeonRegs where
  v : Fin 32 → BitVec 128
  fpsr : BitVec 32
  fpcr : BitVec 32

/-- `cdbg_regs_t`. -/
structure Regs where
  native : NativeRegs
  neon : NeonRegs

namespace Regs

/-- All registers zero, as `memset` leaves them. -/
def zero : Regs := ⟨⟨fun _ => 0, 0, 0, 0, 0, 0⟩, ⟨fun _ => 0, 0, 0⟩⟩

/-- `cdbg_regs_pc`. -/
def pc (r : Regs) : BitVec 64 := r.native.pc

/-- `cdbg_regs_fp`. -/
def fp (r : Regs) : BitVec 64 := r.native.fp

/-- `cdbg_regs_set_pc`. -/
def setPc (r : Regs) (pc : BitVec 64) : Regs := { r with native := { r.native with pc := pc } }

@[simp] lemma pc_setPc (r : Regs) (a : BitVec 64) : (r.setPc a).pc = a := rfl

end Regs

/-- `CDBG_MAX_WATCHPOINTS`, the number of watchpoint register pairs in use. -/
def maxWatchpoints : ℕ := 4

/-- The watchpoint part of `arm_debug_state64_t`. -/
structure DebugState where
  wvr : Fin 16 → BitVec 64
  wcr : Fin 16 → BitVec 64

/-- The debug state of a thread on which nothing was armed. -/
def DebugState.zero : DebugState := ⟨fun _ => 0, fun _ => 0⟩

end Cdbg
