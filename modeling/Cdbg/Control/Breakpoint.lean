import Cdbg.Machine.World

/-!
`breakpoint.c`: software breakpoints.

A breakpoint is enabled by keeping the word found at its address and writing
`BRK #0` there, and disabled by writing the kept word back. The structure a call
works on is either an entry of the table of breakpoints or a local variable of the
caller (`BpSite`); the calls below take the structure and return it changed.
-/

namespace Cdbg

variable {σ : Type}

/-- `CDBG_TRAP_INST`, the encoding of `BRK #0`. -/
def trapInst : BitVec 32 := 0xd4200000

/-- `cdbg_bp_enable`. -/
def bpEnable (site : BpSite) (bp : Breakpoint) (pid : ℕ) (addr : Addr) :
    Debugger σ (Breakpoint × ℤ) := do
  match ← memRead pid addr 4 with
  | none => return (bp, -1)
  | some inst =>
      emit (.bpEnable site addr)
      let bp := { bp with addr := addr, savedInst := BitVec.ofNat 32 inst, enabled := true }
      if (← memWrite pid addr 4 trapInst.toNat) ≠ 0 then
        return ({ bp with enabled := false }, -1)
      return (bp, 0)

/-- `cdbg_bp_disable`. -/
def bpDisable (bp : Breakpoint) (pid : ℕ) : Debugger σ (Breakpoint × ℤ) := do
  if bp.enabled = false then
    return (bp, 0)
  if (← memWrite pid bp.addr 4 bp.savedInst.toNat) ≠ 0 then
    return (bp, -1)
  return ({ bp with enabled := false }, 0)

/-- `cdbg_bp_matches_pc`. -/
def Breakpoint.matchesPc (bp : Breakpoint) (pc : Addr) : Bool :=
  bp.enabled && bp.addr = pc

/-- `cdbg_bp_is_trap`. -/
def bpIsTrap (pc : Addr) (bps : Table Breakpoint maxBreakpoints) : Bool :=
  bps.toList.any fun bp => bp.matchesPc pc

/-- The index found by the loop of `report_stop`: the first entry matching `pc`. -/
def bpMatchIndex (pc : Addr) (bps : Table Breakpoint maxBreakpoints) : Option ℕ :=
  bps.toList.findIdx? fun bp => bp.matchesPc pc

/-- `disabled_breakpoint_at_pc`: whether a disabled entry has this address. -/
def disabledBreakpointAtPc (pc : Addr) (bps : Table Breakpoint maxBreakpoints) : Bool :=
  bps.toList.any fun bp => ! bp.enabled && bp.addr = pc

/-- `cdbg_bp_enable (&dbg->breakpoints[i], dbg->pid, dbg->breakpoints[i].addr)`. -/
def enableEntry (i : ℕ) (bp : Breakpoint) : Debugger σ ℤ := do
  let w ← Prog.get
  let (bp', rc) ← bpEnable (.entry i) bp w.dbg.pid bp.addr
  modifyDbg fun d => { d with breakpoints := d.breakpoints.set i bp' }
  return rc

/-- `cdbg_bp_disable (&dbg->breakpoints[i], dbg->pid)`. -/
def disableEntry (i : ℕ) (bp : Breakpoint) : Debugger σ ℤ := do
  let w ← Prog.get
  let (bp', rc) ← bpDisable bp w.dbg.pid
  modifyDbg fun d => { d with breakpoints := d.breakpoints.set i bp' }
  return rc

lemma bpMatchIndex_isSome (pc : Addr) (bps : Table Breakpoint maxBreakpoints) :
    (bpMatchIndex pc bps).isSome = bpIsTrap pc bps := by
  simp [bpMatchIndex, bpIsTrap]

end Cdbg
