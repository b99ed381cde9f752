import Cdbg.Control.Breakpoint

/-!
Resuming the debuggee and waiting for it: `cdbg_wait`, `cdbg_single_step`,
`cdbg_continue` and what they do about disabled breakpoints.

A breakpoint that was hit is disabled. `reenable_breakpoints_after_step` enables it
again at the next stop at which the selected thread is elsewhere, and
`step_over_disabled_breakpoint` forces such a stop before the debuggee is
continued.
-/

namespace Cdbg

variable {σ : Type}

/-- `cdbg_refresh_regs`. -/
def refreshRegs : Debugger σ ℤ := do
  let w ← Prog.get
  emit .refreshRegs
  match ← regsGet w.dbg.pid w.dbg.currentTid with
  | none => return -1
  | some regs =>
      modifyDbg fun d => { d with regs := regs }
      return 0

/-- `cdbg_regs_set (dbg->pid, dbg->current_tid, &dbg->regs)`. -/
def storeRegs : Debugger σ ℤ := do
  let w ← Prog.get
  regsSet w.dbg.pid w.dbg.currentTid w.dbg.regs

/-- The loop of `reenable_breakpoints_after_step`, over the indices still to visit. -/
def reenableLoop (pc : Addr) : List ℕ → Debugger σ ℤ
  | [] => return 0
  | i :: is => do
      let w ← Prog.get
      match w.dbg.breakpoints.entry i with
      | none => reenableLoop pc is
      | some bp =>
          if bp.enabled = false ∧ bp.addr ≠ pc then
            if (← enableEntry i bp) ≠ 0 then
              return -1
            reenableLoop pc is
          else
            reenableLoop pc is

/-- `reenable_breakpoints_after_step`. -/
def reenableBreakpointsAfterStep : Debugger σ ℤ := do
  let w ← Prog.get
  if w.dbg.breakpoints.count = 0 ∨ w.dbg.state ≠ .stopped then
    return 0
  if (← refreshRegs) ≠ 0 then
    return -1
  let w ← Prog.get
  reenableLoop w.dbg.regs.pc (List.range w.dbg.breakpoints.count)

/-- The state `cdbg_wait` enters on a wait status. -/
def WaitStatus.state : WaitStatus → State
  | .exited _ => .idle
  | .signaled _ => .idle
  | .stopped => .stopped

/-- The first half of `cdbg_wait`: the wait itself and the state it leads to. -/
def waitForStop (host : Host σ) : Debugger σ ℤ := do
  let w ← Prog.get
  if (← processWait host w.dbg.pid) ≠ 0 then
    return -1
  modifyDbg fun d => { d with state := d.waitStatus.state }
  return 0

/-- `cdbg_wait`. -/
def cdbgWait (host : Host σ) : Debugger σ ℤ := do
  if (← waitForStop host) ≠ 0 then
    return -1
  let w ← Prog.get
  if w.dbg.state = .idle then
    return 1
  if (← reenableBreakpointsAfterStep) ≠ 0 then
    return -1
  return 0

/-- `cdbg_single_step`. -/
def cdbgSingleStep : Debugger σ ℤ := do
  let w ← Prog.get
  if (← ptStep w.dbg.pid) ≠ 0 then
    return -1
  modifyDbg fun d => { d with state := .running }
  return 0

/-- `step_over_disabled_breakpoint`. -/
def stepOverDisabledBreakpoint (host : Host σ) : Debugger σ ℤ := do
  let w ← Prog.get
  if w.dbg.state ≠ .stopped ∨ w.dbg.breakpoints.count = 0 then
    return 0
  if (← refreshRegs) ≠ 0 then
    return -1
  emit .steppingOver
  let w ← Prog.get
  if disabledBreakpointAtPc w.dbg.regs.pc w.dbg.breakpoints = false then
    return 0
  if (← cdbgSingleStep) ≠ 0 then
    return -1
  cdbgWait host

/-- The second half of `cdbg_continue`: thaw the other threads and continue. -/
def thawAndContinue : Debugger σ ℤ := do
  let w ← Prog.get
  let _ ← threadsResumeOthers w.dbg.pid w.dbg.currentTid
  if (← ptContinue w.dbg.pid) ≠ 0 then
    return -1
  modifyDbg fun d => { d with state := .running }
  return 0

/-- `cdbg_continue`. -/
def cdbgContinue (host : Host σ) : Debugger σ ℤ := do
  let stepRc ← stepOverDisabledBreakpoint host
  if stepRc ≠ 0 then
    return stepRc
  let w ← Prog.get
  if w.dbg.state = .idle then
    return 0
  thawAndContinue

end Cdbg
