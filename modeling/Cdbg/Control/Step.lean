import Cdbg.Control.Report

/-!
The commands `step`, `next` and `up`: `cdbg_step_next_line`,
`cdbg_next_source_line` with the temporary breakpoint that steps over a call, and
`cdbg_frame_up`.
-/

namespace Cdbg

variable {σ : Type}

/-- `CDBG_MAX_STEP_ITERATIONS`. -/
def maxStepIterations : ℕ := 100000

/-- Whether an instruction is a direct call, `BL`. -/
def isDirectCall (insn : BitVec 32) : Bool := insn &&& 0xfc000000 = 0x94000000

/-- `call_return_address`: the address after a direct call at `pc`. -/
def callReturnAddress (pc : Addr) : Debugger σ (Option Addr) := do
  let w ← Prog.get
  match ← memRead w.dbg.pid pc 4 with
  | none => return none
  | some insn => return if isDirectCall (BitVec.ofNat 32 insn) then some (pc + 4) else none

/-- `cdbg_bp_disable (&temp_bp, dbg->pid)` with the result ignored. -/
def dropTemp (temp : Breakpoint) : Debugger σ Unit := do
  let w ← Prog.get
  let _ ← bpDisable temp w.dbg.pid
  return ()

/-- `finish_temp_breakpoint`. -/
def finishTempBreakpoint (host : Host σ) (temp : Breakpoint) : Debugger σ ℤ := do
  if (← refreshRegs) ≠ 0 then
    dropTemp temp
    return -1
  let w ← Prog.get
  if temp.matchesPc w.dbg.regs.pc = false then
    dropTemp temp
    reportStop host
  else
    let (_, rc) ← bpDisable temp w.dbg.pid
    if rc ≠ 0 then
      return -1
    return 0

/-- `step_over_call`. -/
def stepOverCall (host : Host σ) (returnAddr : Addr) : Debugger σ ℤ := do
  let w ← Prog.get
  let (temp, rc) ← bpEnable .temp .zero w.dbg.pid returnAddr
  if rc ≠ 0 then
    return -1
  if (← cdbgContinue host) ≠ 0 then
    dropTemp temp
    return -1
  let w ← Prog.get
  if w.dbg.state = .idle then
    dropTemp temp
    return 0
  if (← cdbgWait host) ≠ 0 then
    dropTemp temp
    let w ← Prog.get
    return if w.dbg.state = .idle then 0 else -1
  let w ← Prog.get
  if w.dbg.state ≠ .stopped then
    dropTemp temp
    return 0
  finishTempBreakpoint host temp

/-- The single step of a program counter without line information. -/
def stepWithoutLine (host : Host σ) : Debugger σ ℤ := do
  if (← cdbgSingleStep) ≠ 0 then
    return -1
  if (← cdbgWait host) ≠ 0 then
    let w ← Prog.get
    return if w.dbg.state = .idle then 0 else -1
  let w ← Prog.get
  if w.dbg.state = .stopped then
    let _ ← reportStop host
    return 0
  return 0

/-- What a round of the stepping loops does after it has stopped: `some rc` ends
the command, `none` goes on at the program counter then in `dbg->regs`. -/
def checkLine (host : Host σ) (startFile : Str) (startLine : BitVec 32) :
    Debugger σ (Option ℤ) := do
  if (← refreshRegs) ≠ 0 then
    return some (-1)
  let w ← Prog.get
  let pc := w.dbg.regs.pc
  if bpIsTrap pc w.dbg.breakpoints then
    let rc ← reportStop host
    return some rc
  if ← tryReportWatchpointHit host then
    return some 0
  let w ← Prog.get
  match w.dbg.lineno.lineAtPc pc with
  | none => return none
  | some (curFile, curLine) =>
      if curFile ≠ startFile ∨ curLine ≠ startLine then
        printStopHeader
        emit (.stoppedAt pc)
        printStopLocation pc
        return some 0
      return none

/-- One single step of a stepping loop: `some rc` ends the command. -/
def stepOnce (host : Host σ) : Debugger σ (Option ℤ) := do
  if (← cdbgSingleStep) ≠ 0 then
    return some (-1)
  if (← cdbgWait host) ≠ 0 then
    let w ← Prog.get
    return some (if w.dbg.state = .idle then 0 else -1)
  let w ← Prog.get
  if w.dbg.state ≠ .stopped then
    return some 0
  return none

/-- The loop of `cdbg_step_next_line`, with the number of rounds left. -/
def stepLoop (host : Host σ) (startFile : Str) (startLine : BitVec 32) : ℕ → Debugger σ ℤ
  | 0 => do
      emit .stepLimit
      return -1
  | n + 1 => do
      match ← stepOnce host with
      | some rc => return rc
      | none =>
      match ← checkLine host startFile startLine with
      | some rc => return rc
      | none => stepLoop host startFile startLine n

/-- `cdbg_step_next_line`. -/
def stepNextLine (host : Host σ) : Debugger σ ℤ := do
  if (← refreshRegs) ≠ 0 then
    return -1
  let w ← Prog.get
  match w.dbg.lineno.lineAtPc w.dbg.regs.pc with
  | none => stepWithoutLine host
  | some (startFile, startLine) => stepLoop host startFile startLine maxStepIterations

/-- The resume of a round of `next` at `pc`: over a direct call, else one step. -/
def nextOnce (host : Host σ) (pc : Addr) : Debugger σ (Option ℤ) := do
  match ← callReturnAddress pc with
  | some returnAddr =>
      if (← stepOverCall host returnAddr) ≠ 0 then
        return some (-1)
      let w ← Prog.get
      if w.dbg.state ≠ .stopped then
        return some 0
      return none
  | none => stepOnce host

/-- The loop of `cdbg_next_source_line`, with the number of rounds left. -/
def nextLoop (host : Host σ) (startFile : Str) (startLine : BitVec 32) (pc : Addr) :
    ℕ → Debugger σ ℤ
  | 0 => do
      emit .stepLimit
      return -1
  | n + 1 => do
      match ← nextOnce host pc with
      | some rc => return rc
      | none =>
      match ← checkLine host startFile startLine with
      | some rc => return rc
      | none => do
          let w ← Prog.get
          nextLoop host startFile startLine w.dbg.regs.pc n

/-- `cdbg_next_source_line`. -/
def nextSourceLine (host : Host σ) : Debugger σ ℤ := do
  if (← refreshRegs) ≠ 0 then
    return -1
  let w ← Prog.get
  match w.dbg.lineno.lineAtPc w.dbg.regs.pc with
  | none => stepWithoutLine host
  | some (startFile, startLine) =>
      nextLoop host startFile startLine w.dbg.regs.pc maxStepIterations

/-! ### `up` -/

/-- `ret_addr_valid`. -/
def retAddrValid (addr : Addr) : Bool := 0x1000 ≤ addr

/-- `unwind_from_stack_top`. -/
def World.unwindFromStackTop (w : World σ) (regs : Regs) : Option Regs :=
  let retAddr := regs.native.lr
  if retAddrValid retAddr = false then none
  else
    let native := { regs.native with pc := retAddr, sp := regs.native.sp + 16 }
    match (if regs.fp = 0 then none else w.readU64 w.dbg.pid regs.fp) with
    | some savedFp =>
        some { regs with native :=
          if regs.fp < savedFp then { native with fp := savedFp } else native }
    | none => some { regs with native := native }

/-- `cdbg_regs_frame_up`. -/
def World.regsFrameUp (w : World σ) (regs : Regs) : Option Regs :=
  let fp := regs.fp
  match (if fp = 0 then none else w.readU64 w.dbg.pid fp),
      (if fp = 0 then none else w.readU64 w.dbg.pid (fp + 8)) with
  | some savedFp, some retAddr =>
      if fp < savedFp ∧ retAddrValid retAddr then
        some { regs with native :=
          { regs.native with pc := retAddr, fp := savedFp, sp := fp + 16 } }
      else w.unwindFromStackTop regs
  | _, _ => w.unwindFromStackTop regs

/-- `cdbg_frame_up`. -/
def frameUp : Debugger σ ℤ := do
  if (← refreshRegs) ≠ 0 then
    return -1
  let w ← Prog.get
  match w.regsFrameUp w.dbg.regs with
  | none => return -1
  | some regs =>
      modifyDbg fun d => { d with regs := regs }
      if (← storeRegs) ≠ 0 then
        return -1
      let w ← Prog.get
      printStopLocation w.dbg.regs.pc
      return 0

end Cdbg
