import Cdbg.Repl.Commands

/-!
`cdbg_repl`, which reads commands and carries them out until `quit`, the end of the
input or a fatal error, and `main`.
-/

namespace Cdbg

open CString

variable {σ : Type}

/-- What `cdbg_repl` does after `continue` and `si` have resumed the debuggee: it
waits and reports the stop; `some rc` makes `cdbg_repl` return. -/
def waitAndReport (host : Host σ) : Debugger σ (Option ℤ) := do
  if (← cdbgWait host) ≠ 0 then
    let w ← Prog.get
    if w.dbg.state = .idle then
      reportProcessExit
      return none
    return some (-1)
  let w ← Prog.get
  if w.dbg.state = .stopped then
    let _ ← reportStop host
    return none
  reportProcessExit
  return none

/-- `CDBG_CMD_CONTINUE`. -/
def execContinue (host : Host σ) : Debugger σ (Option ℤ) := do
  let w ← Prog.get
  if w.dbg.state = .idle then
    return none
  if (← cdbgContinue host) ≠ 0 then
    return some (-1)
  let w ← Prog.get
  if w.dbg.state = .idle then
    reportProcessExit
    return none
  waitAndReport host

/-- `CDBG_CMD_STEP` and `CDBG_CMD_NEXT`, for the function that steps. -/
def execStep (stepLine : Debugger σ ℤ) : Debugger σ (Option ℤ) := do
  let w ← Prog.get
  if w.dbg.state = .idle then
    return none
  let rc ← stepLine
  let w ← Prog.get
  if rc ≠ 0 ∧ w.dbg.state ≠ .idle then
    return some (-1)
  reportProcessExit
  return none

/-- `CDBG_CMD_SI`. -/
def execSi (host : Host σ) : Debugger σ (Option ℤ) := do
  let w ← Prog.get
  if w.dbg.state = .idle then
    return none
  if (← cdbgSingleStep) ≠ 0 then
    return some (-1)
  waitAndReport host

/-- `CDBG_CMD_REGS`. -/
def execRegs : Debugger σ (Option ℤ) := do
  if (← refreshRegs) ≠ 0 then
    return some (-1)
  return none

/-- `CDBG_CMD_QUIT`. -/
def execQuit (host : Host σ) : Debugger σ (Option ℤ) := do
  let _ ← stopDebuggee host
  modifyDbg fun d => { d with lineno := .empty, syms := .empty }
  return some 0

/-- Carry out a command whose result `cdbg_repl` ignores. -/
def ignoring {α : Type} (m : Debugger σ α) : Debugger σ (Option ℤ) := do
  let _ ← m
  return none

/-- The `switch` of `cdbg_repl`: `some rc` makes it return. -/
def execCommand (host : Host σ) : Command → Debugger σ (Option ℤ)
  | .empty => return none
  | .help _ => return none
  | .run arg => ignoring (cmdRun host arg)
  | .continue_ => execContinue host
  | .step => execStep (stepNextLine host)
  | .si => execSi host
  | .next => execStep (nextSourceLine host)
  | .up => ignoring frameUp
  | .regs => execRegs
  | .print fmt arg => ignoring (cmdPrint (printArgument fmt arg))
  | .set arg => ignoring (cmdSet arg)
  | .show_ arg => ignoring (cmdShow arg)
  | .tb => ignoring cmdBacktrace
  | .leaks => return none
  | .break_ none => return none
  | .break_ (some target) => ignoring (cmdBreak target)
  | .del arg => ignoring (cmdDel arg)
  | .watch kind arg => ignoring (cmdWatch arg kind)
  | .delwatch arg => ignoring (cmdDelwatch arg)
  | .dis _ => return none
  | .list arg => ignoring (cmdList arg)
  | .lines _ => return none
  | .lists _ => return none
  | .syms _ => return none
  | .x _ _ => return none
  | .thread none => return none
  | .thread (some arg) => ignoring (cmdThread arg)
  | .kill => ignoring (cmdKill host)
  | .quit => execQuit host
  | .unknown _ => return none

/-- The loop of `cdbg_repl` over the lines it reads. -/
def replLoop (host : Host σ) : List Str → Debugger σ ℤ
  | [] => return 0
  | line :: lines => do
      let cmd := Command.parse line
      emit (.command cmd)
      match ← execCommand host cmd with
      | some rc => return rc
      | none => replLoop host lines

/-- The lines `cdbg_repl` reads from its input, without newlines; a line too long for
the buffer is read in pieces. -/
def replLines (input : List Str) : List Str :=
  (fgetsAll maxCmd input).map fun l => l.takeWhile (· ≠ '\n')

/-- `cdbg_repl`. -/
def cdbgRepl (host : Host σ) (input : List Str) : Debugger σ ℤ :=
  replLoop host (replLines input)

/-- The world in which the debugger starts. -/
def World.start (host : σ) : World σ := ⟨.init, none, host⟩

/-- `main`, from the program and its arguments on: start the program, then read
commands. -/
def cdbgMain (host : Host σ) (argv : List Str) (input : List Str) : Debugger σ ℤ := do
  match argv with
  | [] => return 1
  | program :: args =>
  match resolveProgram host program with
  | none => return 1
  | some program =>
  if 256 < args.length + 2 then
    return 1
  if (← setRunTarget (program :: args)) ≠ 0 then
    return 1
  if (← cdbgRun host none) ≠ 0 then
    return 1
  if (← cdbgRepl host input) ≠ 0 then
    return 1
  return 0

end Cdbg
