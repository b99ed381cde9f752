import Cdbg.Control.Step

/-!
Starting and ending a debuggee: `cdbg_run` with the temporary breakpoint at the
entry of the program, and `stop_debuggee`.
-/

namespace Cdbg

variable {σ : Type}

/-- `CDBG_MAX_RUN_ARGS`. -/
def maxRunArgs : ℕ := 64

/-- `CDBG_MAX_PATH`. -/
def maxPath : ℕ := 1024

/-- `cdbg_set_run_target`. Too many arguments overwrite the ones stored without
changing their number. -/
def setRunTarget (argv : List Str) : Debugger σ ℤ := do
  if argv = [] then
    return -1
  if maxRunArgs < argv.length then
    modifyDbg fun d =>
      { d with runArgv := (argv.take d.runArgv.length).map (CString.truncate maxPath) }
    return -1
  modifyDbg fun d => { d with runArgv := argv.map (CString.truncate maxPath) }
  return 0

/-- The first row of lowest address at or after `addr`. -/
def LineTable.firstAtOrAfter (ln : LineTable) (addr : Addr) : Option LineEntry :=
  ln.entries.foldl (fun best e =>
    if ln.runtimeAddr e.address < addr then best
    else match best with
      | none => some e
      | some b => if e.address < b.address then some e else best) none

/-- `resolve_entry_stop_addr`. -/
def Dbg.resolveEntryStopAddr (d : Dbg) : Option Addr :=
  match d.syms.lookupName "main".toList with
  | none => none
  | some sym =>
      if sym.isDefined = false then none
      else
        let addr := d.syms.runtimeAddr sym.address
        match d.lineno.lookupNextLineAfterPc addr with
        | some e => some (d.lineno.runtimeAddr e.address)
        | none =>
        match d.lineno.firstAtOrAfter addr with
        | some e => some (d.lineno.runtimeAddr e.address)
        | none => some addr

/-- `run_to_entry_stop`. -/
def runToEntryStop (host : Host σ) : Debugger σ ℤ := do
  let w ← Prog.get
  if w.dbg.state ≠ .stopped then
    return 0
  match w.dbg.resolveEntryStopAddr with
  | none => return 0
  | some entryAddr =>
  let (temp, rc) ← bpEnable .temp .zero w.dbg.pid entryAddr
  if rc ≠ 0 then
    return -1
  if (← cdbgContinue host) ≠ 0 then
    dropTemp temp
    return -1
  if (← cdbgWait host) ≠ 0 then
    dropTemp temp
    return -1
  let w ← Prog.get
  if w.dbg.state ≠ .stopped then
    dropTemp temp
    return 0
  if (← refreshRegs) ≠ 0 then
    dropTemp temp
    return -1
  let w ← Prog.get
  if temp.matchesPc w.dbg.regs.pc = false then
    dropTemp temp
    return 0
  dropTemp temp
  if entryAddr ≠ 0 then
    modifyDbg fun d => { d with regs := d.regs.setPc entryAddr }
    if (← storeRegs) ≠ 0 then
      return -1
    printStopHeader
    printStopLocation entryAddr
    return 1
  else
    printStopHeader
    printStopLocation entryAddr
    return 1

/-- All entries of both tables disabled. -/
def Dbg.disableAll (d : Dbg) : Dbg :=
  { d with
    breakpoints := d.breakpoints.map fun bp => { bp with enabled := false }
    watchpoints := d.watchpoints.map fun wp => { wp with enabled := false } }

/-- The killing of the debuggee in `stop_debuggee`. -/
def killDebuggee (host : Host σ) : Debugger σ ℤ := do
  let w ← Prog.get
  detachAndKill w.dbg.pid
  processWait host w.dbg.pid

/-- `stop_debuggee`. -/
def stopDebuggee (host : Host σ) : Debugger σ ℤ := do
  let w ← Prog.get
  if w.dbg.pid = 0 then
    modifyDbg fun d => { d with state := .idle }
    return 0
  if w.dbg.state ≠ .idle then
    if (← killDebuggee host) ≠ 0 then
      return -1
    modifyDbg fun d => { d.disableAll with pid := 0, state := .idle }
    return 0
  else
    modifyDbg fun d => { d.disableAll with pid := 0, state := .idle }
    return 0

/-- `cdbg_lineno_update_slide`, for a table with entries. -/
def Proc.slideLines (p : Proc) (ln : LineTable) : LineTable :=
  if ln.entries = [] then ln else { ln with slide := p.textBase - ln.linkBase }

/-- `cdbg_syms_update_slide`, for a table with entries. -/
def Proc.slideSyms (p : Proc) (syms : SymTable) : SymTable :=
  if syms.entries = [] then syms else { syms with slide := p.textBase - syms.linkBase }

/-- The updates of both slides. -/
def updateSlides : Debugger σ Unit := do
  let w ← Prog.get
  match w.taskForPid w.dbg.pid with
  | none => return ()
  | some p =>
      modifyDbg fun d =>
        { d with lineno := p.slideLines d.lineno, syms := p.slideSyms d.syms }

/-- What `cdbg_run` clears before it starts a program. -/
def Dbg.clearRun (d : Dbg) : Dbg :=
  { d with
    breakpoints := .empty
    watchpoints := .empty
    regs := .zero
    waitStatus := .exited 0 }

/-- `cdbg_load_symbols`, while no debuggee exists. -/
def Dbg.loadSymbols (d : Dbg) (image : Image) : Dbg :=
  { d with
    lineno := image.lineno.getD .empty
    syms := image.syms.getD .empty
    debugInfo := some image.debugInfo }

/-- `cdbg_spawn`. -/
def cdbgSpawn (host : Host σ) : Debugger σ ℤ := do
  match ← processSpawn host with
  | none => return -1
  | some pid =>
      modifyDbg fun d => { d with pid := pid, state := .running }
      updateSlides
      return 0

/-- The part of `cdbg_run` from clearing the tables to the new child. -/
def launch (host : Host σ) (program : Str) : Debugger σ ℤ := do
  modifyDbg fun d => d.clearRun.loadSymbols (host.image program)
  cdbgSpawn host

/-- `cdbg_print_stop_context`. -/
def printStopContext : Debugger σ Unit := do
  if (← refreshRegs) ≠ 0 then
    return ()
  let w ← Prog.get
  printStopLocation w.dbg.regs.pc

/-- The part of `cdbg_run` after the first stop of the child. -/
def enterProgram (host : Host σ) : Debugger σ ℤ := do
  updateSlides
  let entryRc ← runToEntryStop host
  if entryRc < 0 then
    reportProcessExit
    return -1
  let w ← Prog.get
  if entryRc = 0 ∧ w.dbg.state = .stopped then
    printStopContext
    return 0
  return 0

/-- `cdbg_run`, once the run target is set. -/
def startProgram (host : Host σ) : Debugger σ ℤ := do
  let w ← Prog.get
  match w.dbg.runArgv with
  | [] => return -1
  | program :: _ =>
  if (← stopDebuggee host) ≠ 0 then
    return -1
  if (← launch host program) ≠ 0 then
    return -1
  if (← cdbgWait host) ≠ 0 then
    reportProcessExit
    return -1
  enterProgram host

/-- `cdbg_run`. -/
def cdbgRun (host : Host σ) (argv : Option (List Str)) : Debugger σ ℤ := do
  match argv with
  | none => startProgram host
  | some argv =>
      if (← setRunTarget argv) ≠ 0 then
        return -1
      startProgram host

end Cdbg
