import Cdbg.Control.Watchpoint

/-!
Reporting a stop to the user: finding the thread that stopped and selecting it,
freezing the others, and the handlers of a breakpoint hit and a watchpoint hit.
-/

namespace Cdbg

variable {σ : Type}

/-- `report_process_exit`. -/
def reportProcessExit : Debugger σ Unit := do
  let w ← Prog.get
  if w.dbg.state ≠ .idle then
    return ()
  emit (.processExit w.dbg.pid w.dbg.waitStatus)
  modifyDbg fun d =>
    { d with
      breakpoints := d.breakpoints.map fun bp => { bp with enabled := false }
      watchpoints := d.watchpoints.map fun wp => { wp with enabled := false }
      pid := 0 }

/-- `print_stop_header`. -/
def printStopHeader : Debugger σ Unit := emit .stopHeader

/-- `print_stop_location`: the source line of a program counter, or else its
disassembly. -/
def printStopLocation (pc : Addr) : Debugger σ Unit := emit (.location pc)

/-- `handle_breakpoint_hit`. -/
def handleBreakpointHit (index : ℕ) (bp : Breakpoint) : Debugger σ ℤ := do
  if (← disableEntry index bp) ≠ 0 then
    return -1
  if (← refreshRegs) ≠ 0 then
    return -1
  if bp.addr ≠ 0 then
    modifyDbg fun d => { d with regs := d.regs.setPc bp.addr }
    if (← storeRegs) ≠ 0 then
      return -1
    emit (.breakpointHit bp.addr)
    printStopLocation bp.addr
    return 0
  else
    emit (.breakpointHit bp.addr)
    printStopLocation bp.addr
    return 0

/-- `find_watchpoint_hit`: the first watchpoint over the fault address. -/
def findWatchpointHit (wps : Table Watchpoint maxWatchpoints) (faultAddr : Addr) :
    Option ℕ :=
  wps.toList.findIdx? fun wp => wp.addrHit faultAddr

/-- The last part of `handle_watchpoint_hit`: show and keep the new value. -/
def recordValue (index : ℕ) : Debugger σ Unit := do
  let w ← Prog.get
  match w.dbg.watchpoints.entry index with
  | none => return ()
  | some wp =>
  match ← memRead w.dbg.pid wp.addr wp.size with
  | none => return ()
  | some value =>
      let wp := { wp with lastValue := BitVec.ofNat 64 value, hasLastValue := true }
      modifyDbg fun d => { d with watchpoints := d.watchpoints.set index wp }

/-- `handle_watchpoint_hit`. -/
def handleWatchpointHit (host : Host σ) (index : ℕ) (isWrite : Bool) : Debugger σ ℤ := do
  emit (.watchpointHit index isWrite)
  if (← stepPastAllWatchpoints host) ≠ 0 then
    return -1
  let w ← Prog.get
  if w.dbg.state ≠ .stopped then
    reportProcessExit
    return 0
  recordValue index
  let w ← Prog.get
  printStopLocation w.dbg.regs.pc
  return 0

/-- `handle_unresolved_watchpoint_hit`. -/
def handleUnresolvedWatchpointHit (host : Host σ) (far : Addr) : Debugger σ ℤ := do
  emit (.watchpointNear far)
  if (← stepPastAllWatchpoints host) ≠ 0 then
    return -1
  let w ← Prog.get
  if w.dbg.state ≠ .stopped then
    reportProcessExit
    return 0
  printStopLocation w.dbg.regs.pc
  return 0

/-- The watchpoint exception that the selected thread reports, if any: the fault
address and whether the access was a write. -/
def World.watchException (w : World σ) : Option (Addr × Bool) :=
  if w.dbg.watchpoints.count = 0 then none
  else match w.regsGetExceptionState w.dbg.pid w.dbg.currentTid with
    | none => none
    | some (far, esr) => (watchIsWatchpointEsr esr).map fun isWrite => (far, isWrite)

/-- `try_report_watchpoint_hit`. -/
def tryReportWatchpointHit (host : Host σ) : Debugger σ Bool := do
  let w ← Prog.get
  match w.watchException with
  | none => return false
  | some (far, isWrite) =>
  match findWatchpointHit w.dbg.watchpoints far with
  | some index =>
      let _ ← handleWatchpointHit host index isWrite
      return true
  | none =>
      let _ ← handleUnresolvedWatchpointHit host far
      return true

/-- The threads that `cdbg_threads_list` gives, as the kernel shows them. -/
def World.listed (w : World σ) : List Thread :=
  match w.taskForPid w.dbg.pid with
  | none => []
  | some p => p.threads.list.take maxThreads

/-- `find_breakpoint_hit_thread`: `0` if no thread is at an enabled breakpoint. -/
def World.findBreakpointHitThread (w : World σ) : Tid :=
  match w.listed.find? fun t => bpIsTrap t.regs.pc w.dbg.breakpoints with
  | none => 0
  | some t => t.tid

/-- `find_watchpoint_hit_thread`: `0` if no thread reports a watchpoint exception. -/
def World.findWatchpointHitThread (w : World σ) : Tid :=
  if w.dbg.watchpoints.count = 0 then 0
  else match w.listed.find? fun t => (w.regsGetExceptionState w.dbg.pid t.tid).any fun state =>
      (watchIsWatchpointEsr state.2).isSome with
    | none => 0
    | some t => t.tid

/-- The thread `report_stop` finds to have stopped, `0` if there is none. -/
def World.hitTid (w : World σ) : Tid :=
  if w.findBreakpointHitThread = 0 then w.findWatchpointHitThread
  else w.findBreakpointHitThread

/-- The selection made by `report_stop`. -/
def selectHitThread : Debugger σ Unit := do
  let w ← Prog.get
  if w.hitTid = 0 then
    return ()
  modifyDbg fun d => { d with currentTid := w.hitTid }

/-- The body of `report_stop`. -/
def announceStop (host : Host σ) : Debugger σ ℤ := do
  selectHitThread
  let w ← Prog.get
  let _ ← threadsSuspendOthers w.dbg.pid w.dbg.currentTid
  if (← refreshRegs) ≠ 0 then
    return -1
  printStopHeader
  let w ← Prog.get
  let pc := w.dbg.regs.pc
  match bpMatchIndex pc w.dbg.breakpoints with
  | some i =>
    match w.dbg.breakpoints.entry i with
    | some bp => handleBreakpointHit i bp
    | none => return 0
  | none =>
    if ← tryReportWatchpointHit host then
      return 0
    emit (.stoppedAt pc)
    printStopLocation pc
    return 0

/-- `report_stop`; the event marks its return. -/
def reportStop (host : Host σ) : Debugger σ ℤ := do
  let rc ← announceStop host
  emit .reported
  return rc

end Cdbg
