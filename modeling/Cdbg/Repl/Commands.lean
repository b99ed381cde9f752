import Cdbg.Control.Start
import Cdbg.Expr.Eval

/-!
The commands of the debugger, `cmd_*`.

The result of a command matters to `cdbg_repl` for the resuming commands and `regs`
only. The commands below return it all the same where it is decided by the debugger's
state; the ones that end in printing return nothing.
-/

namespace Cdbg

open CString

variable {σ : Type}

/-- `parse_u64`. -/
def parseU64 (text : Str) : Option (BitVec 64) :=
  match strtoull 0 text with
  | some (v, []) => some v
  | _ => none

/-! ### Languages -/

/-- `k_language_aliases`. -/
def languageAliases : List (Str × Language) :=
  [("auto".toList, .auto), ("c".toList, .c), ("c++".toList, .cxx), ("cpp".toList, .cxx),
    ("cxx".toList, .cxx), ("objective-c".toList, .objc), ("objc".toList, .objc),
    ("fortran".toList, .fortran), ("pascal".toList, .pascal), ("ada".toList, .ada),
    ("modula-2".toList, .modula2), ("modula2".toList, .modula2), ("java".toList, .java),
    ("go".toList, .go), ("rust".toList, .rust), ("assembly".toList, .assembly),
    ("asm".toList, .assembly)]

/-- `cdbg_language_parse`: the aliases are compared without regard to case. -/
def languageParse (name : Str) : Option Language :=
  if name = [] then none
  else (languageAliases.find? fun a => a.1 = name.map Char.toLower).map Prod.snd

/-- `cdbg_language_effective`. -/
def Dbg.languageEffective (d : Dbg) : Language :=
  if d.language = .auto then .c else d.language

/-- `cdbg_language_supports_expr`. -/
def Language.supportsExpr (l : Language) : Bool :=
  l = .auto || l = .c || l = .cxx || l = .objc

/-- `cdbg_language_check_expr`. -/
def Dbg.languageCheckExpr (d : Dbg) : Bool := d.languageEffective.supportsExpr

/-! ### Expressions -/

/-- `cdbg_expr_eval`. -/
def exprEval (text : Str) : Debugger σ (Option ExprResult) := do
  let w ← Prog.get
  if w.dbg.languageCheckExpr = false then
    return none
  if (← refreshRegs) ≠ 0 then
    return none
  let w ← Prog.get
  return (exprParse text).bind fun root => (w.eval root).value

/-- `is_simple_identifier`. -/
def isSimpleIdentifier (expr : Str) : Bool :=
  match expr with
  | [] => false
  | c :: s => (isalpha c || c = '_') && s.all fun c => isalnum c || c = '_'

/-- `parse_print_format`: the expression after a format. -/
def dropPrintFormat (expr : Str) : Str :=
  match expr with
  | '/' :: f :: rest =>
      if f ∈ ['d', 'i', 'x', 'o', 't', 'c', 's'] ∧ (rest.head?.all isspace) then trimSpace rest
      else expr
  | _ => expr

/-- `cmd_print`, without what it prints. -/
def cmdPrint (expr : Str) : Debugger σ Unit := do
  let expr := dropPrintFormat (trimSpace expr)
  if expr = [] then
    return ()
  let w ← Prog.get
  if w.dbg.languageCheckExpr = false then
    return ()
  if (← refreshRegs) ≠ 0 then
    return ()
  let w ← Prog.get
  if isSimpleIdentifier expr ∧ (resolveVariableAddress w.dbg expr).isSome then
    return ()
  if (w.exprEvalLvalue (truncate 256 expr)).isSome then
    return ()
  let _ ← exprEval expr
  return ()

/-- `cmd_print_from_repl`: the argument of `cmd_print`. -/
def printArgument (fmt : Option Char) (rest : Option Str) : Str :=
  let arg := match fmt, rest with
    | some c, some rest => '/' :: c :: ' ' :: rest
    | some c, none => ['/', c]
    | none, some rest => rest
    | none, none => []
  truncate maxCmd arg

/-! ### `set` -/

/-- The assignment sign of `split_assignment`, from a position on: what stands before
it and after it. -/
def splitAtEq (before : Str) : Str → Option (Str × Str)
  | [] => none
  | c :: s =>
      if c = '=' ∧ ¬ (before.getLast?.any fun d => d = '<' || d = '>' || d = '!') ∧
          s.head? ≠ some '=' then some (before, s)
      else splitAtEq (before ++ [c]) s

/-- `split_assignment`. -/
def splitAssignment (args : Str) : Option (Str × Str) :=
  let args := trimSpace args
  let parts := match splitAtEq [] args with
    | some parts => some parts
    | none =>
        match args.dropWhile fun c => ! isspace c with
        | [] => none
        | _ :: rest => some (args.takeWhile fun c => ! isspace c, rest)
  match parts with
  | none => none
  | some (lhs, rhs) =>
      let lhs := trimSpace lhs
      let rhs := trimSpace rhs
      if lhs = [] ∨ rhs = [] then none else some (lhs, rhs)

/-- The index in a register name after its letter: `strtol` up to the end. -/
def registerIndex (digits : Str) : Option ℤ :=
  match strtoll 10 digits with
  | some (i, []) => some i
  | some _ => none
  | none => if digits = [] then some 0 else none

/-- `set_gpr_field`. -/
def setGprField (r : NativeRegs) (name : Str) (value : BitVec 64) : Option NativeRegs :=
  if name = "pc".toList then some { r with pc := value }
  else if name = "sp".toList then some { r with sp := value }
  else if name = "fp".toList ∨ name = "x29".toList then some { r with fp := value }
  else if name = "lr".toList ∨ name = "x30".toList then some { r with lr := value }
  else if name = "cpsr".toList then some { r with cpsr := value.setWidth 32 }
  else
    match name with
    | 'x' :: digits =>
        match registerIndex digits with
        | some i =>
            if 0 ≤ i ∧ i ≤ 28 then
              some { r with x := fun j => if (j.val : ℤ) = i then value else r.x j }
            else none
        | none => none
    | _ => none

/-- `set_fp_field`. -/
def setFpField (r : NeonRegs) (name : Str) (value : BitVec 64) : Option NeonRegs :=
  if name = "fpsr".toList then some { r with fpsr := value.setWidth 32 }
  else if name = "fpcr".toList then some { r with fpcr := value.setWidth 32 }
  else
    match name with
    | 'v' :: digits =>
        match registerIndex digits with
        | some i =>
            if 0 ≤ i ∧ i ≤ 31 then
              some { r with v := fun j => if (j.val : ℤ) = i then value.setWidth 128 else r.v j }
            else none
        | none => none
    | _ => none

/-- `cdbg_regs_get_by_name`. -/
def Regs.getByName (r : Regs) (name : Str) : Option (BitVec 64) :=
  if name = "pc".toList then some r.native.pc
  else if name = "sp".toList then some r.native.sp
  else if name = "fp".toList ∨ name = "x29".toList then some r.native.fp
  else if name = "lr".toList ∨ name = "x30".toList then some r.native.lr
  else if name = "cpsr".toList then some (r.native.cpsr.setWidth 64)
  else if name = "fpsr".toList then some (r.neon.fpsr.setWidth 64)
  else if name = "fpcr".toList then some (r.neon.fpcr.setWidth 64)
  else
    match name with
    | 'x' :: digits =>
        match registerIndex digits with
        | some i =>
            if h : 0 ≤ i ∧ i ≤ 28 then some (r.native.x ⟨i.toNat, by omega⟩) else none
        | none => none
    | 'v' :: digits =>
        match registerIndex digits with
        | some i =>
            if h : 0 ≤ i ∧ i ≤ 31 then some ((r.neon.v ⟨i.toNat, by omega⟩).setWidth 64) else none
        | none => none
    | _ => none

/-- `cdbg_regs_set_by_name (dbg->pid, dbg->current_tid, &dbg->regs, …)`. -/
def regsSetByName (name : Str) (value : BitVec 64) : Debugger σ ℤ := do
  let w ← Prog.get
  match setGprField w.dbg.regs.native name value with
  | some native =>
      modifyDbg fun d => { d with regs := { d.regs with native := native } }
      storeRegs
  | none =>
  match setFpField w.dbg.regs.neon name value with
  | some neon =>
      modifyDbg fun d => { d with regs := { d.regs with neon := neon } }
      let w ← Prog.get
      regsSetFp w.dbg.pid w.dbg.currentTid w.dbg.regs
  | none => return -1

/-- `write_scalar_value`. -/
def writeScalarValue (addr : Addr) (size : ℕ) (value : BitVec 64) : Debugger σ ℤ := do
  let w ← Prog.get
  emit (.store addr (scalarWidth size))
  memWrite w.dbg.pid addr (scalarWidth size) value.toNat

/-- `resolve_set_lhs`. -/
def resolveSetLhs (lhs : Str) : Debugger σ (Option LValue) := do
  if (← refreshRegs) ≠ 0 then
    return none
  if lhs.head? = some '&' then
    return none
  let w ← Prog.get
  match w.exprEvalLvalue lhs with
  | none => return none
  | some (lv, wholeStruct) => return if wholeStruct then none else some lv

/-- The branch of `cmd_set` for a register. -/
def setRegister (name rhs : Str) : Debugger σ ℤ := do
  let w ← Prog.get
  if w.dbg.languageCheckExpr = false then
    return -1
  match ← exprEval rhs with
  | none => return -1
  | some result =>
      if result.isAddress then
        return -1
      if (← refreshRegs) ≠ 0 then
        return -1
      regsSetByName name result.value

/-- The branch of `cmd_set` for storage. -/
def setStorage (lhs rhs : Str) : Debugger σ ℤ := do
  let w ← Prog.get
  if w.dbg.languageCheckExpr = false then
    return -1
  match ← exprEval rhs with
  | none => return -1
  | some result =>
      if result.isAddress then
        return -1
      match ← resolveSetLhs lhs with
      | none => return -1
      | some lv => writeScalarValue lv.addr lv.size result.value

/-- `cmd_set_print`. -/
def cmdSetPrint (args : Str) : Debugger σ ℤ := do
  let args := trimSpace args
  if "pretty".toList.isPrefixOf args then
    let value := trimSpace (args.drop 6)
    if value = "on".toList then
      modifyDbg fun d => { d with printPretty := true }
      return 0
    if value = "off".toList then
      modifyDbg fun d => { d with printPretty := false }
      return 0
    return -1
  return -1

/-- `cmd_set_language`. -/
def cmdSetLanguage (args : Str) : Debugger σ ℤ := do
  match languageParse (trimSpace args) with
  | none => return -1
  | some lang =>
      modifyDbg fun d => { d with language := lang }
      return 0

/-- `cmd_set_malloc_log`. -/
def cmdSetMallocLog (args : Str) : Debugger σ ℤ := do
  let args := trimSpace args
  if args = "on".toList then
    modifyDbg fun d => { d with mallocStackLogging := true }
    return 0
  if args = "off".toList then
    modifyDbg fun d => { d with mallocStackLogging := false }
    return 0
  return -1

/-- `cmd_set`. -/
def cmdSet (args : Option Str) : Debugger σ ℤ := do
  match args with
  | none => return -1
  | some args =>
  let trimmed := trimSpace (truncate maxCmd args)
  if "print ".toList.isPrefixOf trimmed then
    cmdSetPrint (trimmed.drop 6)
  else if "language ".toList.isPrefixOf trimmed then
    cmdSetLanguage (trimmed.drop 9)
  else if "malloc-log ".toList.isPrefixOf trimmed then
    cmdSetMallocLog (trimmed.drop 11)
  else
    match splitAssignment trimmed with
    | none => return -1
    | some ('&' :: _, _) => return -1
    | some ('$' :: name, rhs) => setRegister name rhs
    | some (lhs, rhs) => setStorage lhs rhs

/-! ### Breakpoints -/

/-- `resolve_break_line`: the address of a line, in a file or in the only file that
has it. -/
def Dbg.resolveBreakLine (d : Dbg) (file : Option Str) (line : BitVec 32) : Option Addr :=
  let entry := match file with
    | some (c :: f) => d.lineno.lookupLine (some (c :: f)) line
    | _ => d.lineno.lookupLineUnique line
  entry.map fun e => d.lineno.runtimeAddr e.address

/-- The address of a symbol given to `break`: its first line after the prologue. -/
def Dbg.resolveBreakSymbol (d : Dbg) (target : Str) : Option Addr :=
  match d.syms.lookupName target with
  | none => none
  | some sym =>
      if sym.isDefined = false then none
      else
        let addr := d.syms.runtimeAddr sym.address
        match d.lineno.lookupNextLineAfterPc addr with
        | some e => some (d.lineno.runtimeAddr e.address)
        | none => some addr

/-- The address that the argument of `break` denotes. -/
def Dbg.resolveBreakTarget (d : Dbg) (target : Str) : Option Addr :=
  match strrchr target ':' with
  | some (file, c :: line) =>
      if file = [] ∨ linenoMaxFile ≤ file.length then none
      else
        match parseU64 (c :: line) with
        | none => none
        | some lineNo =>
            if lineNo = 0 then none
            else d.resolveBreakLine (some file) (lineNo.setWidth 32)
  | _ =>
      match parseU64 target with
      | some parsed =>
          if "0x".toList.isPrefixOf target ∨ "0X".toList.isPrefixOf target then some parsed
          else
            match d.resolveBreakLine none (parsed.setWidth 32) with
            | some addr => some addr
            | none => some parsed
      | none => d.resolveBreakSymbol target

/-- The last part of `cmd_break`: a new entry at an address. -/
def addBreakpoint (addr : Addr) : Debugger σ ℤ := do
  let w ← Prog.get
  if maxBreakpoints ≤ w.dbg.breakpoints.count then
    return -1
  let (bp, rc) ← bpEnable (.entry w.dbg.breakpoints.count) .zero w.dbg.pid addr
  if rc ≠ 0 then
    return -1
  modifyDbg fun d => { d with breakpoints := (d.breakpoints.push bp).getD d.breakpoints }
  return 0

/-- `cmd_break`. -/
def cmdBreak (target : Str) : Debugger σ ℤ := do
  let w ← Prog.get
  match w.dbg.resolveBreakTarget target with
  | none => return -1
  | some addr => addBreakpoint addr

/-- `delete_breakpoint_at`. -/
def deleteBreakpointAt (index : ℕ) : Debugger σ ℤ := do
  let w ← Prog.get
  match w.dbg.breakpoints.entry index with
  | none => return -1
  | some bp =>
      if 0 < w.dbg.pid ∧ w.dbg.state ≠ .idle then
        if (← disableEntry index bp) ≠ 0 then
          return -1
        modifyDbg fun d => { d with breakpoints := d.breakpoints.erase index }
        return 0
      else
        modifyDbg fun d => { d with breakpoints := d.breakpoints.erase index }
        return 0

/-- Delete the breakpoints of the given indices, up to the first failure. -/
def deleteBreakpoints : List ℕ → Debugger σ ℤ
  | [] => return 0
  | i :: is => do
      if (← deleteBreakpointAt i) ≠ 0 then
        return -1
      deleteBreakpoints is

/-- The numbers given to `del` and `delwatch`, each below the number of entries and
without repetitions. -/
def parseIndices (count : ℕ) : List Str → List ℕ → Option (List ℕ)
  | [], acc => some acc
  | token :: tokens, acc =>
      match parseU64 token with
      | none => none
      | some number =>
          if count ≤ number.toNat then none
          else if number.toNat ∈ acc then parseIndices count tokens acc
          else parseIndices count tokens (acc ++ [number.toNat])

/-- The indices that the arguments of `del` and `delwatch` select, in the order of
deletion: from the last to the first. -/
def deletionOrder (count : ℕ) (args : Option Str) : Option (List ℕ) :=
  match args with
  | none => none
  | some args =>
      let args := trimSpace args
      if args = [] then none
      else if args = "all".toList then some (List.range count).reverse
      else
        (parseIndices count (strtok (truncate maxCmd args)) []).map
          (List.insertionSort (· ≥ ·))

/-- `cmd_del`. -/
def cmdDel (args : Option Str) : Debugger σ ℤ := do
  let w ← Prog.get
  if w.dbg.breakpoints.count = 0 then
    return 0
  match deletionOrder w.dbg.breakpoints.count args with
  | none => return -1
  | some indices => deleteBreakpoints indices

/-! ### Watchpoints -/

/-- `delete_watchpoint_at`. -/
def deleteWatchpointAt (index : ℕ) : Debugger σ ℤ := do
  let w ← Prog.get
  match w.dbg.watchpoints.entry index with
  | none => return -1
  | some wp =>
      if 0 < w.dbg.pid ∧ w.dbg.state ≠ .idle then
        disarmWatchpointAllThreads wp
        modifyDbg fun d => { d with watchpoints := d.watchpoints.erase index }
        return 0
      else
        modifyDbg fun d => { d with watchpoints := d.watchpoints.erase index }
        return 0

/-- Delete the watchpoints of the given indices, up to the first failure. -/
def deleteWatchpoints : List ℕ → Debugger σ ℤ
  | [] => return 0
  | i :: is => do
      if (← deleteWatchpointAt i) ≠ 0 then
        return -1
      deleteWatchpoints is

/-- `cmd_delwatch`. -/
def cmdDelwatch (args : Option Str) : Debugger σ ℤ := do
  let w ← Prog.get
  if w.dbg.watchpoints.count = 0 then
    return 0
  match deletionOrder w.dbg.watchpoints.count args with
  | none => return -1
  | some indices => deleteWatchpoints indices

/-- `find_free_watch_slot`. -/
def findFreeWatchSlot (wps : Table Watchpoint maxWatchpoints) : Option ℕ :=
  (List.range maxWatchpoints).find? fun slot =>
    ! wps.toList.any fun wp => wp.enabled && wp.slot = slot

/-- The last part of `cmd_watch`: arm a new watchpoint on every thread. -/
def addWatchpoint (wp : Watchpoint) : Debugger σ ℤ := do
  if (← armWatchpointAllThreads wp) ≠ 0 then
    return -1
  let w ← Prog.get
  let wp := match w.readMem w.dbg.pid wp.addr wp.size with
    | some value => { wp with lastValue := BitVec.ofNat 64 value, hasLastValue := true }
    | none => wp
  modifyDbg fun d =>
    { d with watchpoints := (d.watchpoints.push { wp with enabled := true }).getD d.watchpoints }
  return 0

/-- `cmd_watch`. -/
def cmdWatch (expr : Option Str) (kind : WatchKind) : Debugger σ ℤ := do
  match expr with
  | none => return -1
  | some expr =>
  let expr := trimSpace expr
  if expr = [] then
    return -1
  let w ← Prog.get
  if w.dbg.pid = 0 ∨ w.dbg.state ≠ .stopped then
    return -1
  if w.dbg.languageCheckExpr = false then
    return -1
  if (← refreshRegs) ≠ 0 then
    return -1
  if maxWatchpoints ≤ w.dbg.watchpoints.count then
    return -1
  match findFreeWatchSlot w.dbg.watchpoints with
  | none => return -1
  | some slot =>
  let w ← Prog.get
  match w.exprEvalLvalue (truncate 256 expr) with
  | none => return -1
  | some (lv, wholeStruct) =>
      if wholeStruct then
        return -1
      if lv.size = 0 ∨ 8 < lv.size then
        return -1
      addWatchpoint ⟨lv.addr, lv.size, kind, false, slot, truncate watchExprLen expr, 0, false⟩

/-! ### Threads, `show`, `list`, `tb` -/

/-- `cmd_thread`. -/
def cmdThread (arg : Str) : Debugger σ ℤ := do
  let w ← Prog.get
  if w.dbg.pid = 0 ∨ w.dbg.state = .idle then
    return -1
  match parseU64 arg with
  | none => return -1
  | some number =>
  match w.listed[number.toNat]? with
  | none => return -1
  | some t =>
      modifyDbg fun d => { d with currentTid := t.tid }
      if (← refreshRegs) ≠ 0 then
        return -1
      let w ← Prog.get
      printStopLocation w.dbg.regs.pc
      return 0

/-- `cmd_show`, without what it prints. -/
def cmdShow (args : Option Str) : Debugger σ Unit := do
  match args with
  | none => return ()
  | some args =>
  let args := trimSpace args
  if args = "bp".toList ∨ args = "wp".toList ∨ args = "threads".toList then
    return ()
  let w ← Prog.get
  if w.dbg.state ≠ .stopped then
    return ()
  if args = "locals".toList ∨ args = "args".toList ∨ args = "globals".toList then
    if w.dbg.languageCheckExpr = false then
      return ()
    let _ ← refreshRegs
    return ()
  return ()

/-- `cmd_list`, without what it prints. -/
def cmdList (target : Option Str) : Debugger σ Unit := do
  if (target.map trimSpace).getD [] = [] then
    let _ ← refreshRegs
    return ()
  return ()

/-- `frame_record_next`: the frame pointer of the caller and the return address. -/
def World.frameRecordNext (w : World σ) (fp : Addr) : Option (Addr × Addr) :=
  match w.readU64 w.dbg.pid fp, w.readU64 w.dbg.pid (fp + 8) with
  | some savedFp, some savedPc =>
      if savedFp = 0 ∨ savedPc < 0x1000 ∨ savedFp ≤ fp then none else some (savedFp, savedPc)
  | _, _ => none

/-- The loop of `cmd_backtrace`: the return addresses of at most so many callers. -/
def World.callers (w : World σ) : ℕ → Addr → List Addr
  | 0, _ => []
  | n + 1, fp =>
      if fp = 0 then []
      else match w.frameRecordNext fp with
        | none => []
        | some (nextFp, retAddr) => retAddr :: w.callers n nextFp

/-- `CDBG_MAX_BACKTRACE_FRAMES`. -/
def maxBacktraceFrames : ℕ := 64

/-- The program counters of the frames that `cmd_backtrace` prints. -/
def World.backtrace (w : World σ) : List Addr :=
  w.dbg.regs.pc :: w.callers (maxBacktraceFrames - 1) w.dbg.regs.fp

/-- `cmd_backtrace`; it prints `World.backtrace`. -/
def cmdBacktrace : Debugger σ Unit := do
  let _ ← refreshRegs
  return ()

/-! ### `run` and `kill` -/

/-- `PATH_MAX`. -/
def pathMax : ℕ := 1024

/-- `cdbg_resolve_program`. -/
def resolveProgram (host : Host σ) (name : Str) : Option Str :=
  if '/' ∈ name then if pathMax ≤ name.length then none else some name
  else if pathMax ≤ name.length + 2 then none
  else
    let cwdPath := '.' :: '/' :: name
    if host.executable cwdPath then some cwdPath else some name

/-- `cmd_run`. -/
def cmdRun (host : Host σ) (args : Option Str) : Debugger σ ℤ := do
  match strtok (truncate (2 * maxPath) (trimSpace (args.getD []))) with
  | [] => cdbgRun host none
  | program :: rest =>
      if maxRunArgs < rest.length + 1 then
        return -1
      match resolveProgram host program with
      | none => return -1
      | some program =>
          cdbgRun host (some ((program :: rest).map (truncate maxPath)))

/-- `kill`. -/
def cmdKill (host : Host σ) : Debugger σ Unit := do
  let w ← Prog.get
  if w.dbg.pid = 0 ∨ w.dbg.state = .idle then
    return ()
  let _ ← stopDebuggee host
  return ()

end Cdbg
