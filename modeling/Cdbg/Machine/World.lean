import Cdbg.Lib.Prog
import Cdbg.Lib.Table
import Cdbg.Machine.Process
import Cdbg.Repl.Command

/-!
The state of the debugger (`cdbg_t`) and the system calls it makes.

A `World` is the debugger's own state, its child process and the state of the
host. The functions of the debugger are programs over it; their traces record the
system calls and the messages that matter for the order of things, each with the
world at that moment.

The calls follow the kernel: a call on a process id succeeds if that process is a
live child (`taskForPid`), a call on a thread if that thread exists, a memory
access if the bytes are mapped, and `ptrace` resumes a stopped process only.
-/

namespace Cdbg

/-- `CDBG_MAX_BREAKPOINTS`. -/
def maxBreakpoints : ℕ := 64

/-- `CDBG_MAX_THREADS`. -/
def maxThreads : ℕ := 256

/-- `cdbg_breakpoint_t`. -/
structure Breakpoint where
  addr : Addr
  savedInst : BitVec 32
  enabled : Bool
  deriving DecidableEq, Repr

/-- A breakpoint structure cleared by `{0}`. -/
def Breakpoint.zero : Breakpoint := ⟨0, 0, false⟩

/-- `CDBG_WATCH_EXPR_LEN`. -/
def watchExprLen : ℕ := 128

/-- `cdbg_watchpoint_t`. -/
structure Watchpoint where
  addr : Addr
  size : ℕ
  kind : WatchKind
  enabled : Bool
  slot : ℕ
  expr : Str
  lastValue : BitVec 64
  hasLastValue : Bool
  deriving DecidableEq, Repr

/-- `cdbg_state_t`. -/
inductive State
  | idle
  | running
  | stopped
  deriving DecidableEq, Repr

/-- `cdbg_language_t`. -/
inductive Language
  | auto | c | cxx | objc | fortran | pascal | ada | modula2 | java | go | rust | assembly
  deriving DecidableEq, Repr

/-- A wait status as the debugger reads it. -/
inductive WaitStatus
  | exited (code : ℕ)
  | signaled (sig : ℕ)
  | stopped
  deriving DecidableEq, Repr

/-- `cdbg_t`. The paths of the executable and of its debug information are
represented by what `dwarfdump` prints for the latter, `none` before a load. -/
structure Dbg where
  pid : ℕ
  state : State
  waitStatus : WaitStatus
  currentTid : Tid
  regs : Regs
  breakpoints : Table Breakpoint maxBreakpoints
  watchpoints : Table Watchpoint maxWatchpoints
  lineno : LineTable
  syms : SymTable
  debugInfo : Option (List Str)
  runArgv : List Str
  printPretty : Bool
  mallocStackLogging : Bool
  language : Language

/-- `cdbg_init`. -/
def Dbg.init : Dbg where
  pid := 0
  state := .idle
  waitStatus := .exited 0
  currentTid := 0
  regs := .zero
  breakpoints := .empty
  watchpoints := .empty
  lineno := .empty
  syms := .empty
  debugInfo := none
  runArgv := []
  printPretty := true
  mallocStackLogging := false
  language := .auto

/-- The structure a call of `cdbg_bp_enable` works on. -/
inductive BpSite
  | entry (index : ℕ)
  | temp
  deriving DecidableEq, Repr

/-- What a trace records: commands read, calls made, messages printed. -/
inductive EventKind
  | command (c : Command)
  | refreshRegs
  | bpEnable (site : BpSite) (addr : Addr)
  | suspendOthers (keep : Tid)
  | resumeOthers (keep : Tid)
  | ptStep
  | ptContinue
  | fork
  | waited (o : Outcome)
  | steppingOver
  | memFailed (addr : Addr) (len : ℕ)
  | store (addr : Addr) (size : ℕ)
  | stopHeader
  | breakpointHit (addr : Addr)
  | watchpointHit (index : ℕ) (isWrite : Bool)
  | watchpointNear (far : Addr)
  | stoppedAt (pc : Addr)
  | location (pc : Addr)
  | reported
  | processExit (pid : ℕ) (status : WaitStatus)
  | stepLimit

/-- The debugger, its child process and the host. -/
structure World (σ : Type) where
  dbg : Dbg
  proc : Option Proc
  host : σ

/-- An event together with the world in which it happened. -/
structure Event (σ : Type) where
  kind : EventKind
  world : World σ

/-- A function of the debugger. -/
abbrev Debugger (σ α : Type) := Prog (Event σ) (World σ) α

variable {σ : Type}

/-- Record an event. -/
def emit (k : EventKind) : Debugger σ Unit := Prog.emit fun w => ⟨k, w⟩

/-- Change the debugger's own state. -/
def modifyDbg (f : Dbg → Dbg) : Debugger σ Unit :=
  Prog.modify fun w => { w with dbg := f w.dbg }

/-- Change the child process. -/
def modifyProc (f : Proc → Proc) : Debugger σ Unit :=
  Prog.modify fun w => { w with proc := w.proc.map f }

/-- `task_for_pid`: the child of this process id, if it is alive. -/
def World.taskForPid (w : World σ) (pid : ℕ) : Option Proc :=
  w.proc.filter fun p => p.pid = pid

/-! ### `threads.c` -/

/-- `cdbg_threads_list`: the ids and program counters of at most `max` threads. -/
def threadsList (pid max : ℕ) : Debugger σ (Option (List (Tid × Addr))) := do
  let w ← Prog.get
  return (w.taskForPid pid).map fun p =>
    (p.threads.list.take max).map fun t => (t.tid, t.regs.pc)

/-- `cdbg_threads_resolve_port`. -/
def World.resolvePort (w : World σ) (pid : ℕ) (tid : Tid) : Option Thread :=
  (w.taskForPid pid).bind fun p => p.threads.resolve tid

/-- `thread_suspend` on every thread but `keep`. -/
def Threads.suspendOthers (ts : Threads) (keep : Tid) : Threads :=
  ts.map (fun t =>
      { t with suspendCount :=
          if t.tid = ts.idOf keep then t.suspendCount else t.suspendCount + 1 })
    fun _ => rfl

/-- `thread_resume` on every thread but `keep`; it fails on a thread not suspended. -/
def Threads.resumeOthers (ts : Threads) (keep : Tid) : Threads :=
  ts.map (fun t =>
      { t with suspendCount :=
          if t.tid = ts.idOf keep then t.suspendCount else t.suspendCount - 1 })
    fun _ => rfl

lemma Threads.has_suspendOthers (ts : Threads) (keep tid : Tid) :
    (ts.suspendOthers keep).has tid ↔ ts.has tid := ts.has_map _ _ tid

lemma Threads.has_resumeOthers (ts : Threads) (keep tid : Tid) :
    (ts.resumeOthers keep).has tid ↔ ts.has tid := ts.has_map _ _ tid

/-- `cdbg_threads_suspend_others`. -/
def threadsSuspendOthers (pid : ℕ) (keep : Tid) : Debugger σ ℤ := do
  let w ← Prog.get
  match w.taskForPid pid with
  | none => return -1
  | some _ =>
      emit (.suspendOthers keep)
      modifyProc fun p => { p with threads := p.threads.suspendOthers keep }
      return 0

/-- `cdbg_threads_resume_others`. -/
def threadsResumeOthers (pid : ℕ) (keep : Tid) : Debugger σ ℤ := do
  let w ← Prog.get
  match w.taskForPid pid with
  | none => return -1
  | some p =>
      emit (.resumeOthers keep)
      modifyProc fun p => { p with threads := p.threads.resumeOthers keep }
      if p.threads.list.all fun t => t.tid = p.threads.idOf keep || 0 < t.suspendCount then
        return 0
      else return -1

/-! ### `regs.c` -/

/-- Change the thread that `tid` stands for. -/
def updateThread (tid : Tid) (f : Thread → Thread) (hf : ∀ t, (f t).tid = t.tid) :
    Debugger σ Unit :=
  modifyProc fun p => { p with threads := p.threads.update tid f hf }

/-- `cdbg_regs_get`. -/
def regsGet (pid : ℕ) (tid : Tid) : Debugger σ (Option Regs) := do
  let w ← Prog.get
  return (w.resolvePort pid tid).map Thread.regs

/-- `cdbg_regs_set`: writes the general-purpose state. -/
def regsSet (pid : ℕ) (tid : Tid) (regs : Regs) : Debugger σ ℤ := do
  let w ← Prog.get
  match w.resolvePort pid tid with
  | none => return -1
  | some _ =>
      updateThread tid (fun t => { t with regs := { t.regs with native := regs.native } })
        fun _ => rfl
      return 0

/-- `cdbg_regs_set_fp`: writes the floating-point state. -/
def regsSetFp (pid : ℕ) (tid : Tid) (regs : Regs) : Debugger σ ℤ := do
  let w ← Prog.get
  match w.resolvePort pid tid with
  | none => return -1
  | some _ =>
      updateThread tid (fun t => { t with regs := { t.regs with neon := regs.neon } })
        fun _ => rfl
      return 0

/-- `cdbg_regs_get_debug_state`. -/
def regsGetDebugState (pid : ℕ) (tid : Tid) : Debugger σ (Option DebugState) := do
  let w ← Prog.get
  return (w.resolvePort pid tid).map Thread.debug

/-- `cdbg_regs_set_debug_state`. -/
def regsSetDebugState (pid : ℕ) (tid : Tid) (state : DebugState) : Debugger σ ℤ := do
  let w ← Prog.get
  match w.resolvePort pid tid with
  | none => return -1
  | some _ =>
      updateThread tid (fun t => { t with debug := state }) fun _ => rfl
      return 0

/-- `cdbg_regs_get_exception_state`: fault address and syndrome. -/
def World.regsGetExceptionState (w : World σ) (pid : ℕ) (tid : Tid) :
    Option (Addr × BitVec 32) :=
  (w.resolvePort pid tid).map fun t => (t.far, t.esr)

/-! ### `memory.c` -/

/-- What `cdbg_mem_read` reads: the bytes as a little-endian number. -/
def World.readMem (w : World σ) (pid : ℕ) (addr : Addr) (len : ℕ) : Option ℕ :=
  (w.taskForPid pid).bind fun p =>
    if p.mappedSpan addr len then some (p.mem.read addr len) else none

/-- `cdbg_mem_read_u64`. -/
def World.readU64 (w : World σ) (pid : ℕ) (addr : Addr) : Option (BitVec 64) :=
  (w.readMem pid addr 8).map (BitVec.ofNat 64)

/-- `cdbg_mem_read`. -/
def memRead (pid : ℕ) (addr : Addr) (len : ℕ) : Debugger σ (Option ℕ) := do
  let w ← Prog.get
  match w.readMem pid addr len with
  | some value => return some value
  | none =>
      emit (.memFailed addr len)
      return none

/-- The number of mapped bytes the bytewise fallback of `cdbg_mem_write` stores. -/
def Proc.mappedPrefix (p : Proc) (addr : Addr) (len : ℕ) : ℕ :=
  ((List.range len).takeWhile fun i => p.mapped (addr + BitVec.ofNat 64 i)).length

lemma Proc.mappedPrefix_le (p : Proc) (addr : Addr) (len : ℕ) : p.mappedPrefix addr len ≤ len :=
  (List.takeWhile_sublist _).length_le.trans_eq List.length_range

/-- `cdbg_mem_write`: the low `len` bytes of a number. If a byte is not mapped the
bytewise fallback has written those before it. -/
def memWrite (pid : ℕ) (addr : Addr) (len value : ℕ) : Debugger σ ℤ := do
  let w ← Prog.get
  match w.taskForPid pid with
  | none =>
      emit (.memFailed addr len)
      return -1
  | some p =>
      if p.mappedSpan addr len then
        modifyProc fun p => { p with mem := p.mem.write addr len value }
        return 0
      else
        emit (.memFailed addr len)
        modifyProc fun p => { p with mem := p.mem.write addr (p.mappedPrefix addr len) value }
        return -1

/-! ### `process.c` and `ptrace` -/

/-- `ptrace (PT_STEP)` and `ptrace (PT_CONTINUE)`, recording the accepted request. -/
def ptResume (k : EventKind) (r : Resume) (pid : ℕ) : Debugger σ ℤ := do
  let w ← Prog.get
  match w.taskForPid pid with
  | none => return -1
  | some p =>
      if p.running = none then
        emit k
        modifyProc fun p => { p with running := some r }
        return 0
      else return -1

/-- `ptrace (PT_STEP)`. -/
def ptStep (pid : ℕ) : Debugger σ ℤ := ptResume .ptStep .step pid

/-- `ptrace (PT_CONTINUE)`. -/
def ptContinue (pid : ℕ) : Debugger σ ℤ := ptResume .ptContinue .cont pid

/-- `ptrace (PT_DETACH)` followed by `kill (SIGKILL)`: the process is no longer
traced and is going to die. Its result does not matter, because a failure with
`ESRCH` is ignored. -/
def detachAndKill (pid : ℕ) : Debugger σ Unit := do
  let w ← Prog.get
  match w.taskForPid pid with
  | none => return ()
  | some _ => modifyProc fun p => { p with running := some .sigkill }

/-- The world after `waitpid` has reported an outcome of the process. -/
def World.deliver (w : World σ) (p : Proc) (o : Outcome) : World σ :=
  match o with
  | .exited code => { w with proc := none, dbg := { w.dbg with waitStatus := .exited code } }
  | .signaled sig => { w with proc := none, dbg := { w.dbg with waitStatus := .signaled sig } }
  | .stopped s =>
      { w with proc := some (p.stopWith s), dbg := { w.dbg with waitStatus := .stopped } }

/-- `cdbg_process_wait`: blocks until the process stops or ends, for good if it is
not running or never does. -/
def processWait (host : Host σ) (pid : ℕ) : Debugger σ ℤ := fun w =>
  match w.taskForPid pid with
  | none => ⟨some (-1), w, []⟩
  | some p =>
  match p.running with
  | none => ⟨none, w, []⟩
  | some .sigkill => ⟨some 0, w.deliver p (.signaled 9), [⟨.waited (.signaled 9), w⟩]⟩
  | some r =>
  match host.resume r p w.host with
  | (none, h) => ⟨none, { w with host := h }, []⟩
  | (some o, h) => ⟨some 0, { w with host := h }.deliver p o, [⟨.waited o, w⟩]⟩

/-- `cdbg_process_spawn`: the id of the new child. -/
def processSpawn (host : Host σ) : Debugger σ (Option ℕ) := fun w =>
  match host.fork w.host with
  | none => ⟨some none, w, []⟩
  | some (b, h) => ⟨some (some b.pid), { w with proc := some b.proc, host := h }, [⟨.fork, w⟩]⟩

end Cdbg
