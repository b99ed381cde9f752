import Cdbg.Control.Wait

/-!
Hardware watchpoints: `watchpoint.c` and the part of `debugger.c` that arms them on
every thread, recognises a hit and steps past the access.

An access is reported before it has happened, with the program counter still at
the accessing instruction. The handlers therefore disarm all watchpoints, single
step, and arm them again.
-/

namespace Cdbg

variable {σ : Type}

/-- `cdbg_watch_kind_t` as the bits of the C enumeration. -/
def WatchKind.reads : WatchKind → Bool
  | .read => true
  | .write => false
  | .access => true

/-- The write bit of a watch kind. -/
def WatchKind.writes : WatchKind → Bool
  | .read => false
  | .write => true
  | .access => true

/-- The control register value `cdbg_watch_arm` writes. -/
def watchControl (addr : Addr) (size : ℕ) (kind : WatchKind) : BitVec 64 :=
  let bas : BitVec 64 := (BitVec.ofNat 64 (2 ^ size - 1)) <<< (addr &&& 7).toNat
  1 ||| (2 <<< 1) ||| (bas <<< 5) |||
    (if kind.reads then 1 <<< 3 else 0) ||| (if kind.writes then 2 <<< 3 else 0)

/-- Set one pair of watchpoint registers. -/
def DebugState.setSlot (s : DebugState) (slot : ℕ) (wvr wcr : BitVec 64) : DebugState where
  wvr i := if i.val = slot then wvr else s.wvr i
  wcr i := if i.val = slot then wcr else s.wcr i

/-- Clear the enable bit of one control register. -/
def DebugState.clearSlot (s : DebugState) (slot : ℕ) : DebugState :=
  { s with wcr := fun i => if i.val = slot then s.wcr i &&& ~~~ 1 else s.wcr i }

/-- `cdbg_watch_arm`. Every slot below `CDBG_MAX_WATCHPOINTS` is there, so reading the
register back finds the value written. -/
def watchArm (pid : ℕ) (tid : Tid) (slot : ℕ) (addr : Addr) (size : ℕ) (kind : WatchKind) :
    Debugger σ ℤ := do
  if maxWatchpoints ≤ slot then
    return -1
  if size = 0 ∨ 8 < size then
    return -1
  if 8 < (addr &&& 7).toNat + size then
    return -1
  match ← regsGetDebugState pid tid with
  | none => return -1
  | some state =>
      regsSetDebugState pid tid
        (state.setSlot slot (addr &&& ~~~ 7) (watchControl addr size kind))

/-- `cdbg_watch_disarm`. -/
def watchDisarm (pid : ℕ) (tid : Tid) (slot : ℕ) : Debugger σ ℤ := do
  if maxWatchpoints ≤ slot then
    return -1
  match ← regsGetDebugState pid tid with
  | none => return -1
  | some state => regsSetDebugState pid tid (state.clearSlot slot)

/-- `cdbg_watch_addr_hit`. -/
def Watchpoint.addrHit (wp : Watchpoint) (faultAddr : Addr) : Bool :=
  wp.enabled && wp.addr ≤ faultAddr && faultAddr < wp.addr + BitVec.ofNat 64 wp.size

/-- `cdbg_watch_is_watchpoint_esr`: `none` unless the exception is a watchpoint
exception, else whether the access was a write. -/
def watchIsWatchpointEsr (esr : BitVec 32) : Option Bool :=
  let ec := (esr >>> 26) &&& 0x3f
  if ec ≠ 0x34 ∧ ec ≠ 0x35 then none else some (esr &&& (1 <<< 6) ≠ 0)

/-- Disarm a slot on the given threads. -/
def disarmThreads (pid slot : ℕ) : List Tid → Debugger σ Unit
  | [] => return ()
  | t :: ts => do
      let _ ← watchDisarm pid t slot
      disarmThreads pid slot ts

/-- The loop of `arm_watchpoint_all_threads`; `done` are the threads armed so far. -/
def armThreads (pid : ℕ) (wp : Watchpoint) (done : List Tid) : List Tid → Debugger σ ℤ
  | [] => return 0
  | t :: ts => do
      if (← watchArm pid t wp.slot wp.addr wp.size wp.kind) ≠ 0 then
        disarmThreads pid wp.slot done
        return -1
      armThreads pid wp (done ++ [t]) ts

/-- `arm_watchpoint_all_threads`. -/
def armWatchpointAllThreads (wp : Watchpoint) : Debugger σ ℤ := do
  let w ← Prog.get
  match ← threadsList w.dbg.pid maxThreads with
  | none => return -1
  | some threads => armThreads w.dbg.pid wp [] (threads.map Prod.fst)

/-- `disarm_watchpoint_all_threads`. -/
def disarmWatchpointAllThreads (wp : Watchpoint) : Debugger σ Unit := do
  let w ← Prog.get
  match ← threadsList w.dbg.pid maxThreads with
  | none => return ()
  | some threads => disarmThreads w.dbg.pid wp.slot (threads.map Prod.fst)

/-- Disarm the enabled ones among the given watchpoints. -/
def disarmEnabled : List Watchpoint → Debugger σ Unit
  | [] => return ()
  | wp :: wps => do
      if wp.enabled then
        disarmWatchpointAllThreads wp
      disarmEnabled wps

/-- Arm the enabled ones among the given watchpoints. -/
def armEnabled : List Watchpoint → Debugger σ ℤ
  | [] => return 0
  | wp :: wps => do
      if wp.enabled then
        if (← armWatchpointAllThreads wp) ≠ 0 then
          return -1
        armEnabled wps
      else
        armEnabled wps

/-- `step_past_all_watchpoints`. -/
def stepPastAllWatchpoints (host : Host σ) : Debugger σ ℤ := do
  let w ← Prog.get
  disarmEnabled w.dbg.watchpoints.toList
  if (← cdbgSingleStep) ≠ 0 then
    return -1
  if (← cdbgWait host) ≠ 0 then
    let w ← Prog.get
    return if w.dbg.state = .idle then 0 else -1
  let w ← Prog.get
  if w.dbg.state ≠ .stopped then
    return 0
  armEnabled w.dbg.watchpoints.toList

end Cdbg
