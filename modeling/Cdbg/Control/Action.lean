import Cdbg.Control.Inversion
import Cdbg.Control.Arming

/-!
The debugger as a labelled transition system.

Everything the debugger does is a sequence of the steps below, at several grains.

* `Still`: reading, printing, changes of registers, and setting and deleting
  watchpoints (`Tend`).
* `Edit`: these and the operations that neither resume the debuggee nor wait for it.
* `Drive`: those with which the debuggee is stepped and waited for.
* `Prim`: the single operations, except resuming for good, the handling of temporary
  breakpoints, and the disarming and arming of watchpoints around a step (`Rig`).
* `Fine`: all single operations.
* `Act`: the primitive ones and, each as one step, a whole `cdbg_continue`, a whole
  `step_over_call` and the run to the entry of the program.

A session interleaves such steps with the reading of commands (`Turn`). A property of
all runs is shown by what one step preserves; the grain is chosen according to what the
step has to be seen with.
-/

namespace Cdbg

open Prog

variable {σ α β : Type}

/-- Whether an event announces the hit of a watchpoint. -/
def EventKind.isHit : EventKind → Bool
  | .watchpointHit _ _ => true
  | .watchpointNear _ => true
  | _ => false

/-- The events that only record the moment: the operations that change something have
steps of their own, and so have the hits of watchpoints, which are stepped past. -/
def EventKind.inert : EventKind → Bool
  | .command _ => false
  | .bpEnable _ _ => false
  | .suspendOthers _ => false
  | .resumeOthers _ => false
  | .ptStep => false
  | .ptContinue => false
  | .fork => false
  | .waited _ => false
  | .store _ _ => false
  | .watchpointHit _ _ => false
  | .watchpointNear _ => false
  | .processExit _ _ => false
  | _ => true

/-- Whether an event is an accepted `PT_CONTINUE`. -/
def EventKind.isContinue : EventKind → Bool
  | .ptContinue => true
  | _ => false

/-- Two views of a process that differ in registers and debug registers only. -/
structure QuietProc (p p' : Proc) : Prop where
  pid : p'.pid = p.pid
  mem : p'.mem = p.mem
  mapped : p'.mapped = p.mapped
  running : p'.running = p.running
  threads : p'.threads.list.map (fun t => (t.tid, t.suspendCount))
    = p.threads.list.map fun t => (t.tid, t.suspendCount)

/-- A change that leaves alone the table of breakpoints, the selected thread, the state
of the debugger, and the memory, threads and suspend counts of the debuggee. -/
structure Quiet (w w' : World σ) : Prop where
  host : w'.host = w.host
  pid : w'.dbg.pid = w.dbg.pid
  state : w'.dbg.state = w.dbg.state
  currentTid : w'.dbg.currentTid = w.dbg.currentTid
  breakpoints : w'.dbg.breakpoints = w.dbg.breakpoints
  proc : Option.Rel QuietProc w.proc w'.proc

lemma QuietProc.refl (p : Proc) : QuietProc p p := ⟨rfl, rfl, rfl, rfl, rfl⟩

lemma Quiet.of_proc_eq {w w' : World σ} (hh : w'.host = w.host) (hp : w'.proc = w.proc)
    (hpid : w'.dbg.pid = w.dbg.pid) (hs : w'.dbg.state = w.dbg.state)
    (ht : w'.dbg.currentTid = w.dbg.currentTid)
    (hb : w'.dbg.breakpoints = w.dbg.breakpoints) : Quiet w w' := by
  refine ⟨hh, hpid, hs, ht, hb, ?_⟩
  rw [hp]
  cases w.proc with
  | none => exact Option.Rel.none
  | some p => exact Option.Rel.some (QuietProc.refl p)

lemma Quiet.refl (w : World σ) : Quiet w w := of_proc_eq rfl rfl rfl rfl rfl rfl

/-- A thread changed in its registers or debug registers. -/
lemma QuietProc.of_update (p : Proc) (tid : Tid) (f : Thread → Thread)
    (hf : ∀ t, (f t).tid = t.tid) (hs : ∀ t, (f t).suspendCount = t.suspendCount) :
    QuietProc p { p with threads := p.threads.update tid f hf } := by
  refine ⟨rfl, rfl, rfl, rfl, ?_⟩
  simp only [Threads.update, Threads.list_map, List.map_map]
  refine List.map_congr_left fun t _ => ?_
  simp only [Function.comp_apply]
  split <;> simp [hf, hs]

/-- The debug registers of all threads. -/
def World.debugs (w : World σ) : Option (List (Tid × DebugState)) :=
  w.proc.map fun p => p.threads.list.map fun t => (t.tid, t.debug)

/-- How the watchpoints and the debug registers change together: not at all, but for
recorded values, or by one watchpoint set or deleted. -/
inductive Tend (w : World σ) : World σ → Prop
  | hush {w' : World σ} (hw : w'.dbg.watchpoints.toList.map Watchpoint.arming
      = w.dbg.watchpoints.toList.map Watchpoint.arming) (hd : w'.debugs = w.debugs) : Tend w w'
  | watch (wp : Watchpoint) (hs : findFreeWatchSlot w.dbg.watchpoints = some wp.slot)
      (hc : w.dbg.watchpoints.count < maxWatchpoints) : Tend w (addWatchpoint wp w).final
  | unwatch (i : ℕ) : Tend w (deleteWatchpointAt i w).final

/-- A step that only records the moment and changes what `Quiet` and `Tend` allow. -/
def Still : Step (Event σ) (World σ) := fun w t w' =>
  Quiet w w' ∧ Tend w w' ∧ ∀ e ∈ t, e.world = w ∧ e.kind.inert = true

/-- The operations that neither resume the debuggee nor wait for it. -/
inductive Edit : Step (Event σ) (World σ)
  | still {w w' : World σ} {t : List (Event σ)} (h : Still w t w') : Edit w t w'
  | enable (w : World σ) (i : ℕ) (bp : Breakpoint) (h : w.dbg.breakpoints.entry i = some bp) :
      Edit w (enableEntry i bp w).trace (enableEntry i bp w).final
  | disable (w : World σ) (i : ℕ) (bp : Breakpoint) (h : w.dbg.breakpoints.entry i = some bp) :
      Edit w (disableEntry i bp w).trace (disableEntry i bp w).final
  | add (w : World σ) (addr : Addr) :
      Edit w (addBreakpoint addr w).trace (addBreakpoint addr w).final
  | erase (w : World σ) (i : ℕ) :
      Edit w [] (w.setDbg { w.dbg with breakpoints := w.dbg.breakpoints.erase i })
  | freeze (w : World σ) :
      Edit w (threadsSuspendOthers w.dbg.pid w.dbg.currentTid w).trace
        (threadsSuspendOthers w.dbg.pid w.dbg.currentTid w).final
  | select (w : World σ) (t : Thread) (h : t ∈ w.listed) :
      Edit w [] (w.setDbg { w.dbg with currentTid := t.tid })
  | store (w : World σ) (addr : Addr) (size : ℕ) (value : BitVec 64) :
      Edit w (writeScalarValue addr size value w).trace (writeScalarValue addr size value w).final

/-- The operations of `cdbg_wait` and of the step past a disabled breakpoint. -/
inductive Drive (host : Host σ) : Step (Event σ) (World σ)
  | still {w w' : World σ} {t : List (Event σ)} (h : Still w t w') : Drive host w t w'
  | enable (w : World σ) (i : ℕ) (bp : Breakpoint) (h : w.dbg.breakpoints.entry i = some bp) :
      Drive host w (enableEntry i bp w).trace (enableEntry i bp w).final
  | singleStep (w : World σ) :
      Drive host w (cdbgSingleStep w).trace (cdbgSingleStep w).final
  | wait (w : World σ) : Drive host w (waitForStop host w).trace (waitForStop host w).final

/-- The single operations, except resuming for good, the handling of temporary
breakpoints, and the disarming and arming around a step. -/
inductive Prim (host : Host σ) : Step (Event σ) (World σ)
  | edit {w w' : World σ} {t : List (Event σ)} (h : Edit w t w') : Prim host w t w'
  | singleStep (w : World σ) :
      Prim host w (cdbgSingleStep w).trace (cdbgSingleStep w).final
  | wait (w : World σ) : Prim host w (waitForStop host w).trace (waitForStop host w).final
  | launch (w : World σ) (program : Str) (hi : w.dbg.state = .idle) :
      Prim host w (launch host program w).trace (launch host program w).final
  | kill (w : World σ) : Prim host w (stopDebuggee host w).trace (stopDebuggee host w).final
  | exit (w : World σ) : Prim host w (reportProcessExit w).trace (reportProcessExit w).final

/-- The disarming and arming of all watchpoints around a single step. -/
inductive Rig : Step (Event σ) (World σ)
  | disarm (w : World σ) : Rig w (disarmEnabled w.dbg.watchpoints.toList w).trace
      (disarmEnabled w.dbg.watchpoints.toList w).final
  | arm (w : World σ) : Rig w (armEnabled w.dbg.watchpoints.toList w).trace
      (armEnabled w.dbg.watchpoints.toList w).final

/-- The single operations, except resuming for good and the handling of temporary
breakpoints. -/
inductive Base (host : Host σ) : Step (Event σ) (World σ)
  | prim {w w' : World σ} {t : List (Event σ)} (h : Prim host w t w') : Base host w t w'
  | rig {w w' : World σ} {t : List (Event σ)} (h : Rig w t w') : Base host w t w'
  | sight (w : World σ) {k : EventKind} (hk : k.isHit = true) : Base host w [⟨k, w⟩] w

/-- All single operations. -/
inductive Fine (host : Host σ) : Step (Event σ) (World σ)
  | prim {w w' : World σ} {t : List (Event σ)} (h : Prim host w t w') : Fine host w t w'
  | plant (w : World σ) (addr : Addr) :
      Fine host w (bpEnable .temp .zero w.dbg.pid addr w).trace
        (bpEnable .temp .zero w.dbg.pid addr w).final
  | lift (w : World σ) (bp : Breakpoint) :
      Fine host w (bpDisable bp w.dbg.pid w).trace (bpDisable bp w.dbg.pid w).final
  | resume (w : World σ) : Fine host w (thawAndContinue w).trace (thawAndContinue w).final
  | rig {w w' : World σ} {t : List (Event σ)} (h : Rig w t w') : Fine host w t w'
  | sight (w : World σ) {k : EventKind} (hk : k.isHit = true) : Fine host w [⟨k, w⟩] w

/-- The primitive operations and, as one step each, the functions that continue the
debuggee. -/
inductive Act (host : Host σ) : Step (Event σ) (World σ)
  | prim {w w' : World σ} {t : List (Event σ)} (h : Prim host w t w') : Act host w t w'
  | cont (w : World σ) : Act host w (cdbgContinue host w).trace (landing (cdbgContinue host) w)
  | overCall (w : World σ) (returnAddr : Addr) :
      Act host w (stepOverCall host returnAddr w).trace
        (landing (stepOverCall host returnAddr) w)
  | entryStop (w : World σ) :
      Act host w (runToEntryStop host w).trace (landing (runToEntryStop host) w)
  | rig {w w' : World σ} {t : List (Event σ)} (h : Rig w t w') : Act host w t w'
  | sight (w : World σ) {k : EventKind} (hk : k.isHit = true) : Act host w [⟨k, w⟩] w

/-- What the handlers of a watchpoint hit begin with: they announce it and step past. -/
def stepPastHit (host : Host σ) (k : EventKind) : Debugger σ ℤ := do
  emit k
  stepPastAllWatchpoints host

/-- A relation by whose steps stops can be reported: it has the primitive operations, and
watchpoint hits are announced and stepped past by its steps. -/
structure Core (host : Host σ) (R : Step (Event σ) (World σ)) : Prop where
  prim : ∀ w t w', Prim host w t w' → R w t w'
  stepPast : ∀ k : EventKind, k.isHit = true → Moves R (stepPastHit host k)

/-- A relation by whose steps the debuggee can be continued up to a temporary breakpoint. -/
structure Haul (host : Host σ) (R : Step (Event σ) (World σ)) : Prop where
  drive : ∀ w t w', Drive host w t w' → R w t w'
  plant : ∀ (w : World σ) (addr : Addr), R w (bpEnable .temp .zero w.dbg.pid addr w).trace
    (bpEnable .temp .zero w.dbg.pid addr w).final
  lift : ∀ (w : World σ) (bp : Breakpoint), R w (bpDisable bp w.dbg.pid w).trace
    (bpDisable bp w.dbg.pid w).final
  resume : ∀ w : World σ, R w (thawAndContinue w).trace (thawAndContinue w).final

/-- A core that continues the debuggee in single operations. -/
structure Parts (host : Host σ) (R : Step (Event σ) (World σ)) : Prop
    extends Core host R, Haul host R

/-- A relation by whose steps sessions can be described: a core, and the functions that
continue the debuggee run by its steps. -/
structure Grain (host : Host σ) (R : Step (Event σ) (World σ)) : Prop extends Core host R where
  cont : Moves R (cdbgContinue host)
  overCall : ∀ returnAddr, Moves R (stepOverCall host returnAddr)
  entryStop : Moves R (runToEntryStop host)

/-- A relation by whose steps breakpoints, the memory and the selection are edited. -/
structure Edits (R : Step (Event σ) (World σ)) : Prop where
  still : ∀ w t w', Still w t w' → R w t w'
  disable : ∀ (w : World σ) i bp, w.dbg.breakpoints.entry i = some bp →
    R w (disableEntry i bp w).trace (disableEntry i bp w).final
  add : ∀ (w : World σ) addr, R w (addBreakpoint addr w).trace (addBreakpoint addr w).final
  delete : ∀ i, Moves R (deleteBreakpointAt i)
  freeze : ∀ w : World σ, R w (threadsSuspendOthers w.dbg.pid w.dbg.currentTid w).trace
    (threadsSuspendOthers w.dbg.pid w.dbg.currentTid w).final
  select : ∀ (w : World σ) t, t ∈ w.listed → R w [] (w.setDbg { w.dbg with currentTid := t.tid })
  store : ∀ (w : World σ) addr size value, R w (writeScalarValue addr size value w).trace
    (writeScalarValue addr size value w).final

/-- A relation by whose steps stops can be reported and debuggees started and ended. -/
structure Kit (host : Host σ) (R : Step (Event σ) (World σ)) : Prop extends Edits R where
  drive : ∀ w t w', Drive host w t w' → R w t w'
  stepPast : ∀ k : EventKind, k.isHit = true → Moves R (stepPastHit host k)
  launch : ∀ (w : World σ) program, w.dbg.state = .idle →
    R w (launch host program w).trace (launch host program w).final
  kill : ∀ w : World σ, R w (stopDebuggee host w).trace (stopDebuggee host w).final
  exit : ∀ w : World σ, R w (reportProcessExit w).trace (reportProcessExit w).final

/-- A kit with the functions that continue the debuggee. -/
structure FullKit (host : Host σ) (R : Step (Event σ) (World σ)) : Prop extends Kit host R where
  cont : Moves R (cdbgContinue host)
  overCall : ∀ returnAddr, Moves R (stepOverCall host returnAddr)
  entryStop : Moves R (runToEntryStop host)

/-- A step of a session: an operation, or the reading of a command. -/
inductive Turn (R : Step (Event σ) (World σ)) : Step (Event σ) (World σ)
  | op {w w' : World σ} {t : List (Event σ)} (h : R w t w') : Turn R w t w'
  | read (w : World σ) (c : Command) : Turn R w [⟨.command c, w⟩] w

section Moves

/-- A program that is one step of its own. -/
lemma moves_of_step {R : Step (Event σ) (World σ)} {m : Debugger σ α}
    (h : ∀ w, R w (m w).trace (m w).final) : Moves R m := fun w => MovesFrom.single (h w)

lemma Tend.refl (w : World σ) : Tend w w := .hush rfl rfl

/-- A program that only records the moment and changes registers. -/
lemma still_of_quiet {m : Debugger σ α}
    (h : ∀ w, Quiet w (m w).final ∧ Tend w (m w).final ∧
      ∀ e ∈ (m w).trace, e.world = w ∧ e.kind.inert = true) :
    Moves Still m := moves_of_step h

lemma still_emit {k : EventKind} (hk : k.inert = true) : Moves Still (emit (σ := σ) k) :=
  still_of_quiet fun w => ⟨Quiet.refl w, Tend.refl w, by simp [hk]⟩

/-- A change of fields of the debugger that no step is about. -/
lemma still_modifyDbg {f : Dbg → Dbg} (hpid : ∀ d, (f d).pid = d.pid)
    (hs : ∀ d, (f d).state = d.state) (ht : ∀ d, (f d).currentTid = d.currentTid)
    (hb : ∀ d, (f d).breakpoints = d.breakpoints)
    (hw : ∀ d, (f d).watchpoints = d.watchpoints) : Moves Still (modifyDbg (σ := σ) f) :=
  still_of_quiet fun w =>
    ⟨Quiet.of_proc_eq rfl rfl (hpid _) (hs _) (ht _) (hb _),
      .hush (congrArg (fun t => t.toList.map Watchpoint.arming) (hw w.dbg)) rfl, by simp⟩

/-- A program that reads only. -/
lemma still_of_pure {m : Debugger σ α} (h : ∀ w, (m w).final = w ∧ (m w).trace = []) :
    Moves Still m :=
  still_of_quiet fun w => by
    rw [(h w).1, (h w).2]
    exact ⟨Quiet.refl w, Tend.refl w, by simp⟩

lemma still_memRead (pid : ℕ) (a : Addr) (n : ℕ) : Moves Still (memRead (σ := σ) pid a n) :=
  still_of_quiet fun w => by
    cases h : w.readMem pid a n with
    | some v =>
        rw [memRead_of_some h]
        exact ⟨Quiet.refl w, Tend.refl w, by simp⟩
    | none =>
        rw [memRead_of_none h]
        exact ⟨Quiet.refl w, Tend.refl w, by simp [EventKind.inert]⟩

lemma still_regsGet (pid : ℕ) (tid : Tid) : Moves Still (regsGet (σ := σ) pid tid) :=
  still_of_pure fun w => by simp [regsGet]

lemma still_updateThread (tid : Tid) (f : Thread → Thread) (hf : ∀ t, (f t).tid = t.tid)
    (hs : ∀ t, (f t).suspendCount = t.suspendCount) (hd : ∀ t, (f t).debug = t.debug) :
    Moves Still (updateThread (σ := σ) tid f hf) := by
  refine still_of_quiet fun w => ?_
  simp only [updateThread, modifyProc, modify_apply]
  refine ⟨⟨rfl, rfl, rfl, rfl, rfl, ?_⟩, .hush rfl ?_, by simp⟩
  · cases w.proc with
    | none => exact Option.Rel.none
    | some p => exact Option.Rel.some (QuietProc.of_update p tid f hf hs)
  · cases hp : w.proc with
    | none => simp [World.debugs, hp]
    | some p =>
        simp only [World.debugs, hp, Option.map_some, Threads.update, Threads.list_map,
          List.map_map]
        congr 1
        refine List.map_congr_left fun t _ => ?_
        simp only [Function.comp_apply]
        split <;> simp [hf, hd]

end Moves

end Cdbg
