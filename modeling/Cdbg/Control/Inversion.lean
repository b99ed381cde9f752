import Cdbg.Machine.Calls
import Cdbg.Repl.Repl

/-!
What each operation of the debugger can do: for every operation that changes more
than registers, one lemma that lists the ways it runs, with the world it leaves and
the events it emits. The invariants are derived from these lemmas and never unfold
an operation.
-/

namespace Cdbg

variable {σ : Type}

/-- The process with `BRK #0` at an address. -/
def Proc.planted (p : Proc) (addr : Addr) : Proc :=
  { p with mem := p.mem.write addr 4 trapInst.toNat }

/-- The process with the word kept by a breakpoint written back. -/
def Proc.restored (p : Proc) (bp : Breakpoint) : Proc :=
  { p with mem := p.mem.write bp.addr 4 bp.savedInst.toNat }

/-- The breakpoint structure after it has been enabled at an address. -/
def Proc.breakpointAt (p : Proc) (addr : Addr) : Breakpoint :=
  ⟨addr, BitVec.ofNat 32 (p.mem.read addr 4), true⟩

/-- The debugger's state with one entry of the table replaced. -/
def Dbg.setEntry (d : Dbg) (i : ℕ) (bp : Breakpoint) : Dbg :=
  { d with breakpoints := d.breakpoints.set i bp }

lemma Dbg.setEntry_self {d : Dbg} {i : ℕ} {bp : Breakpoint}
    (h : d.breakpoints.entry i = some bp) : d.setEntry i bp = d := by
  have hset : d.breakpoints.set i bp = d.breakpoints := by
    ext1
    rw [Table.toList_set]
    obtain ⟨hi, hv⟩ := List.getElem?_eq_some_iff.mp h
    exact hv ▸ List.set_getElem_self hi
  rw [Dbg.setEntry, hset]

/-! ### Breakpoints -/

/-- Enabling fails on unmapped memory and changes nothing then. -/
lemma bpEnable_cases (site : BpSite) (bp : Breakpoint) (pid : ℕ) (addr : Addr) (w : World σ) :
    (w.readMem pid addr 4 = none ∧
      bpEnable site bp pid addr w = ⟨some (bp, -1), w, [⟨.memFailed addr 4, w⟩]⟩) ∨
    ∃ p, w.taskForPid pid = some p ∧ p.mappedSpan addr 4 = true ∧
      bpEnable site bp pid addr w = ⟨some (p.breakpointAt addr, 0), w.setProc (p.planted addr),
        [⟨.bpEnable site addr, w⟩]⟩ := by
  cases hr : w.readMem pid addr 4 with
  | none => left; simp [bpEnable, Prog.bind_of_eq (memRead_of_none hr)]
  | some inst =>
      obtain ⟨p, hp, hm, rfl⟩ := World.readMem_eq_some.mp hr
      right
      refine ⟨p, hp, hm, ?_⟩
      simp only [bpEnable, Prog.bind_of_eq (memRead_of_some hr), emit_bind,
        Prog.bind_of_eq (memWrite_of_mapped hp hm)]
      rfl

/-- Disabling does nothing to a disabled structure and fails on unmapped memory. -/
lemma bpDisable_cases (bp : Breakpoint) (pid : ℕ) (w : World σ) :
    (bp.enabled = false ∧ bpDisable bp pid w = ⟨some (bp, 0), w, []⟩) ∨
    (bp.enabled = true ∧ ∃ p, w.taskForPid pid = some p ∧ p.mappedSpan bp.addr 4 = true ∧
      bpDisable bp pid w =
        ⟨some ({ bp with enabled := false }, 0), w.setProc (p.restored bp), []⟩) ∨
    (bp.enabled = true ∧ w.taskForPid pid = none ∧
      bpDisable bp pid w = ⟨some (bp, -1), w, [⟨.memFailed bp.addr 4, w⟩]⟩) ∨
    (bp.enabled = true ∧ ∃ p, w.taskForPid pid = some p ∧ p.mappedSpan bp.addr 4 = false ∧
      bpDisable bp pid w = ⟨some (bp, -1), w.setProc { p with
        mem := p.mem.write bp.addr (p.mappedPrefix bp.addr 4) bp.savedInst.toNat },
        [⟨.memFailed bp.addr 4, w⟩]⟩) := by
  cases he : bp.enabled with
  | false => left; simp [bpDisable, he]
  | true =>
  right
  cases hp : w.taskForPid pid with
  | none =>
      refine Or.inr (Or.inl ⟨rfl, rfl, ?_⟩)
      simp only [bpDisable, he, Bool.true_eq_false, if_false, Prog.bind_of_eq (memWrite_of_dead hp)]
      rfl
  | some p =>
  cases hm : p.mappedSpan bp.addr 4 with
  | false =>
      refine Or.inr (Or.inr ⟨rfl, p, rfl, hm, ?_⟩)
      simp only [bpDisable, he, Bool.true_eq_false, if_false,
        Prog.bind_of_eq (memWrite_of_unmapped hp hm)]
      rfl
  | true =>
      refine Or.inl ⟨rfl, p, rfl, hm, ?_⟩
      simp only [bpDisable, he, Bool.true_eq_false, if_false,
        Prog.bind_of_eq (memWrite_of_mapped hp hm)]
      rfl

lemma enableEntry_cases {i : ℕ} {bp : Breakpoint} {w : World σ}
    (h : w.dbg.breakpoints.entry i = some bp) :
    (w.readMem w.dbg.pid bp.addr 4 = none ∧
      enableEntry i bp w = ⟨some (-1), w, [⟨.memFailed bp.addr 4, w⟩]⟩) ∨
    ∃ p, w.taskForPid w.dbg.pid = some p ∧ p.mappedSpan bp.addr 4 = true ∧
      enableEntry i bp w = ⟨some 0,
        (w.setProc (p.planted bp.addr)).setDbg (w.dbg.setEntry i (p.breakpointAt bp.addr)),
        [⟨.bpEnable (.entry i) bp.addr, w⟩]⟩ := by
  rcases bpEnable_cases (.entry i) bp w.dbg.pid bp.addr w with ⟨hr, he⟩ | ⟨p, hp, hm, he⟩
  · left
    refine ⟨hr, ?_⟩
    simp only [enableEntry, Prog.get_bind, Prog.bind_of_eq he, modifyDbg_bind]
    change (⟨some (-1), w.setDbg (w.dbg.setEntry i bp), _⟩ : Run _ _ _) = _
    rw [Dbg.setEntry_self h]
    rfl
  · right
    refine ⟨p, hp, hm, ?_⟩
    simp only [enableEntry, Prog.get_bind, Prog.bind_of_eq he, modifyDbg_bind]
    rfl

lemma disableEntry_cases {i : ℕ} {bp : Breakpoint} {w : World σ}
    (h : w.dbg.breakpoints.entry i = some bp) :
    (bp.enabled = false ∧ disableEntry i bp w = ⟨some 0, w, []⟩) ∨
    (bp.enabled = true ∧ ∃ p, w.taskForPid w.dbg.pid = some p ∧
      p.mappedSpan bp.addr 4 = true ∧
      disableEntry i bp w = ⟨some 0,
        (w.setProc (p.restored bp)).setDbg (w.dbg.setEntry i { bp with enabled := false }),
        []⟩) ∨
    (bp.enabled = true ∧ w.taskForPid w.dbg.pid = none ∧
      disableEntry i bp w = ⟨some (-1), w, [⟨.memFailed bp.addr 4, w⟩]⟩) ∨
    (bp.enabled = true ∧ ∃ p, w.taskForPid w.dbg.pid = some p ∧
      p.mappedSpan bp.addr 4 = false ∧
      disableEntry i bp w = ⟨some (-1), w.setProc { p with
        mem := p.mem.write bp.addr (p.mappedPrefix bp.addr 4) bp.savedInst.toNat },
        [⟨.memFailed bp.addr 4, w⟩]⟩) := by
  -- an entry that `bp_disable` gives back as it was changes nothing
  have hself : (w.setDbg (w.dbg.setEntry i bp)) = w := by
    rw [Dbg.setEntry_self h, World.setDbg_self]
  rcases bpDisable_cases bp w.dbg.pid w with ⟨he, hd⟩ | ⟨he, p, hp, hm, hd⟩ | ⟨he, hp, hd⟩ |
    ⟨he, p, hp, hm, hd⟩
  · refine Or.inl ⟨he, ?_⟩
    simp only [disableEntry, Prog.get_bind, Prog.bind_of_eq hd, modifyDbg_bind]
    change (⟨some 0, w.setDbg (w.dbg.setEntry i bp), _⟩ : Run _ _ _) = _
    rw [hself]
    rfl
  · refine Or.inr (Or.inl ⟨he, p, hp, hm, ?_⟩)
    simp only [disableEntry, Prog.get_bind, Prog.bind_of_eq hd, modifyDbg_bind]
    rfl
  · refine Or.inr (Or.inr (Or.inl ⟨he, hp, ?_⟩))
    simp only [disableEntry, Prog.get_bind, Prog.bind_of_eq hd, modifyDbg_bind]
    change (⟨some (-1), w.setDbg (w.dbg.setEntry i bp), _⟩ : Run _ _ _) = _
    rw [hself]
    rfl
  · refine Or.inr (Or.inr (Or.inr ⟨he, p, hp, hm, ?_⟩))
    simp only [disableEntry, Prog.get_bind, Prog.bind_of_eq hd, modifyDbg_bind]
    change (⟨some (-1), (World.setProc _ _).setDbg (w.dbg.setEntry i bp), _⟩ : Run _ _ _) = _
    rw [Dbg.setEntry_self h]
    rfl

/-- The table with a new entry. -/
def Dbg.pushEntry (d : Dbg) (bp : Breakpoint) : Dbg :=
  { d with breakpoints := (d.breakpoints.push bp).getD d.breakpoints }

lemma Dbg.toList_pushEntry {d : Dbg} (h : d.breakpoints.count < maxBreakpoints)
    (bp : Breakpoint) :
    (d.pushEntry bp).breakpoints.toList = d.breakpoints.toList ++ [bp] := by
  obtain ⟨t, ht⟩ := Option.isSome_iff_exists.mp (Table.push_isSome h bp)
  simp only [Dbg.pushEntry, ht, Option.getD_some]
  exact Table.toList_push ht

lemma addBreakpoint_cases (addr : Addr) (w : World σ) :
    addBreakpoint addr w = ⟨some (-1), w, []⟩ ∨
    (w.readMem w.dbg.pid addr 4 = none ∧
      addBreakpoint addr w = ⟨some (-1), w, [⟨.memFailed addr 4, w⟩]⟩) ∨
    ∃ p, w.taskForPid w.dbg.pid = some p ∧ p.mappedSpan addr 4 = true ∧
      w.dbg.breakpoints.count < maxBreakpoints ∧
      addBreakpoint addr w = ⟨some 0,
        (w.setProc (p.planted addr)).setDbg (w.dbg.pushEntry (p.breakpointAt addr)),
        [⟨.bpEnable (.entry w.dbg.breakpoints.count) addr, w⟩]⟩ := by
  by_cases hfull : maxBreakpoints ≤ w.dbg.breakpoints.count
  · left
    simp [addBreakpoint, hfull]
  rcases bpEnable_cases (.entry w.dbg.breakpoints.count) .zero w.dbg.pid addr w with
    ⟨hr, he⟩ | ⟨p, hp, hm, he⟩
  · refine Or.inr (Or.inl ⟨hr, ?_⟩)
    simp [addBreakpoint, hfull, Prog.bind_of_eq he]
  · refine Or.inr (Or.inr ⟨p, hp, hm, by omega, ?_⟩)
    simp only [addBreakpoint, Prog.get_bind, hfull, if_false, Prog.bind_of_eq he]
    rfl

/-! ### Registers -/

/-- Refreshing the registers fails exactly if the selected thread cannot be found. -/
lemma refreshRegs_cases (w : World σ) :
    (w.resolvePort w.dbg.pid w.dbg.currentTid = none ∧
      refreshRegs w = ⟨some (-1), w, [⟨.refreshRegs, w⟩]⟩) ∨
    ∃ t, w.resolvePort w.dbg.pid w.dbg.currentTid = some t ∧
      refreshRegs w =
        ⟨some 0, w.setDbg { w.dbg with regs := t.regs }, [⟨.refreshRegs, w⟩]⟩ := by
  cases h : w.resolvePort w.dbg.pid w.dbg.currentTid with
  | none => left; simp [refreshRegs, emit_bind, h]
  | some t => right; simp [refreshRegs, emit_bind, h]

/-- Storing the registers succeeds exactly if the selected thread can be found. -/
lemma storeRegs_value (w : World σ) :
    (storeRegs w).value =
      some (if (w.resolvePort w.dbg.pid w.dbg.currentTid).isSome then 0 else -1) := by
  cases h : w.resolvePort w.dbg.pid w.dbg.currentTid with
  | none => simp [storeRegs, regsSet, h]
  | some t => simp [storeRegs, regsSet, h, updateThread, modifyProc]

lemma Thread.tid_setNative (regs : Regs) (t : Thread) :
    ({ t with regs := { t.regs with native := regs.native } } : Thread).tid = t.tid := rfl

/-- The process with the general-purpose registers of a thread replaced. -/
def Proc.stored (p : Proc) (tid : Tid) (regs : Regs) : Proc :=
  { p with
    threads := p.threads.update tid
      (fun t => { t with regs := { t.regs with native := regs.native } })
      (Thread.tid_setNative regs) }

lemma storeRegs_run {w : World σ} {p : Proc} {t : Thread}
    (hp : w.taskForPid w.dbg.pid = some p) (ht : p.threads.resolve w.dbg.currentTid = some t) :
    storeRegs w = ⟨some 0, w.setProc (p.stored w.dbg.currentTid w.dbg.regs), []⟩ := by
  have hproc := (World.taskForPid_eq_some.mp hp).1
  have hport : w.resolvePort w.dbg.pid w.dbg.currentTid = some t := by
    rw [World.resolvePort, hp]
    exact ht
  simp only [storeRegs, regsSet, Prog.get_bind, hport, updateThread, modifyProc_bind hproc]
  rfl

/-! ### Resuming and waiting -/

/-- The debugger's state after it has resumed the debuggee. -/
def Dbg.resumed (d : Dbg) : Dbg := { d with state := .running }

lemma cdbgSingleStep_cases (w : World σ) :
    (cdbgSingleStep w = ⟨some (-1), w, []⟩ ∧
      ∀ p, w.taskForPid w.dbg.pid = some p → p.running ≠ none) ∨
    ∃ p, w.taskForPid w.dbg.pid = some p ∧ p.running = none ∧
      cdbgSingleStep w = ⟨some 0,
        (w.setProc { p with running := some .step }).setDbg w.dbg.resumed, [⟨.ptStep, w⟩]⟩ := by
  rcases ptResume_cases .ptStep .step w.dbg.pid w with ⟨h, hp⟩ | ⟨p, hp, hr, h⟩
  · left
    refine ⟨?_, hp⟩
    simp [cdbgSingleStep, ptStep, Prog.bind_of_eq h]
  · right
    refine ⟨p, hp, hr, ?_⟩
    simp only [cdbgSingleStep, ptStep, Prog.get_bind, Prog.bind_of_eq h]
    rfl

/-- The process with all threads but one frozen. -/
def Proc.frozen (p : Proc) (keep : Tid) : Proc :=
  { p with threads := p.threads.suspendOthers keep }

/-- The process with all threads but one thawed. -/
def Proc.thawed (p : Proc) (keep : Tid) : Proc :=
  { p with threads := p.threads.resumeOthers keep }

lemma threadsSuspendOthers_cases (pid : ℕ) (keep : Tid) (w : World σ) :
    threadsSuspendOthers pid keep w = ⟨some (-1), w, []⟩ ∨
    ∃ p, w.taskForPid pid = some p ∧
      threadsSuspendOthers pid keep w =
        ⟨some 0, w.setProc (p.frozen keep), [⟨.suspendOthers keep, w⟩]⟩ := by
  cases hp : w.taskForPid pid with
  | none => left; simp [threadsSuspendOthers, hp]
  | some p =>
      have hproc := (World.taskForPid_eq_some.mp hp).1
      right
      refine ⟨p, rfl, ?_⟩
      simp only [threadsSuspendOthers, Prog.get_bind, hp, emit_bind, modifyProc_bind hproc]
      rfl

lemma threadsResumeOthers_cases (pid : ℕ) (keep : Tid) (w : World σ) :
    threadsResumeOthers pid keep w = ⟨some (-1), w, []⟩ ∧ w.taskForPid pid = none ∨
    ∃ p rc, w.taskForPid pid = some p ∧
      threadsResumeOthers pid keep w =
        ⟨some rc, w.setProc (p.thawed keep), [⟨.resumeOthers keep, w⟩]⟩ := by
  cases hp : w.taskForPid pid with
  | none => left; simp [threadsResumeOthers, hp]
  | some p =>
      have hproc := (World.taskForPid_eq_some.mp hp).1
      right
      simp only [threadsResumeOthers, Prog.get_bind, hp, emit_bind, modifyProc_bind hproc]
      split
      · exact ⟨p, 0, rfl, rfl⟩
      · exact ⟨p, -1, rfl, rfl⟩

lemma thawAndContinue_cases (w : World σ) :
    (w.taskForPid w.dbg.pid = none ∧ thawAndContinue w = ⟨some (-1), w, []⟩) ∨
    ∃ p, w.taskForPid w.dbg.pid = some p ∧
      ((p.running ≠ none ∧ thawAndContinue w =
          ⟨some (-1), w.setProc (p.thawed w.dbg.currentTid),
            [⟨.resumeOthers w.dbg.currentTid, w⟩]⟩) ∨
        (p.running = none ∧ thawAndContinue w =
          ⟨some 0, (w.setProc { p.thawed w.dbg.currentTid with running := some .cont }).setDbg
              w.dbg.resumed,
            [⟨.resumeOthers w.dbg.currentTid, w⟩,
              ⟨.ptContinue, w.setProc (p.thawed w.dbg.currentTid)⟩]⟩)) := by
  rcases threadsResumeOthers_cases w.dbg.pid w.dbg.currentTid w with ⟨h, hp⟩ | ⟨p, rc, hp, h⟩
  · left
    refine ⟨hp, ?_⟩
    simp [thawAndContinue, Prog.bind_of_eq h, ptContinue, ptResume, hp]
  · right
    refine ⟨p, hp, ?_⟩
    obtain ⟨hproc, hpid⟩ := World.taskForPid_eq_some.mp hp
    have htask : (w.setProc (p.thawed w.dbg.currentTid)).taskForPid w.dbg.pid
        = some (p.thawed w.dbg.currentTid) :=
      World.taskForPid_eq_some.mpr ⟨rfl, hpid⟩
    rcases ptResume_cases .ptContinue .cont w.dbg.pid (w.setProc (p.thawed w.dbg.currentTid))
      with ⟨h', hr⟩ | ⟨q, hq, hr, h'⟩
    · left
      refine ⟨hr (p.thawed w.dbg.currentTid) htask, ?_⟩
      simp [thawAndContinue, Prog.bind_of_eq h, ptContinue, Prog.bind_of_eq h']
    · right
      obtain rfl : p.thawed w.dbg.currentTid = q := by
        rw [htask] at hq
        exact Option.some.inj hq
      refine ⟨hr, ?_⟩
      simp only [thawAndContinue, Prog.get_bind, Prog.bind_of_eq h, ptContinue,
        Prog.bind_of_eq h']
      rfl

/-- The world after `cdbg_wait` has learnt of an outcome. -/
def World.afterWait (w : World σ) (h : σ) (p : Proc) (o : Outcome) : World σ :=
  let w' := { w with host := h }.deliver p o
  w'.setDbg { w'.dbg with state := w'.dbg.waitStatus.state }

lemma waitForStop_cases (host : Host σ) (w : World σ) :
    (w.taskForPid w.dbg.pid = none ∧ waitForStop host w = ⟨some (-1), w, []⟩) ∨
    (∃ h, waitForStop host w = ⟨none, { w with host := h }, []⟩) ∨
    ∃ p r o h, w.taskForPid w.dbg.pid = some p ∧ p.running = some r ∧
      (r = .sigkill ∧ o = .signaled 9 ∧ h = w.host ∨
        r ≠ .sigkill ∧ host.resume r p w.host = (some o, h)) ∧
      waitForStop host w = ⟨some 0, w.afterWait h p o, [⟨.waited o, w⟩]⟩ := by
  rcases processWait_cases host w.dbg.pid w with ⟨hn, h⟩ | ⟨h, hw⟩ |
    ⟨p, r, o, h, hp, hr, ho, hw⟩
  · left
    exact ⟨hn, by simp [waitForStop, Prog.bind_of_eq h]⟩
  · right; left
    exact ⟨h, by simp [waitForStop, Prog.bind_of_none hw]⟩
  · right; right
    refine ⟨p, r, o, h, hp, hr, ho, ?_⟩
    simp only [waitForStop, Prog.get_bind, Prog.bind_of_eq hw]
    rfl

/-! ### Memory of the debuggee -/

/-- `set` writes the width of the scalar, or as much of it as is mapped, and nothing
without a debuggee. -/
lemma writeScalarValue_cases (addr : Addr) (size : ℕ) (value : BitVec 64) (w : World σ) :
    (w.taskForPid w.dbg.pid = none ∧ writeScalarValue addr size value w =
      ⟨some (-1), w, [⟨.store addr (scalarWidth size), w⟩,
        ⟨.memFailed addr (scalarWidth size), w⟩]⟩) ∨
    ∃ p, w.taskForPid w.dbg.pid = some p ∧
      (p.mappedSpan addr (scalarWidth size) = true ∧ writeScalarValue addr size value w =
          ⟨some 0, w.setProc { p with mem := p.mem.write addr (scalarWidth size) value.toNat },
            [⟨.store addr (scalarWidth size), w⟩]⟩ ∨
        p.mappedSpan addr (scalarWidth size) = false ∧ writeScalarValue addr size value w =
          ⟨some (-1), w.setProc { p with
              mem := p.mem.write addr (p.mappedPrefix addr (scalarWidth size)) value.toNat },
            [⟨.store addr (scalarWidth size), w⟩,
              ⟨.memFailed addr (scalarWidth size), w⟩]⟩) := by
  cases hp : w.taskForPid w.dbg.pid with
  | none =>
      refine Or.inl ⟨rfl, ?_⟩
      simp only [writeScalarValue, Prog.get_bind, emit_bind, memWrite_of_dead hp]
  | some p =>
  right
  cases hm : p.mappedSpan addr (scalarWidth size) with
  | true =>
      refine ⟨p, rfl, Or.inl ⟨hm, ?_⟩⟩
      simp only [writeScalarValue, Prog.get_bind, emit_bind, memWrite_of_mapped hp hm]
  | false =>
      refine ⟨p, rfl, Or.inr ⟨hm, ?_⟩⟩
      simp only [writeScalarValue, Prog.get_bind, emit_bind, memWrite_of_unmapped hp hm]

/-! ### Starting and ending a debuggee -/

/-- The debugger's state after the end of a debuggee has been reported. -/
def Dbg.exitReported (d : Dbg) : Dbg := { d.disableAll with pid := 0 }

lemma reportProcessExit_cases (w : World σ) :
    (w.dbg.state ≠ .idle ∧ reportProcessExit w = ⟨some (), w, []⟩) ∨
    (w.dbg.state = .idle ∧ reportProcessExit w =
      ⟨some (), w.setDbg w.dbg.exitReported, [⟨.processExit w.dbg.pid w.dbg.waitStatus, w⟩]⟩) := by
  by_cases h : w.dbg.state = .idle
  · right
    refine ⟨h, ?_⟩
    simp only [reportProcessExit, Prog.get_bind, h, ne_eq, not_true_eq_false, if_false, emit_bind]
    rfl
  · left
    exact ⟨h, by simp [reportProcessExit, h]⟩

/-- The debugger's state after `stop_debuggee`. -/
def Dbg.stopped (d : Dbg) : Dbg := { d.disableAll with pid := 0, state := .idle }

lemma stopDebuggee_cases (host : Host σ) (w : World σ) :
    (w.dbg.pid = 0 ∧
      stopDebuggee host w = ⟨some 0, w.setDbg { w.dbg with state := .idle }, []⟩) ∨
    (w.dbg.state = .idle ∧ stopDebuggee host w = ⟨some 0, w.setDbg w.dbg.stopped, []⟩) ∨
    (w.taskForPid w.dbg.pid = none ∧ stopDebuggee host w = ⟨some (-1), w, []⟩) ∨
    ∃ p, w.taskForPid w.dbg.pid = some p ∧ w.dbg.state ≠ .idle ∧
      stopDebuggee host w = ⟨some 0,
        ⟨{ w.dbg with waitStatus := .signaled 9 }.stopped, none, w.host⟩,
        [⟨.waited (.signaled 9), w.setProc { p with running := some .sigkill }⟩]⟩ := by
  by_cases hpid : w.dbg.pid = 0
  · left
    refine ⟨hpid, ?_⟩
    simp only [stopDebuggee, Prog.get_bind, hpid, if_true, modifyDbg_bind]
    rfl
  right
  by_cases hs : w.dbg.state = .idle
  · left
    refine ⟨hs, ?_⟩
    simp only [stopDebuggee, Prog.get_bind, hpid, if_false, hs, ne_eq, not_true_eq_false,
      modifyDbg_bind]
    rfl
  right
  cases hp : w.taskForPid w.dbg.pid with
  -- the wait fails: there is no such process
  | none =>
      have hkill : killDebuggee host w = ⟨some (-1), w, []⟩ := by
        have hdet : detachAndKill w.dbg.pid w = ⟨some (), w, []⟩ := by simp [detachAndKill, hp]
        simp [killDebuggee, Prog.bind_of_eq hdet, processWait, hp]
      exact Or.inl ⟨rfl, by simp [stopDebuggee, hpid, hs, Prog.bind_of_eq hkill]⟩
  -- it is detached, killed and waited for
  | some p =>
      obtain ⟨hproc, hpp⟩ := World.taskForPid_eq_some.mp hp
      refine Or.inr ⟨p, rfl, hs, ?_⟩
      have hkill : killDebuggee host w = ⟨some 0,
          (w.setProc { p with running := some .sigkill }).deliver
            { p with running := some .sigkill } (.signaled 9),
          [⟨.waited (.signaled 9), w.setProc { p with running := some .sigkill }⟩]⟩ := by
        have htask : (w.setProc { p with running := some .sigkill }).taskForPid w.dbg.pid
            = some { p with running := some .sigkill } :=
          World.taskForPid_eq_some.mpr ⟨rfl, hpp⟩
        have hdet : detachAndKill w.dbg.pid w
            = ⟨some (), w.setProc { p with running := some .sigkill }, []⟩ := by
          simp only [detachAndKill, Prog.get_bind, hp, modifyProc_run hproc]
        simp only [killDebuggee, Prog.get_bind, Prog.bind_of_eq hdet, processWait, htask]
        rfl
      simp only [stopDebuggee, Prog.get_bind, hpid, if_false, hs, ne_eq, not_false_eq_true,
        if_true, Prog.bind_of_eq hkill]
      rfl

lemma updateSlides_run {w : World σ} {p : Proc} (hp : w.taskForPid w.dbg.pid = some p) :
    updateSlides w = ⟨some (), w.setDbg { w.dbg with
      lineno := p.slideLines w.dbg.lineno, syms := p.slideSyms w.dbg.syms }, []⟩ := by
  simp only [updateSlides, Prog.get_bind, hp]
  rfl

/-- The debugger's state with the child just forked. -/
def Dbg.launched (d : Dbg) (pid : ℕ) (lineno : LineTable) (syms : SymTable) : Dbg :=
  { d with pid := pid, state := .running, lineno := lineno, syms := syms }

lemma launch_cases (host : Host σ) (program : Str) (w : World σ) :
    launch host program w =
      ⟨some (-1), w.setDbg (w.dbg.clearRun.loadSymbols (host.image program)), []⟩ ∨
    ∃ b h lineno syms, host.fork w.host = some (b, h) ∧ launch host program w =
      ⟨some 0, ⟨(w.dbg.clearRun.loadSymbols (host.image program)).launched b.pid lineno syms,
          some b.proc, h⟩,
        [⟨.fork, w.setDbg (w.dbg.clearRun.loadSymbols (host.image program))⟩]⟩ := by
  cases hf : host.fork w.host with
  | none =>
      left
      have hspawn : processSpawn host (w.setDbg (w.dbg.clearRun.loadSymbols (host.image program)))
          = ⟨some none, w.setDbg (w.dbg.clearRun.loadSymbols (host.image program)), []⟩ := by
        simp [processSpawn, hf]
      simp [launch, cdbgSpawn, Prog.bind_of_eq hspawn]
  | some bh =>
      obtain ⟨b, h⟩ := bh
      right
      have hspawn : processSpawn host (w.setDbg (w.dbg.clearRun.loadSymbols (host.image program)))
          = ⟨some (some b.pid),
              ⟨w.dbg.clearRun.loadSymbols (host.image program), some b.proc, h⟩,
              [⟨.fork, w.setDbg (w.dbg.clearRun.loadSymbols (host.image program))⟩]⟩ := by
        simp only [processSpawn, World.setDbg_host, hf]
        rfl
      let d := w.dbg.clearRun.loadSymbols (host.image program)
      have hslide := updateSlides_run (w := ⟨{ d with pid := b.pid, state := .running },
        some b.proc, h⟩) (World.taskForPid_eq_some.mpr ⟨rfl, rfl⟩)
      refine ⟨b, h, b.proc.slideLines d.lineno, b.proc.slideSyms d.syms, rfl, ?_⟩
      simp only [launch, cdbgSpawn, modifyDbg_bind, Prog.bind_of_eq hspawn]
      rw [World.setDbg, Prog.bind_of_eq hslide]
      rfl

end Cdbg
