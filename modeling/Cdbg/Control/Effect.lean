import Cdbg.Control.Runs

/-!
What one fine step does to the debugger's state and to the threads of the debuggee.

Seen from there, the steps that write memory or registers and change the tables are
alike (`Mild`); the others are listed with the world they leave (`Effect`). Invariants
about states, threads and selection are shown by cases on `Effect`.
-/

namespace Cdbg

variable {σ : Type}

/-- Two views of a process that agree but for memory, registers and debug registers. -/
structure MildProc (p p' : Proc) : Prop where
  pid : p'.pid = p.pid
  mapped : p'.mapped = p.mapped
  running : p'.running = p.running
  threads : p'.threads.list.map (fun t => (t.tid, t.suspendCount))
    = p.threads.list.map fun t => (t.tid, t.suspendCount)

/-- A change of memory, registers and tables only. -/
structure Mild (w w' : World σ) : Prop where
  host : w'.host = w.host
  pid : w'.dbg.pid = w.dbg.pid
  state : w'.dbg.state = w.dbg.state
  currentTid : w'.dbg.currentTid = w.dbg.currentTid
  proc : Option.Rel MildProc w.proc w'.proc

lemma MildProc.refl (p : Proc) : MildProc p p := ⟨rfl, rfl, rfl, rfl⟩

lemma Mild.of_proc_eq {w w' : World σ} (hh : w'.host = w.host) (hp : w'.proc = w.proc)
    (hpid : w'.dbg.pid = w.dbg.pid) (hs : w'.dbg.state = w.dbg.state)
    (ht : w'.dbg.currentTid = w.dbg.currentTid) : Mild w w' := by
  refine ⟨hh, hpid, hs, ht, ?_⟩
  rw [hp]
  cases w.proc with
  | none => exact Option.Rel.none
  | some p => exact Option.Rel.some (MildProc.refl p)

lemma Mild.refl (w : World σ) : Mild w w := of_proc_eq rfl rfl rfl rfl rfl

lemma Quiet.mild {w w' : World σ} (h : Quiet w w') : Mild w w' := by
  refine ⟨h.host, h.pid, h.state, h.currentTid, ?_⟩
  have hproc := h.proc
  revert hproc
  generalize w.proc = a
  generalize w'.proc = b
  intro hproc
  cases hproc with
  | none => exact Option.Rel.none
  | some hp => exact Option.Rel.some ⟨hp.pid, hp.mapped, hp.running, hp.threads⟩

/-- The memory of the debuggee is changed, perhaps along with a table. -/
lemma Mild.of_mem {w : World σ} {p : Proc} {pid : ℕ} (hp : w.taskForPid pid = some p)
    (m : Memory) {d : Dbg} (hpid : d.pid = w.dbg.pid) (hs : d.state = w.dbg.state)
    (ht : d.currentTid = w.dbg.currentTid) :
    Mild w ((w.setProc { p with mem := m }).setDbg d) := by
  refine ⟨rfl, hpid, hs, ht, ?_⟩
  rw [(World.taskForPid_eq_some.mp hp).1]
  exact Option.Rel.some ⟨rfl, rfl, rfl, rfl⟩

lemma MildProc.has_iff {p p' : Proc} (h : MildProc p p') (tid : Tid) :
    p'.threads.has tid ↔ p.threads.has tid := by
  have hmap : p'.threads.list.map Thread.tid = p.threads.list.map Thread.tid := by
    have := congrArg (List.map Prod.fst) h.threads
    simpa [List.map_map, Function.comp_def] using this
  have key : ∀ ts : Threads, ts.has tid ↔ tid ∈ ts.list.map Thread.tid := by
    simp [Threads.has]
  rw [key, key, hmap]

/-- A mild change leaves a process in place. -/
lemma Mild.exists_proc {w w' : World σ} (h : Mild w w') {p : Proc} (hp : w.proc = some p) :
    ∃ p', w'.proc = some p' ∧ MildProc p p' := by
  have hproc := h.proc
  rw [hp] at hproc
  revert hproc
  generalize w'.proc = b
  intro hproc
  cases hproc with
  | some hp => exact ⟨_, rfl, hp⟩

/-- A mild change makes no process. -/
lemma Mild.exists_proc' {w w' : World σ} (h : Mild w w') {p' : Proc} (hp : w'.proc = some p') :
    ∃ p, w.proc = some p ∧ MildProc p p' := by
  have hproc := h.proc
  rw [hp] at hproc
  revert hproc
  generalize w.proc = b
  intro hproc
  cases hproc with
  | some hp => exact ⟨_, rfl, hp⟩

/-- The events of mild steps. -/
def EventKind.mild : EventKind → Bool
  | .bpEnable _ _ => true
  | .store _ _ => true
  | k => k.inert || k.isHit

/-- What a fine step does. -/
inductive Effect (host : Host σ) : Prog.Step (Event σ) (World σ)
  | mild {w w' : World σ} {t : List (Event σ)} (h : Mild w w')
      (ht : ∀ e ∈ t, e.world = w ∧ e.kind.mild = true) : Effect host w t w'
  | step {w : World σ} {p : Proc} (hp : w.taskForPid w.dbg.pid = some p)
      (hr : p.running = none) :
      Effect host w [⟨.ptStep, w⟩]
        ((w.setProc { p with running := some .step }).setDbg w.dbg.resumed)
  | resume {w : World σ} {p : Proc} (hp : w.taskForPid w.dbg.pid = some p)
      (hr : p.running = none) :
      Effect host w
        [⟨.resumeOthers w.dbg.currentTid, w⟩, ⟨.ptContinue, w.setProc (p.thawed w.dbg.currentTid)⟩]
        ((w.setProc { p.thawed w.dbg.currentTid with running := some .cont }).setDbg w.dbg.resumed)
  | thaw {w : World σ} {p : Proc} (hp : w.taskForPid w.dbg.pid = some p)
      (hr : p.running ≠ none) :
      Effect host w [⟨.resumeOthers w.dbg.currentTid, w⟩]
        (w.setProc (p.thawed w.dbg.currentTid))
  | hang {w : World σ} (h : σ) : Effect host w [] { w with host := h }
  | waited {w : World σ} {p : Proc} {r : Resume} {o : Outcome} {h : σ}
      (hp : w.taskForPid w.dbg.pid = some p) (hr : p.running = some r)
      (ho : r = .sigkill ∧ o = .signaled 9 ∧ h = w.host ∨
        r ≠ .sigkill ∧ host.resume r p w.host = (some o, h)) :
      Effect host w [⟨.waited o, w⟩] (w.afterWait h p o)
  | freeze {w : World σ} {p : Proc} (hp : w.taskForPid w.dbg.pid = some p) :
      Effect host w [⟨.suspendOthers w.dbg.currentTid, w⟩]
        (w.setProc (p.frozen w.dbg.currentTid))
  | select {w : World σ} {t : Thread} (h : t ∈ w.listed) :
      Effect host w [] (w.setDbg { w.dbg with currentTid := t.tid })
  | forkFails {w : World σ} (program : Str) :
      Effect host w [] (w.setDbg (w.dbg.clearRun.loadSymbols (host.image program)))
  | fork {w : World σ} {b : Birth} {h : σ} (program : Str) (lineno : LineTable)
      (syms : SymTable) (hf : host.fork w.host = some (b, h)) :
      Effect host w [⟨.fork, w.setDbg (w.dbg.clearRun.loadSymbols (host.image program))⟩]
        ⟨(w.dbg.clearRun.loadSymbols (host.image program)).launched b.pid lineno syms,
          some b.proc, h⟩
  | stopNone {w : World σ} (h : w.dbg.pid = 0) :
      Effect host w [] (w.setDbg { w.dbg with state := .idle })
  | stopIdle {w : World σ} (h : w.dbg.state = .idle) :
      Effect host w [] (w.setDbg w.dbg.stopped)
  | killed {w : World σ} {p : Proc} (hp : w.taskForPid w.dbg.pid = some p)
      (hs : w.dbg.state ≠ .idle) :
      Effect host w [⟨.waited (.signaled 9), w.setProc { p with running := some .sigkill }⟩]
        ⟨{ w.dbg with waitStatus := .signaled 9 }.stopped, none, w.host⟩
  | exit {w : World σ} (h : w.dbg.state = .idle) :
      Effect host w [⟨.processExit w.dbg.pid w.dbg.waitStatus, w⟩]
        (w.setDbg w.dbg.exitReported)

namespace Effect

variable {host : Host σ}

/-- A step that does nothing. -/
lemma nothing (w : World σ) : Effect host w [] w := .mild (Mild.refl w) (by simp)

/-- A failed memory access. -/
lemma failed (w : World σ) (addr : Addr) (len : ℕ) :
    Effect host w [⟨.memFailed addr len, w⟩] w :=
  .mild (Mild.refl w) (by simp [EventKind.mild, EventKind.inert])

lemma of_bpEnable (site : BpSite) (bp : Breakpoint) (addr : Addr) (w : World σ) :
    Effect host w (bpEnable site bp w.dbg.pid addr w).trace
      (bpEnable site bp w.dbg.pid addr w).final := by
  rcases bpEnable_cases site bp w.dbg.pid addr w with ⟨_, h⟩ | ⟨p, hp, _, h⟩
  · rw [h]
    exact failed w _ _
  · rw [h]
    exact .mild (Mild.of_mem hp _ rfl rfl rfl) (by simp [EventKind.mild])

lemma of_bpDisable (bp : Breakpoint) (w : World σ) :
    Effect host w (bpDisable bp w.dbg.pid w).trace (bpDisable bp w.dbg.pid w).final := by
  rcases bpDisable_cases bp w.dbg.pid w with ⟨_, h⟩ | ⟨_, p, hp, _, h⟩ | ⟨_, _, h⟩ |
    ⟨_, p, hp, _, h⟩
  · rw [h]
    exact nothing w
  · rw [h]
    exact .mild (Mild.of_mem hp _ rfl rfl rfl) (by simp)
  · rw [h]
    exact failed w _ _
  · rw [h]
    exact .mild (Mild.of_mem hp _ rfl rfl rfl) (by simp [EventKind.mild, EventKind.inert])

lemma of_enableEntry {w : World σ} {i : ℕ} {bp : Breakpoint}
    (h : w.dbg.breakpoints.entry i = some bp) :
    Effect host w (enableEntry i bp w).trace (enableEntry i bp w).final := by
  rcases enableEntry_cases h with ⟨_, he⟩ | ⟨p, hp, _, he⟩
  · rw [he]
    exact failed w _ _
  · rw [he]
    exact .mild (Mild.of_mem hp _ rfl rfl rfl) (by simp [EventKind.mild])

lemma of_disableEntry {w : World σ} {i : ℕ} {bp : Breakpoint}
    (h : w.dbg.breakpoints.entry i = some bp) :
    Effect host w (disableEntry i bp w).trace (disableEntry i bp w).final := by
  rcases disableEntry_cases h with ⟨_, hd⟩ | ⟨_, p, hp, _, hd⟩ | ⟨_, _, hd⟩ | ⟨_, p, hp, _, hd⟩
  · rw [hd]
    exact nothing w
  · rw [hd]
    exact .mild (Mild.of_mem hp _ rfl rfl rfl) (by simp)
  · rw [hd]
    exact failed w _ _
  · rw [hd]
    exact .mild (Mild.of_mem hp _ rfl rfl rfl) (by simp [EventKind.mild, EventKind.inert])

lemma of_addBreakpoint (addr : Addr) (w : World σ) :
    Effect host w (addBreakpoint addr w).trace (addBreakpoint addr w).final := by
  rcases addBreakpoint_cases addr w with h | ⟨_, h⟩ | ⟨p, hp, _, _, h⟩
  · rw [h]
    exact nothing w
  · rw [h]
    exact failed w _ _
  · rw [h]
    exact .mild (Mild.of_mem hp _ rfl rfl rfl) (by simp [EventKind.mild])

lemma of_writeScalarValue (addr : Addr) (size : ℕ) (value : BitVec 64) (w : World σ) :
    Effect host w (writeScalarValue addr size value w).trace
      (writeScalarValue addr size value w).final := by
  rcases writeScalarValue_cases addr size value w with ⟨_, h⟩ | ⟨p, hp, ⟨_, h⟩ | ⟨_, h⟩⟩
  · rw [h]
    exact .mild (Mild.refl w) (by simp [EventKind.mild, EventKind.inert])
  · rw [h]
    exact .mild (Mild.of_mem hp _ rfl rfl rfl) (by simp [EventKind.mild])
  · rw [h]
    exact .mild (Mild.of_mem hp _ rfl rfl rfl) (by simp [EventKind.mild, EventKind.inert])

lemma of_singleStep (w : World σ) :
    Effect host w (cdbgSingleStep w).trace (cdbgSingleStep w).final := by
  rcases cdbgSingleStep_cases w with ⟨h, _⟩ | ⟨p, hp, hr, h⟩
  · rw [h]
    exact nothing w
  · rw [h]
    exact .step hp hr

lemma of_wait (w : World σ) :
    Effect host w (waitForStop host w).trace (waitForStop host w).final := by
  rcases waitForStop_cases host w with ⟨_, h⟩ | ⟨h, hw⟩ | ⟨p, r, o, h, hp, hr, ho, hw⟩
  · rw [h]
    exact nothing w
  · rw [hw]
    exact .hang h
  · rw [hw]
    exact .waited hp hr ho

lemma of_freeze (w : World σ) :
    Effect host w (threadsSuspendOthers w.dbg.pid w.dbg.currentTid w).trace
      (threadsSuspendOthers w.dbg.pid w.dbg.currentTid w).final := by
  rcases threadsSuspendOthers_cases w.dbg.pid w.dbg.currentTid w with h | ⟨p, hp, h⟩
  · rw [h]
    exact nothing w
  · rw [h]
    exact .freeze hp

lemma of_resume (w : World σ) :
    Effect host w (thawAndContinue w).trace (thawAndContinue w).final := by
  rcases thawAndContinue_cases w with ⟨_, h⟩ | ⟨p, hp, ⟨hr, h⟩ | ⟨hr, h⟩⟩
  · rw [h]
    exact nothing w
  · rw [h]
    exact .thaw hp hr
  · rw [h]
    exact .resume hp hr

lemma of_launch (program : Str) (w : World σ) :
    Effect host w (launch host program w).trace (launch host program w).final := by
  rcases launch_cases host program w with h | ⟨b, hs, lineno, syms, hf, h⟩
  · rw [h]
    exact .forkFails program
  · rw [h]
    exact .fork program lineno syms hf

lemma of_kill (w : World σ) :
    Effect host w (stopDebuggee host w).trace (stopDebuggee host w).final := by
  rcases stopDebuggee_cases host w with ⟨h0, h⟩ | ⟨hs, h⟩ | ⟨_, h⟩ | ⟨p, hp, hs, h⟩
  · rw [h]
    exact .stopNone h0
  · rw [h]
    exact .stopIdle hs
  · rw [h]
    exact nothing w
  · rw [h]
    exact .killed hp hs

lemma of_exit (w : World σ) :
    Effect host w (reportProcessExit w).trace (reportProcessExit w).final := by
  rcases reportProcessExit_cases w with ⟨_, h⟩ | ⟨hs, h⟩
  · rw [h]
    exact nothing w
  · rw [h]
    exact .exit hs

end Effect

/-- **Inversion of edits**. -/
theorem Edit.effect {host : Host σ} {w w' : World σ} {t : List (Event σ)}
    (h : Edit w t w') : Effect host w t w' := by
  cases h with
  | still h =>
      obtain ⟨hq, _, ht⟩ := h
      refine .mild hq.mild fun e he => ⟨(ht e he).1, ?_⟩
      have hk := (ht e he).2
      revert hk
      generalize e.kind = k
      cases k <;> simp [EventKind.mild, EventKind.inert, EventKind.isHit]
  | enable _ _ _ hbp => exact Effect.of_enableEntry hbp
  | disable _ _ _ hbp => exact Effect.of_disableEntry hbp
  | add _ addr => exact Effect.of_addBreakpoint addr w
  | erase _ _ => exact .mild (Mild.of_proc_eq rfl rfl rfl rfl rfl) (by simp)
  | freeze => exact Effect.of_freeze w
  | select _ _ hu => exact .select hu
  | store _ addr size value => exact Effect.of_writeScalarValue addr size value w

/-- **Inversion of steps**: a primitive step has one of the listed effects. -/
theorem Prim.effect {host : Host σ} {w w' : World σ} {t : List (Event σ)}
    (h : Prim host w t w') : Effect host w t w' := by
  cases h with
  | edit h => exact h.effect
  | singleStep => exact Effect.of_singleStep w
  | wait => exact Effect.of_wait w
  | launch _ program _ => exact Effect.of_launch program w
  | kill => exact Effect.of_kill w
  | exit => exact Effect.of_exit w

/-- **Inversion of fine steps**. -/
theorem Fine.effect {host : Host σ} {w w' : World σ} {t : List (Event σ)}
    (h : Fine host w t w') : Effect host w t w' := by
  cases h with
  | prim h => exact h.effect
  | plant _ addr => exact Effect.of_bpEnable .temp .zero addr w
  | lift _ bp => exact Effect.of_bpDisable bp w
  | resume => exact Effect.of_resume w
  | rig h => exact .mild h.quiet.1.mild (by simp [h.quiet.2])
  | sight _ hk =>
      refine .mild (Mild.refl w) fun e he => ?_
      obtain rfl := List.mem_singleton.mp he
      refine ⟨rfl, ?_⟩
      rename_i k
      cases k <;> simp_all [EventKind.mild, EventKind.isHit]

/-! ### Events -/

/-- The events that neither continue the debuggee nor announce a hit. -/
def EventKind.plain (k : EventKind) : Bool := !k.isContinue && !k.isHit

lemma EventKind.plain.not_continue {k : EventKind} (h : k.plain = true) :
    k.isContinue = false := by
  simp_all [plain]

lemma EventKind.plain.not_hit {k : EventKind} (h : k.plain = true) : k.isHit = false := by
  simp_all [plain]

/-- The events of edits. -/
def EventKind.edits : EventKind → Bool
  | .bpEnable _ _ => true
  | .suspendOthers _ => true
  | .store _ _ => true
  | k => k.inert

lemma EventKind.plain_of_edits {k : EventKind} (h : k.edits = true) : k.plain = true := by
  cases k <;> simp_all [edits, inert, plain, isContinue, isHit]

variable {host : Host σ}

lemma Edit.edits {w w' : World σ} {t : List (Event σ)} (h : Edit w t w') :
    ∀ e ∈ t, e.kind.edits = true := by
  cases h with
  | still h =>
      intro e he
      have hk := (h.2.2 e he).2
      revert hk
      generalize e.kind = k
      cases k <;> simp [EventKind.edits, EventKind.inert]
  | enable _ _ _ hbp =>
      rcases enableEntry_cases hbp with ⟨_, h⟩ | ⟨p, _, _, h⟩ <;>
        simp [h, EventKind.edits, EventKind.inert]
  | disable _ _ _ hbp =>
      rcases disableEntry_cases hbp with ⟨_, h⟩ | ⟨_, p, _, _, h⟩ | ⟨_, _, h⟩ | ⟨_, p, _, _, h⟩ <;>
        simp [h, EventKind.edits, EventKind.inert]
  | add _ addr =>
      rcases addBreakpoint_cases addr w with h | ⟨_, h⟩ | ⟨p, _, _, _, h⟩ <;>
        simp [h, EventKind.edits, EventKind.inert]
  | erase => simp
  | freeze =>
      rcases threadsSuspendOthers_cases w.dbg.pid w.dbg.currentTid w with h | ⟨p, _, h⟩ <;>
        simp [h, EventKind.edits]
  | select => simp
  | store _ addr size value =>
      rcases writeScalarValue_cases addr size value w with ⟨_, h⟩ | ⟨p, _, ⟨_, h⟩ | ⟨_, h⟩⟩ <;>
        simp [h, EventKind.edits, EventKind.inert]

lemma Edit.plain {w w' : World σ} {t : List (Event σ)} (h : Edit w t w') :
    ∀ e ∈ t, e.kind.plain = true := fun e he => EventKind.plain_of_edits (h.edits e he)

lemma Prim.plain {w w' : World σ} {t : List (Event σ)} (h : Prim host w t w') :
    ∀ e ∈ t, e.kind.plain = true := by
  cases h with
  | edit h => exact h.plain
  | singleStep =>
      rcases cdbgSingleStep_cases w with ⟨h, _⟩ | ⟨p, _, _, h⟩ <;>
        simp [h, EventKind.plain, EventKind.isContinue, EventKind.isHit]
  | wait =>
      rcases waitForStop_cases host w with ⟨_, h⟩ | ⟨h', h⟩ | ⟨p, r, o, h', _, _, _, h⟩ <;>
        simp [h, EventKind.plain, EventKind.isContinue, EventKind.isHit]
  | launch _ program _ =>
      rcases launch_cases host program w with h | ⟨b, h', lineno, syms, _, h⟩ <;>
        simp [h, EventKind.plain, EventKind.isContinue, EventKind.isHit]
  | kill =>
      rcases stopDebuggee_cases host w with ⟨_, h⟩ | ⟨_, h⟩ | ⟨_, h⟩ | ⟨p, _, _, h⟩ <;>
        simp [h, EventKind.plain, EventKind.isContinue, EventKind.isHit]
  | exit =>
      rcases reportProcessExit_cases w with ⟨_, h⟩ | ⟨_, h⟩ <;>
        simp [h, EventKind.plain, EventKind.isContinue, EventKind.isHit]

end Cdbg
