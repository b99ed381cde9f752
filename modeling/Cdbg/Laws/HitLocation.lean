import Cdbg.Laws.Armed
import Cdbg.Laws.Attribution
import Cdbg.Machine.Script

/-!
Where a watchpoint hit is shown.

The handlers of a hit step past the access and print the location of the program counter in
the register cache. Nothing on that way reads the registers but
`reenable_breakpoints_after_step`, and that only with a breakpoint in the table. What follows
says when the location printed is where the selected thread is (`locatesSelected_iff`).
-/

namespace Cdbg

open Prog

variable {σ : Type} {host : Host σ}

/-- The registers of the selected thread, as the kernel has them. -/
def World.selectedRegs (w : World σ) : Option Regs :=
  (w.resolvePort w.dbg.pid w.dbg.currentTid).map Thread.regs

/-- Every location that is printed is the program counter of the selected thread. -/
def LocatesSelected {α : Type} (m : Debugger σ α) (w : World σ) : Prop :=
  ∀ e ∈ (m w).trace, ∀ pc, e.kind = .location pc →
    ∀ r, e.world.selectedRegs = some r → pc = r.pc

/-- How the debuggee stops after the single step past an access, with all watchpoints
disarmed. -/
def World.stopAfterAccess (host : Host σ) (w : World σ) : Option StopState :=
  match w.taskForPid w.dbg.pid with
  | none => none
  | some p =>
  match (host.resume .step
    { p.disarmedAll w.dbg.watchpoints.toList with running := some .step } w.host).1 with
  | some (.stopped s) => some s
  | _ => none

/-- The registers the selected thread has after the single step past an access. -/
def World.regsAfterAccess (host : Host σ) (w : World σ) : Option Regs :=
  (w.stopAfterAccess host).bind fun s => (s.threads.resolve w.dbg.currentTid).map Thread.regs

/-! ### What is kept on the way -/

/-- The register cache, the registers of the selected thread and the state are left alone, and
nothing is displayed. -/
def SameView : Step (Event σ) (World σ) := fun w t w' =>
  w'.dbg.regs = w.dbg.regs ∧ w'.selectedRegs = w.selectedRegs ∧ w'.dbg.state = w.dbg.state ∧
    ∀ e ∈ t, e.kind.displays = false

lemma Threads.regs_resolve_map (ts : Threads) {f : Thread → Thread} (hf : ∀ t, (f t).tid = t.tid)
    (hr : ∀ t, (f t).regs = t.regs) (tid : Tid) :
    ((ts.map f hf).resolve tid).map Thread.regs = (ts.resolve tid).map Thread.regs := by
  rw [resolve_map, Option.map_map]
  simp only [Function.comp_def, hr]

lemma World.selectedRegs_of_task {w : World σ} {p : Proc} (hp : w.taskForPid w.dbg.pid = some p) :
    w.selectedRegs = (p.threads.resolve w.dbg.currentTid).map Thread.regs := by
  rw [selectedRegs, resolvePort, hp, Option.bind_some]

/-- Changes of the process that leave the registers of its threads alone. -/
lemma World.selectedRegs_setProc {w : World σ} {p q : Proc} (hp : w.taskForPid w.dbg.pid = some p)
    (hpid : q.pid = p.pid) (hq : ∀ tid, (q.threads.resolve tid).map Thread.regs =
      (p.threads.resolve tid).map Thread.regs) {d : Dbg} (hd : d.pid = w.dbg.pid)
    (ht : d.currentTid = w.dbg.currentTid) :
    ((w.setProc q).setDbg d).selectedRegs = w.selectedRegs := by
  have htask : ((w.setProc q).setDbg d).taskForPid ((w.setProc q).setDbg d).dbg.pid = some q := by
    rw [setDbg_dbg, hd, taskForPid_setDbg]
    exact taskForPid_setProc hp hpid
  rw [selectedRegs_of_task htask, selectedRegs_of_task hp, setDbg_dbg, ht, hq]

lemma Proc.resolve_stopWith (p : Proc) (s : StopState) (tid : Tid) :
    ((p.stopWith s).threads.resolve tid).map Thread.regs =
      (s.threads.resolve tid).map Thread.regs := by
  refine s.threads.regs_resolve_map p.keepKernelState_tid (fun t => ?_) tid
  rw [keepKernelState]
  split <;> rfl

lemma Proc.resolve_armedAll (tid : Tid) : ∀ (wps : List Watchpoint) (p : Proc),
    ((p.armedAll wps).threads.resolve tid).map Thread.regs =
      (p.threads.resolve tid).map Thread.regs
  | [], _ => rfl
  | wp :: wps, p => by
      have harm : ((p.armed wp).threads.resolve tid).map Thread.regs =
          (p.threads.resolve tid).map Thread.regs :=
        p.threads.regs_resolve_map (fun t => by split <;> rfl) (fun t => by split <;> rfl) tid
      rw [armedAll]
      split
      · exact (resolve_armedAll tid wps _).trans harm
      · exact resolve_armedAll tid wps p

lemma sameView_armEnabled (w : World σ) :
    SameView w (armEnabled w.dbg.watchpoints.toList w).trace
      (armEnabled w.dbg.watchpoints.toList w).final := by
  rcases armEnabled_cases w.dbg.watchpoints.toList w with
    ⟨_, rc, h⟩ | ⟨p, hp, rc, us, _, _, _, h⟩
  · rw [h]
    exact ⟨rfl, rfl, rfl, by simp⟩
  · rw [h]
    refine ⟨rfl, ?_, rfl, by simp⟩
    exact World.selectedRegs_setProc hp (d := w.dbg) (p.quiet_armedAll us).pid
      (fun tid => p.resolve_armedAll tid us) rfl rfl

lemma sameView_reenableLoop (pc : Addr) (is : List ℕ) :
    Moves SameView (reenableLoop (σ := σ) pc is) := by
  refine moves_reenableLoop (fun w i bp hbp => ?_) pc is
  rcases enableEntry_cases hbp with ⟨_, h⟩ | ⟨p, hp, _, h⟩
  · rw [h]
    exact ⟨rfl, rfl, rfl, by simp [EventKind.displays]⟩
  · rw [h]
    have hsel := World.selectedRegs_setProc hp (q := p.planted bp.addr) rfl (fun _ => rfl)
      (d := w.dbg.setEntry i (p.breakpointAt bp.addr)) rfl rfl
    exact ⟨rfl, hsel, rfl, by simp [EventKind.displays]⟩

lemma sameView_recordValue (i : ℕ) (w : World σ) :
    ∃ u t, recordValue i w = ⟨some (), u, t⟩ ∧ SameView w t u := by
  obtain ⟨t, ht, h⟩ := recordValue_cases i w
  have hdis : ∀ e ∈ t, e.kind.displays = false := fun e he => by
    obtain ⟨a, n, rfl⟩ := ht e he
    rfl
  rcases h with h | ⟨wp, wp', _, _, h⟩
  · exact ⟨w, t, h, rfl, rfl, rfl, hdis⟩
  · exact ⟨_, t, h, rfl, rfl, rfl, hdis⟩

/-! ### Stepping past -/

/-- What the registers of the debugger are after a stop: those it had before, or with a
breakpoint in the table those of the selected thread. -/
def World.cachedAfter (w : World σ) (r : Option Regs) : Regs :=
  if w.dbg.breakpoints.count = 0 then w.dbg.regs else r.getD w.dbg.regs

/-- At a stop, the second half of `cdbg_wait` reads the registers if there is a breakpoint. -/
lemma reenable_cached {v : World σ} (hs : v.dbg.state = .stopped)
    (h0 : (reenableBreakpointsAfterStep v).value = some 0) :
    (reenableBreakpointsAfterStep v).final.dbg.regs = v.cachedAfter v.selectedRegs ∧
      (reenableBreakpointsAfterStep v).final.selectedRegs = v.selectedRegs ∧
      (reenableBreakpointsAfterStep v).final.dbg.state = .stopped := by
  rw [World.cachedAfter]
  by_cases hc : v.dbg.breakpoints.count = 0
  · have hrun : reenableBreakpointsAfterStep v = ⟨some 0, v, []⟩ := by
      rw [reenableBreakpointsAfterStep, get_bind, if_pos (Or.inl hc)]
      rfl
    rw [hrun, if_pos hc]
    exact ⟨rfl, rfl, hs⟩
  rw [if_neg hc]
  rw [reenableBreakpointsAfterStep, get_bind, if_neg (by simp [hc, hs])] at h0 ⊢
  rcases refreshRegs_cases v with ⟨_, h⟩ | ⟨t, ht, h⟩
  · rw [bind_of_eq h] at h0
    cases h0
  have hsel : v.selectedRegs = some t.regs := by rw [World.selectedRegs, ht, Option.map_some]
  rw [bind_of_eq h, if_neg (by simp), get_bind] at h0 ⊢
  have hspec : Spec (fun _ => True) (fun _ => True)
      (fun u : World σ => u.dbg.regs = t.regs ∧ u.selectedRegs = some t.regs ∧
        u.dbg.state = .stopped) (reenableLoop t.regs.pc (List.range v.dbg.breakpoints.count))
      fun _ u => u.dbg.regs = t.regs ∧ u.selectedRegs = some t.regs ∧ u.dbg.state = .stopped :=
    (sameView_reenableLoop _ _).spec fun _ _ _ hv hu _ =>
      ⟨⟨hv.1.trans hu.1, hv.2.1.trans hu.2.1, hv.2.2.1.trans hu.2.2⟩, fun _ _ => trivial⟩
  rw [hsel]
  exact (hspec (v.setDbg { v.dbg with regs := t.regs }) ⟨rfl, hsel, hs⟩ fun _ _ => trivial).2 0 h0

/-- Without a stopped process there is no step. -/
lemma stepPastAllWatchpoints_refused {w : World σ}
    (h : ∀ p, w.taskForPid w.dbg.pid = some p → p.running ≠ none) :
    (stepPastAllWatchpoints host w).value = some (-1) := by
  rw [stepPastAllWatchpoints, get_bind]
  cases hp : w.taskForPid w.dbg.pid with
  | none =>
      rw [bind_of_eq (disarmEnabled_none _ hp)]
      rcases cdbgSingleStep_cases w with ⟨hstep, _⟩ | ⟨q, hq, _⟩
      · rw [bind_of_eq hstep]
        rfl
      · rw [hp] at hq
        cases hq
  | some p =>
      rw [bind_of_eq (disarmEnabled_some _ hp)]
      have hquiet := p.quiet_disarmedAll w.dbg.watchpoints.toList
      rcases cdbgSingleStep_cases (w.setProc (p.disarmedAll w.dbg.watchpoints.toList)) with
        ⟨hstep, _⟩ | ⟨q, hq, hr, _⟩
      · rw [bind_of_eq hstep]
        rfl
      · rw [World.setProc_dbg, World.taskForPid_setProc hp hquiet.pid] at hq
        rw [← Option.some.inj hq, hquiet.running] at hr
        exact absurd hr (h p hp)

/-- A wait that has returned `0` has enabled the breakpoints at a stop. -/
lemma cdbgWait_zero {w v : World σ} {t : List (Event σ)}
    (hwait : waitForStop host w = ⟨some 0, v, t⟩) (h0 : (cdbgWait host w).value = some 0) :
    v.dbg.state ≠ .idle ∧ (reenableBreakpointsAfterStep v).value = some 0 ∧
      (cdbgWait host w).final = (reenableBreakpointsAfterStep v).final := by
  rw [cdbgWait, bind_of_eq hwait, if_neg (by simp), get_bind] at h0 ⊢
  by_cases hidle : v.dbg.state = .idle
  · rw [if_pos hidle] at h0
    cases h0
  rw [if_neg hidle] at h0 ⊢
  refine ⟨hidle, ?_⟩
  rcases bind_cases reenableBreakpointsAfterStep
    (fun rc => if rc ≠ 0 then pure (-1) else pure (0 : ℤ)) v with ⟨_, h⟩ | ⟨rc, hrc, h⟩
  · rw [h] at h0
    cases h0
  · rw [h] at h0 ⊢
    by_cases hz : rc = 0
    · subst hz
      exact ⟨hrc, rfl⟩
    · rw [if_pos hz] at h0
      cases h0

/-- The end of a step past the access at which the debuggee has stopped again. -/
lemma rearm_stopped {rc : ℤ} {u : World σ} (h0 : (rearm rc u).value = some 0)
    (hs : (rearm rc u).final.dbg.state = .stopped) :
    rc = 0 ∧ SameView u (rearm rc u).trace (rearm rc u).final := by
  rw [rearm] at h0 hs ⊢
  by_cases hz : rc = 0
  · rw [if_neg (by simp [hz]), get_bind] at h0 hs ⊢
    refine ⟨hz, ?_⟩
    split
    · exact ⟨rfl, rfl, rfl, by simp⟩
    · exact sameView_armEnabled u
  · rw [if_pos hz, get_bind] at h0 hs
    have hidle : u.dbg.state = .idle := by
      by_contra hne
      rw [if_neg hne] at h0
      cases h0
    have hstop : u.dbg.state = .stopped := hs
    rw [hidle] at hstop
    cases hstop

/-- The selected thread at the stop after the step. -/
lemma World.selectedRegs_afterAccess (w : World σ) {p q : Proc} {r : Resume} {s : StopState}
    {h : σ} (hp : w.taskForPid w.dbg.pid = some p)
    (hq : (w.steppedPast p).taskForPid (w.steppedPast p).dbg.pid = some q)
    (hqr : q.running = some r)
    (hres : host.resume r q (w.steppedPast p).host = (some (.stopped s), h)) :
    ((w.steppedPast p).afterWait h q (.stopped s)).selectedRegs = w.regsAfterAccess host := by
  have hquiet := p.quiet_disarmedAll w.dbg.watchpoints.toList
  have htask := taskForPid_setProc hp
    (q := { p.disarmedAll w.dbg.watchpoints.toList with running := some .step }) hquiet.pid
  obtain rfl := Option.some.inj (htask.symm.trans hq)
  obtain rfl : Resume.step = r := Option.some.inj hqr
  have hstop : w.stopAfterAccess host = some s := by
    rw [stopAfterAccess, hp]
    change (match (host.resume .step _ (w.steppedPast p).host).1 with
      | some (.stopped s) => some s
      | _ => none) = some s
    rw [hres]
  have hpid := (taskForPid_eq_some.mp hp).2
  have htask' : ((w.steppedPast p).afterWait h
      { p.disarmedAll w.dbg.watchpoints.toList with running := some .step }
      (.stopped s)).taskForPid w.dbg.pid = some (Proc.stopWith
        { p.disarmedAll w.dbg.watchpoints.toList with running := some .step } s) :=
    taskForPid_eq_some.mpr ⟨rfl, hquiet.pid.trans hpid⟩
  rw [selectedRegs_of_task htask', regsAfterAccess, hstop]
  exact Proc.resolve_stopWith _ s _

/-- What is known after a step past the access at which the debuggee has stopped again. -/
lemma stepPastAllWatchpoints_stopped {w : World σ}
    (h0 : (stepPastAllWatchpoints host w).value = some 0)
    (hs : (stepPastAllWatchpoints host w).final.dbg.state = .stopped) :
    (stepPastAllWatchpoints host w).final.dbg.regs = w.cachedAfter (w.regsAfterAccess host) ∧
      (stepPastAllWatchpoints host w).final.selectedRegs = w.regsAfterAccess host := by
  obtain ⟨p, hp, hr⟩ : ∃ p, w.taskForPid w.dbg.pid = some p ∧ p.running = none := by
    by_contra hno
    rw [stepPastAllWatchpoints_refused fun p hp hr => hno ⟨p, hp, hr⟩] at h0
    cases h0
  obtain ⟨e, -, hrun⟩ := @stepPastAllWatchpoints_run _ host _ _ hp hr
  rw [hrun] at h0 hs ⊢
  dsimp only at h0 hs ⊢
  -- the wait returns `0` at a stop, and the watchpoints are armed again
  rcases bind_cases (cdbgWait host) rearm (w.steppedPast p) with ⟨_, hb⟩ | ⟨rc, hrc, hb⟩
  · rw [hb] at h0
    cases h0
  rw [hb] at h0 hs ⊢
  obtain ⟨rfl, hview⟩ := rearm_stopped h0 hs
  have hcache : (cdbgWait host (w.steppedPast p)).final.dbg.regs =
        w.cachedAfter (w.regsAfterAccess host) ∧
      (cdbgWait host (w.steppedPast p)).final.selectedRegs = w.regsAfterAccess host := by
    rcases waitForStop_of_running host (w.steppedPast_running hp) with
      hn | ⟨q, r, o, h, hq, hqr, hres, hwait⟩
    · rw [cdbgWait] at hrc
      obtain ⟨rc', hrc'⟩ := exists_value_of_bind hrc
      rw [hn] at hrc'
      cases hrc'
    obtain ⟨hidle, hre0, hfinal⟩ := cdbgWait_zero hwait hrc
    obtain ⟨s, rfl⟩ : ∃ s, o = .stopped s := by
      cases o with
      | exited _ => exact absurd rfl hidle
      | signaled _ => exact absurd rfl hidle
      | stopped s => exact ⟨s, rfl⟩
    obtain ⟨hregs, hsel, -⟩ := reenable_cached rfl hre0
    have hview' := w.selectedRegs_afterAccess hp hq hqr hres
    rw [hfinal, hregs, hsel, hview']
    exact ⟨rfl, rfl⟩
  exact ⟨hview.1.trans hcache.1, hview.2.1.trans hcache.2⟩

/-! ### The handlers -/

/-- A trace that ends with the location of the program counter in the register cache. -/
lemma locatesSelected_of_trace {α : Type} {m : Debugger σ α} {w u : World σ}
    {t : List (Event σ)} (ht : ∀ e ∈ t, ∀ pc, e.kind ≠ .location pc)
    (htrace : (m w).trace = t ++ [⟨.location u.dbg.regs.pc, u⟩]) :
    LocatesSelected m w ↔ ∀ r, u.selectedRegs = some r → u.dbg.regs.pc = r.pc := by
  rw [LocatesSelected, htrace]
  constructor
  · intro h
    exact h ⟨.location u.dbg.regs.pc, u⟩ (by simp) _ rfl
  · intro h e he pc hpc
    rcases List.mem_append.mp he with he | he
    · exact absurd hpc (ht e he pc)
    · obtain rfl := List.mem_singleton.mp he
      obtain rfl : u.dbg.regs.pc = pc := by injection hpc
      exact h

/-- The registers after a stop are those of the selected thread if they have been read or have
not changed. -/
lemma cachedAfter_pc {w : World σ} {o : Option Regs} :
    (∀ r, o = some r → (w.cachedAfter o).pc = r.pc) ↔
      w.dbg.breakpoints.count ≠ 0 ∨ ∀ r, o = some r → w.dbg.regs.pc = r.pc := by
  rw [World.cachedAfter]
  by_cases hc : w.dbg.breakpoints.count = 0
  · rw [if_pos hc]
    simp [hc]
  · rw [if_neg hc]
    refine iff_of_true ?_ (Or.inl hc)
    rintro r rfl
    rfl

lemma not_location_of_displays {e : Event σ} (h : e.kind.displays = false) (pc : Addr) :
    e.kind ≠ .location pc := by
  intro hk
  rw [hk] at h
  cases h

/-- **Where a hit is shown**: after the access has been stepped past and the debuggee has
stopped again, both handlers print the location of the selected thread exactly if there is a
breakpoint in the table or the thread is still where the register cache has it. -/
theorem locatesSelected_iff (host : Host σ) (w : World σ)
    (h0 : (stepPastAllWatchpoints host w).value = some 0)
    (hs : (stepPastAllWatchpoints host w).final.dbg.state = .stopped)
    (index : ℕ) (isWrite : Bool) (far : Addr) :
    (LocatesSelected (handleWatchpointHit host index isWrite) w ↔
        w.dbg.breakpoints.count ≠ 0 ∨
          ∀ r, w.regsAfterAccess host = some r → w.dbg.regs.pc = r.pc) ∧
      (LocatesSelected (handleUnresolvedWatchpointHit host far) w ↔
        w.dbg.breakpoints.count ≠ 0 ∨
          ∀ r, w.regsAfterAccess host = some r → w.dbg.regs.pc = r.pc) := by
  obtain ⟨hregs, hsel⟩ := stepPastAllWatchpoints_stopped h0 hs
  -- stepping past the access prints no location
  have hquiet : ∀ e ∈ (stepPastAllWatchpoints host w).trace, e.kind.displays = false :=
    undisplayed_stepPastAllWatchpoints.events (fun _ _ _ h => h.2) w
  rcases hstep : stepPastAllWatchpoints host w with ⟨_, v, t⟩
  rw [hstep] at h0 hs hregs hsel hquiet
  obtain rfl : _ = some 0 := h0
  dsimp only at hs hregs hsel hquiet
  rw [← cachedAfter_pc]
  constructor
  -- the hit of an entry records its value first
  · obtain ⟨u, t', hrec, hr, hsl, -, hdis⟩ := sameView_recordValue index v
    rw [locatesSelected_of_trace (t := ⟨.watchpointHit index isWrite, w⟩ :: (t ++ t')) (u := u),
      hsl, hsel, hr, hregs]
    · intro e he pc
      rcases List.mem_cons.mp he with rfl | he
      · exact fun h => by cases h
      · rcases List.mem_append.mp he with he | he
        · exact not_location_of_displays (hquiet e he) pc
        · exact not_location_of_displays (hdis e he) pc
    · rw [handleWatchpointHit, Cdbg.emit_bind, bind_of_eq hstep, if_neg (by simp), get_bind,
        if_neg (by simp [hs]), bind_of_eq hrec, get_bind]
      simp [printStopLocation]
  · rw [locatesSelected_of_trace (t := ⟨.watchpointNear far, w⟩ :: t) (u := v), hsel, hregs]
    · intro e he pc
      rcases List.mem_cons.mp he with rfl | he
      · exact fun h => by cases h
      · exact not_location_of_displays (hquiet e he) pc
    · rw [handleUnresolvedWatchpointHit, Cdbg.emit_bind, bind_of_eq hstep, if_neg (by simp),
        get_bind, if_neg (by simp [hs])]
      simp [printStopLocation]

/-! ### A store at `0x1000` -/

/-- A child stopped at a store at `0x1000`, which stops again at `0x1004` after it. -/
def beforeStore (breakpoints : Table Breakpoint maxBreakpoints) : World Script :=
  { stoppedAtStore .write .read with
    dbg := { (stoppedAtStore .write .read).dbg with
      regs := (Thread.at 1 0x1000).regs
      breakpoints := breakpoints }
    host := ⟨[], [.stopped (.at 0x1004 fun _ => 0)]⟩ }

/-- With a breakpoint somewhere else the hit is shown at `0x1004`. -/
theorem locatesSelected_iff_breakpoint :
    LocatesSelected (handleWatchpointHit (Script.host .stripped) 0 true)
      (beforeStore ⟨[⟨0x1010, 0, true⟩], by simp [maxBreakpoints]⟩) :=
  ((locatesSelected_iff _ _ (by decide +kernel) (by decide +kernel) 0 true 0x2000).1).mpr
    (Or.inl (by decide))

/-- Without breakpoints it is shown at `0x1000`, where the thread is no more. -/
theorem locates_access :
    (stepPastAllWatchpoints (Script.host .stripped) (beforeStore .empty)).value = some 0 ∧
      (stepPastAllWatchpoints (Script.host .stripped) (beforeStore .empty)).final.dbg.state =
        .stopped ∧
      ¬ LocatesSelected (handleWatchpointHit (Script.host .stripped) 0 true)
        (beforeStore .empty) := by
  refine ⟨by decide +kernel, by decide +kernel, fun h => ?_⟩
  have hany : (handleWatchpointHit (Script.host .stripped) 0 true (beforeStore .empty)).trace.any
      (fun e => match e.kind with
        | .location pc => pc = 0x1000 ∧ e.world.selectedRegs.map Regs.pc = some 0x1004
        | _ => false) = true := by decide +kernel
  obtain ⟨e, he, hloc⟩ := List.any_eq_true.mp hany
  split at hloc
  next pc hk =>
    obtain ⟨rfl, hsel⟩ := of_decide_eq_true hloc
    obtain ⟨r, hr, hpc⟩ := Option.map_eq_some_iff.mp hsel
    have hsame := h e he _ hk r hr
    rw [hpc] at hsame
    exact absurd hsame (by decide)
  · cases hloc

end Cdbg
