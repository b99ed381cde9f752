import Cdbg.Control.Action

/-!
Every function of the debugger runs by the steps of `Action`: one lemma per function,
in the order of the source, each from the lemmas of the functions it calls.
-/

namespace Cdbg

open Prog

variable {σ : Type} {host : Host σ} {R : Step (Event σ) (World σ)}

/-! ### From one grain to the next -/

lemma edit_of_still {α : Type} {m : Debugger σ α} (h : Moves Still m) : Moves Edit m :=
  h.mono fun _ _ _ => Edit.still

lemma prim_of_edit {α : Type} {m : Debugger σ α} (h : Moves Edit m) : Moves (Prim host) m :=
  h.mono fun _ _ _ => Prim.edit

lemma prim_of_still {α : Type} {m : Debugger σ α} (h : Moves Still m) : Moves (Prim host) m :=
  prim_of_edit (edit_of_still h)

lemma drive_of_still {α : Type} {m : Debugger σ α} (h : Moves Still m) :
    Moves (Drive host) m := h.mono fun _ _ _ => Drive.still

lemma Drive.prim {w w' : World σ} {t : List (Event σ)} (h : Drive host w t w') :
    Prim host w t w' := by
  cases h with
  | still h => exact .edit (.still h)
  | enable _ _ _ hbp => exact .edit (.enable w _ _ hbp)
  | singleStep => exact .singleStep w
  | wait => exact .wait w

lemma prim_of_drive {α : Type} {m : Debugger σ α} (h : Moves (Drive host) m) :
    Moves (Prim host) m := h.mono fun _ _ _ => Drive.prim

lemma fine_of_prim {α : Type} {m : Debugger σ α} (h : Moves (Prim host) m) :
    Moves (Fine host) m := h.mono fun _ _ _ => Fine.prim

lemma fine_of_still {α : Type} {m : Debugger σ α} (h : Moves Still m) : Moves (Fine host) m :=
  fine_of_prim (prim_of_still h)

namespace Core

variable {α : Type} {m : Debugger σ α}

lemma of_prim (c : Core host R) (h : Moves (Prim host) m) : Moves R m := h.mono c.prim

lemma of_edit (c : Core host R) (h : Moves Edit m) : Moves R m := c.of_prim (prim_of_edit h)

lemma of_still (c : Core host R) (h : Moves Still m) : Moves R m := c.of_prim (prim_of_still h)

end Core

namespace Edits

variable {α : Type} {m : Debugger σ α}

lemma of_still (c : Edits R) (h : Moves Still m) : Moves R m := h.mono c.still

end Edits

namespace Kit

variable {α : Type} {m : Debugger σ α}

lemma of_still (c : Kit host R) (h : Moves Still m) : Moves R m := c.toEdits.of_still h

lemma of_drive (c : Kit host R) (h : Moves (Drive host) m) : Moves R m := h.mono c.drive

end Kit

/-! ### Registers -/

lemma still_refreshRegs : Moves Still (refreshRegs (σ := σ)) := by
  refine Moves.get_bind' fun w => Moves.bind (still_emit rfl) fun _ =>
    Moves.bind (still_regsGet _ _) fun r => ?_
  cases r with
  | none => exact Moves.pure _
  | some regs =>
      exact Moves.bind (still_modifyDbg (fun _ => rfl) (fun _ => rfl) (fun _ => rfl)
        (fun _ => rfl) fun _ => rfl) fun _ => Moves.pure _

lemma still_regsSet (pid : ℕ) (tid : Tid) (regs : Regs) :
    Moves Still (regsSet (σ := σ) pid tid regs) := by
  refine Moves.get_bind' fun w => ?_
  split
  · exact Moves.pure _
  · exact Moves.bind (still_updateThread _ _ _ (fun _ => rfl) fun _ => rfl) fun _ => Moves.pure _

lemma still_regsSetFp (pid : ℕ) (tid : Tid) (regs : Regs) :
    Moves Still (regsSetFp (σ := σ) pid tid regs) := by
  refine Moves.get_bind' fun w => ?_
  split
  · exact Moves.pure _
  · exact Moves.bind (still_updateThread _ _ _ (fun _ => rfl) fun _ => rfl) fun _ => Moves.pure _

lemma still_storeRegs : Moves Still (storeRegs (σ := σ)) :=
  Moves.get_bind' fun _ => still_regsSet _ _ _

/-! ### Waiting and resuming -/

section Waiting

variable (hrefresh : Moves R (refreshRegs (σ := σ)))
  (henable : ∀ (w : World σ) i bp, w.dbg.breakpoints.entry i = some bp →
    R w (enableEntry i bp w).trace (enableEntry i bp w).final)
include henable

/-- The loop enables entries one after the other. -/
lemma moves_reenableLoop (pc : Addr) : ∀ is : List ℕ, Moves R (reenableLoop pc is)
  | [] => Moves.pure _
  | i :: is => by
      refine Moves.get_bind fun w => ?_
      split
      · exact (moves_reenableLoop pc is).from w
      next bp hbp =>
        refine MovesFrom.ite ?_ ((moves_reenableLoop pc is).from w)
        refine MovesFrom.bind (MovesFrom.single (henable w i bp hbp)) fun _ _ => ?_
        exact (Moves.ite (Moves.pure _) (moves_reenableLoop pc is)).from _

include hrefresh

lemma moves_reenableBreakpointsAfterStep : Moves R reenableBreakpointsAfterStep :=
  Moves.get_bind' fun _ => Moves.ite (Moves.pure _) <| Moves.bind hrefresh fun _ =>
    Moves.ite (Moves.pure _) <| Moves.get_bind' fun _ => moves_reenableLoop henable _ _

/-- `cdbg_wait` waits, reads the registers and enables entries. -/
lemma moves_cdbgWait (hwait : Moves R (waitForStop host)) : Moves R (cdbgWait host) :=
  Moves.bind hwait fun _ => Moves.ite (Moves.pure _) <| Moves.get_bind' fun _ =>
    Moves.ite (Moves.pure _) <|
      Moves.bind (moves_reenableBreakpointsAfterStep hrefresh henable) fun _ =>
        Moves.ite (Moves.pure _) (Moves.pure _)

end Waiting

lemma drive_cdbgWait : Moves (Drive host) (cdbgWait host) :=
  moves_cdbgWait (drive_of_still still_refreshRegs) Drive.enable (moves_of_step Drive.wait)

lemma drive_cdbgSingleStep : Moves (Drive host) (cdbgSingleStep (σ := σ)) :=
  moves_of_step Drive.singleStep

lemma prim_cdbgWait : Moves (Prim host) (cdbgWait host) := prim_of_drive drive_cdbgWait

lemma prim_cdbgSingleStep : Moves (Prim host) (cdbgSingleStep (σ := σ)) :=
  moves_of_step Prim.singleStep

lemma drive_stepOverDisabledBreakpoint :
    Moves (Drive host) (stepOverDisabledBreakpoint host) :=
  Moves.get_bind' fun _ => Moves.ite (Moves.pure _) <|
    Moves.bind (drive_of_still still_refreshRegs) fun _ => Moves.ite (Moves.pure _) <|
      Moves.bind (drive_of_still (still_emit rfl)) fun _ => Moves.get_bind' fun _ =>
        Moves.ite (Moves.pure _) <| Moves.bind (moves_of_step Drive.singleStep) fun _ =>
          Moves.ite (Moves.pure _) drive_cdbgWait

/-! ### Watchpoints -/

/-- Armed or disarmed threads differ in their debug registers. -/
lemma QuietProc.of_mapDebug (p : Proc) (ids : List Tid) (f : DebugState → DebugState) :
    QuietProc p (p.mapDebug ids f) := by
  refine ⟨rfl, rfl, rfl, rfl, ?_⟩
  simp only [Proc.mapDebug, Threads.list_mapDebug, List.map_map]
  refine List.map_congr_left fun t _ => ?_
  simp only [Function.comp_apply]
  split <;> rfl

lemma QuietProc.trans {p q r : Proc} (h : QuietProc p q) (h' : QuietProc q r) : QuietProc p r :=
  ⟨h'.pid.trans h.pid, h'.mem.trans h.mem, h'.mapped.trans h.mapped, h'.running.trans h.running,
    h'.threads.trans h.threads⟩

/-- The child and the watchpoints are changed, in what is quiet about them. -/
lemma Quiet.of_proc {w : World σ} {p q : Proc} (hp : w.taskForPid w.dbg.pid = some p)
    (hq : QuietProc p q) {d : Dbg} (hpid : d.pid = w.dbg.pid) (hs : d.state = w.dbg.state)
    (ht : d.currentTid = w.dbg.currentTid) (hb : d.breakpoints = w.dbg.breakpoints) :
    Quiet w ((w.setProc q).setDbg d) := by
  refine ⟨rfl, hpid, hs, ht, hb, ?_⟩
  rw [(World.taskForPid_eq_some.mp hp).1]
  exact Option.Rel.some hq

lemma quiet_addWatchpoint (wp : Watchpoint) (w : World σ) :
    Quiet w (addWatchpoint wp w).final ∧ (addWatchpoint wp w).trace = [] := by
  rcases addWatchpoint_cases wp w with ⟨rc, h⟩ | ⟨p, hp, _, wp', _, h⟩
  · rw [h]
    exact ⟨Quiet.refl w, rfl⟩
  · rw [h]
    exact ⟨Quiet.of_proc hp (QuietProc.of_mapDebug p _ _) rfl rfl rfl rfl, rfl⟩

lemma quiet_deleteWatchpointAt (i : ℕ) (w : World σ) :
    Quiet w (deleteWatchpointAt i w).final ∧ (deleteWatchpointAt i w).trace = [] := by
  rcases deleteWatchpointAt_cases i w with ⟨_, h⟩ | ⟨wp, _, ⟨_, h⟩ | ⟨p, hp, h⟩⟩
  · rw [h]
    exact ⟨Quiet.refl w, rfl⟩
  · rw [h]
    exact ⟨Quiet.of_proc_eq rfl rfl rfl rfl rfl rfl, rfl⟩
  · rw [h]
    exact ⟨Quiet.of_proc hp (QuietProc.of_mapDebug p _ _) rfl rfl rfl rfl, rfl⟩

lemma still_deleteWatchpointAt (i : ℕ) : Moves Still (deleteWatchpointAt (σ := σ) i) :=
  still_of_quiet fun w => ⟨(quiet_deleteWatchpointAt i w).1, .unwatch i,
    by simp [(quiet_deleteWatchpointAt i w).2]⟩

/-- Recording a value changes nothing that the debug registers follow. -/
lemma still_recordValue (index : ℕ) : Moves Still (recordValue (σ := σ) index) := by
  refine still_of_quiet fun w => ?_
  obtain ⟨t, ht, h | ⟨wp, wp', he, ha, h⟩⟩ := recordValue_cases index w
  · rw [h]
    refine ⟨Quiet.refl w, Tend.refl w, fun e he => ?_⟩
    obtain ⟨a, n, rfl⟩ := ht e he
    exact ⟨rfl, rfl⟩
  · rw [h]
    refine ⟨Quiet.of_proc_eq rfl rfl rfl rfl rfl rfl, .hush ?_ rfl, fun e he => ?_⟩
    · exact Table.map_set_of_eq Watchpoint.arming he ha
    · obtain ⟨a, n, rfl⟩ := ht e he
      exact ⟨rfl, rfl⟩

lemma Proc.quiet_disarmedAll (p : Proc) : ∀ wps : List Watchpoint, QuietProc p (p.disarmedAll wps)
  | [] => QuietProc.refl p
  | wp :: wps => by
      rw [disarmedAll]
      split
      · exact (QuietProc.of_mapDebug p _ _).trans (quiet_disarmedAll _ wps)
      · exact quiet_disarmedAll p wps

lemma Proc.quiet_armedAll (p : Proc) : ∀ wps : List Watchpoint, QuietProc p (p.armedAll wps)
  | [] => QuietProc.refl p
  | wp :: wps => by
      rw [armedAll]
      split
      · exact (QuietProc.of_mapDebug p _ _).trans (quiet_armedAll _ wps)
      · exact quiet_armedAll p wps

/-- Disarming and arming are quiet. -/
lemma Rig.quiet {w w' : World σ} {t : List (Event σ)} (h : Rig w t w') : Quiet w w' ∧ t = [] := by
  cases h with
  | disarm =>
      cases hp : w.taskForPid w.dbg.pid with
      | none =>
          rw [disarmEnabled_none _ hp]
          exact ⟨Quiet.refl w, rfl⟩
      | some p =>
          rw [disarmEnabled_some _ hp]
          exact ⟨Quiet.of_proc hp (p.quiet_disarmedAll _) rfl rfl rfl rfl, rfl⟩
  | arm =>
      rcases armEnabled_cases w.dbg.watchpoints.toList w with
        ⟨_, rc, h⟩ | ⟨p, hp, rc, us, _, _, _, h⟩
      · rw [h]
        exact ⟨Quiet.refl w, rfl⟩
      · rw [h]
        exact ⟨Quiet.of_proc hp (p.quiet_armedAll _) rfl rfl rfl rfl, rfl⟩

/-- Stepping past the watchpoints disarms them, steps, waits and arms them. -/
lemma moves_stepPastAllWatchpoints (hrig : ∀ w t w', Rig w t w' → R w t w')
    (hstep : Moves R cdbgSingleStep) (hwait : Moves R (cdbgWait host)) :
    Moves R (stepPastAllWatchpoints host) := by
  refine Moves.get_bind fun w => MovesFrom.bind (MovesFrom.single (hrig _ _ _ (.disarm w)))
    fun _ _ => Moves.from (Moves.bind hstep fun _ =>
      Moves.ite (Moves.pure _) <| Moves.bind hwait fun _ => Moves.ite
        (Moves.get_bind' fun _ => Moves.pure _) <| Moves.get_bind fun w' => ?_) _
  exact MovesFrom.ite (MovesFrom.pure _ _) (MovesFrom.single (hrig _ _ _ (.arm w')))

/-- The same with the announcement before. -/
lemma moves_stepPastHit (hprim : ∀ w t w', Prim host w t w' → R w t w')
    (hrig : ∀ w t w', Rig w t w' → R w t w')
    (hsight : ∀ (w : World σ) (k : EventKind), k.isHit = true → R w [⟨k, w⟩] w)
    (k : EventKind) (hk : k.isHit = true) : Moves R (stepPastHit host k) :=
  Moves.bind (moves_of_step fun w => hsight w k hk) fun _ => moves_stepPastAllWatchpoints hrig
    (prim_cdbgSingleStep.mono hprim) (prim_cdbgWait.mono hprim)

/-- The primitive operations with the disarming and arming of watchpoints are a core. -/
lemma Base.core (host : Host σ) : Core host (Base host) where
  prim _ _ _ := Base.prim
  stepPast := moves_stepPastHit (fun _ _ _ => Base.prim) (fun _ _ _ => Base.rig)
    fun w _ => Base.sight w

/-! ### Reporting a stop -/

lemma prim_reportProcessExit : Moves (Prim host) (reportProcessExit (σ := σ)) :=
  moves_of_step Prim.exit

lemma still_printStopHeader : Moves Still (printStopHeader (σ := σ)) := still_emit rfl

lemma still_printStopLocation (pc : Addr) :
    Moves Still (printStopLocation (σ := σ) pc) := still_emit rfl

lemma still_setRegs (f : Regs → Regs) :
    Moves Still (modifyDbg (σ := σ) fun d => { d with regs := f d.regs }) :=
  still_modifyDbg (fun _ => rfl) (fun _ => rfl) (fun _ => rfl) (fun _ => rfl) fun _ => rfl

/-- A breakpoint that is hit is disabled first. -/
lemma handleBreakpointHit_moves (hstill : ∀ w t w', Still w t w' → R w t w')
    (hdisable : ∀ (w : World σ) i bp, w.dbg.breakpoints.entry i = some bp →
      R w (disableEntry i bp w).trace (disableEntry i bp w).final)
    {w : World σ} {index : ℕ} {bp : Breakpoint} (h : w.dbg.breakpoints.entry index = some bp) :
    MovesFrom R w (handleBreakpointHit index bp) :=
  MovesFrom.bind (MovesFrom.single (hdisable w index bp h)) fun _ _ =>
    Moves.from (Moves.mono (R := Still) (Moves.ite (Moves.pure _) <|
      Moves.bind still_refreshRegs fun _ =>
      Moves.ite (Moves.pure _) <| Moves.ite
        (Moves.bind (still_setRegs fun r => r.setPc bp.addr) fun _ =>
          Moves.bind still_storeRegs fun _ =>
          Moves.ite (Moves.pure _) <| Moves.bind (still_emit rfl) fun _ =>
            Moves.bind (still_printStopLocation _) fun _ => Moves.pure _)
        (Moves.bind (still_emit rfl) fun _ =>
          Moves.bind (still_printStopLocation _) fun _ => Moves.pure _)) hstill) _

lemma movesFrom_handleBreakpointHit {w : World σ} {index : ℕ} {bp : Breakpoint}
    (h : w.dbg.breakpoints.entry index = some bp) :
    MovesFrom Edit w (handleBreakpointHit index bp) :=
  handleBreakpointHit_moves (fun _ _ _ => Edit.still) Edit.disable h

lemma kit_handleWatchpointHit (c : Kit host R) (index : ℕ) (isWrite : Bool) :
    Moves R (handleWatchpointHit host index isWrite) := by
  rw [handleWatchpointHit, ← bind_assoc]
  exact Moves.bind (c.stepPast (.watchpointHit index isWrite) rfl) fun _ =>
    Moves.ite (Moves.pure _) <| Moves.get_bind' fun _ => Moves.ite
      (Moves.bind (moves_of_step c.exit) fun _ => Moves.pure _) <|
      Moves.bind (c.of_still (still_recordValue _)) fun _ => Moves.get_bind' fun _ =>
        Moves.bind (c.of_still (still_printStopLocation _)) fun _ => Moves.pure _

lemma kit_handleUnresolvedWatchpointHit (c : Kit host R) (far : Addr) :
    Moves R (handleUnresolvedWatchpointHit host far) := by
  rw [handleUnresolvedWatchpointHit, ← bind_assoc]
  exact Moves.bind (c.stepPast (.watchpointNear far) rfl) fun _ =>
    Moves.ite (Moves.pure _) <| Moves.get_bind' fun _ => Moves.ite
      (Moves.bind (moves_of_step c.exit) fun _ => Moves.pure _) <|
      Moves.bind (c.of_still (still_printStopLocation _)) fun _ => Moves.pure _

lemma kit_tryReportWatchpointHit (c : Kit host R) :
    Moves R (tryReportWatchpointHit host) := by
  refine Moves.get_bind' fun w => ?_
  split
  · exact Moves.pure _
  · split
    · exact Moves.bind (kit_handleWatchpointHit c _ _) fun _ => Moves.pure _
    · exact Moves.bind (kit_handleUnresolvedWatchpointHit c _) fun _ => Moves.pure _

/-- The thread found by `report_stop` is a listed one. -/
lemma World.exists_listed_of_hitTid {w : World σ} (h : w.hitTid ≠ 0) :
    ∃ t ∈ w.listed, t.tid = w.hitTid := by
  have hb : w.findBreakpointHitThread ≠ 0 → ∃ t ∈ w.listed, t.tid = w.findBreakpointHitThread := by
    intro hne
    simp only [World.findBreakpointHitThread] at hne ⊢
    split at hne
    · exact absurd rfl hne
    next t ht => exact ⟨t, List.mem_of_find?_eq_some ht, rfl⟩
  have hw : w.findWatchpointHitThread ≠ 0 → ∃ t ∈ w.listed, t.tid = w.findWatchpointHitThread := by
    intro hne
    simp only [World.findWatchpointHitThread] at hne ⊢
    split at hne
    · exact absurd rfl hne
    · next hc =>
      rw [if_neg hc]
      split at hne
      · exact absurd rfl hne
      next t ht => exact ⟨t, List.mem_of_find?_eq_some ht, rfl⟩
  simp only [World.hitTid] at h ⊢
  split
  · next h0 => exact hw (by simpa [h0] using h)
  · next h0 => exact hb h0

lemma moves_selectHitThread (hselect : ∀ (w : World σ) t, t ∈ w.listed →
    R w [] (w.setDbg { w.dbg with currentTid := t.tid })) : Moves R (selectHitThread (σ := σ)) := by
  refine Moves.get_bind fun w => ?_
  split
  · exact MovesFrom.pure _ _
  · next h =>
    obtain ⟨t, ht, htid⟩ := World.exists_listed_of_hitTid h
    have hsel := hselect w t ht
    rw [htid] at hsel
    exact MovesFrom.single hsel

lemma edit_selectHitThread : Moves Edit (selectHitThread (σ := σ)) :=
  moves_selectHitThread Edit.select

lemma kit_freeze (c : Kit host R) {f : ℤ → Debugger σ ℤ} (hf : ∀ rc, Moves R (f rc)) :
    Moves R (Prog.get >>= fun w : World σ =>
      threadsSuspendOthers w.dbg.pid w.dbg.currentTid >>= f) :=
  Moves.get_bind fun w => MovesFrom.bind
    (MovesFrom.single (c.freeze w)) fun rc _ => (hf rc).from _

lemma kit_announceStop (c : Kit host R) : Moves R (announceStop host) := by
  refine Moves.bind (moves_selectHitThread c.select) fun _ => kit_freeze c fun _ =>
    Moves.bind (c.of_still still_refreshRegs) fun _ => Moves.ite (Moves.pure _) <|
      Moves.bind (c.of_still still_printStopHeader) fun _ => Moves.get_bind fun w => ?_
  dsimp only
  split
  · split
    · next h => exact handleBreakpointHit_moves c.still c.disable h
    · exact MovesFrom.pure _ _
  · refine Moves.from (Moves.bind (kit_tryReportWatchpointHit c) fun hit => ?_) w
    exact Moves.ite (Moves.pure _) <| Moves.bind (c.of_still (still_emit rfl)) fun _ =>
      Moves.bind (c.of_still (still_printStopLocation _)) fun _ => Moves.pure _

lemma kit_reportStop (c : Kit host R) : Moves R (reportStop host) :=
  Moves.bind (kit_announceStop c) fun _ =>
    Moves.bind (c.of_still (still_emit rfl)) fun _ => Moves.pure _

/-- `delete_breakpoint_at` disables an entry and takes it out of the table. -/
lemma edit_deleteBreakpointAt (index : ℕ) :
    Moves Edit (deleteBreakpointAt (σ := σ) index) := by
  have herase : Moves Edit
      (modifyDbg (σ := σ) fun d => { d with breakpoints := d.breakpoints.erase index }) :=
    moves_of_step fun w => Edit.erase w index
  refine Moves.get_bind fun w => ?_
  split
  · exact MovesFrom.pure _ _
  · next bp hbp =>
    refine MovesFrom.ite (MovesFrom.bind (MovesFrom.single (.disable w index bp hbp)) fun _ _ => ?_)
      ((Moves.bind herase fun _ => Moves.pure _).from w)
    exact (Moves.ite (Moves.pure _) (Moves.bind herase fun _ => Moves.pure _)).from _

lemma edits_edit : Edits (Edit (σ := σ)) where
  still _ _ _ := Edit.still
  disable := Edit.disable
  add := Edit.add
  delete := edit_deleteBreakpointAt
  freeze := Edit.freeze
  select := Edit.select
  store := Edit.store

/-- A core is a kit. -/
lemma Core.kit (c : Core host R) : Kit host R where
  still _ _ _ h := c.prim _ _ _ (.edit (.still h))
  disable w i bp h := c.prim _ _ _ (.edit (.disable w i bp h))
  add w addr := c.prim _ _ _ (.edit (.add w addr))
  delete i := c.of_edit (edit_deleteBreakpointAt i)
  freeze w := c.prim _ _ _ (.edit (.freeze w))
  select w t h := c.prim _ _ _ (.edit (.select w t h))
  store w addr size value := c.prim _ _ _ (.edit (.store w addr size value))
  drive _ _ _ h := c.prim _ _ _ h.prim
  stepPast := c.stepPast
  launch w program h := c.prim _ _ _ (.launch w program h)
  kill w := c.prim _ _ _ (.kill w)
  exit w := c.prim _ _ _ (.exit w)

/-- A grain is a full kit. -/
lemma Grain.kit (g : Grain host R) : FullKit host R where
  toKit := g.toCore.kit
  cont := g.cont
  overCall := g.overCall
  entryStop := g.entryStop

lemma core_reportStop (c : Core host R) : Moves R (reportStop host) := kit_reportStop c.kit

/-! ### `step`, `next` and `up` -/

namespace Haul

variable {α : Type} {m : Debugger σ α}

lemma of_drive (q : Haul host R) (h : Moves (Drive host) m) : Moves R m := h.mono q.drive

lemma of_still (q : Haul host R) (h : Moves Still m) : Moves R m := q.of_drive (drive_of_still h)

end Haul

lemma haul_cdbgContinue (q : Haul host R) : Moves R (cdbgContinue host) :=
  Moves.bind (q.of_drive drive_stepOverDisabledBreakpoint) fun _ =>
    Moves.ite (Moves.pure _) <| Moves.get_bind' fun _ =>
      Moves.ite (Moves.pure _) (moves_of_step q.resume)

lemma haul_dropTemp (q : Haul host R) (temp : Breakpoint) :
    Moves R (dropTemp (σ := σ) temp) :=
  Moves.get_bind fun w => MovesFrom.bind (MovesFrom.single (q.lift w temp)) fun _ _ =>
    MovesFrom.pure _ _

lemma parts_finishTempBreakpoint (q : Parts host R) (temp : Breakpoint) :
    Moves R (finishTempBreakpoint host temp) := by
  refine Moves.bind (q.toCore.of_still still_refreshRegs) fun _ => Moves.ite
    (Moves.bind (haul_dropTemp q.toHaul _) fun _ => Moves.pure _) <| Moves.get_bind fun w => ?_
  refine MovesFrom.ite ?_ ?_
  · exact (Moves.bind (haul_dropTemp q.toHaul _) fun _ => core_reportStop q.toCore).from w
  · exact MovesFrom.bind (MovesFrom.single (q.lift w temp)) fun _ _ =>
      (Moves.ite (Moves.pure _) (Moves.pure _)).from _

lemma parts_stepOverCall (q : Parts host R) (returnAddr : Addr) :
    Moves R (stepOverCall host returnAddr) :=
  Moves.get_bind fun w => MovesFrom.bind (MovesFrom.single (q.plant w returnAddr)) fun _ _ =>
    Moves.from (Moves.ite (Moves.pure _) <|
      Moves.bind (haul_cdbgContinue q.toHaul) fun _ => Moves.ite
      (Moves.bind (haul_dropTemp q.toHaul _) fun _ => Moves.pure _) <|
      Moves.get_bind' fun _ => Moves.ite
      (Moves.bind (haul_dropTemp q.toHaul _) fun _ => Moves.pure _) <|
      Moves.bind (q.of_prim prim_cdbgWait) fun _ => Moves.ite
        (Moves.bind (haul_dropTemp q.toHaul _) fun _ => Moves.get_bind' fun _ => Moves.pure _) <|
        Moves.get_bind' fun _ => Moves.ite
          (Moves.bind (haul_dropTemp q.toHaul _) fun _ => Moves.pure _)
          (parts_finishTempBreakpoint q _)) _

lemma still_callReturnAddress (pc : Addr) :
    Moves Still (callReturnAddress (σ := σ) pc) := by
  refine Moves.get_bind' fun w => Moves.bind (still_memRead _ _ _) fun r => ?_
  cases r <;> exact Moves.pure _

lemma kit_stepWithoutLine (c : Kit host R) : Moves R (stepWithoutLine host) :=
  Moves.bind (c.of_drive drive_cdbgSingleStep) fun _ => Moves.ite (Moves.pure _) <|
    Moves.bind (c.of_drive drive_cdbgWait) fun _ => Moves.ite
      (Moves.get_bind' fun _ => Moves.pure _) <| Moves.get_bind' fun _ => Moves.ite
        (Moves.bind (kit_reportStop c) fun _ => Moves.pure _) (Moves.pure _)

lemma kit_checkLine (c : Kit host R) (startFile : Str) (startLine : BitVec 32) :
    Moves R (checkLine host startFile startLine) := by
  refine Moves.bind (c.of_still still_refreshRegs) fun _ => Moves.ite (Moves.pure _) <|
    Moves.get_bind' fun w => Moves.ite
      (Moves.bind (kit_reportStop c) fun _ => Moves.pure _) <|
      Moves.bind (kit_tryReportWatchpointHit c) fun _ => Moves.ite (Moves.pure _) <|
        Moves.get_bind' fun w' => ?_
  split
  · exact Moves.pure _
  · exact Moves.ite (Moves.bind (c.of_still still_printStopHeader) fun _ =>
      Moves.bind (c.of_still (still_emit rfl)) fun _ =>
        Moves.bind (c.of_still (still_printStopLocation _)) fun _ => Moves.pure _) (Moves.pure _)

lemma drive_stepOnce : Moves (Drive host) (stepOnce host) :=
  Moves.bind drive_cdbgSingleStep fun _ => Moves.ite (Moves.pure _) <|
    Moves.bind drive_cdbgWait fun _ => Moves.ite (Moves.get_bind' fun _ => Moves.pure _) <|
      Moves.get_bind' fun _ => Moves.ite (Moves.pure _) (Moves.pure _)

lemma kit_stepLoop (c : Kit host R) (startFile : Str) (startLine : BitVec 32) : ∀ n : ℕ,
    Moves R (stepLoop host startFile startLine n)
  | 0 => Moves.bind (c.of_still (still_emit rfl)) fun _ => Moves.pure _
  | n + 1 => by
      refine Moves.bind (c.of_drive drive_stepOnce) fun r => ?_
      cases r with
      | some rc => exact Moves.pure _
      | none =>
          refine Moves.bind (kit_checkLine c _ _) fun r => ?_
          cases r with
          | some rc => exact Moves.pure _
          | none => exact kit_stepLoop c startFile startLine n

lemma kit_stepNextLine (c : Kit host R) : Moves R (stepNextLine host) := by
  refine Moves.bind (c.of_still still_refreshRegs) fun _ => Moves.ite (Moves.pure _) <|
    Moves.get_bind' fun w => ?_
  split
  · exact kit_stepWithoutLine c
  · exact kit_stepLoop c _ _ _

lemma full_nextOnce (g : FullKit host R) (pc : Addr) : Moves R (nextOnce host pc) := by
  refine Moves.bind (g.of_still (still_callReturnAddress _)) fun r => ?_
  cases r with
  | some returnAddr =>
      exact Moves.bind (g.overCall _) fun _ => Moves.ite (Moves.pure _) <|
        Moves.get_bind' fun _ => Moves.ite (Moves.pure _) (Moves.pure _)
  | none => exact g.of_drive drive_stepOnce

lemma full_nextLoop (g : FullKit host R) (startFile : Str) (startLine : BitVec 32) :
    ∀ (n : ℕ) (pc : Addr), Moves R (nextLoop host startFile startLine pc n)
  | 0, _ => Moves.bind (g.of_still (still_emit rfl)) fun _ => Moves.pure _
  | n + 1, pc => by
      refine Moves.bind (full_nextOnce g pc) fun r => ?_
      cases r with
      | some rc => exact Moves.pure _
      | none =>
          refine Moves.bind (kit_checkLine g.toKit _ _) fun r => ?_
          cases r with
          | some rc => exact Moves.pure _
          | none => exact Moves.get_bind' fun _ => full_nextLoop g startFile startLine n _

lemma full_nextSourceLine (g : FullKit host R) : Moves R (nextSourceLine host) := by
  refine Moves.bind (g.of_still still_refreshRegs) fun _ => Moves.ite (Moves.pure _) <|
    Moves.get_bind' fun w => ?_
  split
  · exact kit_stepWithoutLine g.toKit
  · exact full_nextLoop g _ _ _ _

lemma still_frameUp : Moves Still (frameUp (σ := σ)) := by
  refine Moves.bind still_refreshRegs fun _ => Moves.ite (Moves.pure _) <|
    Moves.get_bind' fun w => ?_
  split
  · exact Moves.pure _
  · exact Moves.bind (still_setRegs fun _ => _) fun _ => Moves.bind still_storeRegs fun _ =>
      Moves.ite (Moves.pure _) <| Moves.get_bind' fun _ =>
        Moves.bind (still_printStopLocation _) fun _ => Moves.pure _

/-! ### Starting and ending a debuggee -/

lemma still_setRunTarget (argv : List Str) :
    Moves Still (setRunTarget (σ := σ) argv) :=
  have h (f : Dbg → List Str) : Moves Still
      (modifyDbg (σ := σ) fun d => { d with runArgv := f d }) :=
    still_modifyDbg (fun _ => rfl) (fun _ => rfl) (fun _ => rfl) (fun _ => rfl) fun _ => rfl
  Moves.ite (Moves.pure _) <| Moves.ite
    (Moves.bind (h fun d => (argv.take d.runArgv.length).map (CString.truncate maxPath))
      fun _ => Moves.pure _)
    (Moves.bind (h fun _ => argv.map (CString.truncate maxPath)) fun _ => Moves.pure _)

lemma haul_runToEntryStop (q : Haul host R) : Moves R (runToEntryStop host) := by
  refine Moves.get_bind fun w => MovesFrom.ite (MovesFrom.pure _ _) ?_
  split
  · exact MovesFrom.pure _ _
  · refine MovesFrom.bind (MovesFrom.single (q.plant w _)) fun _ _ => Moves.from ?_ _
    refine Moves.ite (Moves.pure _) <| Moves.bind (haul_cdbgContinue q) fun _ => Moves.ite
      (Moves.bind (haul_dropTemp q _) fun _ => Moves.pure _) <|
      Moves.bind (q.of_drive drive_cdbgWait) fun _ => Moves.ite
      (Moves.bind (haul_dropTemp q _) fun _ => Moves.pure _) <| Moves.get_bind' fun _ => Moves.ite
      (Moves.bind (haul_dropTemp q _) fun _ => Moves.pure _) <|
      Moves.bind (q.of_still still_refreshRegs) fun _ => Moves.ite
      (Moves.bind (haul_dropTemp q _) fun _ => Moves.pure _) <| Moves.get_bind' fun _ => Moves.ite
      (Moves.bind (haul_dropTemp q _) fun _ => Moves.pure _) <|
      Moves.bind (haul_dropTemp q _) fun _ => Moves.ite ?_ ?_
    · exact q.of_still <| Moves.bind (still_setRegs fun r => r.setPc _) fun _ =>
        Moves.bind still_storeRegs fun _ => Moves.ite (Moves.pure _) <|
          Moves.bind still_printStopHeader fun _ =>
            Moves.bind (still_printStopLocation _) fun _ => Moves.pure _
    · exact q.of_still <| Moves.bind still_printStopHeader fun _ =>
        Moves.bind (still_printStopLocation _) fun _ => Moves.pure _

lemma prim_stopDebuggee : Moves (Prim host) (stopDebuggee host) := moves_of_step Prim.kill

lemma still_updateSlides : Moves Still (updateSlides (σ := σ)) := by
  refine Moves.get_bind' fun w => ?_
  split
  · exact Moves.pure _
  · exact still_modifyDbg (fun _ => rfl) (fun _ => rfl) (fun _ => rfl) (fun _ => rfl) fun _ => rfl

lemma still_printStopContext : Moves Still (printStopContext (σ := σ)) :=
  Moves.bind still_refreshRegs fun _ => Moves.ite (Moves.pure _) <|
    Moves.get_bind' fun _ => still_printStopLocation _

lemma full_enterProgram (g : FullKit host R) : Moves R (enterProgram host) :=
  Moves.bind (g.of_still still_updateSlides) fun _ =>
    Moves.bind g.entryStop fun _ => Moves.ite
      (Moves.bind (moves_of_step g.exit) fun _ => Moves.pure _) <|
      Moves.get_bind' fun _ => Moves.ite
        (Moves.bind (g.of_still still_printStopContext) fun _ => Moves.pure _) (Moves.pure _)

/-- Once `stop_debuggee` has succeeded the debugger is idle. -/
lemma stopDebuggee_idle {w : World σ} (h : (stopDebuggee host w).value = some 0) :
    (stopDebuggee host w).final.dbg.state = .idle := by
  rcases stopDebuggee_cases host w with ⟨_, hs⟩ | ⟨_, hs⟩ | ⟨_, hs⟩ | ⟨p, _, _, hs⟩
  · rw [hs]
    rfl
  · rw [hs]
    rfl
  · rw [hs] at h
    simp at h
  · rw [hs]
    rfl

lemma full_startProgram (g : FullKit host R) : Moves R (startProgram host) := by
  refine Moves.get_bind fun w => ?_
  split
  · exact MovesFrom.pure _ _
  refine MovesFrom.bind (MovesFrom.single (g.kill w)) fun rc hrc => ?_
  by_cases h0 : rc = 0
  · obtain rfl := h0
    rw [if_neg (by simp)]
    refine MovesFrom.bind (MovesFrom.single
      (g.launch _ _ (stopDebuggee_idle hrc))) fun _ _ => ?_
    exact (Moves.ite (Moves.pure _) <| Moves.bind (g.of_drive drive_cdbgWait) fun _ => Moves.ite
      (Moves.bind (moves_of_step g.exit) fun _ => Moves.pure _)
      (full_enterProgram g)).from _
  · rw [if_pos h0]
    exact MovesFrom.pure _ _

lemma full_cdbgRun (g : FullKit host R) (argv : Option (List Str)) :
    Moves R (cdbgRun host argv) := by
  cases argv with
  | none => exact full_startProgram g
  | some argv =>
      exact Moves.bind (g.of_still (still_setRunTarget _)) fun _ =>
        Moves.ite (Moves.pure _) (full_startProgram g)

/-! ### Commands -/

lemma still_exprEval (text : Str) : Moves Still (exprEval (σ := σ) text) :=
  Moves.get_bind' fun _ => Moves.ite (Moves.pure _) <|
    Moves.bind still_refreshRegs fun _ => Moves.ite (Moves.pure _) <|
      Moves.get_bind' fun _ => Moves.pure _

lemma still_cmdPrint (expr : Str) : Moves Still (cmdPrint (σ := σ) expr) :=
  Moves.ite (Moves.pure _) <| Moves.get_bind' fun _ => Moves.ite (Moves.pure _) <|
    Moves.bind still_refreshRegs fun _ => Moves.ite (Moves.pure _) <|
      Moves.get_bind' fun _ => Moves.ite (Moves.pure _) <| Moves.ite (Moves.pure _) <|
        Moves.bind (still_exprEval _) fun _ => Moves.pure _

lemma still_regsSetByName (name : Str) (value : BitVec 64) :
    Moves Still (regsSetByName (σ := σ) name value) := by
  refine Moves.get_bind' fun w => ?_
  split
  · next native _ =>
    exact Moves.bind (still_setRegs fun r => { r with native := native }) fun _ => still_storeRegs
  · split
    · next neon _ =>
      exact Moves.bind (still_setRegs fun r => { r with neon := neon }) fun _ =>
        Moves.get_bind' fun _ => still_regsSetFp _ _ _
    · exact Moves.pure _

lemma still_resolveSetLhs (lhs : Str) : Moves Still (resolveSetLhs (σ := σ) lhs) := by
  refine Moves.bind still_refreshRegs fun _ => Moves.ite (Moves.pure _) <|
    Moves.ite (Moves.pure _) <| Moves.get_bind' fun w => ?_
  split <;> exact Moves.pure _

lemma still_setRegister (name rhs : Str) :
    Moves Still (setRegister (σ := σ) name rhs) := by
  refine Moves.get_bind' fun w => Moves.ite (Moves.pure _) <|
    Moves.bind (still_exprEval _) fun r => ?_
  cases r with
  | none => exact Moves.pure _
  | some result =>
      exact Moves.ite (Moves.pure _) <| Moves.bind still_refreshRegs fun _ =>
        Moves.ite (Moves.pure _) (still_regsSetByName _ _)

lemma edits_setStorage (c : Edits R) (lhs rhs : Str) :
    Moves R (setStorage (σ := σ) lhs rhs) := by
  refine Moves.get_bind' fun w => Moves.ite (Moves.pure _) <|
    Moves.bind (c.of_still (still_exprEval _)) fun r => ?_
  cases r with
  | none => exact Moves.pure _
  | some result =>
      refine Moves.ite (Moves.pure _) <|
        Moves.bind (c.of_still (still_resolveSetLhs _)) fun r => ?_
      cases r with
      | none => exact Moves.pure _
      | some lv => exact moves_of_step fun w => c.store w _ _ _

lemma still_cmdSetPrint (args : Str) : Moves Still (cmdSetPrint (σ := σ) args) :=
  have h (b : Bool) : Moves Still (modifyDbg (σ := σ) fun d => { d with printPretty := b }) :=
    still_modifyDbg (fun _ => rfl) (fun _ => rfl) (fun _ => rfl) (fun _ => rfl) fun _ => rfl
  Moves.ite (Moves.ite (Moves.bind (h true) fun _ => Moves.pure _) <|
    Moves.ite (Moves.bind (h false) fun _ => Moves.pure _) (Moves.pure _)) (Moves.pure _)

lemma still_cmdSetLanguage (args : Str) :
    Moves Still (cmdSetLanguage (σ := σ) args) := by
  rw [cmdSetLanguage]
  split
  · exact Moves.pure _
  · exact Moves.bind (still_modifyDbg (fun _ => rfl) (fun _ => rfl) (fun _ => rfl)
      (fun _ => rfl) fun _ => rfl) fun _ => Moves.pure _

lemma still_cmdSetMallocLog (args : Str) : Moves Still (cmdSetMallocLog (σ := σ) args) :=
  have h (b : Bool) : Moves Still
      (modifyDbg (σ := σ) fun d => { d with mallocStackLogging := b }) :=
    still_modifyDbg (fun _ => rfl) (fun _ => rfl) (fun _ => rfl) (fun _ => rfl) fun _ => rfl
  Moves.ite (Moves.bind (h true) fun _ => Moves.pure _) <|
    Moves.ite (Moves.bind (h false) fun _ => Moves.pure _) (Moves.pure _)

lemma edits_cmdSet (c : Edits R) (args : Option Str) : Moves R (cmdSet (σ := σ) args) := by
  cases args with
  | none => exact Moves.pure _
  | some args =>
      refine Moves.ite (c.of_still (still_cmdSetPrint _)) <|
        Moves.ite (c.of_still (still_cmdSetLanguage _)) <|
        Moves.ite (c.of_still (still_cmdSetMallocLog _)) ?_
      split
      · exact Moves.pure _
      · exact Moves.pure _
      · exact c.of_still (still_setRegister _ _)
      · exact edits_setStorage c _ _

lemma edit_cmdSet (args : Option Str) : Moves Edit (cmdSet (σ := σ) args) :=
  edits_cmdSet edits_edit args

lemma edits_cmdBreak (c : Edits R) (target : Str) : Moves R (cmdBreak (σ := σ) target) := by
  refine Moves.get_bind' fun w => ?_
  split
  · exact Moves.pure _
  · exact moves_of_step fun w => c.add w _

lemma edit_cmdBreak (target : Str) : Moves Edit (cmdBreak (σ := σ) target) :=
  edits_cmdBreak edits_edit target

lemma edits_deleteBreakpoints (c : Edits R) : ∀ is : List ℕ,
    Moves R (deleteBreakpoints (σ := σ) is)
  | [] => Moves.pure _
  | i :: is => Moves.bind (c.delete i) fun _ =>
      Moves.ite (Moves.pure _) (edits_deleteBreakpoints c is)

lemma edits_cmdDel (c : Edits R) (args : Option Str) : Moves R (cmdDel (σ := σ) args) := by
  refine Moves.get_bind' fun w => Moves.ite (Moves.pure _) ?_
  split
  · exact Moves.pure _
  · exact edits_deleteBreakpoints c _

lemma edit_cmdDel (args : Option Str) : Moves Edit (cmdDel (σ := σ) args) :=
  edits_cmdDel edits_edit args

lemma still_deleteWatchpoints : ∀ is : List ℕ,
    Moves Still (deleteWatchpoints (σ := σ) is)
  | [] => Moves.pure _
  | _ :: is => Moves.bind (still_deleteWatchpointAt _) fun _ =>
      Moves.ite (Moves.pure _) (still_deleteWatchpoints is)

lemma still_cmdDelwatch (args : Option Str) : Moves Still (cmdDelwatch (σ := σ) args) := by
  refine Moves.get_bind' fun w => Moves.ite (Moves.pure _) ?_
  split
  · exact Moves.pure _
  · exact still_deleteWatchpoints _

/-- Refreshing the registers leaves the watchpoints alone. -/
lemma refreshRegs_watchpoints (w : World σ) :
    (refreshRegs w).final.dbg.watchpoints = w.dbg.watchpoints := by
  rcases refreshRegs_cases w with ⟨_, h⟩ | ⟨t, _, h⟩ <;> rw [h]
  rfl

lemma still_cmdWatch (expr : Option Str) (kind : WatchKind) :
    Moves Still (cmdWatch (σ := σ) expr kind) := by
  cases expr with
  | none => exact Moves.pure _
  | some expr =>
      refine Moves.ite (Moves.pure _) <| Moves.get_bind fun w => MovesFrom.ite
        (MovesFrom.pure _ _) <| MovesFrom.ite (MovesFrom.pure _ _) <|
        MovesFrom.bind (still_refreshRegs w) fun _ _ => MovesFrom.ite (MovesFrom.pure _ _) ?_
      split
      · exact MovesFrom.pure _ _
      next hc =>
      split
      · exact MovesFrom.pure _ _
      next slot hslot =>
      -- the table is still the one in which the slot was found
      rw [← refreshRegs_watchpoints w] at hc hslot
      refine MovesFrom.get_bind ?_
      split
      · exact MovesFrom.pure _ _
      next lv wholeStruct _ =>
      refine MovesFrom.ite (MovesFrom.pure _ _) <| MovesFrom.ite (MovesFrom.pure _ _) ?_
      have hadd (wp : Watchpoint) (hs : wp.slot = slot) :
          MovesFrom Still (refreshRegs w).final (addWatchpoint wp) := by
        obtain ⟨hq, ht⟩ := quiet_addWatchpoint wp (refreshRegs w).final
        exact MovesFrom.single ⟨hq, .watch wp (hs ▸ hslot) (not_le.mp hc), by simp [ht]⟩
      exact hadd _ rfl

lemma edits_cmdThread (c : Edits R) (arg : Str) : Moves R (cmdThread (σ := σ) arg) := by
  refine Moves.get_bind fun w => MovesFrom.ite (MovesFrom.pure _ _) ?_
  split
  · exact MovesFrom.pure _ _
  · split
    · exact MovesFrom.pure _ _
    · next t ht =>
      refine MovesFrom.bind (MovesFrom.single (c.select w t (List.mem_of_getElem? ht)))
        fun _ _ => ?_
      refine (c.of_still ?_).from _
      exact Moves.bind still_refreshRegs fun _ => Moves.ite (Moves.pure _) <|
        Moves.get_bind' fun _ => Moves.bind (still_printStopLocation _) fun _ => Moves.pure _

lemma edit_cmdThread (arg : Str) : Moves Edit (cmdThread (σ := σ) arg) :=
  edits_cmdThread edits_edit arg

lemma still_cmdShow (args : Option Str) : Moves Still (cmdShow (σ := σ) args) := by
  cases args with
  | none => exact Moves.pure _
  | some args =>
      exact Moves.ite (Moves.pure _) <| Moves.get_bind' fun _ => Moves.ite (Moves.pure _) <|
        Moves.ite (Moves.ite (Moves.pure _) <|
          Moves.bind still_refreshRegs fun _ => Moves.pure _) (Moves.pure _)

lemma still_cmdList (target : Option Str) : Moves Still (cmdList (σ := σ) target) :=
  Moves.ite (Moves.bind still_refreshRegs fun _ => Moves.pure _) (Moves.pure _)

lemma still_cmdBacktrace : Moves Still (cmdBacktrace (σ := σ)) :=
  Moves.bind still_refreshRegs fun _ => Moves.pure _

lemma full_cmdRun (g : FullKit host R) (args : Option Str) : Moves R (cmdRun host args) := by
  rw [cmdRun]
  split
  · exact full_cdbgRun g _
  · refine Moves.ite (Moves.pure _) ?_
    split
    · exact Moves.pure _
    · exact full_cdbgRun g _

lemma kit_cmdKill (c : Kit host R) : Moves R (cmdKill host) :=
  Moves.get_bind' fun _ => Moves.ite (Moves.pure _) <|
    Moves.bind (moves_of_step c.kill) fun _ => Moves.pure _

/-! ### `cdbg_repl` -/

lemma kit_waitAndReport (c : Kit host R) : Moves R (waitAndReport host) :=
  Moves.bind (c.of_drive drive_cdbgWait) fun _ => Moves.ite
    (Moves.get_bind' fun _ => Moves.ite
      (Moves.bind (moves_of_step c.exit) fun _ => Moves.pure _) (Moves.pure _)) <|
    Moves.get_bind' fun _ => Moves.ite
      (Moves.bind (kit_reportStop c) fun _ => Moves.pure _)
      (Moves.bind (moves_of_step c.exit) fun _ => Moves.pure _)

lemma full_execContinue (g : FullKit host R) : Moves R (execContinue host) :=
  Moves.get_bind' fun _ => Moves.ite (Moves.pure _) <|
    Moves.bind g.cont fun _ => Moves.ite (Moves.pure _) <|
      Moves.get_bind' fun _ => Moves.ite
        (Moves.bind (moves_of_step g.exit) fun _ => Moves.pure _)
        (kit_waitAndReport g.toKit)

lemma full_execStep (g : FullKit host R) {stepLine : Debugger σ ℤ} (h : Moves R stepLine) :
    Moves R (execStep stepLine) :=
  Moves.get_bind' fun _ => Moves.ite (Moves.pure _) <| Moves.bind h fun _ =>
    Moves.get_bind' fun _ => Moves.ite (Moves.pure _) <|
      Moves.bind (moves_of_step g.exit) fun _ => Moves.pure _

lemma kit_execSi (c : Kit host R) : Moves R (execSi host) :=
  Moves.get_bind' fun _ => Moves.ite (Moves.pure _) <|
    Moves.bind (c.of_drive drive_cdbgSingleStep) fun _ =>
      Moves.ite (Moves.pure _) (kit_waitAndReport c)

lemma still_execRegs : Moves Still (execRegs (σ := σ)) :=
  Moves.bind still_refreshRegs fun _ => Moves.ite (Moves.pure _) (Moves.pure _)

lemma kit_execQuit (c : Kit host R) : Moves R (execQuit host) :=
  Moves.bind (moves_of_step c.kill) fun _ =>
    Moves.bind (c.of_still <|
        still_modifyDbg (fun _ => rfl) (fun _ => rfl) (fun _ => rfl) (fun _ => rfl) fun _ => rfl)
      fun _ => Moves.pure _

lemma moves_ignoring {α : Type} {m : Debugger σ α} (h : Moves R m) :
    Moves R (ignoring m) := Moves.bind h fun _ => Moves.pure _

lemma full_execCommand (g : FullKit host R) (cmd : Command) :
    Moves R (execCommand host cmd) := by
  cases cmd with
  | run arg => exact moves_ignoring (full_cmdRun g arg)
  | continue_ => exact full_execContinue g
  | step => exact full_execStep g (kit_stepNextLine g.toKit)
  | si => exact kit_execSi g.toKit
  | next => exact full_execStep g (full_nextSourceLine g)
  | up => exact moves_ignoring (g.of_still still_frameUp)
  | regs => exact g.of_still still_execRegs
  | print fmt arg => exact moves_ignoring (g.of_still (still_cmdPrint _))
  | set arg => exact moves_ignoring (edits_cmdSet g.toEdits arg)
  | show_ arg => exact moves_ignoring (g.of_still (still_cmdShow arg))
  | tb => exact moves_ignoring (g.of_still still_cmdBacktrace)
  | break_ arg =>
      cases arg with
      | none => exact Moves.pure _
      | some target => exact moves_ignoring (edits_cmdBreak g.toEdits target)
  | del arg => exact moves_ignoring (edits_cmdDel g.toEdits arg)
  | watch kind arg => exact moves_ignoring (g.of_still (still_cmdWatch arg kind))
  | delwatch arg => exact moves_ignoring (g.of_still (still_cmdDelwatch arg))
  | list arg => exact moves_ignoring (g.of_still (still_cmdList arg))
  | thread arg =>
      cases arg with
      | none => exact Moves.pure _
      | some arg => exact moves_ignoring (edits_cmdThread g.toEdits arg)
  | kill => exact moves_ignoring (kit_cmdKill g.toKit)
  | quit => exact kit_execQuit g.toKit
  | empty | help | leaks | dis | lines | lists | syms | x | unknown => exact Moves.pure _

lemma turn_of_op {α : Type} {m : Debugger σ α}
    (h : Moves R m) : Moves (Turn R) m := h.mono fun _ _ _ => Turn.op

lemma full_replLoop (g : FullKit host R) : ∀ input : List Str,
    Moves (Turn R) (replLoop host input)
  | [] => Moves.pure _
  | line :: lines => by
      refine Moves.bind (moves_of_step fun w => Turn.read w _) fun _ =>
        Moves.bind (turn_of_op (full_execCommand g _)) fun r => ?_
      cases r with
      | some rc => exact Moves.pure _
      | none => exact full_replLoop g lines

/-- **Sessions are chains of steps**: whatever the debugger does from its start to its
end, it does by the steps of any full kit and by reading commands. -/
theorem full_cdbgMain (g : FullKit host R) (argv input : List Str) :
    Moves (Turn R) (cdbgMain host argv input) := by
  cases argv with
  | nil => exact Moves.pure _
  | cons program args =>
      rw [cdbgMain]
      split
      · exact Moves.pure _
      · exact Moves.ite (Moves.pure _) <|
          Moves.bind (turn_of_op (g.of_still (still_setRunTarget _))) fun _ =>
            Moves.ite (Moves.pure _) <|
          Moves.bind (turn_of_op (full_cdbgRun g none)) fun _ => Moves.ite (Moves.pure _) <|
          Moves.bind (full_replLoop g _) fun _ => Moves.ite (Moves.pure _) (Moves.pure _)

/-! ### Grains -/

lemma grain_cdbgRun (g : Grain host R) (argv : Option (List Str)) :
    Moves R (cdbgRun host argv) := full_cdbgRun g.kit argv

lemma grain_execCommand (g : Grain host R) (cmd : Command) : Moves R (execCommand host cmd) :=
  full_execCommand g.kit cmd

theorem grain_cdbgMain (g : Grain host R) (argv input : List Str) :
    Moves (Turn R) (cdbgMain host argv input) := full_cdbgMain g.kit argv input

/-- Parts make a grain. -/
lemma Parts.grain (q : Parts host R) : Grain host R where
  toCore := q.toCore
  cont := haul_cdbgContinue q.toHaul
  overCall := parts_stepOverCall q
  entryStop := haul_runToEntryStop q.toHaul

/-- The finest grain has all parts. -/
lemma Fine.parts (host : Host σ) : Parts host (Fine host) where
  prim _ _ _ := Fine.prim
  stepPast := moves_stepPastHit (fun _ _ _ => Fine.prim) (fun _ _ _ => Fine.rig)
    fun w _ => Fine.sight w
  drive _ _ _ h := Fine.prim h.prim
  plant := Fine.plant
  lift := Fine.lift
  resume := Fine.resume

/-- The finest grain. -/
lemma Fine.grain (host : Host σ) : Grain host (Fine host) := (Fine.parts host).grain

/-- The grain at which the functions that continue the debuggee are single steps. -/
lemma Act.grain (host : Host σ) : Grain host (Act host) where
  prim _ _ _ := Act.prim
  stepPast := moves_stepPastHit (fun _ _ _ => Act.prim) (fun _ _ _ => Act.rig)
    fun w _ => Act.sight w
  cont := Moves.of_landing Act.cont
  overCall a := Moves.of_landing fun w => Act.overCall w a
  entryStop := Moves.of_landing Act.entryStop

end Cdbg
