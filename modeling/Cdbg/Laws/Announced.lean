import Cdbg.Laws.Interrupt

/-!
What `step` and `next` do after `report_stop` has announced a stop.

A report on the way to a temporary breakpoint leads back into the loop of `next`:
`finish_temp_breakpoint` returns the code of a call that has returned. The loop looks at the
registers again and goes on unless the selected thread is at an enabled breakpoint or at a line
other than that of the start. `Event.finished` says that it is, each time that the debugger
looks at the registers for the first time after a report; the announced stop is then the end
of the command (`announced_stop_ends`).
-/

namespace Cdbg

open Prog

variable {σ α : Type} {host : Host σ}

/-! ### What the events tell -/

/-- What is gathered from the events of a stepping command. -/
structure Notice where
  /-- `report_stop` has announced a stop -/
  announced : Bool
  /-- the program counters of the threads at the last announcement -/
  place : Option (List Addr)
  /-- the registers have not been read since -/
  unseen : Bool

/-- Before a command does anything. -/
def Notice.start : Notice := ⟨false, none, false⟩

/-- A stop has just been announced. -/
def Notice.at (w : World σ) : Notice := ⟨true, w.pcs, true⟩

/-- What an event adds. After a report that has found the debuggee gone there is no stop. -/
def Notice.note (c : Notice) (e : Event σ) : Notice :=
  match e.kind with
  | .reported => if e.world.dbg.state = .stopped then .at e.world else c
  | .refreshRegs => { c with unseen := false }
  | _ => c

/-- The selected thread is where a stepping loop stops that has started from this line: at an
enabled breakpoint, at which `report_stop` finds a thread, or without a watchpoint exception at
another line. -/
def World.Finishes (start : Option (Str × BitVec 32)) (w : World σ) : Prop :=
  ∀ l ∈ start, ∀ pc ∈ w.selectedPc,
    if bpIsTrap pc w.dbg.breakpoints = true then w.findBreakpointHitThread ≠ 0
    else w.watchException = none ∧ ∃ line ∈ w.dbg.lineno.lineAtPc pc, line ≠ l

instance instDecidableFinishes (start : Option (Str × BitVec 32)) (w : World σ) :
    Decidable (w.Finishes start) :=
  have (l : Str × BitVec 32) : Decidable (∀ pc ∈ w.selectedPc,
      if bpIsTrap pc w.dbg.breakpoints = true then w.findBreakpointHitThread ≠ 0
      else w.watchException = none ∧ ∃ line ∈ w.dbg.lineno.lineAtPc pc, line ≠ l) :=
    @Option.decidableForallMem _ _ (fun pc =>
      have : Decidable (∃ line ∈ w.dbg.lineno.lineAtPc pc, line ≠ l) :=
        Option.decidableExistsMem _
      inferInstance) w.selectedPc
  Option.decidableForallMem start

namespace Event

/-- The demand of an event: where the registers are read for the first time after an
announcement, the loop is at an end. -/
def finished (start : Option (Str × BitVec 32)) (c : Notice) (e : Event σ) : Prop :=
  e.kind.isRefresh = true → c.unseen = true → e.world.Finishes start

/-- After an announcement the debuggee is not resumed. -/
def rests (c : Notice) (e : Event σ) : Prop := e.resumes = true → c.announced = false

instance instDecidableFinished (start : Option (Str × BitVec 32)) (c : Notice) (e : Event σ) :
    Decidable (e.finished start c) := inferInstanceAs (Decidable (_ → _ → _))

instance instDecidableRests (c : Notice) (e : Event σ) : Decidable (e.rests c) :=
  inferInstanceAs (Decidable (_ → _))

end Event

/-- The last stop that `report_stop` announces is the end: the debuggee is not resumed after it,
and the command returns with the debuggee stopped at its place. -/
def EndsAtAnnounced (m : Debugger σ (Option ℤ)) (w : World σ) : Prop :=
  Along Notice.note (fun c e => e.rests c) .start (m w).trace ∧
    (((m w).trace.foldl Notice.note .start).announced = true →
      (m w).value.isSome ∧ (m w).final.dbg.state = .stopped ∧
        (m w).final.pcs = ((m w).trace.foldl Notice.note .start).place)

/-- A step of the program of a command, from what has been gathered and a world on. -/
abbrev Notes (start : Option (Str × BitVec 32)) (c : Notice) (w : World σ) (m : Debugger σ α)
    (Q : α → Notice → World σ → Prop) : Prop :=
  Track Notice.note (Event.finished start) (fun c e => e.rests c) (fun c => c.announced = false)
    c w m Q

/-! ### Calls without a report -/

/-- Steps without a report. -/
def Silent : Step (Event σ) (World σ) := fun _ t _ => ∀ e ∈ t, e.kind ≠ .reported

/-- Without a report nothing is gathered, once the registers have been read. -/
lemma notice_foldl {t : List (Event σ)} {c : Notice} (hc : c.unseen = false)
    (ht : ∀ e ∈ t, e.kind ≠ .reported) : t.foldl Notice.note c = c := by
  induction t with
  | nil => rfl
  | cons e t ih =>
      have hnote : c.note e = c := by
        have hne := ht e List.mem_cons_self
        obtain ⟨k, w⟩ := e
        cases k with
        | reported => exact absurd rfl hne
        | refreshRegs =>
            obtain ⟨a, p, u⟩ := c
            obtain rfl : u = false := hc
            rfl
        | _ => rfl
      rw [List.foldl_cons, hnote]
      exact ih fun e' he' => ht e' (List.mem_cons_of_mem _ he')

section Notes

variable {start : Option (Str × BitVec 32)} {c : Notice} {w : World σ}

/-- Before an announcement the debuggee may be resumed. -/
lemma notes_other {m : Debugger σ α} (hm : Moves Silent m) :
    Notes start .start w m fun _ c' _ => c' = .start := by
  have hevents := hm.events (fun _ _ _ h => h) w
  have hal : ∀ t : List (Event σ), (∀ e ∈ t, e.kind ≠ .reported) →
      Along Notice.note (fun c e => e.rests c) .start t := by
    intro t ht
    induction t with
    | nil => trivial
    | cons e t ih =>
        have hnote : Notice.start.note e = .start :=
          notice_foldl (t := [e]) rfl fun e' he' => ht e' (by simp_all)
        refine ⟨fun _ => rfl, ?_⟩
        rw [hnote]
        exact ih fun e' he' => ht e' (List.mem_cons_of_mem _ he')
  refine fun _ => ⟨hal _ hevents, fun _ => ?_, fun _ _ => ?_⟩
  · rw [notice_foldl rfl hevents]
    rfl
  · exact notice_foldl rfl hevents

/-- After an announcement it must not be. -/
lemma notes_still {m : Debugger σ α} {a : α} {w' : World σ} {t : List (Event σ)}
    (h : m w = ⟨some a, w', t⟩) (hc : c.unseen = false)
    (ht : ∀ e ∈ t, e.kind ≠ .reported ∧ e.resumes = false) :
    Notes start c w m fun b c' w'' => b = a ∧ c' = c ∧ w'' = w' := by
  have hal : ∀ (t : List (Event σ)) (c : Notice), (∀ e ∈ t, e.resumes = false) →
      Along Notice.note (fun c e => e.rests c) c t := by
    intro t
    induction t with
    | nil => exact fun _ _ => trivial
    | cons e t ih =>
        intro c ht
        refine ⟨fun hr => ?_, ih _ fun e' he' => ht e' (List.mem_cons_of_mem _ he')⟩
        rw [ht e List.mem_cons_self] at hr
        cases hr
  exact Track.of_eq h fun _ => ⟨hal t c fun e he => (ht e he).2, rfl,
    notice_foldl hc fun e he => (ht e he).1, rfl⟩

end Notes

section Silent

lemma silent_emit {k : EventKind} (h : k ≠ .reported) : Moves Silent (emit (σ := σ) k) :=
  moves_of_step fun w e he => by
    obtain rfl := List.mem_singleton.mp he
    exact h

lemma silent_refreshRegs : Moves Silent (refreshRegs (σ := σ)) :=
  moves_of_step fun w => by
    rcases refreshRegs_cases w with ⟨_, h⟩ | ⟨_, _, h⟩ <;> simp [h, Silent]

lemma silent_enableEntry {w : World σ} {i : ℕ} {bp : Breakpoint}
    (hi : w.dbg.breakpoints.entry i = some bp) :
    Silent w (enableEntry i bp w).trace (enableEntry i bp w).final := by
  rcases enableEntry_cases hi with ⟨_, h⟩ | ⟨_, _, _, h⟩ <;> simp [h, Silent]

lemma silent_bpDisable (bp : Breakpoint) (w : World σ) :
    Silent w (bpDisable bp w.dbg.pid w).trace (bpDisable bp w.dbg.pid w).final := by
  rcases bpDisable_cases bp w.dbg.pid w with ⟨_, h⟩ | ⟨_, _, _, _, h⟩ | ⟨_, _, h⟩ |
    ⟨_, _, _, _, h⟩ <;> simp [h, Silent]

lemma silent_dropTemp (temp : Breakpoint) : Moves Silent (dropTemp (σ := σ) temp) :=
  Moves.get_bind fun w => MovesFrom.bind (MovesFrom.single (silent_bpDisable temp w)) fun _ _ =>
    MovesFrom.pure _ _

lemma silent_cdbgSingleStep : Moves Silent (cdbgSingleStep (σ := σ)) :=
  moves_of_step fun w => by
    rcases cdbgSingleStep_cases w with ⟨h, _⟩ | ⟨_, _, _, h⟩ <;> simp [h, Silent]

lemma silent_cdbgWait : Moves Silent (cdbgWait host) := by
  refine moves_cdbgWait silent_refreshRegs (fun w i bp hi => silent_enableEntry hi) ?_
  refine moves_of_step fun w => ?_
  rcases waitForStop_cases host w with ⟨_, h⟩ | ⟨_, h⟩ | ⟨_, _, _, _, _, _, _, h⟩ <;>
    simp [h, Silent]

lemma silent_stepOverDisabledBreakpoint : Moves Silent (stepOverDisabledBreakpoint host) :=
  Moves.get_bind' fun _ => Moves.ite (Moves.pure _) <| Moves.bind silent_refreshRegs fun _ =>
    Moves.ite (Moves.pure _) <| Moves.bind (silent_emit (by simp)) fun _ =>
      Moves.get_bind' fun _ => Moves.ite (Moves.pure _) <| Moves.bind silent_cdbgSingleStep fun _ =>
        Moves.ite (Moves.pure _) silent_cdbgWait

lemma silent_cdbgContinue : Moves Silent (cdbgContinue host) :=
  Moves.bind silent_stepOverDisabledBreakpoint fun _ => Moves.ite (Moves.pure _) <|
    Moves.get_bind' fun _ => Moves.ite (Moves.pure _) <| moves_of_step fun w => by
      rcases thawAndContinue_cases w with ⟨_, h⟩ | ⟨_, _, ⟨_, h⟩ | ⟨_, h⟩⟩ <;> simp [h, Silent]

lemma silent_storeRegs : Moves Silent (storeRegs (σ := σ)) :=
  moves_of_step fun w => by
    cases h : w.resolvePort w.dbg.pid w.dbg.currentTid <;>
      simp [storeRegs, regsSet, h, updateThread, modifyProc, Silent]

lemma silent_selectHitThread : Moves Silent (selectHitThread (σ := σ)) :=
  moves_of_step fun w => by
    by_cases h : w.hitTid = 0 <;> simp [selectHitThread, h, modifyDbg, Silent]

lemma silent_handleBreakpointHit (i : ℕ) (bp : Breakpoint) :
    Moves Silent (handleBreakpointHit (σ := σ) i bp) := by
  have hdisable : Moves Silent (disableEntry (σ := σ) i bp) :=
    Moves.get_bind fun w => MovesFrom.bind (MovesFrom.single (silent_bpDisable bp w))
      fun _ _ => (Moves.bind (moves_of_step fun _ => by simp [Silent]) fun _ => Moves.pure _).from _
  refine Moves.bind hdisable fun _ => Moves.ite (Moves.pure _) <| Moves.bind silent_refreshRegs
    fun _ => Moves.ite (Moves.pure _) <| Moves.ite ?_ ?_
  · refine Moves.bind (moves_of_step fun _ => by simp [modifyDbg, Silent]) fun _ =>
      Moves.bind silent_storeRegs fun _ => Moves.ite (Moves.pure _) ?_
    exact Moves.bind (silent_emit (by simp)) fun _ => Moves.bind (silent_emit (by simp)) fun _ =>
      Moves.pure _
  · exact Moves.bind (silent_emit (by simp)) fun _ => Moves.bind (silent_emit (by simp)) fun _ =>
      Moves.pure _

lemma silent_stepPastAllWatchpoints : Moves Silent (stepPastAllWatchpoints host) := by
  refine moves_stepPastAllWatchpoints (fun w t w' h e he => ?_) silent_cdbgSingleStep
    silent_cdbgWait
  rw [h.quiet.2] at he
  cases he

lemma silent_reportProcessExit : Moves Silent (reportProcessExit (σ := σ)) :=
  moves_of_step fun w => by
    rcases reportProcessExit_cases w with ⟨_, h⟩ | ⟨_, h⟩ <;> simp [h, Silent]

lemma silent_recordValue (i : ℕ) : Moves Silent (recordValue (σ := σ) i) :=
  moves_of_step fun w e he => by
    obtain ⟨t, ht, h | ⟨_, _, _, _, h⟩⟩ := recordValue_cases i w
    all_goals
      rw [h] at he
      obtain ⟨a, n, rfl⟩ := ht e he
      simp

/-- What both handlers of a watchpoint hit do first. -/
lemma silent_afterHit {k : EventKind} (hk : k ≠ .reported) {rest : World σ → Debugger σ ℤ}
    (hrest : ∀ w, Moves Silent (rest w)) : Moves Silent (do
      emit k
      if (← stepPastAllWatchpoints host) ≠ 0 then
        return -1
      let w ← Prog.get
      if w.dbg.state ≠ .stopped then
        reportProcessExit
        return 0
      rest w) :=
  Moves.bind (silent_emit hk) fun _ => Moves.bind silent_stepPastAllWatchpoints fun _ =>
    Moves.ite (Moves.pure _) <| Moves.get_bind' fun w => Moves.ite
      (Moves.bind silent_reportProcessExit fun _ => Moves.pure _) (hrest w)

lemma silent_tryReportWatchpointHit : Moves Silent (tryReportWatchpointHit host) := by
  refine Moves.get_bind' fun w => ?_
  split
  next => exact Moves.pure _
  next far isWrite _ =>
  split
  next i _ =>
    exact Moves.bind (silent_afterHit (by simp) fun _ => Moves.bind (silent_recordValue i)
      fun _ => Moves.get_bind' fun _ => Moves.bind (silent_emit (by simp)) fun _ =>
        Moves.pure _) fun _ => Moves.pure _
  next =>
    exact Moves.bind (silent_afterHit (by simp) fun _ => Moves.bind (silent_emit (by simp))
      fun _ => Moves.pure _) fun _ => Moves.pure _

lemma silent_announceStop : Moves Silent (announceStop host) := by
  refine Moves.bind silent_selectHitThread fun _ => Moves.get_bind' fun w =>
    Moves.bind (moves_of_step fun v => ?_) fun _ => Moves.bind silent_refreshRegs fun _ =>
      Moves.ite (Moves.pure _) <| Moves.bind (silent_emit (by simp)) fun _ =>
        Moves.get_bind' fun w => ?_
  · rcases threadsSuspendOthers_cases w.dbg.pid w.dbg.currentTid v with h | ⟨_, _, h⟩ <;>
      simp [h, Silent]
  · dsimp only
    split
    · split
      · exact silent_handleBreakpointHit _ _
      · exact Moves.pure _
    · exact Moves.bind silent_tryReportWatchpointHit fun _ => Moves.ite (Moves.pure _) <|
        Moves.bind (silent_emit (by simp)) fun _ => Moves.bind (silent_emit (by simp)) fun _ =>
          Moves.pure _

end Silent

/-! ### A report -/

/-- No stop has been announced, or the debuggee is at one that has been just now. -/
def Landed (c : Notice) (w : World σ) : Prop := c = .start ∨ w.dbg.state = .stopped ∧ c = .at w

/-- The debuggee is where a stop was announced last. -/
def AtLast (c : Notice) (w : World σ) : Prop := w.dbg.state = .stopped ∧ w.pcs = c.place

/-- What ends a command. -/
def Finished (c : Notice) (w : World σ) : Prop := c = .start ∨ AtLast c w

lemma Landed.finished {c : Notice} {w : World σ} (h : Landed c w) : Finished c w :=
  h.imp_right fun hh => ⟨hh.1, by rw [hh.2]; rfl⟩

/-- The thread that `report_stop` selects is at an enabled breakpoint, if one is. -/
lemma selectHitThread_trap {w : World σ} (h : w.findBreakpointHitThread ≠ 0) :
    selectHitThread w = ⟨some (), w.setDbg { w.dbg with currentTid := w.hitTid }, []⟩ ∧
      ∃ pc, (w.setDbg { w.dbg with currentTid := w.hitTid }).selectedPc = some pc ∧
        bpIsTrap pc w.dbg.breakpoints = true := by
  have hhit : w.hitTid = w.findBreakpointHitThread := if_neg h
  refine ⟨by simp only [selectHitThread, Prog.get_bind, hhit, h, if_false]; rfl, ?_⟩
  rw [hhit]
  cases hp : w.taskForPid w.dbg.pid with
  | none => simp [World.findBreakpointHitThread, World.listed, hp] at h
  | some p =>
  rw [World.findBreakpointHitThread] at h ⊢
  split at h
  · exact absurd rfl h
  next t ht =>
  have hmem : t ∈ p.threads.list := by
    have hlisted := List.mem_of_find?_eq_some ht
    rw [World.listed, hp] at hlisted
    exact List.mem_of_mem_take hlisted
  obtain ⟨u, hu, htid, humem, _⟩ := Threads.resolve_of_mem (List.mem_map_of_mem hmem)
  obtain rfl : u = t := Threads.eq_of_tid humem hmem htid
  have htrap := List.find?_some ht
  refine ⟨u.regs.pc, ?_, htrap⟩
  simp only [World.selectedPc, World.resolvePort, World.setDbg_dbg, World.taskForPid_setDbg, hp,
    Option.bind_some, hu, Option.map_some]

/-- Freezing the other threads moves none. -/
lemma World.level_frozen {w : World σ} {p : Proc} {pid : ℕ} (hp : w.taskForPid pid = some p)
    (keep : Tid) : w.Level (w.setProc (p.frozen keep)) := by
  have hproc := (taskForPid_eq_some.mp hp).1
  have htask : (w.setProc (p.frozen keep)).taskForPid w.dbg.pid
      = (w.taskForPid w.dbg.pid).map fun p => p.frozen keep := by
    rw [taskForPid, taskForPid, hproc, setProc_proc]
    by_cases h : p.pid = w.dbg.pid <;> simp [Option.filter, Proc.frozen, h]
  refine ⟨⟨?_, rfl⟩, ?_, rfl, rfl, ?_⟩
  · simp only [pcs, setProc_proc, hproc, Option.map_some]
    exact congrArg some (by simp [Proc.pcs, Proc.frozen, Threads.suspendOthers])
  · simp only [selectedPc, resolvePort, setProc_dbg, htask]
    cases w.taskForPid w.dbg.pid with
    | none => rfl
    | some q =>
        simp only [Option.map_some, Option.bind_some, Proc.frozen, Threads.suspendOthers,
          Threads.resolve_map, Option.map_map]
        rfl
  · rw [setProc_dbg, htask, Option.isSome_map]

section Report

variable {start : Option (Str × BitVec 32)} {c : Notice} {w : World σ}

/-- The first report of a command. -/
lemma notes_reportStop : Notes start .start w (reportStop host) fun _ c' w' => Landed c' w' := by
  refine (notes_other silent_announceStop).bind ?_
  rintro rc _ w' rfl
  refine Track.bind (Q := fun _ c' w' => Landed c' w')
    (Track.emit fun _ => ⟨fun _ => rfl, ?_⟩) fun _ _ _ h => Track.pure _ h
  by_cases hs : w'.dbg.state = .stopped
  · exact .inr ⟨hs, if_pos hs⟩
  · exact .inl (if_neg hs)

lemma notes_refreshRegs (hc : c.unseen = false) :
    Notes start c w refreshRegs fun rc c' w' => c' = c ∧
      ∃ regs : Regs, w' = w.setDbg { w.dbg with regs := regs } ∧
        (rc = 0 → w.selectedPc = some regs.pc) := by
  have hquiet : ∀ e ∈ [Event.mk .refreshRegs w], e.kind ≠ .reported ∧ e.resumes = false := by
    simp [Event.resumes, EventKind.isStep, EventKind.isContinue]
  rcases refreshRegs_cases w with ⟨_, h⟩ | ⟨t, ht, h⟩
  · refine (notes_still h hc hquiet).post ?_
    rintro _ _ w ⟨rfl, rfl, rfl⟩
    exact ⟨rfl, w.dbg.regs, rfl, fun h0 => absurd h0 (by norm_num)⟩
  · refine (notes_still h hc hquiet).post ?_
    rintro _ _ _ ⟨rfl, rfl, rfl⟩
    exact ⟨rfl, t.regs, rfl, fun _ => by rw [World.selectedPc, ht]; rfl⟩

lemma notes_emit {k : EventKind} (hc : c.unseen = false) (hk : k.calm = true) :
    Notes start c w (emit k) fun _ c' w' => c' = c ∧ w' = w := by
  refine (notes_still (t := [⟨k, w⟩]) rfl hc ?_).post fun _ _ _ h => h.2
  simp only [List.mem_singleton, forall_eq]
  refine ⟨?_, Event.resumes_of_calm hk⟩
  rintro rfl
  cases hk

lemma notes_disableEntry {i : ℕ} {bp : Breakpoint} (hc : c.unseen = false)
    (hbp : w.dbg.breakpoints.entry i = some bp) :
    Notes start c w (disableEntry i bp) fun _ c' w' => c' = c ∧ w.Level w' := by
  rcases disableEntry_cases hbp with ⟨_, h⟩ | ⟨_, p, hp, _, h⟩ | ⟨_, _, h⟩ | ⟨_, p, hp, _, h⟩
  · refine (notes_still h hc (by simp)).post ?_
    rintro _ _ _ ⟨_, rfl, rfl⟩
    exact ⟨rfl, .refl _⟩
  · refine (notes_still h hc (by simp)).post ?_
    rintro _ _ _ ⟨_, rfl, rfl⟩
    exact ⟨rfl, World.level_of_mem hp _ rfl rfl rfl rfl rfl⟩
  · refine (notes_still h hc (by simp [Event.resumes, EventKind.isStep,
      EventKind.isContinue])).post ?_
    rintro _ _ _ ⟨_, rfl, rfl⟩
    exact ⟨rfl, .refl _⟩
  · refine (notes_still h hc (by simp [Event.resumes, EventKind.isStep,
      EventKind.isContinue])).post ?_
    rintro _ _ _ ⟨_, rfl, rfl⟩
    exact ⟨rfl, World.level_of_mem (d := w.dbg) hp _ rfl rfl rfl rfl rfl⟩

/-- The hit of a breakpoint at the selected thread moves no thread. -/
lemma notes_handleBreakpointHit {i : ℕ} {bp : Breakpoint} (hc : c.unseen = false)
    (hbp : w.dbg.breakpoints.entry i = some bp) (hpc : w.selectedPc = some bp.addr) :
    Notes start c w (handleBreakpointHit i bp) fun _ c' w' => c' = c ∧ w.Put w' := by
  refine Track.bind_rc (notes_disableEntry hc hbp) ?_ ?_
  · rintro rc _ w₁ _ ⟨rfl, hl⟩
    exact Track.pure _ ⟨rfl, hl.toPut⟩
  rintro c w₁ ⟨rfl, hl₁⟩
  refine Track.bind_rc (notes_refreshRegs hc) ?_ ?_
  · rintro rc _ _ _ ⟨rfl, regs, rfl, _⟩
    exact Track.pure _ ⟨rfl, hl₁.toPut.trans (w₁.level_setRegs regs).toPut⟩
  rintro c _ ⟨rfl, regs, rfl, _⟩
  have hsel : w₁.selectedPc = some bp.addr := hl₁.selected.trans hpc
  -- the announcement, wherever it is made
  have hend : ∀ w₃ : World σ, w₁.Put w₃ →
      Notes start c w₃ (do emit (.breakpointHit bp.addr)
                           printStopLocation bp.addr
                           return (0 : ℤ)) fun _ c' w' => c' = c ∧ w.Put w' := by
    intro w₃ hput
    refine (notes_emit hc rfl).bind ?_
    rintro _ _ _ ⟨rfl, rfl⟩
    refine (notes_emit hc rfl).bind ?_
    rintro _ _ _ ⟨rfl, rfl⟩
    exact Track.pure 0 ⟨rfl, hl₁.toPut.trans hput⟩
  split
  next =>
    refine Track.bind (Q := fun _ c' w' => c' = c ∧
      w' = w₁.setDbg { w₁.dbg with regs := regs.setPc bp.addr })
      (Track.of_eq rfl fun _ => ⟨trivial, rfl, rfl⟩) ?_
    rintro _ _ _ ⟨rfl, rfl⟩
    obtain ⟨w₃, hrun, hput⟩ := storeRegs_put
      (w := w₁.setDbg { w₁.dbg with regs := regs.setPc bp.addr }) hsel
    refine Track.bind_rc (notes_still hrun hc (by simp)) ?_ ?_
    · rintro rc _ _ hrc ⟨h0, _⟩
      exact absurd h0 hrc
    · rintro _ _ ⟨_, rfl, rfl⟩
      exact hend _ ((w₁.level_setRegs _).toPut.trans hput)
  next => exact hend _ (w₁.level_setRegs _).toPut

/-- Where `report_stop` finds a thread at an enabled breakpoint, it resumes nothing. -/
lemma notes_announceStop (hc : c.unseen = false) (hhit : w.findBreakpointHitThread ≠ 0) :
    Notes start c w (announceStop host) fun _ c' w' => c' = c ∧ w.Put w' := by
  obtain ⟨hrun, pc, hsel, htrap⟩ := selectHitThread_trap hhit
  have hput₁ : w.Put (w.setDbg { w.dbg with currentTid := w.hitTid }) := ⟨rfl, rfl⟩
  refine (notes_still hrun hc (by simp)).bind ?_
  rintro _ c w₁ ⟨_, rfl, rfl⟩
  refine Track.get_bind (Track.bind (Q := fun _ c' w' => c' = c ∧
    (w.setDbg { w.dbg with currentTid := w.hitTid }).Level w' ∧
      w'.dbg.breakpoints = w.dbg.breakpoints) ?_ ?_)
  · rcases threadsSuspendOthers_cases _ _ (w.setDbg { w.dbg with currentTid := w.hitTid }) with
      h | ⟨p, hp, h⟩
    · refine (notes_still h hc (by simp)).post ?_
      rintro _ _ _ ⟨_, rfl, rfl⟩
      exact ⟨rfl, .refl _, rfl⟩
    · refine (notes_still h hc (by simp [Event.resumes, EventKind.isStep,
        EventKind.isContinue])).post ?_
      rintro _ _ _ ⟨_, rfl, rfl⟩
      exact ⟨rfl, World.level_frozen hp _, rfl⟩
  rintro _ c w₂ ⟨rfl, hl₂, hbps⟩
  refine Track.bind_rc (notes_refreshRegs hc) ?_ ?_
  · rintro rc c _ _ ⟨rfl, regs, rfl, _⟩
    exact Track.pure _ ⟨rfl, hput₁.trans (hl₂.toPut.trans (w₂.level_setRegs regs).toPut)⟩
  rintro c _ ⟨rfl, regs, rfl, hregs⟩
  obtain rfl : pc = regs.pc := Option.some.inj ((hl₂.selected.trans hsel).symm.trans (hregs rfl))
  have hput₃ := hput₁.trans (hl₂.toPut.trans (w₂.level_setRegs regs).toPut)
  refine (notes_emit hc rfl).bind ?_
  rintro _ c _ ⟨rfl, rfl⟩
  refine Track.get_bind ?_
  obtain ⟨i, bp, hi, hbp, haddr⟩ := bpMatchIndex_of_trap (hbps ▸ htrap)
  simp only [World.setDbg_dbg, hi, hbp]
  have hsel₂ : w₂.selectedPc = some bp.addr := by
    rw [haddr]
    exact hregs rfl
  exact (notes_handleBreakpointHit (w := w₂.setDbg { w₂.dbg with regs := regs }) hc hbp
    hsel₂).post fun _ _ _ h => ⟨h.1, hput₃.trans h.2⟩

/-- A second report of the same stop. -/
lemma notes_reportStop_again (hc : c.unseen = false) (hhit : w.findBreakpointHitThread ≠ 0)
    (hlast : AtLast c w) :
    Notes start c w (reportStop host) fun _ c' w' => AtLast c' w' := by
  refine (notes_announceStop hc hhit).bind ?_
  rintro rc c w' ⟨rfl, hput⟩
  have hstate : w'.dbg.state = .stopped := hput.state.trans hlast.1
  have hnote : c.note ⟨.reported, w'⟩ = .at w' := if_pos hstate
  refine Track.bind (Q := fun _ c' w' => AtLast c' w')
    (Track.emit fun _ => ⟨fun hr => (by cases hr), hstate, ?_⟩) fun _ _ _ h => Track.pure _ h
  rw [hnote]
  rfl

end Report

/-! ### The loops -/

section Loops

variable {start : Option (Str × BitVec 32)} {c : Notice} {w : World σ}

/-- What the loop does after an announced stop: it ends. -/
lemma notes_checkLine_landed {file : Str} {line : BitVec 32} (hst : w.dbg.state = .stopped) :
    Notes (some (file, line)) (.at w) w (checkLine host file line) fun r c' w' =>
      AtLast c' w' ∧ r.isSome := by
  have hseen : (Notice.at w).note ⟨.refreshRegs, w⟩ = ⟨true, w.pcs, false⟩ := rfl
  refine Track.bind_rc (Q := fun rc c' w' => c' = ⟨true, w.pcs, false⟩ ∧
    w.Finishes (some (file, line)) ∧ ∃ regs : Regs, w' = w.setDbg { w.dbg with regs := regs } ∧
      (rc = 0 → w.selectedPc = some regs.pc)) ?_ ?_ ?_
  · rcases refreshRegs_cases w with ⟨_, h⟩ | ⟨t, ht, h⟩
    · exact Track.of_eq h fun hok => ⟨⟨fun hr => (by cases hr), trivial⟩, hseen,
        hok.1 rfl rfl, w.dbg.regs, rfl, fun h0 => absurd h0 (by norm_num)⟩
    · exact Track.of_eq h fun hok => ⟨⟨fun hr => (by cases hr), trivial⟩, hseen,
        hok.1 rfl rfl, t.regs, rfl, fun _ => by rw [World.selectedPc, ht]; rfl⟩
  · rintro rc _ _ _ ⟨rfl, _, regs, rfl, _⟩
    exact Track.pure _ ⟨⟨hst, rfl⟩, rfl⟩
  rintro _ _ ⟨rfl, hfin, regs, rfl, hregs⟩
  have hlast : AtLast ⟨true, w.pcs, false⟩ (w.setDbg { w.dbg with regs := regs }) := ⟨hst, rfl⟩
  -- the `step` may end here: at a breakpoint, or at another line without a watchpoint
  have hplace := hfin _ rfl regs.pc (hregs rfl)
  refine Track.get_bind ?_
  dsimp only
  split
  next htrap =>
    have hhit : (w.setDbg { w.dbg with regs := regs }).findBreakpointHitThread ≠ 0 := by
      rwa [if_pos (by exact htrap)] at hplace
    exact (notes_reportStop_again rfl hhit hlast).bind fun rc c₂ w₂ h₂ => Track.pure _ ⟨h₂, rfl⟩
  next htrap =>
  rw [if_neg (by exact htrap)] at hplace
  obtain ⟨hexc, l, hl, hne⟩ := hplace
  have hexc' : (w.setDbg { w.dbg with regs := regs }).watchException = none := hexc
  -- no watchpoint is announced, and the line is another one
  have htry : tryReportWatchpointHit host (w.setDbg { w.dbg with regs := regs })
      = ⟨some false, w.setDbg { w.dbg with regs := regs }, []⟩ := by
    simp only [tryReportWatchpointHit, Prog.get_bind, hexc']
    rfl
  refine (notes_still htry rfl (by simp)).bind ?_
  rintro _ _ _ ⟨rfl, rfl, rfl⟩
  rw [if_neg Bool.false_ne_true]
  refine Track.get_bind ?_
  have hat : w.dbg.lineno.lineAtPc regs.pc = some l := hl
  simp only [World.setDbg_dbg, hat]
  rw [if_pos]
  · refine (notes_emit rfl rfl).bind ?_
    rintro _ _ _ ⟨rfl, rfl⟩
    refine (notes_emit rfl rfl).bind ?_
    rintro _ _ _ ⟨rfl, rfl⟩
    refine (notes_emit rfl rfl).bind ?_
    rintro _ _ _ ⟨rfl, rfl⟩
    exact Track.pure _ ⟨hlast, rfl⟩
  · rw [← not_and_or]
    rintro ⟨h1, h2⟩
    exact hne (Prod.ext h1 h2)

/-- Before an announcement a round may go on, but not with one. -/
lemma notes_checkLine {file : Str} {line : BitVec 32} (h : Landed c w) :
    Notes (some (file, line)) c w (checkLine host file line) fun r c' w' =>
      Finished c' w' ∧ (r = none → c' = .start) := by
  rcases h with rfl | ⟨hst, rfl⟩
  · refine Track.bind_rc (notes_other silent_refreshRegs)
      (fun rc _ _ _ h => Track.pure _ ⟨.inl h, fun _ => h⟩) ?_
    rintro _ w₁ rfl
    refine Track.get_bind ?_
    dsimp only
    split
    next =>
      refine notes_reportStop.bind fun rc c₂ w₂ h₂ => Track.pure _ ⟨h₂.finished, fun hr => ?_⟩
      cases hr
    next =>
      refine (notes_other ?_).post fun _ _ _ h => ⟨.inl h, fun _ => h⟩
      refine Moves.bind silent_tryReportWatchpointHit fun _ => Moves.ite (Moves.pure _) <|
        Moves.get_bind' fun _ => ?_
      split
      next => exact Moves.pure _
      next =>
        exact Moves.ite (Moves.bind (silent_emit (by simp)) fun _ =>
          Moves.bind (silent_emit (by simp)) fun _ => Moves.bind (silent_emit (by simp)) fun _ =>
            Moves.pure _) (Moves.pure _)
  · refine (notes_checkLine_landed hst).post fun r _ _ h => ⟨.inr h.1, fun hr => ?_⟩
    rw [hr] at h
    exact absurd h.2 (by simp)

lemma silent_stepOnce : Moves Silent (stepOnce host) :=
  Moves.bind silent_cdbgSingleStep fun _ => Moves.ite (Moves.pure _) <|
    Moves.bind silent_cdbgWait fun _ => Moves.ite (Moves.get_bind' fun _ => Moves.pure _) <|
      Moves.get_bind' fun _ => Moves.ite (Moves.pure _) (Moves.pure _)

/-- The loop of `step`, by induction on the number of rounds left. -/
lemma notes_stepLoop {file : Str} {line : BitVec 32} : ∀ (rounds : ℕ) (w : World σ),
    Notes (some (file, line)) .start w (stepLoop host file line rounds)
      fun _ c' w' => Finished c' w'
  | 0, w => (notes_other (Moves.bind (silent_emit (by simp)) fun _ => Moves.pure _)).post
      fun _ _ _ h => .inl h
  | rounds + 1, w => by
      refine (notes_other silent_stepOnce).bind ?_
      rintro r _ w₁ rfl
      cases r with
      | some rc => exact Track.pure rc (.inl rfl)
      | none =>
      refine (notes_checkLine (.inl rfl)).bind ?_
      rintro r c₂ w₂ ⟨hend, hgo⟩
      cases r with
      | some rc => exact Track.pure rc hend
      | none =>
          rw [hgo rfl]
          exact notes_stepLoop rounds w₂

lemma notes_stepWithoutLine :
    Notes start .start w (stepWithoutLine host) fun _ c' w' => Finished c' w' := by
  refine Track.bind_rc (notes_other silent_cdbgSingleStep)
    (fun rc _ _ _ h => Track.pure _ (.inl h)) ?_
  rintro _ w₁ rfl
  refine Track.bind_rc (notes_other silent_cdbgWait)
    (fun rc _ _ _ h => Track.get_bind (Track.pure _ (.inl h))) ?_
  rintro _ w₂ rfl
  refine Track.get_bind ?_
  split
  next => exact notes_reportStop.bind fun rc c₃ w₃ h => Track.pure _ h.finished
  next => exact Track.pure _ (.inl rfl)

/-- A stop elsewhere than at the temporary breakpoint is reported. -/
lemma notes_finishTempBreakpoint (temp : Breakpoint) :
    Notes start .start w (finishTempBreakpoint host temp) fun _ c' w' => Landed c' w' := by
  refine Track.bind_rc (notes_other silent_refreshRegs) ?_ ?_
  · rintro rc _ w₁ _ rfl
    exact (notes_other (Moves.bind (silent_dropTemp temp) fun _ => Moves.pure _)).post
      fun _ _ _ h => .inl h
  rintro _ w₁ rfl
  refine Track.get_bind ?_
  split
  next =>
    refine (notes_other (silent_dropTemp temp)).bind ?_
    rintro _ _ w₂ rfl
    exact notes_reportStop
  next =>
    refine (notes_other (moves_of_step (silent_bpDisable temp))).bind ?_
    rintro _ _ w₂ rfl
    dsimp only
    split <;> exact Track.pure _ (.inl rfl)

lemma notes_stepOverCall (returnAddr : Addr) :
    Notes start .start w (stepOverCall host returnAddr) fun _ c' w' => Landed c' w' := by
  have hdrop (temp : Breakpoint) {α : Type} (m : Debugger σ α) (hm : Moves Silent m) (w : World σ) :
      Notes start .start w (dropTemp temp >>= fun _ => m) fun _ c' w' => Landed c' w' :=
    (notes_other (Moves.bind (silent_dropTemp temp) fun _ => hm)).post fun _ _ _ h => .inl h
  refine Track.get_bind ((notes_other (moves_of_step fun v => ?_)).bind ?_)
  · rcases bpEnable_cases .temp .zero w.dbg.pid returnAddr v with ⟨_, h⟩ | ⟨p, _, _, h⟩ <;>
      simp [h, Silent]
  rintro ⟨temp, rc⟩ _ w₁ rfl
  dsimp only
  split
  next => exact Track.pure _ (.inl rfl)
  next =>
  refine Track.bind_rc (notes_other silent_cdbgContinue) ?_ ?_
  · rintro rc _ w₂ _ rfl
    exact hdrop temp _ (Moves.pure _) w₂
  rintro _ w₂ rfl
  refine Track.get_bind ?_
  split
  next => exact hdrop temp _ (Moves.pure _) w₂
  next =>
  refine Track.bind_rc (notes_other silent_cdbgWait) ?_ ?_
  · rintro rc _ w₃ _ rfl
    exact hdrop temp _ (Moves.get_bind' fun _ => Moves.pure _) w₃
  rintro _ w₃ rfl
  refine Track.get_bind ?_
  split
  next => exact hdrop temp _ (Moves.pure _) w₃
  next => exact notes_finishTempBreakpoint temp

lemma silent_callReturnAddress (pc : Addr) : Moves Silent (callReturnAddress (σ := σ) pc) := by
  refine Moves.get_bind' fun w => Moves.bind (moves_of_step fun v => ?_) fun r => ?_
  · cases hr : v.readMem w.dbg.pid pc 4 with
    | none => simp [memRead_of_none hr, Silent]
    | some b => simp [memRead_of_some hr, Silent]
  · cases r <;> exact Moves.pure _

/-- A round of `next`. -/
lemma notes_nextOnce (pc : Addr) :
    Notes start .start w (nextOnce host pc) fun _ c' w' => Landed c' w' := by
  refine (notes_other (silent_callReturnAddress pc)).bind ?_
  rintro r _ w₁ rfl
  cases r with
  | none => exact (notes_other silent_stepOnce).post fun _ _ _ h => .inl h
  | some returnAddr =>
      refine (notes_stepOverCall returnAddr).bind fun rc c₂ w₂ h => ?_
      split
      next => exact Track.pure _ h
      next =>
        refine Track.get_bind ?_
        split <;> exact Track.pure _ h

/-- The loop of `next`, by induction on the number of rounds left. -/
lemma notes_nextLoop {file : Str} {line : BitVec 32} : ∀ (rounds : ℕ) (pc : Addr) (w : World σ),
    Notes (some (file, line)) .start w (nextLoop host file line pc rounds)
      fun _ c' w' => Finished c' w'
  | 0, pc, w => (notes_other (Moves.bind (silent_emit (by simp)) fun _ => Moves.pure _)).post
      fun _ _ _ h => .inl h
  | rounds + 1, pc, w => by
      refine (notes_nextOnce pc).bind fun r c₁ w₁ h₁ => ?_
      cases r with
      | some rc => exact Track.pure rc h₁.finished
      | none =>
      refine (notes_checkLine h₁).bind ?_
      rintro r c₂ w₂ ⟨hend, hgo⟩
      cases r with
      | some rc => exact Track.pure rc hend
      | none =>
          rw [hgo rfl]
          exact Track.get_bind (notes_nextLoop rounds _ w₂)

end Loops

/-! ### The commands -/

section Commands

variable {w : World σ}

/-- Both commands refresh the registers and look for the line of the program counter. -/
lemma notes_fromLine {m : Debugger σ ℤ} {f : Str → BitVec 32 → Addr → Debugger σ ℤ}
    (hm : m = do
      if (← refreshRegs) ≠ 0 then
        return -1
      let w ← Prog.get
      match w.dbg.lineno.lineAtPc w.dbg.regs.pc with
      | none => stepWithoutLine host
      | some (file, line) => f file line w.dbg.regs.pc)
    (hf : ∀ file line pc (w : World σ), Notes (some (file, line)) .start w (f file line pc)
      fun _ c' w' => Finished c' w') :
    Notes w.startLine .start w m fun _ c' w' => Finished c' w' := by
  rw [hm]
  refine Track.bind_rc (notes_refreshRegs rfl) ?_ ?_
  · rintro rc _ _ _ ⟨rfl, _⟩
    exact Track.pure _ (.inl rfl)
  rintro _ _ ⟨rfl, regs, rfl, hregs⟩
  have hstart : w.startLine = w.dbg.lineno.lineAtPc regs.pc := by
    rw [World.startLine, hregs rfl]
    rfl
  refine Track.get_bind ?_
  rw [hstart]
  simp only [World.setDbg_dbg]
  cases w.dbg.lineno.lineAtPc regs.pc with
  | none => exact notes_stepWithoutLine
  | some l => exact hf l.1 l.2 _ _

lemma notes_execStep {m : Debugger σ ℤ} {start : Option (Str × BitVec 32)}
    (hm : Notes start .start w m fun _ c' w' => Finished c' w') :
    Notes start .start w (execStep m) fun _ c' w' => Finished c' w' := by
  refine Track.get_bind ?_
  split
  next => exact Track.pure _ (.inl rfl)
  next =>
  refine hm.bind fun rc c₁ w₁ h₁ => Track.get_bind ?_
  split
  next => exact Track.pure _ h₁
  next =>
  rcases h₁ with rfl | hlast
  · exact (notes_other (Moves.bind silent_reportProcessExit fun _ => Moves.pure _)).post
      fun _ _ _ h => .inl h
  · rcases reportProcessExit_cases w₁ with ⟨_, h⟩ | ⟨hidle, _⟩
    · exact Track.bind (Q := fun _ c' w' => Finished c' w')
        (Track.of_eq h fun _ => ⟨trivial, .inr hlast⟩) fun _ c₂ w₂ h₂ => Track.pure _ h₂
    · rw [hlast.1] at hidle
      cases hidle

/-- **An announced stop is a stop**: if, each time the registers are read for the first time
after a report, the selected thread is where the loop stops. -/
theorem announced_stop_ends (host : Host σ) {cmd : Command} (hcmd : cmd = .step ∨ cmd = .next)
    (w : World σ) (h : Along Notice.note (Event.finished w.startLine) .start
      (execCommand host cmd w).trace) : EndsAtAnnounced (execCommand host cmd) w := by
  have htrack : Notes w.startLine .start w (execCommand host cmd)
      fun _ c' w' => Finished c' w' := by
    rcases hcmd with rfl | rfl
    · exact notes_execStep (notes_fromLine rfl
        fun file line _ w => notes_stepLoop maxStepIterations w)
    · exact notes_execStep (notes_fromLine rfl
        fun file line pc w => notes_nextLoop maxStepIterations pc w)
  obtain ⟨hrests, hidle, hend⟩ := htrack h
  refine ⟨hrests, fun hann => ?_⟩
  cases hv : (execCommand host cmd w).value with
  | none =>
      rw [hidle hv] at hann
      cases hann
  | some v =>
      have hlast : AtLast _ _ := (hend v hv).resolve_left fun hstart => by
        rw [hstart] at hann
        cases hann
      exact ⟨rfl, hlast⟩

end Commands

/-! ### A call of the function it is in -/

/-- A function at `0x1000` that calls itself at `0x1004`, with a `BRK` at an address. -/
def callCode (addr : Addr) : Memory :=
  (Memory.write (fun _ => 0) 0x1004 4 0x97ffffff).write addr 4 0xd4200000

/-- A debuggee stopped at the call, with a breakpoint at an address that it comes to before the
call returns. -/
def atCall (addr : Addr) : World Script where
  dbg := { Dbg.init with
    pid := 7
    state := .stopped
    lineno := ⟨[⟨0x1000, 1, 0, "a.c".toList⟩, ⟨0x1010, 2, 0, "a.c".toList⟩], 0, 0⟩
    breakpoints := ⟨[⟨addr, 0, true⟩], by simp [maxBreakpoints]⟩ }
  proc := some (.resting (.numbered (.at 1 0x1004) []) (callCode addr))
  host := ⟨[], [.stopped (.at addr ((callCode addr).write 0x1008 4 0xd4200000)), .exited 0]⟩

/-- A breakpoint at another line ends a `next`. -/
theorem announced_stop_ends_call :
    EndsAtAnnounced (execCommand (Script.host .stripped) .next) (atCall 0x1010) :=
  announced_stop_ends _ (.inr rfl) _ (by decide +kernel)

/-- After a hit at the start of the function, at the line of the call, `next` goes on. -/
theorem not_endsAtAnnounced :
    ¬ EndsAtAnnounced (execCommand (Script.host .stripped) .next) (atCall 0x1000) := by
  refine fun h => absurd h.1 ?_
  decide +kernel

end Cdbg
