import Cdbg.Laws.Prompt
import Cdbg.Laws.Watch

/-!
Whether the end of a process is reported once.

The end surfaces at any of the waits nested in a command. The handlers of a watchpoint hit
report it themselves and `cdbg_repl` reports what it finds idle, so an end in the step past a
watchpoint is reported twice under `step` and `next`, the second time with process id zero; and
`continue` takes an end in its step off a disabled breakpoint for a failure of its own and
returns without a report. What is gathered from the events of a command (`Ledger`) tells these
ends from the others by what the debuggee was resumed for.
-/

namespace Cdbg

open Prog

variable {σ α : Type} {host : Host σ}

/-! ### What the events tell -/

/-- What the debuggee is resumed for: the step off a disabled breakpoint, the step past a
watchpoint, or anything else. -/
inductive Errand
  | own | off | past
  deriving DecidableEq, Repr

/-- The status that tells an outcome. -/
def Outcome.status : Outcome → WaitStatus
  | .exited code => .exited code
  | .signaled sig => .signaled sig
  | .stopped _ => .stopped

/-- What is gathered from the events of a command. -/
structure Ledger where
  /-- what the debuggee is resumed for next, or was last -/
  errand : Errand
  /-- the processes that ended: on which errand, the id and the status -/
  ends : List (Errand × ℕ × WaitStatus)
  /-- the reports: the id and the status -/
  reports : List (ℕ × WaitStatus)
  deriving DecidableEq

namespace Ledger

/-- Before a command does anything. -/
def start : Ledger := ⟨.own, [], []⟩

/-- What an event adds. -/
def note (c : Ledger) (e : Event σ) : Ledger :=
  match e.kind with
  | .steppingOver => { c with errand := .off }
  | .watchpointHit _ _ => { c with errand := .past }
  | .watchpointNear _ => { c with errand := .past }
  | .ptContinue => { c with errand := .own }
  | .waited (.stopped _) => { c with errand := .own }
  | .waited o =>
      { c with
        errand := .own
        ends := c.ends ++ e.world.proc.toList.map fun p => (c.errand, p.pid, o.status) }
  | .processExit pid status => { c with reports := c.reports ++ [(pid, status)] }
  | _ => c

/-- What the events of a command tell. -/
def of (t : List (Event σ)) : Ledger := t.foldl note start

/-- Every process that ended has been reported once, with its id, which is not zero, and its
status. -/
def Balanced (c : Ledger) : Prop := c.reports = c.ends.map Prod.snd ∧ ∀ d ∈ c.ends, d.2.1 ≠ 0

instance (c : Ledger) : Decidable c.Balanced := inferInstanceAs (Decidable (_ ∧ _))

end Ledger

/-- The errand on which the end of the debuggee is not reported once. -/
def Command.slip : Command → Option Errand
  | .step => some .past
  | .next => some .past
  | .continue_ => some .off
  | _ => none

/-- Whether a command ends the debuggee itself. -/
def Command.endsProcess : Command → Bool
  | .run _ => true
  | .kill => true
  | .quit => true
  | _ => false

/-- No process ends on the errand on which this command does not report it once. -/
def Ledger.Spared (cmd : Command) (c : Ledger) : Prop := ∀ d ∈ c.ends, some d.1 ≠ cmd.slip

instance (cmd : Command) (c : Ledger) : Decidable (c.Spared cmd) :=
  inferInstanceAs (Decidable (∀ d ∈ c.ends, some d.1 ≠ cmd.slip))

/-- The events up to the first command, and each command with the events up to the next. -/
def splitTurns : List (Event σ) → List (Event σ) × List (Command × List (Event σ))
  | [] => ([], [])
  | e :: t =>
      match e.kind.commandRead with
      | none => (e :: (splitTurns t).1, (splitTurns t).2)
      | some cmd => ([], (cmd, (splitTurns t).1) :: (splitTurns t).2)

/-- The commands of a session that do not end the debuggee themselves, with their events. -/
def turns (t : List (Event σ)) : List (Command × List (Event σ)) :=
  (splitTurns t).2.filter fun turn => !turn.1.endsProcess

/-- Every process that ends while such a command is carried out is reported once. -/
def ReportsOnce (t : List (Event σ)) : Prop := ∀ turn ∈ turns t, (Ledger.of turn.2).Balanced

instance (t : List (Event σ)) : Decidable (ReportsOnce t) :=
  inferInstanceAs (Decidable (∀ turn ∈ turns t, (Ledger.of turn.2).Balanced))

/-! ### Where a command stands -/

/-- No process has ended and none has been reported. -/
structure Ledger.Blank (c : Ledger) : Prop where
  ends : c.ends = []
  reports : c.reports = []

/-- The debuggee is stopped, and not about to be stepped past a watchpoint. -/
structure Ledger.Stands (c : Ledger) (w : World σ) : Prop extends c.Blank where
  errand : c.errand ≠ .past
  stopped : w.inState .stopped

/-- The debuggee has ended on this errand and has not been reported. -/
structure Ledger.Fell (x : Errand) (c : Ledger) (w : World σ) : Prop where
  ends : c.ends = [(x, w.dbg.pid, w.dbg.waitStatus)]
  reports : c.reports = []
  pid : w.dbg.pid ≠ 0
  idle : w.dbg.state = .idle

/-- The debuggee has ended on this errand and has been reported. -/
structure Ledger.Told (x : Errand) (c : Ledger) (w : World σ) : Prop where
  once : ∃ d : ℕ × WaitStatus, d.1 ≠ 0 ∧ c.ends = [(x, d)] ∧ c.reports = [d]
  idle : w.dbg.state = .idle

/-- A program of the debugger, from what has been gathered and a world on. -/
abbrev Books (c : Ledger) (w : World σ) (m : Debugger σ α) (Q : α → Ledger → World σ → Prop) :
    Prop :=
  Track Ledger.note (fun _ _ => True) (fun _ _ => True) Ledger.Blank c w m Q

lemma along_true {t : List (Event σ)} (c : Ledger) :
    Along Ledger.note (fun _ _ => True) c t := by
  induction t generalizing c with
  | nil => trivial
  | cons e t ih => exact ⟨trivial, ih _⟩

/-- What edits leave of what has been gathered. -/
structure Ledger.Level (c c' : Ledger) : Prop where
  ends : c'.ends = c.ends
  reports : c'.reports = c.reports
  errand : c'.errand = c.errand ∨ c'.errand = .off

namespace Ledger

variable {c c' c'' : Ledger} {w w' : World σ} {x : Errand}

lemma Level.refl (c : Ledger) : c.Level c := ⟨rfl, rfl, .inl rfl⟩

lemma Level.trans (h : c.Level c') (h' : c'.Level c'') : c.Level c'' := by
  refine ⟨h'.ends.trans h.ends, h'.reports.trans h.reports, ?_⟩
  rcases h'.errand with he | he
  · rw [he]
    exact h.errand
  · exact .inr he

lemma level_note {e : Event σ} (h : e.kind.edits = true) : c.Level (c.note e) := by
  obtain ⟨k, w⟩ := e
  cases k with
  | steppingOver => exact ⟨rfl, rfl, .inr rfl⟩
  | waited _ | watchpointHit _ _ | watchpointNear _ | ptContinue | processExit _ _ => cases h
  | _ => exact .refl c

lemma level_foldl {t : List (Event σ)} (h : ∀ e ∈ t, e.kind.edits = true) :
    c.Level (t.foldl note c) := by
  induction t generalizing c with
  | nil => exact .refl c
  | cons e t ih =>
      exact (level_note (h e List.mem_cons_self)).trans
        (ih fun e' he' => h e' (List.mem_cons_of_mem _ he'))

lemma Level.blank (h : c.Level c') (hc : c.Blank) : c'.Blank :=
  ⟨h.ends.trans hc.ends, h.reports.trans hc.reports⟩

lemma Level.stands (h : c.Level c') (hc : c.Stands w) (hw : w'.inState .stopped) :
    c'.Stands w' := by
  refine ⟨h.blank hc.toBlank, ?_, hw⟩
  rcases h.errand with he | he
  · rw [he]
    exact hc.errand
  · rw [he]
    simp

lemma Level.fell (h : c.Level c') (hc : c.Fell x w) (hpid : w'.dbg.pid = w.dbg.pid)
    (hs : w'.dbg.state = w.dbg.state) (hstatus : w'.dbg.waitStatus = w.dbg.waitStatus) :
    c'.Fell x w' := by
  refine ⟨?_, h.reports.trans hc.reports, hpid ▸ hc.pid, hs.trans hc.idle⟩
  rw [h.ends, hc.ends, hpid, hstatus]

end Ledger

section Calls

variable {c : Ledger} {w : World σ} {x : Errand} {P : World σ → Prop}

/-- A run whose events are those of edits. -/
lemma books_of_rests {m : Debugger σ α} {Q : α → World σ → Prop} (hm : Rests P m Q) (hw : P w)
    (ht : ∀ e ∈ (m w).trace, e.kind.edits = true) (hc : c.Blank) :
    Books c w m fun a c' w' => c.Level c' ∧ Q a w' := fun _ =>
  ⟨along_true c, fun _ => (Ledger.level_foldl ht).blank hc, fun a ha =>
    ⟨Ledger.level_foldl ht, (hm w hw fun _ _ => trivial).2 a ha⟩⟩

/-- Edits at a stop. -/
lemma books_edit {m : Debugger σ α} (hm : Moves Edit m) (hc : c.Stands w) (host : Host σ) :
    Books c w m fun _ c' w' => c'.Stands w' :=
  (books_of_rests (rests_stopped host hm) hc.stopped (hm.events (fun _ _ _ h => h.edits) w)
    hc.toBlank).post fun _ _ _ h => h.1.stands hc h.2

lemma books_emit {k : EventKind} (hk : k.inert = true) (hc : c.Stands w) (host : Host σ) :
    Books c w (emit k) fun _ c' w' => c'.Stands w' :=
  books_edit (edit_of_still (still_emit hk)) hc host

lemma books_cdbgSingleStep (hw : w.inState .stopped) :
    Books c w cdbgSingleStep fun rc c' w' => rc = 0 ∧ c' = c ∧ w'.inState .running := by
  have hrest := (rests_singleStep w hw fun _ _ => trivial).2
  rcases cdbgSingleStep_cases w with ⟨_, hne⟩ | ⟨p, _, _, h⟩
  · obtain ⟨p, hp, hr⟩ := hw.task
    exact absurd hr (hne p hp)
  · rw [h] at hrest
    exact Track.of_eq h fun _ => ⟨along_true c, rfl, rfl, (hrest 0 rfl).2⟩

/-- The wait itself: the debuggee has stopped, or ended on its errand. -/
lemma books_waitForStop (hc : c.Blank) (hw : w.inState .running) :
    Books c w (waitForStop host) fun rc c' w' => rc = 0 ∧ w'.Settled ∧
      (c'.Stands w' ∨ c'.Fell c.errand w') := by
  obtain ⟨p, r, hp, hr, hk⟩ := hw.task_running
  rcases waitForStop_cases host w with ⟨hn, _⟩ | ⟨h', h⟩ | ⟨q, _, o, h', hq, _, _, h⟩
  · rw [hp] at hn
    cases hn
  · intro _
    rw [h]
    exact ⟨trivial, fun _ => hc, nofun⟩
  · obtain ⟨hproc, hpid⟩ := World.taskForPid_eq_some.mp hq
    have hsettled := World.settled_afterWait hq h' o
    have hpos : w.dbg.pid ≠ 0 := by
      have := q.pid_pos
      omega
    refine Track.of_eq h fun _ => ⟨along_true c, rfl, hsettled, ?_⟩
    cases o with
    | stopped s => exact .inl ⟨⟨hc.ends, hc.reports⟩, nofun, hsettled.stopped nofun⟩
    | exited code =>
        refine .inr ⟨?_, hc.reports, hpos, rfl⟩
        simp [Ledger.note, hc.ends, hproc, hpid, Outcome.status, World.afterWait, World.deliver]
    | signaled sig =>
        refine .inr ⟨?_, hc.reports, hpos, rfl⟩
        simp [Ledger.note, hc.ends, hproc, hpid, Outcome.status, World.afterWait, World.deliver]

lemma books_cdbgWait (hc : c.Blank) (hw : w.inState .running) :
    Books c w (cdbgWait host) fun rc c' w' =>
      c'.Stands w' ∨ rc ≠ 0 ∧ c'.Fell c.errand w' := by
  refine Track.bind_rc (books_waitForStop hc hw) (fun rc c' w' hrc h => absurd h.1 hrc)
    fun c' w' ⟨_, _, h⟩ => Track.get_bind ?_
  rcases h with h | h
  · rw [if_neg (by simp [h.stopped.1])]
    refine Track.bind_rc (books_edit edit_reenableBreakpointsAfterStep h host)
      (fun _ c'' w'' _ h => Track.pure _ (.inl h)) fun c'' w'' h => Track.pure _ (.inl h)
  · rw [if_pos h.idle]
    exact Track.pure _ (.inr ⟨one_ne_zero, h⟩)

/-- The step off a disabled breakpoint. -/
lemma books_stepOverDisabledBreakpoint (hc : c.Stands w) :
    Books c w (stepOverDisabledBreakpoint host) fun rc c' w' =>
      c'.Stands w' ∨ rc ≠ 0 ∧ c'.Fell .off w' := by
  refine Track.get_bind ?_
  split
  · exact Track.pure _ (.inl hc)
  refine Track.bind_rc (books_edit (edit_of_still still_refreshRegs) hc host)
    (fun _ c' w' _ h => Track.pure _ (.inl h)) fun c₁ w₁ h₁ => ?_
  refine Track.bind (Q := fun _ c' w' => c'.Stands w' ∧ c'.errand = .off)
    (Track.of_eq rfl fun _ => ⟨along_true c₁, ⟨⟨h₁.ends, h₁.reports⟩, nofun, h₁.stopped⟩, rfl⟩)
    fun _ c₂ w₂ ⟨h₂, hoff⟩ => Track.get_bind ?_
  split
  · exact Track.pure _ (.inl h₂)
  refine Track.bind_rc (books_cdbgSingleStep h₂.stopped)
    (fun rc c' w' hrc h => absurd h.1 hrc) fun c₃ w₃ ⟨_, heq, hrun⟩ => ?_
  subst heq
  rw [← hoff]
  exact books_cdbgWait h₂.toBlank hrun

/-- `cdbg_continue` fails without an end only at a stop. -/
lemma books_cdbgContinue (hc : c.Stands w) :
    Books c w (cdbgContinue host) fun rc c' w' =>
      rc = 0 ∧ c'.Blank ∧ c'.errand = .own ∧ w'.inState .running ∨
        rc ≠ 0 ∧ (c'.Stands w' ∨ c'.Fell .off w') := by
  refine Track.bind_rc (books_stepOverDisabledBreakpoint hc) (fun rc c' w' hrc h =>
    Track.pure _ (.inr ⟨hrc, h.imp_right And.right⟩)) fun c₁ w₁ h => Track.get_bind ?_
  have h₁ : c₁.Stands w₁ := h.resolve_right fun h => h.1 rfl
  rw [if_neg (by simp [h₁.stopped.1])]
  have hrest := (rests_thawAndContinue w₁ h₁.stopped fun _ _ => trivial).2
  obtain ⟨p, hp, hr⟩ := h₁.stopped.task
  rcases thawAndContinue_cases w₁ with ⟨hn, _⟩ | ⟨q, hq, ⟨hr', _⟩ | ⟨_, h⟩⟩
  · rw [hp] at hn
    cases hn
  · obtain rfl : p = q := Option.some.inj (hp.symm.trans hq)
    exact absurd hr hr'
  · rw [h] at hrest
    exact Track.of_eq h fun _ => ⟨along_true c₁, .inl ⟨rfl, ⟨h₁.ends, h₁.reports⟩, rfl,
      (hrest 0 rfl).2⟩⟩

/-! ### Reporting a stop -/

/-- Disarming and arming record nothing. -/
lemma books_rig {m : Debugger σ α} (h : Rig w (m w).trace (m w).final) (hc : c.Blank)
    (hw : w.inState .stopped) (host : Host σ) :
    Books c w m fun _ c' w' => c' = c ∧ w'.inState .stopped := by
  intro _
  rw [h.quiet.2]
  exact ⟨trivial, fun _ => hc, fun _ _ => ⟨rfl, h.inState host hw⟩⟩

/-- The step past a watchpoint that has been announced. -/
lemma books_stepPastAllWatchpoints (hc : c.Blank) (hx : c.errand = .past)
    (hw : w.inState .stopped) :
    Books c w (stepPastAllWatchpoints host) fun rc c' w' =>
      c'.Stands w' ∨ rc = 0 ∧ c'.Fell .past w' := by
  refine Track.get_bind ((books_rig (.disarm w) hc hw host).bind fun _ c₁ w₁ ⟨hc₁, hw₁⟩ => ?_)
  subst hc₁
  refine Track.bind_rc (books_cdbgSingleStep hw₁) (fun rc c' w' hrc h => absurd h.1 hrc)
    fun c₂ w₂ ⟨_, hc₂, hw₂⟩ => ?_
  subst hc₂
  refine Track.bind_rc (books_cdbgWait hc hw₂) (fun rc c₃ w₃ _ h => Track.get_bind ?_)
    fun c₃ w₃ h => Track.get_bind ?_
  · refine Track.pure _ (h.imp_right fun h => ⟨if_pos h.2.idle, ?_⟩)
    rw [← hx]
    exact h.2
  · have h₃ : c₃.Stands w₃ := h.resolve_right fun h => h.1 rfl
    rw [if_neg (by simp [h₃.stopped.1])]
    exact (books_rig (.arm w₃) h₃.toBlank h₃.stopped host).post fun _ c₄ w₄ h => .inl
      ⟨h.1 ▸ h₃.toBlank, h.1 ▸ h₃.errand, h.2⟩

/-- An end that has just been noticed is reported. -/
lemma books_reportProcessExit (hc : c.Fell x w) :
    Books c w reportProcessExit fun _ c' w' => c'.Told x w' := by
  rcases reportProcessExit_cases w with ⟨hi, _⟩ | ⟨_, h⟩
  · exact absurd hc.idle hi
  · refine Track.of_eq h fun _ => ⟨along_true c, ⟨_, hc.pid, hc.ends, ?_⟩, hc.idle⟩
    simp [Ledger.note, hc.reports]

/-- A handler of a watchpoint hit, whatever it prints when the debuggee has survived. -/
lemma books_stepPastHit {k : EventKind} (hk : k.isHit = true) {rest : World σ → Debugger σ ℤ}
    (hrest : ∀ w, Moves Edit (rest w)) (hc : c.Stands w) :
    Books c w (do
      emit k
      if (← stepPastAllWatchpoints host) ≠ 0 then
        return -1
      let w ← Prog.get
      if w.dbg.state ≠ .stopped then
        reportProcessExit
        return 0
      rest w) fun _ c' w' => c'.Stands w' ∨ c'.Told .past w' := by
  have hhit : (c.note ⟨k, w⟩).Blank ∧ (c.note ⟨k, w⟩).errand = .past := by
    cases k with
    | watchpointHit _ _ | watchpointNear _ => exact ⟨⟨hc.ends, hc.reports⟩, rfl⟩
    | _ => cases hk
  refine Track.bind (Q := fun _ c' w' => c' = c.note ⟨k, w⟩ ∧ w' = w)
    (Track.of_eq rfl fun _ => ⟨along_true c, rfl, rfl⟩) fun _ c₁ w₁ ⟨hc₁, hw₁⟩ => ?_
  subst hc₁ hw₁
  refine Track.bind_rc (books_stepPastAllWatchpoints hhit.1 hhit.2 hc.stopped)
    (fun rc c' w' hrc h => Track.pure _ (.inl (h.resolve_right fun h => hrc h.1)))
    fun c₂ w₂ h => Track.get_bind ?_
  rcases h with h | ⟨_, h⟩
  · rw [if_neg (by simp [h.stopped.1])]
    exact (books_edit (hrest w₂) h host).post fun _ c' w' h => .inl h
  · rw [if_pos (by simp [h.idle])]
    exact (books_reportProcessExit h).bind fun _ c' w' h => Track.pure _ (.inr h)

lemma books_handleWatchpointHit (index : ℕ) (isWrite : Bool) (hc : c.Stands w) :
    Books c w (handleWatchpointHit host index isWrite) fun _ c' w' =>
      c'.Stands w' ∨ c'.Told .past w' :=
  books_stepPastHit rfl (fun _ => edit_of_still <| Moves.bind (still_recordValue index) fun _ =>
    Moves.get_bind' fun _ => Moves.bind (still_printStopLocation _) fun _ => Moves.pure _) hc

lemma books_handleUnresolvedWatchpointHit (far : Addr) (hc : c.Stands w) :
    Books c w (handleUnresolvedWatchpointHit host far) fun _ c' w' =>
      c'.Stands w' ∨ c'.Told .past w' :=
  books_stepPastHit rfl (fun _ => edit_of_still <| Moves.bind (still_printStopLocation _) fun _ =>
    Moves.pure _) hc

lemma books_tryReportWatchpointHit (hc : c.Stands w) :
    Books c w (tryReportWatchpointHit host) fun hit c' w' =>
      c'.Stands w' ∨ hit = true ∧ c'.Told .past w' := by
  refine Track.get_bind ?_
  split
  · exact Track.pure _ (.inl hc)
  split
  · exact (books_handleWatchpointHit _ _ hc).bind fun _ c' w' h =>
      Track.pure _ (h.imp_right fun h => ⟨rfl, h⟩)
  · exact (books_handleUnresolvedWatchpointHit _ hc).bind fun _ c' w' h =>
      Track.pure _ (h.imp_right fun h => ⟨rfl, h⟩)

lemma books_handleBreakpointHit {index : ℕ} {bp : Breakpoint}
    (hbp : w.dbg.breakpoints.entry index = some bp) (hc : c.Stands w) (host : Host σ) :
    Books c w (handleBreakpointHit index bp) fun _ c' w' => c'.Stands w' := by
  obtain ⟨w', hchain, hw'⟩ := movesFrom_handleBreakpointHit (σ := σ) hbp
  obtain ⟨hstop, ht⟩ : w'.inState .stopped ∧
      ∀ e ∈ (handleBreakpointHit index bp w).trace, e.kind.edits = true :=
    hchain.invariant (fun _ _ _ h hw _ => ⟨h.inState host hw, h.edits⟩) hc.stopped
      (fun _ _ => trivial : ∀ e ∈ _, True)
  have hlevel := Ledger.level_foldl (c := c) ht
  exact fun _ => ⟨along_true c, fun _ => hlevel.blank hc.toBlank, fun a ha =>
    hw' a ha ▸ hlevel.stands hc hstop⟩

/-- Once the stop has been announced the debuggee is still stopped, or its end in the step past
a watchpoint has been reported. -/
lemma books_announceStop (hc : c.Stands w) :
    Books c w (announceStop host) fun _ c' w' => c'.Stands w' ∨ c'.Told .past w' := by
  refine (books_edit edit_selectHitThread hc host).bind fun _ c₁ w₁ h₁ => Track.get_bind ?_
  have hfreeze : Books c₁ w₁ (threadsSuspendOthers w₁.dbg.pid w₁.dbg.currentTid)
      fun _ c' w' => c'.Stands w' := by
    have hmove : Edit w₁ _ _ := Edit.freeze w₁
    have hlevel := Ledger.level_foldl (c := c₁) hmove.edits
    exact fun _ => ⟨along_true c₁, fun _ => hlevel.blank h₁.toBlank, fun _ _ =>
      hlevel.stands h₁ (hmove.inState host h₁.stopped)⟩
  refine hfreeze.bind fun _ c₂ w₂ h₂ => ?_
  refine Track.bind_rc (books_edit (edit_of_still still_refreshRegs) h₂ host)
    (fun _ c' w' _ h => Track.pure _ (.inl h)) fun c₃ w₃ h₃ => ?_
  refine (books_emit rfl h₃ host).bind fun _ c₄ w₄ h₄ => Track.get_bind ?_
  dsimp only
  split
  · split
    · next bp hbp => exact (books_handleBreakpointHit hbp h₄ host).post fun _ _ _ h => .inl h
    · exact Track.pure _ (.inl h₄)
  · refine (books_tryReportWatchpointHit h₄).bind fun hit c₅ w₅ h => ?_
    split
    · exact Track.pure _ (h.imp_right And.right)
    next hhit =>
      have h₅ : c₅.Stands w₅ := h.resolve_right fun h => hhit h.1
      refine (books_emit rfl h₅ host).bind fun _ c₆ w₆ h₆ => ?_
      exact (books_emit rfl h₆ host).bind fun _ c' w' h => Track.pure _ (.inl h)

lemma books_reportStop (hc : c.Stands w) :
    Books c w (reportStop host) fun _ c' w' => c'.Stands w' ∨ c'.Told .past w' := by
  refine (books_announceStop hc).bind fun rc c₁ w₁ h => ?_
  refine Track.bind (Q := fun _ c' w' => c' = c₁ ∧ w' = w₁)
    (Track.of_eq rfl fun _ => ⟨along_true c₁, rfl, rfl⟩) fun _ c' w' ⟨hc', hw'⟩ => ?_
  rw [hc', hw']
  exact Track.pure _ h

/-! ### `step` and `next` -/

lemma books_plant (addr : Addr) (hc : c.Stands w) (host : Host σ) :
    Books c w (bpEnable .temp .zero w.dbg.pid addr) fun _ c' w' => c'.Stands w' := by
  have ht : ∀ e ∈ (bpEnable .temp .zero w.dbg.pid addr w).trace, e.kind.edits = true := by
    rcases bpEnable_cases .temp .zero w.dbg.pid addr w with ⟨_, h⟩ | ⟨p, _, _, h⟩ <;>
      simp [h, EventKind.edits, EventKind.inert]
  exact (books_of_rests (rests_plant host addr .stopped) ⟨hc.stopped, rfl⟩ ht hc.toBlank).post
    fun _ _ _ h => h.1.stands hc h.2

lemma edits_bpDisable (bp : Breakpoint) (w : World σ) :
    ∀ e ∈ (bpDisable bp w.dbg.pid w).trace, e.kind.edits = true := by
  rcases bpDisable_cases bp w.dbg.pid w with ⟨_, h⟩ | ⟨_, p, _, _, h⟩ | ⟨_, _, h⟩ |
    ⟨_, p, _, _, h⟩ <;> simp [h, EventKind.edits, EventKind.inert]

lemma books_lift (bp : Breakpoint) (hc : c.Stands w) (host : Host σ) :
    Books c w (bpDisable bp w.dbg.pid) fun _ c' w' => c'.Stands w' :=
  (books_of_rests (rests_lift host bp .stopped) ⟨hc.stopped, rfl⟩ (edits_bpDisable bp w)
    hc.toBlank).post fun _ _ _ h => h.1.stands hc h.2

lemma books_dropTemp (temp : Breakpoint) (hc : c.Stands w) (host : Host σ) :
    Books c w (dropTemp temp) fun _ c' w' => c'.Stands w' :=
  Track.get_bind ((books_lift temp hc host).bind fun _ _ _ h => Track.pure _ h)

/-- After the end of the debuggee nothing comes of lifting the temporary breakpoint. -/
lemma books_dropTemp_fell (temp : Breakpoint) (hc : c.Fell x w) :
    Books c w (dropTemp temp) fun _ c' w' => c'.Fell x w' := by
  have hlevel := Ledger.level_foldl (c := c) (edits_bpDisable temp w)
  refine Track.get_bind ?_
  refine Track.bind (Q := fun _ c' w' => c'.Fell x w') ?_ fun _ _ _ h => Track.pure _ h
  rcases bpDisable_cases temp w.dbg.pid w with ⟨_, h⟩ | ⟨_, p, _, _, h⟩ | ⟨_, _, h⟩ |
    ⟨_, p, _, _, h⟩ <;> rw [h] at hlevel <;>
    exact Track.of_eq h fun _ => ⟨along_true c, hlevel.fell hc rfl rfl rfl⟩

/-- How a function of `step` and `next` leaves the debuggee: stopped, or ended elsewhere than in
the step past a watchpoint and not reported, or ended there and reported. -/
def Ledger.Over (c : Ledger) (w : World σ) : Prop :=
  c.Stands w ∨ (∃ x, x ≠ .past ∧ c.Fell x w) ∨ c.Told .past w

lemma Ledger.over_of_told (h : c.Stands w ∨ c.Told .past w) : c.Over w := h.imp_right .inr

/-- A temporary breakpoint is lifted before a function returns. -/
lemma books_dropTemp_over (temp : Breakpoint) (h : c.Stands w ∨ c.Fell x w) (hx : x ≠ .past)
    (host : Host σ) : Books c w (dropTemp temp) fun _ c' w' => c'.Over w' := by
  rcases h with h | h
  · exact (books_dropTemp temp h host).post fun _ _ _ h => .inl h
  · exact (books_dropTemp_fell temp h).post fun _ _ _ h => .inr (.inl ⟨x, hx, h⟩)

lemma books_finishTempBreakpoint (temp : Breakpoint) (hc : c.Stands w) :
    Books c w (finishTempBreakpoint host temp) fun _ c' w' => c'.Over w' := by
  refine Track.bind_rc (books_edit (edit_of_still still_refreshRegs) hc host)
    (fun _ c₁ w₁ _ h => (books_dropTemp temp h host).bind fun _ _ _ h => Track.pure _ (.inl h))
    fun c₁ w₁ h₁ => Track.get_bind ?_
  split
  · exact (books_dropTemp temp h₁ host).bind fun _ c₂ w₂ h =>
      (books_reportStop h).post fun _ _ _ h => Ledger.over_of_told h
  · refine (books_lift temp h₁ host).bind fun r c₂ w₂ h => ?_
    dsimp only
    split <;> exact Track.pure _ (.inl h)

lemma books_stepOverCall (returnAddr : Addr) (hc : c.Stands w) :
    Books c w (stepOverCall host returnAddr) fun _ c' w' => c'.Over w' := by
  refine Track.get_bind ((books_plant returnAddr hc host).bind fun r c₁ w₁ h₁ => ?_)
  dsimp only
  split
  · exact Track.pure _ (.inl h₁)
  refine Track.bind_rc (books_cdbgContinue h₁) (fun rc c₂ w₂ hrc h => ?_)
    fun c₂ w₂ h => Track.get_bind ?_
  · have h₂ := (h.resolve_left fun h => hrc h.1).2
    exact (books_dropTemp_over r.1 h₂ nofun host).bind fun _ _ _ h => Track.pure _ h
  obtain ⟨-, hblank, herrand, hrun⟩ := h.resolve_right fun h => h.1 rfl
  rw [if_neg (by simp [hrun.1])]
  refine Track.bind_rc (books_cdbgWait hblank hrun) (fun rc c₃ w₃ _ h => ?_)
    fun c₃ w₃ h => Track.get_bind ?_
  · rw [herrand] at h
    exact (books_dropTemp_over r.1 (h.imp_right And.right) nofun host).bind fun _ _ _ h =>
      Track.get_bind (Track.pure _ h)
  · have h₃ : c₃.Stands w₃ := h.resolve_right fun h => h.1 rfl
    rw [if_neg (by simp [h₃.stopped.1])]
    exact books_finishTempBreakpoint r.1 h₃

/-- A single step of the loops and the wait for it, with what follows. -/
lemma books_step_wait {rest : Debugger σ α} {stuck : ℤ → Debugger σ α}
    {fail : World σ → Debugger σ α} {Q : α → Ledger → World σ → Prop} (hc : c.Stands w)
    (hfail : ∀ c w, c.Over w → Books c w (fail w) Q)
    (hrest : ∀ c w, c.Stands w → Books c w rest Q) :
    Books c w (cdbgSingleStep >>= fun rc => if rc ≠ 0 then stuck rc else
      cdbgWait host >>= fun rc => if rc ≠ 0 then Prog.get >>= fail else rest) Q := by
  refine Track.bind_rc (books_cdbgSingleStep hc.stopped) (fun rc c' w' hrc h => absurd h.1 hrc)
    fun c₁ w₁ ⟨_, hc₁, hw₁⟩ => ?_
  subst hc₁
  refine Track.bind_rc (books_cdbgWait hc.toBlank hw₁) (fun rc c₂ w₂ _ h => Track.get_bind ?_)
    fun c₂ w₂ h => hrest c₂ w₂ (h.resolve_right fun h => h.1 rfl)
  exact hfail c₂ w₂ (h.imp_right fun h => .inl ⟨_, hc.errand, h.2⟩)

lemma books_stepWithoutLine (hc : c.Stands w) :
    Books c w (stepWithoutLine host) fun _ c' w' => c'.Over w' := by
  refine books_step_wait hc (fun _ _ h => Track.pure _ h) fun c₁ w₁ h => Track.get_bind ?_
  rw [if_pos h.stopped.1]
  exact (books_reportStop h).bind fun _ _ _ h => Track.pure _ (Ledger.over_of_told h)

/-- A round of a loop that goes on leaves the debuggee stopped. -/
def Ledger.Pauses {β : Type} (r : Option β) (c : Ledger) (w : World σ) : Prop :=
  c.Over w ∧ (r = none → c.Stands w)

lemma Ledger.Stands.pauses {β : Type} (h : c.Stands w) (r : Option β) : c.Pauses r w :=
  ⟨.inl h, fun _ => h⟩

lemma Ledger.Over.pauses {β : Type} (h : c.Over w) (b : β) : c.Pauses (some b) w := ⟨h, nofun⟩

lemma books_stepOnce (hc : c.Stands w) :
    Books c w (stepOnce host) fun r c' w' => c'.Pauses r w' := by
  refine books_step_wait hc (fun _ _ h => Track.pure _ (h.pauses _)) fun c₁ w₁ h =>
    Track.get_bind ?_
  split
  · exact Track.pure _ (h.pauses _)
  · exact Track.pure _ (h.pauses _)

lemma books_checkLine (startFile : Str) (startLine : BitVec 32) (hc : c.Stands w) :
    Books c w (checkLine host startFile startLine) fun r c' w' => c'.Pauses r w' := by
  refine Track.bind_rc (books_edit (edit_of_still still_refreshRegs) hc host)
    (fun _ c' w' _ h => Track.pure _ (h.pauses _)) fun c₁ w₁ h₁ => Track.get_bind ?_
  dsimp only
  split
  · exact (books_reportStop h₁).bind fun _ c' w' h =>
      Track.pure _ ((Ledger.over_of_told h).pauses _)
  refine (books_tryReportWatchpointHit h₁).bind fun hit c₂ w₂ h => ?_
  split
  · exact Track.pure _ ((Ledger.over_of_told (h.imp_right And.right)).pauses _)
  next hhit =>
  have h₂ : c₂.Stands w₂ := h.resolve_right fun h => hhit h.1
  refine Track.get_bind ?_
  split
  · exact Track.pure _ (h₂.pauses _)
  split
  · refine (books_emit rfl h₂ host).bind fun _ c₃ w₃ h₃ => ?_
    refine (books_emit rfl h₃ host).bind fun _ c₄ w₄ h₄ => ?_
    exact (books_emit rfl h₄ host).bind fun _ c' w' h => Track.pure _ (h.pauses _)
  · exact Track.pure _ (h₂.pauses _)

lemma books_nextOnce (pc : Addr) (hc : c.Stands w) :
    Books c w (nextOnce host pc) fun r c' w' => c'.Pauses r w' := by
  refine (books_edit (edit_of_still (still_callReturnAddress pc)) hc host).bind
    fun r c₁ w₁ h₁ => ?_
  cases r with
  | none => exact books_stepOnce h₁
  | some returnAddr =>
      refine Track.bind_rc (books_stepOverCall returnAddr h₁)
        (fun _ c' w' _ h => Track.pure _ (h.pauses _)) fun c₂ w₂ h => Track.get_bind ?_
      split
      · exact Track.pure _ (h.pauses _)
      next hs =>
        refine Track.pure _ ⟨h, fun _ => ?_⟩
        have hstop : w₂.dbg.state = .stopped := not_not.mp hs
        rcases h with h | ⟨_, _, h⟩ | h
        · exact h
        · simp [h.idle] at hstop
        · simp [h.idle] at hstop

/-- The loop of `step`, by induction on the rounds left. -/
lemma books_stepLoop (startFile : Str) (startLine : BitVec 32) : ∀ (n : ℕ) (c : Ledger)
    (w : World σ), c.Stands w → Books c w (stepLoop host startFile startLine n) fun _ c' w' =>
      c'.Over w'
  | 0, c, w, hc => (books_emit rfl hc host).bind fun _ c' w' h => Track.pure _ (.inl h)
  | n + 1, c, w, hc => by
      refine (books_stepOnce hc).bind fun r c₁ w₁ h₁ => ?_
      cases r with
      | some rc => exact Track.pure _ h₁.1
      | none =>
          refine (books_checkLine _ _ (h₁.2 rfl)).bind fun r c₂ w₂ h₂ => ?_
          cases r with
          | some rc => exact Track.pure _ h₂.1
          | none => exact books_stepLoop startFile startLine n c₂ w₂ (h₂.2 rfl)

/-- The loop of `next`, by induction on the rounds left. -/
lemma books_nextLoop (startFile : Str) (startLine : BitVec 32) : ∀ (n : ℕ) (pc : Addr)
    (c : Ledger) (w : World σ), c.Stands w →
      Books c w (nextLoop host startFile startLine pc n) fun _ c' w' => c'.Over w'
  | 0, _, c, w, hc => (books_emit rfl hc host).bind fun _ c' w' h => Track.pure _ (.inl h)
  | n + 1, pc, c, w, hc => by
      refine (books_nextOnce pc hc).bind fun r c₁ w₁ h₁ => ?_
      cases r with
      | some rc => exact Track.pure _ h₁.1
      | none =>
          refine (books_checkLine _ _ (h₁.2 rfl)).bind fun r c₂ w₂ h₂ => ?_
          cases r with
          | some rc => exact Track.pure _ h₂.1
          | none =>
              refine Track.get_bind ?_
              exact books_nextLoop startFile startLine n _ c₂ w₂ (h₂.2 rfl)

lemma books_stepNextLine (hc : c.Stands w) :
    Books c w (stepNextLine host) fun _ c' w' => c'.Over w' := by
  refine Track.bind_rc (books_edit (edit_of_still still_refreshRegs) hc host)
    (fun _ c' w' _ h => Track.pure _ (.inl h)) fun c₁ w₁ h₁ => Track.get_bind ?_
  split
  · exact books_stepWithoutLine h₁
  · exact books_stepLoop _ _ _ c₁ w₁ h₁

lemma books_nextSourceLine (hc : c.Stands w) :
    Books c w (nextSourceLine host) fun _ c' w' => c'.Over w' := by
  refine Track.bind_rc (books_edit (edit_of_still still_refreshRegs) hc host)
    (fun _ c' w' _ h => Track.pure _ (.inl h)) fun c₁ w₁ h₁ => Track.get_bind ?_
  split
  · exact books_stepWithoutLine h₁
  · exact books_nextLoop _ _ _ _ c₁ w₁ h₁

/-! ### Commands -/

/-- Whether ends are reported once is decided by the errands on which they happen. -/
def Ledger.Judged (cmd : Command) (c : Ledger) : Prop := c.Balanced ↔ c.Spared cmd

variable {cmd : Command}

lemma Ledger.Blank.judged (h : c.Blank) : c.Judged cmd := by
  refine iff_of_true ⟨?_, ?_⟩ ?_
  · rw [h.reports, h.ends, List.map_nil]
  · rw [h.ends]
    simp
  · rw [Ledger.Spared, h.ends]
    simp

lemma Ledger.Told.judged (h : c.Told x w) (hx : some x ≠ cmd.slip) : c.Judged cmd := by
  obtain ⟨d, hd, hends, hreports⟩ := h.once
  refine iff_of_true ⟨?_, ?_⟩ ?_
  · rw [hreports, hends, List.map_singleton]
  · simpa [hends] using hd
  · simpa [Ledger.Spared, hends] using hx

/-- An end on the errand to avoid that is not reported, or reported again. -/
lemma Ledger.judged_of_slip {d : ℕ × WaitStatus} (hends : c.ends = [(x, d)])
    (hreports : c.reports.length ≠ 1) (hx : some x = cmd.slip) : c.Judged cmd := by
  refine iff_of_false (fun h => hreports ?_) fun h => ?_
  · rw [h.1, hends, List.map_singleton, List.length_singleton]
  · exact h (x, d) (by simp [hends]) hx

/-- What `cdbg_repl` makes of what `step` and `next` leave. -/
lemma books_report_over (hc : c.Over w) (hslip : cmd.slip = some .past) :
    Books c w reportProcessExit fun _ c' _ => c'.Judged cmd := by
  rcases hc with h | ⟨x, hx, h⟩ | h
  · rcases reportProcessExit_cases w with ⟨_, he⟩ | ⟨hi, _⟩
    · exact Track.of_eq he fun _ => ⟨along_true c, h.toBlank.judged⟩
    · simp [h.stopped.1] at hi
  · refine (books_reportProcessExit h).post fun _ c' w' h => h.judged ?_
    rw [hslip]
    exact fun he => hx (Option.some.inj he)
  · obtain ⟨d, _, hends, hreports⟩ := h.once
    rcases reportProcessExit_cases w with ⟨hi, _⟩ | ⟨_, he⟩
    · exact absurd h.idle hi
    · refine Track.of_eq he fun _ => ⟨along_true c, ?_⟩
      exact Ledger.judged_of_slip (d := d) hends (by simp [Ledger.note, hreports]) hslip.symm

lemma Ledger.blank_start : Ledger.start.Blank := ⟨rfl, rfl⟩

/-- A command that does nothing without a debuggee, and starts at a stop. -/
lemma books_of_stopped {m : Debugger σ (Option ℤ)} (hw : w.Resting)
    (hm : Ledger.start.Stands w → Books .start w m fun _ c' _ => c'.Judged cmd) :
    Books .start w (do
      let w ← Prog.get
      if w.dbg.state = .idle then
        return none
      m) fun _ c' _ => c'.Judged cmd := by
  refine Track.get_bind ?_
  split
  · exact Track.pure _ Ledger.blank_start.judged
  next hi => exact hm ⟨Ledger.blank_start, nofun, hw.1.stopped hi⟩

lemma books_execStep {stepLine : Debugger σ ℤ} (hslip : cmd.slip = some .past) (hw : w.Resting)
    (h : ∀ c w, c.Stands w → Books c w stepLine fun _ c' w' => c'.Over w') :
    Books .start w (execStep stepLine) fun _ c' _ => c'.Judged cmd := by
  refine books_of_stopped hw fun hc => (h _ _ hc).bind fun rc c₁ w₁ h₁ => Track.get_bind ?_
  split
  next hrc =>
    rcases h₁ with h | ⟨_, _, h⟩ | h
    · exact Track.pure _ h.toBlank.judged
    · exact absurd h.idle hrc.2
    · exact absurd h.idle hrc.2
  · exact (books_report_over h₁ hslip).bind fun _ c' w' h => Track.pure _ h

/-- After a wait in `cdbg_repl` itself every end is reported once. -/
lemma books_waitAndReport (hc : c.Blank) (hw : w.inState .running)
    (hown : some c.errand ≠ cmd.slip) (hpast : some .past ≠ cmd.slip) :
    Books c w (waitAndReport host) fun _ c' _ => c'.Judged cmd := by
  refine Track.bind_rc (books_cdbgWait hc hw) (fun rc c₁ w₁ _ h => Track.get_bind ?_)
    fun c₁ w₁ h => Track.get_bind ?_
  · rcases h with h | ⟨_, h⟩
    · rw [if_neg (by simp [h.stopped.1])]
      exact Track.pure _ h.toBlank.judged
    · rw [if_pos h.idle]
      exact (books_reportProcessExit h).bind fun _ c' w' h => Track.pure _ (h.judged hown)
  · have h₁ : c₁.Stands w₁ := h.resolve_right fun h => h.1 rfl
    rw [if_pos h₁.stopped.1]
    refine (books_reportStop h₁).bind fun _ c' w' h => Track.pure _ ?_
    exact h.elim (fun h => h.toBlank.judged) fun h => h.judged hpast

lemma books_execContinue (hw : w.Resting) :
    Books .start w (execContinue host) fun _ c' _ => c'.Judged .continue_ := by
  refine books_of_stopped hw fun hc => ?_
  refine Track.bind_rc (books_cdbgContinue hc) (fun rc c₁ w₁ hrc h => Track.pure _ ?_)
    fun c₁ w₁ h => Track.get_bind ?_
  · rcases (h.resolve_left fun h => hrc h.1).2 with h | h
    · exact h.toBlank.judged
    · exact Ledger.judged_of_slip h.ends (by simp [h.reports]) rfl
  · obtain ⟨-, hblank, herrand, hrun⟩ := h.resolve_right fun h => h.1 rfl
    rw [if_neg (by simp [hrun.1])]
    refine books_waitAndReport hblank hrun ?_ nofun
    rw [herrand]
    nofun

lemma books_execSi (hw : w.Resting) :
    Books .start w (execSi host) fun _ c' _ => c'.Judged .si := by
  refine books_of_stopped hw fun hc => ?_
  refine Track.bind_rc (books_cdbgSingleStep hc.stopped) (fun rc c' w' hrc h => absurd h.1 hrc)
    fun c₁ w₁ ⟨_, hc₁, hw₁⟩ => ?_
  subst hc₁
  exact books_waitAndReport hc.toBlank hw₁ nofun nofun

/-- A command that resumes nothing. -/
lemma books_judged_edit {m : Debugger σ α} (hm : Moves Edit m) (cmd : Command) :
    Books .start w m fun _ c' _ => c'.Judged cmd := by
  have hlevel := Ledger.level_foldl (c := .start) (hm.events (fun _ _ _ h => h.edits) w)
  exact fun _ => ⟨along_true _, fun _ => hlevel.blank Ledger.blank_start, fun _ _ =>
    (hlevel.blank Ledger.blank_start).judged⟩

end Calls

/-- **Every command** that does not end the debuggee itself reports an end once exactly if it
happens on another errand than the one it slips on. -/
lemma books_execCommand {w : World σ} (hw : w.Resting) {cmd : Command}
    (hcmd : cmd.endsProcess = false) :
    Books .start w (execCommand host cmd) fun _ c' _ => c'.Judged cmd := by
  have hpure : Books .start w (pure none : Debugger σ (Option ℤ)) fun _ c' _ => c'.Judged cmd :=
    Track.pure _ Ledger.blank_start.judged
  have hedit {β : Type} {m : Debugger σ β} (h : Moves Edit m) :
      Books .start w (ignoring m) fun _ c' _ => c'.Judged cmd :=
    books_judged_edit (moves_ignoring h) cmd
  cases cmd with
  | quit | run | kill => cases hcmd
  | continue_ => exact books_execContinue hw
  | step => exact books_execStep rfl hw fun _ _ => books_stepNextLine
  | si => exact books_execSi hw
  | next => exact books_execStep rfl hw fun _ _ => books_nextSourceLine
  | up => exact hedit (edit_of_still still_frameUp)
  | regs => exact books_judged_edit (edit_of_still still_execRegs) _
  | print fmt arg => exact hedit (edit_of_still (still_cmdPrint _))
  | set arg => exact hedit (edit_cmdSet arg)
  | show_ arg => exact hedit (edit_of_still (still_cmdShow arg))
  | tb => exact hedit (edit_of_still still_cmdBacktrace)
  | break_ arg =>
      cases arg with
      | none => exact hpure
      | some target => exact hedit (edit_cmdBreak target)
  | del arg => exact hedit (edit_cmdDel arg)
  | watch kind arg => exact hedit (edit_of_still (still_cmdWatch arg kind))
  | delwatch arg => exact hedit (edit_of_still (still_cmdDelwatch arg))
  | list arg => exact hedit (edit_of_still (still_cmdList arg))
  | thread arg =>
      cases arg with
      | none => exact hpure
      | some arg => exact hedit (edit_cmdThread arg)
  | empty | help | leaks | dis | lines | lists | syms | x | unknown => exact hpure

/-! ### Sessions -/

/-- What is done before a command is read belongs to no turn. -/
lemma splitTurns_append {t : List (Event σ)} (h : ∀ e ∈ t, e.kind.commandRead = none)
    (t' : List (Event σ)) :
    splitTurns (t ++ t') = (t ++ (splitTurns t').1, (splitTurns t').2) := by
  induction t with
  | nil => rfl
  | cons e t ih =>
      rw [List.cons_append, splitTurns, h e List.mem_cons_self]
      simp only [ih fun e' he' => h e' (List.mem_cons_of_mem _ he'), List.cons_append]

lemma turns_append {t : List (Event σ)} (h : ∀ e ∈ t, e.kind.commandRead = none)
    (t' : List (Event σ)) : turns (t ++ t') = turns t' := by
  rw [turns, turns, splitTurns_append h]

lemma splitTurns_command {t t' : List (Event σ)} (h : ∀ e ∈ t, e.kind.commandRead = none)
    (h' : (splitTurns t').1 = []) (cmd : Command) (w : World σ) :
    splitTurns (⟨.command cmd, w⟩ :: (t ++ t')) = ([], (cmd, t) :: (splitTurns t').2) := by
  rw [splitTurns, splitTurns_append h, h', List.append_nil]
  rfl

/-- The turns of these events are judged by their errands. -/
def Judged (t : List (Event σ)) : Prop := ∀ turn ∈ turns t, (Ledger.of turn.2).Judged turn.1

lemma Judged.nil : Judged ([] : List (Event σ)) := by simp [Judged, turns, splitTurns]

/-- A turn, whether its command returns or not, and those after it. -/
lemma Judged.command (host : Host σ) {w : World σ} (hw : w.Resting) {cmd : Command}
    {t' : List (Event σ)}
    (h' : (splitTurns t').1 = []) (hrest : Judged t') :
    (splitTurns (⟨.command cmd, w⟩ :: ((execCommand host cmd w).trace ++ t'))).1 = [] ∧
      Judged (⟨.command cmd, w⟩ :: ((execCommand host cmd w).trace ++ t')) := by
  have hread := commandRead_of_moves (grain_execCommand (Fine.grain host) cmd) w
  have hsplit := splitTurns_command hread h' cmd w
  refine ⟨by rw [hsplit], fun turn hturn => ?_⟩
  rw [turns, hsplit, List.filter_cons] at hturn
  split at hturn
  next hends =>
    rcases List.mem_cons.mp hturn with rfl | hturn
    · have hbooks : Books .start w (execCommand host cmd) fun _ c' _ => c'.Judged cmd :=
        books_execCommand hw (by simpa using hends)
      obtain ⟨_, hblank, hjudged⟩ := hbooks (along_true _)
      rcases h : (execCommand host cmd w).value with _ | r
      · exact (hblank h).judged
      · exact hjudged r h
    · exact hrest turn hturn
  next => exact hrest turn hturn

/-- The turns of `cdbg_repl`, by induction on the lines left. -/
lemma judged_replLoop : ∀ (lines : List Str) {w : World σ}, w.Resting →
    (splitTurns (replLoop host lines w).trace).1 = [] ∧ Judged (replLoop host lines w).trace
  | [], _, _ => ⟨rfl, .nil⟩
  | line :: lines, w, hw => by
      have hrun : replLoop host (line :: lines) w = _ := emit_bind _ _ w
      rw [hrun]
      rcases Prog.bind_cases (execCommand host (Command.parse line)) _ w with
        ⟨_, h⟩ | ⟨r, hr, h⟩
      · rw [h]
        simpa using Judged.command host hw rfl .nil
      · rw [h]
        cases r with
        | some rc => exact Judged.command host hw rfl .nil
        | none =>
            have hnext := (rests_execCommand _ w hw fun _ _ => trivial).2 none hr rfl
            have hrest := judged_replLoop lines hnext
            exact Judged.command host hw hrest.1 hrest.2

/-- What is done before `cdbg_repl` is entered belongs to no turn. -/
lemma judged_bind {m : Debugger σ α} {f : α → Debugger σ ℤ} {w : World σ}
    (hm : Moves (Fine host) m)
    (hf : ∀ a, (m w).value = some a → Judged (f a (m w).final).trace) :
    Judged ((m >>= f) w).trace := by
  have hread := commandRead_of_moves hm w
  rcases Prog.bind_cases m f w with ⟨_, h⟩ | ⟨a, ha, h⟩
  · rw [h, Judged, ← List.append_nil (m w).trace, turns_append hread]
    exact Judged.nil
  · rw [h, Judged, turns_append hread]
    exact hf a ha

/-- The turns of a session are judged by their errands. -/
lemma judged_cdbgMain (host : Host σ) (s : σ) (argv input : List Str) :
    Judged (cdbgMain host argv input (World.start s)).trace := by
  cases argv with
  | nil => exact .nil
  | cons program args =>
  rw [cdbgMain]
  cases resolveProgram host program with
  | none => exact .nil
  | some path =>
  dsimp only
  split
  · exact .nil
  have htarget : Moves (Fine host) (setRunTarget (σ := σ) (path :: args)) :=
    fine_of_still (still_setRunTarget _)
  refine judged_bind htarget fun rc hrc => ?_
  have h₁ := (rests_edit host (edit_of_still (still_setRunTarget (path :: args))) _
    (World.resting_start s) fun _ _ => trivial).2 rc hrc
  split
  · exact .nil
  refine judged_bind (grain_cdbgRun (Fine.grain host) none) fun rc hrc => ?_
  have h₂ := (rests_cdbgRun none _ h₁ fun _ _ => trivial).2 rc hrc
  split
  · exact .nil
  have hrepl : Judged (cdbgRepl host input _).trace := (judged_replLoop (replLines input) h₂).2
  rcases Prog.bind_cases (cdbgRepl host input) _
    (cdbgRun host none (setRunTarget (path :: args) (World.start s)).final).final with
    ⟨_, h⟩ | ⟨r, _, h⟩
  · rw [h]
    exact hrepl
  · rw [h]
    split <;> simpa using hrepl

/-- **Reports of the end of a process**: every process that ends while a command other than
`run`, `kill` and `quit` is carried out is reported once, with its id and its status, exactly if
none ends in the step past a watchpoint of a `step` or `next` or in the step off a disabled
breakpoint of a `continue`. -/
theorem reportsOnce_iff (host : Host σ) (s : σ) (argv input : List Str) :
    ReportsOnce (cdbgMain host argv input (World.start s)).trace ↔
      ∀ turn ∈ turns (cdbgMain host argv input (World.start s)).trace,
        (Ledger.of turn.2).Spared turn.1 :=
  forall₂_congr (judged_cdbgMain host s argv input)

/-- A child with one thread that hits a watchpoint at `0x2000` and exits with the next step. -/
def pastScript : Script :=
  ⟨[.of (.plain [])], [.stopped (.plain []), .stopped (.trapped 0x2000 []), .exited 3]⟩

/-- A child with one thread that stops at `0x1004` and exits with the next step. -/
def offScript : Script :=
  ⟨[.of (.at 0x1000 fun _ => 0)], [.stopped (.at 0x1000 fun _ => 0),
    .stopped (.at 0x1004 fun _ => 0), .exited 3]⟩

/-- An end reported twice by `step`, and one that `continue` does not report. -/
theorem not_reportsOnce :
    ¬ ReportsOnce (cdbgMain (Script.host .stripped) ["a".toList]
        ["watch *0x2000".toList, "step".toList] (World.start pastScript)).trace ∧
      ¬ ReportsOnce (cdbgMain (Script.host .stripped) ["a".toList]
        ["break 0x1004".toList, "continue".toList, "continue".toList]
        (World.start offScript)).trace := by
  decide +kernel

end Cdbg
