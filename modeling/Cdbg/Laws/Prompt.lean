import Cdbg.Laws.Survival

/-!
The state of the debugger at a prompt.

Wherever the end of the process is noticed, `cdbg_wait` only sets the state; the process
id and the tables are left to whoever called it. At a prompt all of it has been done: the
debugger is idle or stopped, idle exactly if it has no process id, and an idle debugger
has no entry marked enabled (`World.AtPrompt`). Every function that resumes the debuggee
returns with the debugger in control (`World.Settled`), whatever failed on the way, and
the commands that call them report an exit that nobody has reported (`World.Resting`).
-/

namespace Cdbg

open Prog

variable {σ α : Type} {host : Host σ} {pid : ℕ}

/-- No entry of either table is marked enabled. -/
def Dbg.Unarmed (d : Dbg) : Prop :=
  (∀ bp ∈ d.breakpoints.toList, bp.enabled = false) ∧
    ∀ wp ∈ d.watchpoints.toList, wp.enabled = false

/-- What the state of the debugger says at a prompt. -/
structure World.AtPrompt (w : World σ) : Prop where
  state : w.dbg.state = .idle ∨ w.dbg.state = .stopped
  idle_iff : w.dbg.state = .idle ↔ w.dbg.pid = 0
  unarmed : w.dbg.state = .idle → w.dbg.Unarmed

/-- A command is read at a prompt. -/
def Event.prompted (e : Event σ) : Prop := e.kind.commandRead.isSome → e.world.AtPrompt

/-- The debugger has control, and the end of a process has been reported. -/
def World.Resting (w : World σ) : Prop :=
  w.Settled ∧ (w.dbg.state = .idle → w.dbg.pid = 0 ∧ w.dbg.Unarmed)

lemma World.resting_start (s : σ) : (World.start s).Resting :=
  ⟨World.settled_start s, fun _ => ⟨rfl, by simp [World.start, Dbg.init],
    by simp [World.start, Dbg.init]⟩⟩

/-- The hit of a watchpoint is announced while the debuggee is stopped. -/
def Event.sighted (e : Event σ) : Prop := e.kind.isHit = true → e.world.inState .stopped

lemma Event.sighted_of_not_hit {e : Event σ} (h : e.kind.isHit = false) : e.sighted := by
  intro hk
  rw [h] at hk
  cases hk

lemma Event.sighted_of_plain {e : Event σ} (h : e.kind.plain = true) : e.sighted :=
  sighted_of_not_hit (EventKind.plain.not_hit h)

/-- From a world in `P`, hits are announced at stops only, and the value returned and the
world left satisfy `Q`. -/
abbrev Rests (P : World σ → Prop) (m : Debugger σ α) (Q : α → World σ → Prop) : Prop :=
  Spec (fun _ : Event σ => True) Event.sighted P m Q

namespace World

lemma Resting.settled {w : World σ} (h : w.Resting) : w.Settled := h.1

lemma inState.resting {w : World σ} (h : w.inState .stopped) : w.Resting := by
  refine ⟨h.settled_of_stopped, fun hi => ?_⟩
  rw [h.1] at hi
  cases hi

/-- A debugger at rest is at a prompt. -/
lemma Resting.atPrompt {w : World σ} (h : w.Resting) : w.AtPrompt := by
  have hst : w.dbg.state ≠ .idle → w.inState .stopped := h.1.stopped
  refine ⟨?_, ⟨fun hi => (h.2 hi).1, fun h0 => ?_⟩, fun hi => (h.2 hi).2⟩
  · by_cases hi : w.dbg.state = .idle
    · exact Or.inl hi
    · exact Or.inr (hst hi).1
  · by_contra hi
    -- the process id of a stopped debugger is that of a process
    obtain ⟨p, hp, _⟩ := (hst hi).task
    have hpid := (taskForPid_eq_some.mp hp).2
    have hpos := p.pid_pos
    omega

/-- An idle debugger has no process to reach. -/
lemma Settled.no_task {w : World σ} (h : w.Settled) (hi : w.dbg.state = .idle) (pid : ℕ) :
    w.taskForPid pid = none := by
  cases hp : w.taskForPid pid with
  | none => rfl
  | some p => exact absurd hi (h.2.not_idle hp)

end World

/-! ### Edits -/

/-- Entries taken from disabled ones. -/
lemma Dbg.Unarmed.of_subset {d d' : Dbg} (h : d.Unarmed)
    (hb : ∀ bp ∈ d'.breakpoints.toList, bp ∈ d.breakpoints.toList)
    (hw : ∀ wp ∈ d'.watchpoints.toList, wp ∈ d.watchpoints.toList) : d'.Unarmed :=
  ⟨fun bp hbp => h.1 bp (hb bp hbp), fun wp hwp => h.2 wp (hw wp hwp)⟩

/-- A quiet step of an idle debugger arms nothing. -/
lemma Still.unarmed {w w' : World σ} {t : List (Event σ)} (h : Still w t w')
    (hn : ∀ pid, w.taskForPid pid = none) (hu : w.dbg.Unarmed) : w'.dbg.Unarmed := by
  obtain ⟨hq, ht, _⟩ := h
  have hb : ∀ bp ∈ w'.dbg.breakpoints.toList, bp.enabled = false := by
    rw [hq.breakpoints]
    exact hu.1
  cases ht with
  | hush hw _ =>
      refine ⟨hb, fun wp hwp => ?_⟩
      have hmem : wp.arming ∈ w.dbg.watchpoints.toList.map Watchpoint.arming :=
        hw ▸ List.mem_map_of_mem hwp
      obtain ⟨wp', hwp', he⟩ := List.mem_map.mp hmem
      have hen : wp'.enabled = wp.enabled := congrArg Arming.enabled he
      rw [← hen]
      exact hu.2 wp' hwp'
  | watch wp _ _ =>
      rcases addWatchpoint_cases wp w with ⟨rc, h⟩ | ⟨p, hp, _⟩
      · rw [h]
        exact hu
      · rw [hn] at hp
        cases hp
  | unwatch i =>
      rcases deleteWatchpointAt_cases i w with ⟨_, h⟩ | ⟨wp, _, ⟨_, h⟩ | ⟨p, hp, _⟩⟩
      · rw [h]
        exact hu
      · rw [h]
        exact hu.of_subset (fun _ h => h) fun _ h => List.mem_of_mem_eraseIdx h
      · rw [hn] at hp
        cases hp

/-- An edit of an idle debugger arms nothing and leaves the process id alone. -/
lemma Edit.unarmed {w w' : World σ} {t : List (Event σ)} (h : Edit w t w')
    (hn : ∀ pid, w.taskForPid pid = none) (hu : w.dbg.Unarmed) :
    w'.dbg.pid = w.dbg.pid ∧ w'.dbg.Unarmed := by
  cases h with
  | still h => exact ⟨h.1.pid, h.unarmed hn hu⟩
  -- without a process nothing is planted, restored, frozen or stored
  | enable _ _ _ hbp =>
      rcases enableEntry_cases hbp with ⟨_, h⟩ | ⟨p, hp, _⟩
      · rw [h]
        exact ⟨rfl, hu⟩
      · rw [hn] at hp
        cases hp
  | disable _ _ _ hbp =>
      rcases disableEntry_cases hbp with ⟨_, h⟩ | ⟨_, p, hp, _⟩ | ⟨_, _, h⟩ | ⟨_, p, hp, _⟩
      · rw [h]
        exact ⟨rfl, hu⟩
      · rw [hn] at hp
        cases hp
      · rw [h]
        exact ⟨rfl, hu⟩
      · rw [hn] at hp
        cases hp
  | add _ addr =>
      rcases addBreakpoint_cases addr w with h | ⟨_, h⟩ | ⟨p, hp, _⟩
      · rw [h]
        exact ⟨rfl, hu⟩
      · rw [h]
        exact ⟨rfl, hu⟩
      · rw [hn] at hp
        cases hp
  | erase i =>
      exact ⟨rfl, hu.of_subset (fun _ h => List.mem_of_mem_eraseIdx h) fun _ h => h⟩
  | freeze =>
      rcases threadsSuspendOthers_cases w.dbg.pid w.dbg.currentTid w with h | ⟨p, hp, _⟩
      · rw [h]
        exact ⟨rfl, hu⟩
      · rw [hn] at hp
        cases hp
  | select => exact ⟨rfl, hu⟩
  | store _ addr size value =>
      rcases writeScalarValue_cases addr size value w with ⟨_, h⟩ | ⟨p, hp, _⟩
      · rw [h]
        exact ⟨rfl, hu⟩
      · rw [hn] at hp
        cases hp

/-- An edit keeps the debugger at rest. -/
lemma Edit.resting (host : Host σ) {w w' : World σ} {t : List (Event σ)} (h : Edit w t w')
    (hw : w.Resting) : w'.Resting := by
  have hc := Fine.coherent (.prim (.edit h) : Fine host w t w') hw.1.2
  refine ⟨⟨h.state ▸ hw.1.1, hc⟩, fun hi => ?_⟩
  have hi' : w.dbg.state = .idle := h.state ▸ hi
  obtain ⟨hpid, hu⟩ := h.unarmed (hw.1.no_task hi') (hw.2 hi').2
  exact ⟨hpid.trans (hw.2 hi').1, hu⟩

lemma rests_edit (host : Host σ) {m : Debugger σ α} (h : Moves Edit m) :
    Rests World.Resting m fun _ => World.Resting :=
  h.spec fun _ _ _ he hw _ => ⟨he.resting host hw, fun e h => Event.sighted_of_plain (he.plain e h)⟩

/-! ### Stops -/

lemma rests_stopped (host : Host σ) {m : Debugger σ α} (h : Moves Edit m) :
    Rests (World.inState .stopped) m fun _ => World.inState .stopped :=
  h.spec fun _ _ _ he hw _ => ⟨he.inState host hw, fun e h => Event.sighted_of_plain (he.plain e h)⟩

lemma rests_emit {k : EventKind} (hk : k.plain = true) {P : World σ → Prop} :
    Rests P (emit k) fun _ => P :=
  Spec.emit (fun _ _ _ => Event.sighted_of_plain hk) fun _ h _ => h

/-- A hit is announced. -/
lemma rests_sight (k : EventKind) :
    Rests (World.inState .stopped) (emit (σ := σ) k) fun _ => World.inState .stopped :=
  Spec.emit (fun _ hw _ _ => hw) fun _ h _ => h

lemma thawAndContinue_not_hit (w : World σ) :
    ∀ e ∈ (thawAndContinue (σ := σ) w).trace, e.kind.isHit = false := by
  rcases thawAndContinue_cases w with ⟨_, h⟩ | ⟨p, _, ⟨_, h⟩ | ⟨_, h⟩⟩ <;>
    simp [h, EventKind.isHit]

lemma bpDisable_not_hit (bp : Breakpoint) (w : World σ) :
    ∀ e ∈ (bpDisable bp w.dbg.pid w).trace, e.kind.isHit = false := by
  rcases bpDisable_cases bp w.dbg.pid w with ⟨_, h⟩ | ⟨_, p, _, _, h⟩ | ⟨_, _, h⟩ |
    ⟨_, p, _, _, h⟩ <;> simp [h, EventKind.isHit]

lemma bpEnable_not_hit (addr : Addr) (w : World σ) :
    ∀ e ∈ (bpEnable .temp .zero w.dbg.pid addr w).trace, e.kind.isHit = false := by
  rcases bpEnable_cases .temp .zero w.dbg.pid addr w with ⟨_, h⟩ | ⟨p, _, _, h⟩ <;>
    simp [h, EventKind.isHit]

lemma reportProcessExit_not_hit (w : World σ) :
    ∀ e ∈ (reportProcessExit (σ := σ) w).trace, e.kind.isHit = false := by
  rcases reportProcessExit_cases w with ⟨_, h⟩ | ⟨_, h⟩ <;> simp [h, EventKind.isHit]

lemma cdbgSingleStep_not_hit (w : World σ) :
    ∀ e ∈ (cdbgSingleStep (σ := σ) w).trace, e.kind.isHit = false := by
  rcases cdbgSingleStep_cases w with ⟨h, _⟩ | ⟨p, _, _, h⟩ <;> simp [h, EventKind.isHit]

lemma rests_singleStep :
    Rests (World.inState .stopped) (cdbgSingleStep (σ := σ))
      fun rc w => rc = 0 ∧ w.inState .running := by
  intro w hw _
  obtain ⟨p, hp, hr⟩ := hw.task
  refine ⟨fun e he => Event.sighted_of_not_hit (cdbgSingleStep_not_hit w e he),
    fun rc hrc => ?_⟩
  rcases cdbgSingleStep_cases w with ⟨_, hne⟩ | ⟨q, hq, _, h⟩
  · exact absurd hr (hne p hp)
  · rw [h] at hrc ⊢
    exact ⟨(Option.some.inj hrc).symm, World.coherent_resumed
      (q := { q with running := some .step }) hq rfl rfl (by simp)⟩

lemma rests_thawAndContinue :
    Rests (World.inState .stopped) (thawAndContinue (σ := σ))
      fun rc w => rc = 0 ∧ w.inState .running := by
  intro w hw _
  obtain ⟨p, hp, hr⟩ := hw.task
  refine ⟨fun e he => Event.sighted_of_not_hit (thawAndContinue_not_hit w e he), fun rc hrc => ?_⟩
  rcases thawAndContinue_cases w with ⟨hn, _⟩ | ⟨q, hq, ⟨hr', _⟩ | ⟨_, h⟩⟩
  · rw [hp] at hn
    cases hn
  · obtain rfl : p = q := Option.some.inj (hp.symm.trans hq)
    exact absurd hr hr'
  · rw [h] at hrc ⊢
    exact ⟨(Option.some.inj hrc).symm, World.coherent_resumed
      (q := { q.thawed w.dbg.currentTid with running := some .cont }) hq rfl rfl (by simp)⟩

lemma rests_waitForStop :
    Rests (World.inState .running) (waitForStop host) fun rc w => rc = 0 ∧ w.Settled := by
  intro w hw _
  refine ⟨fun e he => Event.sighted_of_plain ((Prim.wait w).plain e he), fun rc hrc => ?_⟩
  rcases waitForStop_of_running host hw with h | ⟨p, r, o, h', hp, hr, ho, h⟩
  · rw [h] at hrc
    cases hrc
  · rw [h] at hrc ⊢
    exact ⟨(Option.some.inj hrc).symm, World.settled_afterWait hp h' o⟩

/-- The debugger has control, and a result of zero means that it has stopped. -/
def World.Halts (rc : ℤ) (w : World σ) : Prop := w.Settled ∧ (rc = 0 → w.inState .stopped)

lemma World.inState.halts {w : World σ} (h : w.inState .stopped) (rc : ℤ) : w.Halts rc :=
  ⟨h.settled_of_stopped, fun _ => h⟩

lemma edit_reenableBreakpointsAfterStep :
    Moves Edit (reenableBreakpointsAfterStep (σ := σ)) :=
  moves_reenableBreakpointsAfterStep (edit_of_still still_refreshRegs) Edit.enable

lemma rests_cdbgWait : Rests (World.inState .running) (cdbgWait host) World.Halts := by
  refine Spec.bind_ok rests_waitForStop <| Spec.get_bind fun w hw => ?_
  refine Spec.ite (fun hi => Spec.pure_from 1 ⟨hw, by simp⟩) fun hi => ?_
  refine Spec.bind_rc ((rests_stopped host edit_reenableBreakpointsAfterStep).from (hw.stopped hi))
    (fun _ _ => Spec.pure _ fun _ h => h.halts _) (Spec.pure _ fun _ h => h.halts _)

/-- A single step and the wait for it, with what follows. -/
lemma rests_step_wait {Q : α → World σ → Prop} {fail : ℤ → Debugger σ α} {rest : Debugger σ α}
    {stuck : ℤ → Debugger σ α}
    (hfail : ∀ rc, rc ≠ 0 → Rests World.Settled (fail rc) Q)
    (hrest : Rests (World.inState .stopped) rest Q) :
    Rests (World.inState .stopped) (cdbgSingleStep >>= fun rc => if rc ≠ 0 then stuck rc else
      cdbgWait host >>= fun rc => if rc ≠ 0 then fail rc else rest) Q :=
  Spec.bind_ok rests_singleStep <| Spec.bind_rc rests_cdbgWait
    (fun rc hrc => (hfail rc hrc).pre fun _ h => h.1) (hrest.pre fun _ h => h.2 rfl)

lemma rests_stepOverDisabledBreakpoint :
    Rests (World.inState .stopped) (stepOverDisabledBreakpoint host) World.Halts := by
  refine Spec.get_bind fun w hw => Spec.ite (fun _ => Spec.pure_from _ (hw.halts _)) fun _ => ?_
  refine Spec.bind_rc ((rests_stopped host (edit_of_still still_refreshRegs)).from hw)
    (fun _ _ => Spec.pure _ fun _ h => h.halts _) ?_
  refine Spec.bind (rests_emit rfl) fun _ => Spec.get_bind fun w' hw' => ?_
  refine Spec.ite (fun _ => Spec.pure_from _ (hw'.halts _)) fun _ => ?_
  exact Spec.bind_ok (rests_singleStep.from hw') rests_cdbgWait

/-- `cdbg_continue` leaves the debuggee running if it succeeds. -/
lemma rests_cdbgContinue :
    Rests (World.inState .stopped) (cdbgContinue host)
      fun rc w => rc = 0 ∧ w.inState .running ∨ rc ≠ 0 ∧ w.Settled := by
  refine Spec.bind_rc rests_stepOverDisabledBreakpoint
    (fun rc hrc => Spec.pure rc fun _ h => Or.inr ⟨hrc, h.1⟩) ?_
  refine Spec.get_bind fun w hw => Spec.ite (fun hi => ?_) fun _ => ?_
  · have hs := (hw.2 rfl).1
    rw [hi] at hs
    cases hs
  · exact (rests_thawAndContinue.from (hw.2 rfl)).post fun _ _ h => Or.inl h

/-! ### Reporting a stop -/

lemma rests_reportProcessExit :
    Rests World.Settled (reportProcessExit (σ := σ)) fun _ => World.Resting := by
  intro w hw _
  refine ⟨fun e he => Event.sighted_of_not_hit (reportProcessExit_not_hit w e he), fun _ _ => ?_⟩
  rcases reportProcessExit_cases w with ⟨hi, h⟩ | ⟨hi, h⟩
  · rw [h]
    exact (hw.stopped hi).resting
  · rw [h]
    have hc := hw.2
    rw [World.Coherent, hi] at hc
    have hst : w.dbg.exitReported.state = .idle := hi
    refine ⟨⟨by simp [hst], ?_⟩, fun _ => ⟨rfl, ?_, ?_⟩⟩
    · rw [World.Coherent, World.setDbg_dbg, hst]
      exact hc
    · simp [Dbg.exitReported, Dbg.disableAll]
    · simp [Dbg.exitReported, Dbg.disableAll]

/-- An exit is reported before the end of a program. -/
lemma rests_exitReported {P : World σ → Prop} (hP : ∀ w, P w → w.Settled) (a : α) :
    Rests P (reportProcessExit >>= fun _ => pure a) fun _ => World.Resting :=
  Spec.bind (rests_reportProcessExit.pre hP) fun _ => Spec.pure _ fun _ h => h

lemma rests_stepPastAllWatchpoints :
    Rests (World.inState .stopped) (stepPastAllWatchpoints host)
      fun rc w => w.Settled ∧ (rc ≠ 0 → w.inState .stopped) := by
  refine Spec.get_bind fun w hw => Spec.bind (spec_rig host (.disarm w) hw) fun _ =>
    rests_step_wait (fun rc _ => Spec.get_bind fun w' hw' => Spec.pure_from _ ⟨hw', ?_⟩) ?_
  · intro hne
    refine hw'.stopped fun hi => hne ?_
    rw [if_pos hi]
  · refine Spec.get_bind fun w' hw' => Spec.ite
      (fun _ => Spec.pure_from _ ⟨hw'.settled_of_stopped, fun _ => hw'⟩) fun _ => ?_
    exact (spec_rig host (.arm w') hw').post fun _ _ h => ⟨h.settled_of_stopped, fun _ => h⟩

lemma rests_handleWatchpointHit (index : ℕ) (isWrite : Bool) :
    Rests (World.inState .stopped) (handleWatchpointHit host index isWrite)
      fun _ => World.Resting := by
  refine Spec.bind (rests_sight _) fun _ => Spec.bind_rc rests_stepPastAllWatchpoints
    (fun _ hrc => Spec.pure _ fun _ h => (h.2 hrc).resting) ?_
  refine Spec.get_bind fun w hw => Spec.ite
    (fun _ => rests_exitReported (fun _ h => h ▸ hw.1) _) fun hs => ?_
  have hst : w.inState .stopped := hw.1.stopped (by simp [not_not.mp hs])
  refine Spec.bind ((rests_stopped host (edit_of_still (still_recordValue _))).from hst)
    fun _ => Spec.get_bind fun w' hw' => ?_
  exact Spec.bind ((rests_stopped host (edit_of_still (still_printStopLocation _))).from hw')
    fun _ => Spec.pure _ fun _ h => h.resting

lemma rests_handleUnresolvedWatchpointHit (far : Addr) :
    Rests (World.inState .stopped) (handleUnresolvedWatchpointHit host far)
      fun _ => World.Resting := by
  refine Spec.bind (rests_sight _) fun _ => Spec.bind_rc rests_stepPastAllWatchpoints
    (fun _ hrc => Spec.pure _ fun _ h => (h.2 hrc).resting) ?_
  refine Spec.get_bind fun w hw => Spec.ite
    (fun _ => rests_exitReported (fun _ h => h ▸ hw.1) _) fun hs => ?_
  have hst : w.inState .stopped := hw.1.stopped (by simp [not_not.mp hs])
  exact Spec.bind ((rests_stopped host (edit_of_still (still_printStopLocation _))).from hst)
    fun _ => Spec.pure _ fun _ h => h.resting

/-- Without a watchpoint exception nothing happens; with one the debuggee is stepped. -/
lemma rests_tryReportWatchpointHit :
    Rests (World.inState .stopped) (tryReportWatchpointHit host)
      fun hit w => w.Resting ∧ (hit = false → w.inState .stopped) := by
  refine Spec.get_bind fun w hw => ?_
  split
  · exact Spec.pure_from _ ⟨hw.resting, fun _ => hw⟩
  split
  · exact Spec.bind ((rests_handleWatchpointHit _ _).from hw) fun _ =>
      Spec.pure _ fun _ h => ⟨h, by simp⟩
  · exact Spec.bind ((rests_handleUnresolvedWatchpointHit _).from hw) fun _ =>
      Spec.pure _ fun _ h => ⟨h, by simp⟩

/-- At a breakpoint hit nothing is resumed. -/
lemma rests_handleBreakpointHit {w : World σ} (host : Host σ) {index : ℕ} {bp : Breakpoint}
    (hbp : w.dbg.breakpoints.entry index = some bp) (hw : w.inState .stopped) :
    Rests (· = w) (handleBreakpointHit index bp) fun _ => World.Resting := by
  intro u hu _
  subst hu
  obtain ⟨w', hc, hw'⟩ := movesFrom_handleBreakpointHit (σ := σ) hbp
  have hst : w'.inState .stopped ∧
      ∀ e ∈ (handleBreakpointHit index bp u).trace, e.sighted :=
    hc.invariant (fun _ _ _ he h _ => ⟨he.inState host h,
      fun e ht => Event.sighted_of_plain (he.plain e ht)⟩) hw
      (fun _ _ => trivial : ∀ e ∈ _, True)
  exact ⟨hst.2, fun a ha => hw' a ha ▸ hst.1.resting⟩

lemma rests_announceStop :
    Rests (World.inState .stopped) (announceStop host) fun _ => World.Resting := by
  refine Spec.bind (rests_stopped host edit_selectHitThread) fun _ => Spec.get_bind fun w hw => ?_
  have hfreeze : Rests (· = w) (threadsSuspendOthers w.dbg.pid w.dbg.currentTid)
      fun _ => World.inState .stopped := by
    rintro _ rfl _
    exact ⟨fun e he => Event.sighted_of_plain ((Edit.freeze _).plain e he),
      fun _ _ => (Edit.freeze _).inState host hw⟩
  refine Spec.bind hfreeze fun _ => Spec.bind_rc
    (rests_stopped host (edit_of_still still_refreshRegs))
    (fun _ _ => Spec.pure _ fun _ h => h.resting) ?_
  refine Spec.bind (rests_stopped host (edit_of_still still_printStopHeader)) fun _ =>
    Spec.get_bind fun w' hw' => ?_
  dsimp only
  split
  · split
    · next bp hbp => exact rests_handleBreakpointHit host hbp hw'
    · exact Spec.pure_from _ hw'.resting
  · refine Spec.bind (rests_tryReportWatchpointHit.from hw') fun hit =>
      Spec.ite (fun _ => Spec.pure _ fun _ h => h.1) fun hhit => ?_
    refine Spec.bind (rests_emit rfl) fun _ => Spec.bind
      ((rests_stopped host (edit_of_still (still_printStopLocation _))).pre
        fun _ h => h.2 (Bool.eq_false_iff.mpr hhit)) fun _ => Spec.pure _ fun _ h => h.resting

lemma rests_reportStop :
    Rests (World.inState .stopped) (reportStop host) fun _ => World.Resting :=
  Spec.bind rests_announceStop fun rc => Spec.bind (rests_emit rfl) fun _ =>
    Spec.pure rc fun _ h => h

/-! ### `step` and `next` -/

/-- A breakpoint structure enabled or disabled leaves the debugger in its state. -/
lemma rests_lift (host : Host σ) (bp : Breakpoint) (s : State) :
    Rests (fun w : World σ => w.inState s ∧ pid = w.dbg.pid) (bpDisable bp pid)
      fun _ => World.inState s := by
  rintro w ⟨hw, rfl⟩ _
  refine ⟨fun e he => Event.sighted_of_not_hit (bpDisable_not_hit bp w e he), fun _ _ => ?_⟩
  have hc := Fine.coherent (.lift w bp : Fine host w _ _) hw.2
  refine ⟨?_, hc⟩
  rcases bpDisable_cases bp w.dbg.pid w with ⟨_, h⟩ | ⟨_, p, _, _, h⟩ | ⟨_, _, h⟩ |
    ⟨_, p, _, _, h⟩ <;> rw [h] <;> exact hw.1

lemma rests_plant (host : Host σ) (addr : Addr) (s : State) :
    Rests (fun w : World σ => w.inState s ∧ pid = w.dbg.pid) (bpEnable .temp .zero pid addr)
      fun _ => World.inState s := by
  rintro w ⟨hw, rfl⟩ _
  refine ⟨fun e he => Event.sighted_of_not_hit (bpEnable_not_hit addr w e he), fun _ _ => ?_⟩
  have hc := Fine.coherent (.plant w addr : Fine host w _ _) hw.2
  refine ⟨?_, hc⟩
  rcases bpEnable_cases .temp .zero w.dbg.pid addr w with ⟨_, h⟩ | ⟨p, _, _, h⟩ <;>
    rw [h] <;> exact hw.1

lemma rests_dropTemp (host : Host σ) (temp : Breakpoint) (s : State) :
    Rests (World.inState s) (dropTemp (σ := σ) temp) fun _ => World.inState s :=
  Spec.get_bind fun _ hw => Spec.bind ((rests_lift host temp s).from ⟨hw, rfl⟩) fun _ =>
    Spec.pure _ fun _ h => h

/-- A temporary breakpoint is dropped before a function returns. -/
lemma rests_dropTemp_return (host : Host σ) (temp : Breakpoint) (rc : ℤ) {P : World σ → Prop}
    (hP : ∀ w, P w → w.Settled) :
    Rests P (dropTemp temp >>= fun _ => pure rc) fun rc' w => rc' = rc ∧ w.Settled := by
  refine Spec.of_forall fun w hw => ?_
  have hs := hP w hw
  refine Spec.bind ((rests_dropTemp host temp w.dbg.state).from ⟨rfl, hs.2⟩) fun _ =>
    Spec.pure rc fun w' h => ⟨rfl, ?_, h.2⟩
  rw [h.1]
  exact hs.1

lemma rests_finishTempBreakpoint (temp : Breakpoint) :
    Rests (World.inState .stopped) (finishTempBreakpoint host temp) fun _ => World.Settled := by
  refine Spec.bind_rc (rests_stopped host (edit_of_still still_refreshRegs)) (fun _ _ =>
    (rests_dropTemp_return host temp _ fun _ h => h.settled_of_stopped).post fun _ _ h => h.2) ?_
  refine Spec.get_bind fun w hw => Spec.ite (fun _ => ?_) fun _ => ?_
  · exact Spec.bind ((rests_dropTemp host temp .stopped).from hw) fun _ =>
      rests_reportStop.post fun _ _ h => h.settled
  · exact Spec.bind ((rests_lift host temp .stopped).from ⟨hw, rfl⟩) fun r =>
      Spec.ite (fun _ => Spec.pure _ fun _ h => h.settled_of_stopped)
        fun _ => Spec.pure _ fun _ h => h.settled_of_stopped

lemma rests_stepOverCall (returnAddr : Addr) :
    Rests (World.inState .stopped) (stepOverCall host returnAddr) fun _ => World.Settled := by
  refine Spec.get_bind fun w hw =>
    Spec.bind ((rests_plant host returnAddr .stopped).from ⟨hw, rfl⟩) fun r => ?_
  refine Spec.ite (fun _ => Spec.pure _ fun _ h => h.settled_of_stopped) fun _ => ?_
  refine Spec.bind_rc rests_cdbgContinue (fun rc hrc =>
    (rests_dropTemp_return host r.1 _ fun _ h => ?_).post fun _ _ h => h.2) ?_
  · exact h.elim (fun h => absurd h.1 hrc) fun h => h.2
  refine Spec.get_bind fun w' hw' => ?_
  have hr : w'.inState .running := hw'.elim (fun h => h.2) fun h => absurd rfl h.1
  refine Spec.ite (fun hi => ?_) fun _ => ?_
  · rw [hr.1] at hi
    cases hi
  refine Spec.bind_rc (rests_cdbgWait.from hr) (fun _ _ => ?_) (Spec.get_bind fun w'' hw'' =>
    Spec.ite (fun hne => absurd (hw''.2 rfl).1 hne)
      fun _ => (rests_finishTempBreakpoint r.1).from (hw''.2 rfl))
  refine Spec.of_forall fun w'' hw'' => ?_
  refine Spec.bind ((rests_dropTemp host r.1 w''.dbg.state).from ⟨rfl, hw''.1.2⟩) fun _ =>
    Spec.get_bind fun v hv => Spec.pure_from _ ⟨?_, hv.2⟩
  rw [hv.1]
  exact hw''.1.1

/-- What a round of a stepping loop leaves: a stop to go on from, or the debugger in
control. -/
def World.Pauses (r : Option ℤ) (w : World σ) : Prop :=
  w.Settled ∧ (r = none → w.inState .stopped)

lemma rests_stepWithoutLine :
    Rests (World.inState .stopped) (stepWithoutLine host) fun _ => World.Settled := by
  refine rests_step_wait (fun rc _ => Spec.get_bind fun _ hw => Spec.pure_from _ hw) ?_
  refine Spec.get_bind fun w hw => Spec.ite (fun _ => ?_)
    fun _ => Spec.pure_from _ hw.settled_of_stopped
  exact Spec.bind (rests_reportStop.from hw) fun _ => Spec.pure _ fun _ h => h.settled

lemma rests_stepOnce : Rests (World.inState .stopped) (stepOnce host) World.Pauses := by
  refine rests_step_wait
    (fun rc _ => Spec.get_bind fun _ hw => Spec.pure_from _ ⟨hw, by simp⟩) ?_
  exact Spec.get_bind fun w hw => Spec.ite (fun hne => absurd hw.1 hne)
    fun _ => Spec.pure_from _ ⟨hw.settled_of_stopped, fun _ => hw⟩

lemma rests_checkLine (startFile : Str) (startLine : BitVec 32) :
    Rests (World.inState .stopped) (checkLine host startFile startLine) World.Pauses := by
  refine Spec.bind_rc (rests_stopped host (edit_of_still still_refreshRegs))
    (fun _ _ => Spec.pure _ fun _ h => ⟨h.settled_of_stopped, by simp⟩) ?_
  refine Spec.get_bind fun w hw => Spec.ite (fun _ => ?_) fun _ => ?_
  · exact Spec.bind (rests_reportStop.from hw) fun _ =>
      Spec.pure _ fun _ h => ⟨h.settled, by simp⟩
  refine Spec.bind (rests_tryReportWatchpointHit.from hw) fun hit => Spec.ite
    (fun _ => Spec.pure _ fun _ h => ⟨h.1.settled, by simp⟩) fun hhit => ?_
  refine Spec.get_bind fun w' hw' => ?_
  have hs : w'.inState .stopped := hw'.2 (Bool.eq_false_iff.mpr hhit)
  split
  · exact Spec.pure_from _ ⟨hs.settled_of_stopped, fun _ => hs⟩
  · refine Spec.ite (fun _ => ?_) fun _ => Spec.pure_from _ ⟨hs.settled_of_stopped, fun _ => hs⟩
    have hprint : Moves Still (printStopHeader >>= fun _ => emit (.stoppedAt w.dbg.regs.pc) >>=
        fun _ => printStopLocation w.dbg.regs.pc >>= fun _ => pure (some (0 : ℤ))) :=
      Moves.bind (still_printStopHeader (σ := σ)) fun _ => Moves.bind (still_emit rfl) fun _ =>
        Moves.bind (still_printStopLocation _) fun _ => Moves.pure _
    exact ((rests_stopped host (edit_of_still hprint)).from hs).post
      fun _ _ h => ⟨h.settled_of_stopped, fun _ => h⟩

lemma rests_stepLimit :
    Rests (World.inState .stopped) (emit .stepLimit >>= fun _ => pure (-1 : ℤ))
      fun _ => World.Settled (σ := σ) :=
  Spec.bind (rests_emit rfl) fun _ => Spec.pure _ fun _ h => h.settled_of_stopped

lemma rests_stepLoop (startFile : Str) (startLine : BitVec 32) : ∀ n : ℕ,
    Rests (World.inState .stopped) (stepLoop host startFile startLine n) fun _ => World.Settled
  | 0 => rests_stepLimit
  | n + 1 => by
      refine Spec.bind rests_stepOnce fun r => ?_
      cases r with
      | some rc => exact Spec.pure _ fun _ h => h.1
      | none =>
          refine Spec.bind ((rests_checkLine _ _).pre fun _ h => h.2 rfl) fun r => ?_
          cases r with
          | some rc => exact Spec.pure _ fun _ h => h.1
          | none => exact (rests_stepLoop startFile startLine n).pre fun _ h => h.2 rfl

lemma rests_stepNextLine :
    Rests (World.inState .stopped) (stepNextLine host) fun _ => World.Settled := by
  refine Spec.bind_rc (rests_stopped host (edit_of_still still_refreshRegs))
    (fun _ _ => Spec.pure _ fun _ h => h.settled_of_stopped) <| Spec.get_bind fun w hw => ?_
  split
  · exact rests_stepWithoutLine.from hw
  · exact (rests_stepLoop _ _ _).from hw

lemma rests_nextOnce (pc : Addr) :
    Rests (World.inState .stopped) (nextOnce host pc) World.Pauses := by
  refine Spec.bind (rests_stopped host (edit_of_still (still_callReturnAddress pc))) fun r => ?_
  cases r with
  | none => exact rests_stepOnce
  | some returnAddr =>
      refine Spec.bind_rc (rests_stepOverCall returnAddr)
        (fun _ _ => Spec.pure _ fun _ h => ⟨h, by simp⟩) <| Spec.get_bind fun w hw => ?_
      refine Spec.ite (fun _ => Spec.pure_from _ ⟨hw, by simp⟩) fun hs => ?_
      exact Spec.pure_from _ ⟨hw, fun _ => hw.stopped (by simp [not_not.mp hs])⟩

lemma rests_nextLoop (startFile : Str) (startLine : BitVec 32) : ∀ (n : ℕ) (pc : Addr),
    Rests (World.inState .stopped) (nextLoop host startFile startLine pc n) fun _ => World.Settled
  | 0, _ => rests_stepLimit
  | n + 1, pc => by
      refine Spec.bind (rests_nextOnce pc) fun r => ?_
      cases r with
      | some rc => exact Spec.pure _ fun _ h => h.1
      | none =>
          refine Spec.bind ((rests_checkLine _ _).pre fun _ h => h.2 rfl) fun r => ?_
          cases r with
          | some rc => exact Spec.pure _ fun _ h => h.1
          | none => exact Spec.get_bind fun w hw =>
              (rests_nextLoop startFile startLine n _).from (hw.2 rfl)

lemma rests_nextSourceLine :
    Rests (World.inState .stopped) (nextSourceLine host) fun _ => World.Settled := by
  refine Spec.bind_rc (rests_stopped host (edit_of_still still_refreshRegs))
    (fun _ _ => Spec.pure _ fun _ h => h.settled_of_stopped) <| Spec.get_bind fun w hw => ?_
  split
  · exact rests_stepWithoutLine.from hw
  · exact (rests_nextLoop _ _ _ _).from hw

/-! ### Starting and ending a debuggee -/

lemma rests_stopDebuggee :
    Rests World.Resting (stopDebuggee host)
      fun rc w => w.Resting ∧ (rc = 0 → w.dbg.state = .idle) := by
  intro w hw _
  refine ⟨fun e he => Event.sighted_of_plain ((Prim.kill w).plain e he), fun rc hrc => ?_⟩
  have hc := Fine.coherent (.prim (.kill w) : Fine host w _ _) hw.1.2
  rcases stopDebuggee_cases host w with ⟨h0, h⟩ | ⟨_, h⟩ | ⟨_, h⟩ | ⟨p, _, _, h⟩
  · rw [h] at hc ⊢
    have hi := hw.atPrompt.idle_iff.mpr h0
    exact ⟨⟨⟨by simp, hc⟩, fun _ => hw.2 hi⟩, fun _ => rfl⟩
  · rw [h] at hc ⊢
    refine ⟨⟨⟨by simp [Dbg.stopped], hc⟩, fun _ => ⟨rfl, ?_, ?_⟩⟩, fun _ => rfl⟩
    · simp [Dbg.stopped, Dbg.disableAll]
    · simp [Dbg.stopped, Dbg.disableAll]
  · rw [h] at hrc ⊢
    refine ⟨hw, fun h0 => ?_⟩
    have := Option.some.inj hrc
    omega
  · rw [h] at hc ⊢
    refine ⟨⟨⟨by simp [Dbg.stopped], hc⟩, fun _ => ⟨rfl, ?_, ?_⟩⟩, fun _ => rfl⟩
    · simp [Dbg.stopped, Dbg.disableAll]
    · simp [Dbg.stopped, Dbg.disableAll]

lemma rests_launch (program : Str) :
    Rests (fun w => w.Resting ∧ w.dbg.state = .idle) (launch host program)
      fun rc w => (rc ≠ 0 → w.Resting) ∧ (rc = 0 → w.inState .running) := by
  rintro w ⟨hw, hi⟩ _
  refine ⟨fun e he => Event.sighted_of_plain ((Prim.launch w program hi).plain e he),
    fun rc hrc => ?_⟩
  have hc := Fine.coherent (.prim (.launch w program hi) : Fine host w _ _) hw.1.2
  rcases launch_cases host program w with h | ⟨b, h', lineno, syms, _, h⟩
  · rw [h] at hc hrc ⊢
    refine ⟨fun _ => ⟨⟨hw.1.1, hc⟩, fun _ => ⟨(hw.2 hi).1, ?_, ?_⟩⟩, fun h0 => ?_⟩
    · simp [Dbg.loadSymbols, Dbg.clearRun]
    · simp [Dbg.loadSymbols, Dbg.clearRun]
    · have := Option.some.inj hrc
      omega
  · rw [h] at hc hrc ⊢
    exact ⟨fun h0 => absurd (Option.some.inj hrc).symm h0, fun _ => ⟨rfl, hc⟩⟩

lemma rests_runToEntryStop :
    Rests (World.inState .stopped) (runToEntryStop host)
      fun rc w => w.Settled ∧ (0 ≤ rc → w.inState .stopped) := by
  have hret {Q : World σ → Prop} (temp : Breakpoint) (hQ : ∀ w, Q w → w.Settled) :
      Rests Q (dropTemp temp >>= fun _ => pure (-1 : ℤ))
        fun rc w => w.Settled ∧ (0 ≤ rc → w.inState .stopped) :=
    (rests_dropTemp_return host temp (-1) hQ).post fun rc _ h => ⟨h.2, fun h0 => by omega⟩
  refine Spec.get_bind fun w hw => Spec.ite (fun hne => absurd hw.1 hne) fun _ => ?_
  split
  · exact Spec.pure_from _ ⟨hw.settled_of_stopped, fun _ => hw⟩
  refine Spec.bind ((rests_plant host _ .stopped).from ⟨hw, rfl⟩) fun r => ?_
  refine Spec.ite (fun _ => Spec.pure _ fun _ h => ⟨h.settled_of_stopped, by simp⟩) fun _ => ?_
  refine Spec.bind_rc rests_cdbgContinue
    (fun rc hrc => hret r.1 fun _ h => h.elim (fun h => absurd h.1 hrc) fun h => h.2) ?_
  refine Spec.bind_rc (rests_cdbgWait.pre fun _ h => h.elim (fun h => h.2)
    fun h => absurd rfl h.1) (fun _ _ => hret r.1 fun _ h => h.1) ?_
  refine Spec.get_bind fun w' hw' => ?_
  have hs : w'.inState .stopped := hw'.2 rfl
  refine Spec.ite (fun hne => absurd hs.1 hne) fun _ => Spec.bind_rc
    ((rests_stopped host (edit_of_still still_refreshRegs)).from hs)
    (fun _ _ => hret r.1 fun _ h => h.settled_of_stopped) <| Spec.get_bind fun w'' hw'' => ?_
  refine Spec.ite (fun _ => ?_) fun _ => ?_
  · exact Spec.bind ((rests_dropTemp host r.1 .stopped).from hw'') fun _ =>
      Spec.pure _ fun _ h => ⟨h.settled_of_stopped, fun _ => h⟩
  refine Spec.bind ((rests_dropTemp host r.1 .stopped).from hw'') fun _ => ?_
  refine (rests_stopped host (edit_of_still ?_)).post
    fun _ _ h => ⟨h.settled_of_stopped, fun _ => h⟩
  refine Moves.ite ?_ ?_
  · exact Moves.bind (still_setRegs fun r => r.setPc _) fun _ =>
      Moves.bind still_storeRegs fun _ => Moves.ite (Moves.pure _) <|
        Moves.bind still_printStopHeader fun _ =>
          Moves.bind (still_printStopLocation _) fun _ => Moves.pure _
  · exact Moves.bind still_printStopHeader fun _ =>
      Moves.bind (still_printStopLocation _) fun _ => Moves.pure _

lemma rests_startProgram :
    Rests World.Resting (startProgram host) fun _ => World.Resting := by
  refine Spec.get_bind fun w hw => ?_
  split
  · exact Spec.pure_from _ hw
  refine Spec.bind_rc (rests_stopDebuggee.from hw) (fun _ _ => Spec.pure _ fun _ h => h.1) ?_
  refine Spec.bind_rc ((rests_launch _).pre fun _ h => ⟨h.1, h.2 rfl⟩)
    (fun _ hrc => Spec.pure _ fun _ h => h.1 hrc) ?_
  refine Spec.bind_rc (rests_cdbgWait.pre fun _ h => h.2 rfl)
    (fun _ _ => rests_exitReported (fun _ h => h.1) _) ?_
  refine Spec.bind ((rests_stopped host (edit_of_still still_updateSlides)).pre fun _ h => h.2 rfl)
    fun _ => Spec.bind rests_runToEntryStop fun rc => Spec.ite
      (fun _ => rests_exitReported (fun _ h => h.1) _) fun hrc => ?_
  refine Spec.get_bind fun w' hw' => ?_
  have hs : w'.inState .stopped := hw'.2 (not_lt.mp hrc)
  refine Spec.ite (fun _ => ?_) fun _ => Spec.pure_from _ hs.resting
  exact Spec.bind ((rests_stopped host (edit_of_still still_printStopContext)).from hs) fun _ =>
    Spec.pure _ fun _ h => h.resting

lemma rests_cdbgRun (argv : Option (List Str)) :
    Rests World.Resting (cdbgRun host argv) fun _ => World.Resting := by
  cases argv with
  | none => exact rests_startProgram
  | some argv =>
      exact Spec.bind_rc (rests_edit host (edit_of_still (still_setRunTarget argv)))
        (fun _ _ => Spec.pure _ fun _ h => h) rests_startProgram

lemma rests_cmdRun (args : Option Str) :
    Rests World.Resting (cmdRun host args) fun _ => World.Resting := by
  rw [cmdRun]
  split
  · exact rests_cdbgRun _
  · refine Spec.ite (fun _ => Spec.pure _ fun _ h => h) fun _ => ?_
    split
    · exact Spec.pure _ fun _ h => h
    · exact rests_cdbgRun _

lemma rests_cmdKill : Rests World.Resting (cmdKill host) fun _ => World.Resting :=
  Spec.get_bind fun _ hw => Spec.ite (fun _ => Spec.pure_from _ hw) fun _ =>
    Spec.bind (rests_stopDebuggee.from hw) fun _ => Spec.pure _ fun _ h => h.1

/-! ### `cdbg_repl` -/

/-- What a command leaves: another prompt, unless it ends `cdbg_repl`. -/
def World.Prompts (r : Option ℤ) (w : World σ) : Prop := r = none → w.Resting

lemma rests_ignoring {m : Debugger σ α} (h : Rests World.Resting m fun _ => World.Resting) :
    Rests World.Resting (ignoring m) World.Prompts :=
  Spec.bind h fun _ => Spec.pure _ fun _ h _ => h

lemma rests_waitAndReport :
    Rests (World.inState .running) (waitAndReport host) World.Prompts := by
  refine Spec.bind_rc rests_cdbgWait (fun rc _ => Spec.get_bind fun w hw => ?_)
    (Spec.get_bind fun w hw => ?_)
  · exact Spec.ite
      (fun _ => (rests_exitReported (fun _ h => h ▸ hw.1) _).post fun _ _ h _ => h)
      fun _ => Spec.pure_from _ fun h => by cases h
  · exact Spec.ite (fun _ => Spec.bind (rests_reportStop.from (hw.2 rfl)) fun _ =>
      Spec.pure _ fun _ h _ => h)
      fun _ => (rests_exitReported (fun _ h => h ▸ hw.1) _).post fun _ _ h _ => h

lemma rests_execContinue : Rests World.Resting (execContinue host) World.Prompts := by
  refine Spec.get_bind fun w hw => Spec.ite (fun _ => Spec.pure_from _ fun _ => hw) fun hi => ?_
  refine Spec.bind_rc (rests_cdbgContinue.from (hw.1.stopped hi))
    (fun _ _ => Spec.pure _ fun _ _ h => by cases h) <| Spec.get_bind fun w' hw' => ?_
  have hr : w'.inState .running := hw'.elim (fun h => h.2) fun h => absurd rfl h.1
  refine Spec.ite (fun hi' => ?_) fun _ => rests_waitAndReport.from hr
  rw [hr.1] at hi'
  cases hi'

lemma rests_execStep {stepLine : Debugger σ ℤ}
    (h : Rests (World.inState .stopped) stepLine fun _ => World.Settled) :
    Rests World.Resting (execStep stepLine) World.Prompts := by
  refine Spec.get_bind fun w hw => Spec.ite (fun _ => Spec.pure_from _ fun _ => hw) fun hi => ?_
  refine Spec.bind (h.from (hw.1.stopped hi)) fun rc => Spec.get_bind fun w' hw' => ?_
  exact Spec.ite (fun _ => Spec.pure_from _ fun h => by cases h) fun _ =>
    (rests_exitReported (fun _ h => h ▸ hw') _).post fun _ _ h _ => h

lemma rests_execSi : Rests World.Resting (execSi host) World.Prompts := by
  refine Spec.get_bind fun w hw => Spec.ite (fun _ => Spec.pure_from _ fun _ => hw) fun hi => ?_
  exact Spec.bind_ok (rests_singleStep.from (hw.1.stopped hi)) rests_waitAndReport

lemma rests_execQuit : Rests World.Resting (execQuit host) World.Prompts := by
  refine Spec.bind rests_stopDebuggee fun _ => Spec.bind (Q := fun _ _ => True) ?_ fun _ => ?_
  · exact Spec.modify fun _ _ => trivial
  · exact Spec.pure _ fun _ _ h => by cases h

/-- **Every command leads back to a prompt** or ends `cdbg_repl`. -/
theorem rests_execCommand (cmd : Command) :
    Rests World.Resting (execCommand host cmd) World.Prompts := by
  have hpure : Rests World.Resting (pure none : Debugger σ (Option ℤ)) World.Prompts :=
    Spec.pure _ fun _ h _ => h
  have hedit {β : Type} {m : Debugger σ β} (h : Moves Edit m) :
      Rests World.Resting (ignoring m) World.Prompts := rests_ignoring (rests_edit host h)
  cases cmd with
  | quit => exact rests_execQuit
  | run arg => exact rests_ignoring (rests_cmdRun arg)
  | continue_ => exact rests_execContinue
  | step => exact rests_execStep rests_stepNextLine
  | si => exact rests_execSi
  | next => exact rests_execStep rests_nextSourceLine
  | up => exact hedit (edit_of_still still_frameUp)
  | regs => exact (rests_edit host (edit_of_still still_execRegs)).post fun _ _ h _ => h
  | print fmt arg => exact hedit (edit_of_still (still_cmdPrint _))
  | set arg => exact hedit (edit_cmdSet arg)
  | show_ arg => exact hedit (edit_of_still (still_cmdShow arg))
  | tb => exact hedit (edit_of_still still_cmdBacktrace)
  | break_ arg =>
      cases arg with
      | none => exact hpure
      | some target => exact hedit (edit_cmdBreak target)
  | del arg => exact hedit (edit_cmdDel arg)
  | watch kind arg => exact hedit (edit_of_still (still_cmdWatch arg kind))
  | delwatch arg => exact hedit (edit_of_still (still_cmdDelwatch arg))
  | list arg => exact hedit (edit_of_still (still_cmdList arg))
  | thread arg =>
      cases arg with
      | none => exact hpure
      | some arg => exact hedit (edit_cmdThread arg)
  | kill => exact rests_ignoring rests_cmdKill
  | empty | help | leaks | dis | lines | lists | syms | x | unknown => exact hpure

/-! ### Sessions -/

/-- From a world in `P`, commands are read at prompts only and hits announced at stops only,
and the value returned and the world left satisfy `Q`. -/
abbrev Prompted (P : World σ → Prop) (m : Debugger σ α) (Q : α → World σ → Prop) : Prop :=
  Spec (fun _ : Event σ => True) (fun e => e.prompted ∧ e.sighted) P m Q

/-- A function that reads no commands. -/
lemma prompted_of_rests {m : Debugger σ α} {P : World σ → Prop} {Q : α → World σ → Prop}
    (h : Rests P m Q) (hm : Moves (Fine host) m) : Prompted P m Q := by
  intro w hw _
  obtain ⟨hsight, hQ⟩ := h w hw fun _ _ => trivial
  refine ⟨fun e he => ⟨fun hc => ?_, hsight e he⟩, hQ⟩
  rw [commandRead_of_moves hm w e he] at hc
  cases hc

/-- The loop of `cdbg_repl`, by induction on the lines left: each command leaves the
debugger at rest, where the next one is read. -/
lemma prompted_replLoop : ∀ lines : List Str,
    Prompted World.Resting (replLoop host lines) fun _ _ => True
  | [] => Spec.pure _ fun _ _ => trivial
  | line :: lines => by
      have hread : Prompted (σ := σ) World.Resting (emit (.command (Command.parse line)))
          fun _ => World.Resting :=
        Spec.emit (fun _ hw _ => ⟨fun _ => hw.atPrompt, Event.sighted_of_plain rfl⟩)
          fun _ hw _ => hw
      refine Spec.bind hread fun _ => Spec.bind
        (prompted_of_rests (rests_execCommand _) (grain_execCommand (Fine.grain host) _))
        fun r => ?_
      cases r with
      | some rc => exact Spec.pure _ fun _ _ => trivial
      | none => exact (prompted_replLoop lines).pre fun _ h => h rfl

/-- In a session commands are read at prompts and hits announced at stops. -/
lemma prompted_cdbgMain (host : Host σ) (s : σ) (argv input : List Str) :
    ∀ e ∈ (cdbgMain host argv input (World.start s)).trace, e.prompted ∧ e.sighted := by
  have hmain : Prompted World.Resting (cdbgMain host argv input) fun _ _ => True := by
    cases argv with
    | nil => exact Spec.pure _ fun _ _ => trivial
    | cons program args =>
        rw [cdbgMain]
        split
        · exact Spec.pure _ fun _ _ => trivial
        refine Spec.ite (fun _ => Spec.pure _ fun _ _ => trivial) fun _ => ?_
        refine Spec.bind_rc (prompted_of_rests
          (rests_edit host (edit_of_still (still_setRunTarget _)))
          (fine_of_still (still_setRunTarget _) : Moves (Fine host) _))
          (fun _ _ => Spec.pure _ fun _ _ => trivial) ?_
        refine Spec.bind_rc (prompted_of_rests (rests_cdbgRun none)
          (grain_cdbgRun (Fine.grain host) none)) (fun _ _ => Spec.pure _ fun _ _ => trivial) ?_
        exact Spec.bind_rc (prompted_replLoop _) (fun _ _ => Spec.pure _ fun _ _ => trivial)
          (Spec.pure _ fun _ _ => trivial)
  exact (hmain _ (World.resting_start s) fun _ _ => trivial).1

/-- **The state at a prompt**: whenever a command is read, the debugger is idle or stopped,
idle exactly if it has no process id, and then no entry is marked enabled. -/
theorem repl_prompts (host : Host σ) (s : σ) (argv input : List Str) :
    ∀ e ∈ (cdbgMain host argv input (World.start s)).trace, e.prompted :=
  fun e he => (prompted_cdbgMain host s argv input e he).1

/-- The prompts before and after the exit of the debuggee. -/
theorem repl_prompts_script :
    List.Forall Event.prompted (cdbgMain (Script.host .stripped) ["a".toList]
      ["si".toList, "continue".toList, "quit".toList] (World.start exitScript)).trace :=
  List.forall_iff_forall_mem.mpr (repl_prompts _ _ _ _)

end Cdbg
