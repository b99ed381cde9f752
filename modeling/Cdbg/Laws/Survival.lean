import Cdbg.Control.Coherent
import Cdbg.Laws.Selected

/-!
Survival of the debugger: whether `cdbg_repl` returns on `quit` and at the end of the
input only.

The commands map the results of nested steps, continues and waits to a message or to
the end of `cdbg_repl`. On a live debuggee whose selected thread is found the calls
succeed, so every function of the resuming commands has a specification that relates its
result to the state it leaves. What is left are the ways out that the results do not tell
from a failure: `regs` without a process, a debuggee that ends while `continue` steps it
past a disabled breakpoint, and the step limit (`Event.survivable`).
-/

namespace Cdbg

open Prog

variable {σ α : Type} {host : Host σ}

/-- The command that an event records as read. -/
def EventKind.commandRead : EventKind → Option Command
  | .command c => some c
  | _ => none

/-- Whether an event is a failed access to the memory of the debuggee. -/
def EventKind.isMemFailed : EventKind → Bool
  | .memFailed _ _ => true
  | _ => false

/-- Whether an event is the end of a `step` or `next` that went too far. -/
def EventKind.isStepLimit : EventKind → Bool
  | .stepLimit => true
  | _ => false

/-- Whether an outcome is the end of the process. -/
def Outcome.ends : Outcome → Bool
  | .exited _ => true
  | .signaled _ => true
  | .stopped _ => false

/-- Whether the debuggee, resumed as it is, ends rather than stops. -/
def World.resumeEnds (host : Host σ) (w : World σ) : Bool :=
  match w.taskForPid w.dbg.pid with
  | none => false
  | some p =>
  match p.running with
  | none => false
  | some r => (host.resume r p w.host).1.any Outcome.ends

/-- Whether a single step of the debuggee ends it. -/
def World.stepEnds (host : Host σ) (w : World σ) : Bool :=
  match w.taskForPid w.dbg.pid with
  | none => false
  | some p => (host.resume .step { p with running := some .step } w.host).1.any Outcome.ends

/-- Whether the selected thread is at a disabled breakpoint and stepping the debuggee
past it ends it. -/
def World.stepOverEnds (host : Host σ) (w : World σ) : Bool :=
  match w.resolvePort w.dbg.pid w.dbg.currentTid with
  | none => false
  | some t => disabledBreakpointAtPc t.regs.pc w.dbg.breakpoints && w.stepEnds host

/-- What has to hold of an event for the debugger to survive it. -/
structure Event.survivable (host : Host σ) (e : Event σ) : Prop where
  /-- no access to the memory of a live debuggee fails -/
  mem : e.kind.isMemFailed = true → e.world.taskForPid e.world.dbg.pid = none
  /-- the selected thread exists -/
  thread : e.findsThread
  /-- `regs` finds a process -/
  regs : e.kind.commandRead = some .regs → e.world.dbg.state ≠ .idle
  /-- the step with which `continue` begins does not end the debuggee -/
  cont : e.kind.commandRead = some .continue_ → e.world.stepOverEnds host = false
  /-- no `step` or `next` reaches its limit -/
  limit : e.kind.isStepLimit = false

instance (host : Host σ) (e : Event σ) : Decidable (e.survivable host) :=
  decidable_of_iff ((e.kind.isMemFailed = true → e.world.taskForPid e.world.dbg.pid = none) ∧
      e.findsThread ∧ (e.kind.commandRead = some .regs → e.world.dbg.state ≠ .idle) ∧
      (e.kind.commandRead = some .continue_ → e.world.stepOverEnds host = false) ∧
      e.kind.isStepLimit = false)
    ⟨fun ⟨h1, h2, h3, h4, h5⟩ => ⟨h1, h2, h3, h4, h5⟩,
      fun h => ⟨h.mem, h.thread, h.regs, h.cont, h.limit⟩⟩

/-- The calls made on a live debuggee succeed: no access to its memory fails, and the
selected thread exists. -/
structure Event.granted (e : Event σ) : Prop where
  mem : e.kind.isMemFailed = true → e.world.taskForPid e.world.dbg.pid = none
  thread : e.findsThread

lemma Event.survivable.granted {e : Event σ} (h : e.survivable host) : e.granted :=
  ⟨h.mem, h.thread⟩

/-- From a world in `P`, if the calls made in the run of `m` succeed, the value it returns
and the world it leaves satisfy `Q`. -/
abbrev Grants (P : World σ → Prop) (m : Debugger σ α) (Q : α → World σ → Prop) : Prop :=
  Spec Event.granted (fun _ => True) P m Q

/-- From a world in `P`, if the debugger survives all events of the run of `m`, the value
it returns and the world it leaves satisfy `Q`. -/
abbrev Leads (host : Host σ) (P : World σ → Prop) (m : Debugger σ α)
    (Q : α → World σ → Prop) : Prop :=
  Spec (Event.survivable host) (fun _ => True) P m Q

/-! ### Registers and breakpoints -/

/-- At a stop with a selected thread that is there. -/
def World.Ready (w : World σ) : Prop :=
  w.inState .stopped ∧ (w.resolvePort w.dbg.pid w.dbg.currentTid).isSome

lemma leads_of_grants {P : World σ → Prop} {m : Debugger σ α} {Q : α → World σ → Prop}
    (h : Grants P m Q) : Leads host P m Q := h.demand fun _ => Event.survivable.granted

lemma leads_edit {m : Debugger σ α} (h : Moves Edit m) (s : State) :
    Leads host (World.inState s) m fun _ => World.inState s :=
  spec_edit host h (fun _ _ => trivial) s

lemma leads_still {m : Debugger σ α} (h : Moves Still m) (s : State) :
    Leads host (World.inState s) m fun _ => World.inState s := leads_edit (edit_of_still h) s

lemma leads_emit (k : EventKind) {P : World σ → Prop} :
    Leads host P (emit k) fun _ => P :=
  Spec.emit (fun _ _ _ => trivial) fun _ h _ => h

/-- A thread that the selection stands for is found. -/
lemma World.resolvePort_isSome {w : World σ} {p : Proc} (hp : w.taskForPid w.dbg.pid = some p)
    (hs : p.selects w.dbg.currentTid) : (w.resolvePort w.dbg.pid w.dbg.currentTid).isSome := by
  rw [resolvePort, hp, Option.bind_some, Threads.resolve_isSome_iff]
  exact hs

/-- At a stop, refreshing the registers finds the thread and copies its registers. -/
lemma refreshRegs_of_stopped {w : World σ} (hw : w.inState .stopped)
    (hok : ∀ e ∈ (refreshRegs w).trace, e.granted) :
    ∃ t, w.resolvePort w.dbg.pid w.dbg.currentTid = some t ∧
      refreshRegs w =
        ⟨some 0, w.setDbg { w.dbg with regs := t.regs }, [⟨.refreshRegs, w⟩]⟩ := by
  obtain ⟨p, hp, hr⟩ := hw.task
  rcases refreshRegs_cases w with ⟨hn, h⟩ | h
  · rw [h] at hok
    have hsel := (hok _ List.mem_cons_self).thread rfl p hp hr
    have := World.resolvePort_isSome hp hsel
    rw [hn] at this
    cases this
  · exact h

lemma grants_refreshRegs :
    Grants (World.inState (σ := σ) .stopped) refreshRegs fun rc w => rc = 0 ∧ w.Ready := by
  intro w hw hok
  obtain ⟨t, ht, h⟩ := refreshRegs_of_stopped hw hok
  rw [h]
  refine ⟨fun _ _ => trivial, fun rc hrc => ?_⟩
  obtain rfl : 0 = rc := Option.some.inj hrc
  refine ⟨rfl, hw.congr rfl rfl rfl, ?_⟩
  change (w.resolvePort w.dbg.pid w.dbg.currentTid).isSome
  rw [ht]
  rfl

lemma leads_refreshRegs :
    Leads host (World.inState .stopped) refreshRegs fun rc w => rc = 0 ∧ w.Ready :=
  leads_of_grants grants_refreshRegs

lemma leads_storeRegs :
    Leads host World.Ready storeRegs fun rc w => rc = 0 ∧ w.inState .stopped := by
  intro w hw hok
  refine ⟨fun _ _ => trivial, fun rc hrc => ⟨?_, ?_⟩⟩
  · rw [storeRegs_value, hw.2] at hrc
    exact (Option.some.inj hrc).symm
  · exact ((leads_still still_storeRegs .stopped) w hw.1 hok).2 rc hrc

/-- An access to memory at a stop does not fail. -/
lemma Event.granted.not_memFailed {w : World σ} (hw : w.inState .stopped) {a : Addr} {n : ℕ}
    (h : (⟨.memFailed a n, w⟩ : Event σ).granted) : False := by
  obtain ⟨p, hp, _⟩ := hw.task
  have := h.mem rfl
  rw [hp] at this
  cases this

lemma Event.survivable.not_memFailed {w : World σ} (hw : w.inState .stopped) {a : Addr} {n : ℕ}
    (h : (⟨.memFailed a n, w⟩ : Event σ).survivable host) : False :=
  h.granted.not_memFailed hw

lemma grants_enableEntry {i : ℕ} {bp : Breakpoint} :
    Grants (σ := σ) (fun w => w.inState .stopped ∧ w.dbg.breakpoints.entry i = some bp)
      (enableEntry i bp) fun rc w => rc = 0 ∧ w.inState .stopped := by
  rintro w ⟨hw, hbp⟩ hok
  rcases enableEntry_cases hbp with ⟨_, h⟩ | ⟨p, hp, _, h⟩
  · rw [h] at hok
    exact ((hok _ List.mem_cons_self).not_memFailed hw).elim
  · rw [h]
    refine ⟨fun _ _ => trivial, fun rc hrc => ⟨(Option.some.inj hrc).symm, ?_⟩⟩
    exact hw.congr rfl rfl (World.child_setProc hp rfl rfl)

lemma leads_bpDisable (bp : Breakpoint) (pid : ℕ) :
    Leads host (fun w => w.inState .stopped ∧ pid = w.dbg.pid) (bpDisable bp pid)
      fun r w => r.2 = 0 ∧ w.inState .stopped := by
  rintro w ⟨hw, rfl⟩ hok
  rcases bpDisable_cases bp w.dbg.pid w with ⟨_, h⟩ | ⟨_, p, hp, _, h⟩ | ⟨_, _, h⟩ |
    ⟨_, p, _, _, h⟩
  · rw [h]
    refine ⟨fun _ _ => trivial, fun r hr => ?_⟩
    obtain rfl := Option.some.inj hr
    exact ⟨rfl, hw⟩
  · rw [h]
    refine ⟨fun _ _ => trivial, fun r hr => ?_⟩
    obtain rfl := Option.some.inj hr
    exact ⟨rfl, hw.congr rfl rfl (World.child_setProc hp rfl rfl)⟩
  · rw [h] at hok
    exact ((hok _ List.mem_cons_self).not_memFailed hw).elim
  · rw [h] at hok
    exact ((hok _ List.mem_cons_self).not_memFailed hw).elim

lemma leads_disableEntry {i : ℕ} {bp : Breakpoint} :
    Leads host (fun w => w.inState .stopped ∧ w.dbg.breakpoints.entry i = some bp)
      (disableEntry i bp) fun rc w => rc = 0 ∧ w.inState .stopped := by
  rintro w ⟨hw, hbp⟩ hok
  rcases disableEntry_cases hbp with ⟨_, h⟩ | ⟨_, p, hp, _, h⟩ | ⟨_, _, h⟩ | ⟨_, p, _, _, h⟩
  · rw [h]
    exact ⟨fun _ _ => trivial, fun rc hrc => ⟨(Option.some.inj hrc).symm, hw⟩⟩
  · rw [h]
    refine ⟨fun _ _ => trivial, fun rc hrc => ⟨(Option.some.inj hrc).symm, ?_⟩⟩
    exact hw.congr rfl rfl (World.child_setProc hp rfl rfl)
  · rw [h] at hok
    exact ((hok _ List.mem_cons_self).not_memFailed hw).elim
  · rw [h] at hok
    exact ((hok _ List.mem_cons_self).not_memFailed hw).elim

lemma grants_reenableLoop (pc : Addr) : ∀ is : List ℕ,
    Grants (World.inState (σ := σ) .stopped) (reenableLoop pc is)
      fun rc w => rc = 0 ∧ w.inState .stopped
  | [] => Spec.pure 0 fun _ hw => ⟨rfl, hw⟩
  | i :: is => by
      have hrest := grants_reenableLoop pc is
      refine Spec.get_bind fun w hw => ?_
      split
      · exact hrest.from hw
      next bp hbp =>
      refine Spec.ite (fun _ => ?_) fun _ => hrest.from hw
      exact Spec.bind_ok (grants_enableEntry.from ⟨hw, hbp⟩) hrest

lemma grants_reenableBreakpointsAfterStep :
    Grants (World.inState (σ := σ) .stopped) reenableBreakpointsAfterStep
      fun rc w => rc = 0 ∧ w.inState .stopped := by
  refine Spec.get_bind fun w hw => Spec.ite (fun _ => Spec.pure 0 ?_) fun _ => ?_
  · rintro _ rfl
    exact ⟨rfl, hw⟩
  · refine Spec.bind_ok (grants_refreshRegs.from hw) ?_
    refine Spec.get_bind fun w' hw' => ?_
    exact (grants_reenableLoop _ _).from hw'.1

/-! ### Resuming and waiting -/

lemma leads_cdbgSingleStep (b : Prop) :
    Leads host (fun w => w.inState .stopped ∧ (b → w.stepEnds host = false)) cdbgSingleStep
      fun rc w => rc = 0 ∧ w.inState .running ∧ (b → w.resumeEnds host = false) := by
  rintro w ⟨hw, hb⟩ hok
  obtain ⟨p, hp, hr⟩ := hw.task
  rcases cdbgSingleStep_cases w with ⟨_, hne⟩ | ⟨q, hq, _, h⟩
  · exact absurd hr (hne p hp)
  · rw [h]
    refine ⟨fun _ _ => trivial, fun rc hrc => ⟨(Option.some.inj hrc).symm, ?_, fun hb' => ?_⟩⟩
    · exact World.coherent_resumed (q := { q with running := some .step }) hq rfl rfl (by simp)
    · have hends := hb hb'
      rw [World.stepEnds, hq] at hends
      have htask : ((w.setProc { q with running := some .step }).setDbg
          w.dbg.resumed).taskForPid w.dbg.pid = some { q with running := some .step } :=
        World.taskForPid_eq_some.mpr ⟨rfl, (World.taskForPid_eq_some.mp hq).2⟩
      change World.resumeEnds host _ = false
      rw [World.resumeEnds]
      change (match ((w.setProc { q with running := some .step }).setDbg
          w.dbg.resumed).taskForPid w.dbg.pid with
        | none => false
        | some p => _) = false
      rw [htask]
      exact hends

/-- What `waitpid` reports of a running debuggee. -/
lemma waitForStop_of_running (host : Host σ) {w : World σ} (hw : w.inState .running) :
    (waitForStop host w).value = none ∨
    ∃ p r o h, w.taskForPid w.dbg.pid = some p ∧ p.running = some r ∧
      host.resume r p w.host = (some o, h) ∧
      waitForStop host w = ⟨some 0, w.afterWait h p o, [⟨.waited o, w⟩]⟩ := by
  obtain ⟨p, r, hp, hr, hk⟩ := hw.task_running
  rcases waitForStop_cases host w with ⟨hn, _⟩ | ⟨h', h⟩ | ⟨q, r', o, h', hq, hr', ho, h⟩
  · rw [hp] at hn
    cases hn
  · left
    rw [h]
  · right
    obtain rfl : p = q := Option.some.inj (hp.symm.trans hq)
    obtain rfl : r = r' := Option.some.inj (hr.symm.trans hr')
    rcases ho with ⟨hk', _⟩ | ⟨_, ho⟩
    · exact absurd hk' hk
    · exact ⟨p, r, o, h', hp, hr, ho, h⟩

lemma leads_waitForStop (b : Prop) :
    Leads host (fun w => w.inState .running ∧ (b → w.resumeEnds host = false)) (waitForStop host)
      fun rc w => rc = 0 ∧ w.Settled ∧ (b → w.inState .stopped) := by
  rintro w ⟨hw, hb⟩ _
  refine ⟨fun _ _ => trivial, fun rc hrc => ?_⟩
  rcases waitForStop_of_running host hw with h | ⟨p, r, o, h', hp, hr, ho, h⟩
  · rw [h] at hrc
    cases hrc
  rw [h] at hrc ⊢
  have hs := World.settled_afterWait hp h' o
  refine ⟨(Option.some.inj hrc).symm, hs, fun hb' => hs.stopped ?_⟩
  have hends := hb hb'
  simp only [World.resumeEnds, hp, hr, ho, Option.any_some] at hends
  cases o with
  | exited _ => cases hends
  | signaled _ => cases hends
  | stopped s => simp [World.afterWait, World.deliver, WaitStatus.state]

/-- A wait ends with the debuggee stopped, or ended; the latter only if the resume was
not known to end in a stop. -/
lemma leads_cdbgWait (b : Prop) :
    Leads host (fun w => w.inState .running ∧ (b → w.resumeEnds host = false)) (cdbgWait host)
      fun rc w => rc = 0 ∧ w.inState .stopped ∨ rc = 1 ∧ w.inState .idle ∧ ¬ b := by
  refine Spec.bind_ok (leads_waitForStop b) <| Spec.get_bind fun w hw => ?_
  refine Spec.ite (fun hi => Spec.pure 1 ?_) fun hi => ?_
  · rintro _ rfl
    refine Or.inr ⟨rfl, ⟨hi, hw.1.2⟩, fun hb => ?_⟩
    have := (hw.2 hb).1
    rw [hi] at this
    cases this
  · refine Spec.bind_ok
      ((leads_of_grants grants_reenableBreakpointsAfterStep).from (hw.1.stopped hi)) ?_
    exact Spec.pure 0 fun _ h => Or.inl ⟨rfl, h⟩

lemma leads_wait :
    Leads host (World.inState .running) (cdbgWait host)
      fun rc w => rc = 0 ∧ w.inState .stopped ∨ rc = 1 ∧ w.inState .idle :=
  (leads_cdbgWait False).weaken (fun _ h => ⟨h, False.elim⟩)
    fun _ _ h => h.imp_right fun h => ⟨h.1, h.2.1⟩

lemma leads_step :
    Leads host (World.inState .stopped) cdbgSingleStep fun rc w => rc = 0 ∧ w.inState .running :=
  (leads_cdbgSingleStep False).weaken (fun _ h => ⟨h, False.elim⟩) fun _ _ h => ⟨h.1, h.2.1⟩

lemma leads_stepOverDisabledBreakpoint (b : Prop) :
    Leads host (fun w => w.inState .stopped ∧ (b → w.stepOverEnds host = false))
      (stepOverDisabledBreakpoint host)
      fun rc w => rc = 0 ∧ w.inState .stopped ∨ rc = 1 ∧ w.inState .idle ∧ ¬ b := by
  refine Spec.get_bind fun w hw => Spec.ite (fun _ => Spec.pure 0 ?_) fun _ => ?_
  · rintro _ rfl
    exact Or.inl ⟨rfl, hw.1⟩
  -- the registers refreshed are those of the thread that `stepOverEnds` looks at
  have hregs : Leads host (· = w) refreshRegs fun rc w' => rc = 0 ∧ w'.inState .stopped ∧
      (b → disabledBreakpointAtPc w'.dbg.regs.pc w'.dbg.breakpoints = true →
        w'.stepEnds host = false) := by
    rintro w' rfl hok
    obtain ⟨t, ht, h⟩ := refreshRegs_of_stopped hw.1 fun e he => (hok e he).granted
    rw [h]
    refine ⟨fun _ _ => trivial, fun rc hrc => ⟨(Option.some.inj hrc).symm, ?_, fun hb hd => ?_⟩⟩
    · exact hw.1.congr rfl rfl rfl
    · have hd' : disabledBreakpointAtPc t.regs.pc w'.dbg.breakpoints = true := hd
      have hends := hw.2 hb
      simp only [World.stepOverEnds, ht, hd', Bool.true_and] at hends
      exact hends
  refine Spec.bind_ok hregs <| Spec.bind (leads_emit _) fun _ => Spec.get_bind fun w' hw' => ?_
  refine Spec.ite (fun _ => Spec.pure 0 ?_) fun hd => ?_
  · rintro _ rfl
    exact Or.inl ⟨rfl, hw'.1⟩
  · refine Spec.bind_ok ((leads_cdbgSingleStep b).pre ?_) (leads_cdbgWait b)
    rintro _ rfl
    exact ⟨hw'.1, fun hb => hw'.2 hb (Bool.not_eq_false _ ▸ hd)⟩

lemma leads_thawAndContinue :
    Leads host (World.inState .stopped) thawAndContinue
      fun rc w => rc = 0 ∧ w.inState .running := by
  intro w hw _
  obtain ⟨p, hp, hr⟩ := hw.task
  refine ⟨fun _ _ => trivial, fun rc hrc => ?_⟩
  rcases thawAndContinue_cases w with ⟨hn, _⟩ | ⟨q, hq, ⟨hr', _⟩ | ⟨_, h⟩⟩
  · rw [hp] at hn
    cases hn
  · obtain rfl : p = q := Option.some.inj (hp.symm.trans hq)
    exact absurd hr hr'
  · rw [h] at hrc ⊢
    exact ⟨(Option.some.inj hrc).symm, World.coherent_resumed
      (q := { q.thawed w.dbg.currentTid with running := some .cont }) hq rfl rfl (by simp)⟩

/-- `cdbg_continue` resumes the debuggee, unless that ends in the step past a disabled
breakpoint. -/
lemma leads_cdbgContinue (b : Prop) :
    Leads host (fun w => w.inState .stopped ∧ (b → w.stepOverEnds host = false))
      (cdbgContinue host)
      fun rc w => rc = 0 ∧ w.inState .running ∨ rc = 1 ∧ w.inState .idle ∧ ¬ b := by
  refine Spec.bind_rc (leads_stepOverDisabledBreakpoint b) (fun rc hrc => Spec.pure rc ?_) ?_
  · rintro w (⟨h, _⟩ | h)
    · exact absurd h hrc
    · exact Or.inr h
  · refine Spec.get_bind fun w hw => ?_
    have hs : w.inState .stopped := by
      rcases hw with ⟨_, h⟩ | ⟨h, _⟩
      · exact h
      · cases h
    refine Spec.ite (fun hi => ?_) fun _ => ?_
    · rw [hs.1] at hi
      cases hi
    · exact (leads_thawAndContinue.from hs).post fun _ _ h => Or.inl h

/-! ### Reporting a stop -/

lemma leads_fine {m : Debugger σ α} (h : Moves (Fine host) m) :
    Leads host World.Coherent m fun _ => World.Coherent :=
  spec_coherent h fun _ _ => trivial

lemma leads_settled {m : Debugger σ α} (h : Moves Edit m) :
    Leads host World.Settled m fun _ => World.Settled := by
  intro w hw hok
  obtain ⟨hg, hQ⟩ := leads_edit h w.dbg.state w ⟨rfl, hw.2⟩ hok
  exact ⟨hg, fun a ha => ⟨(hQ a ha).1 ▸ hw.1, (hQ a ha).2⟩⟩

lemma World.inState.settled_of_stopped {w : World σ} (h : w.inState .stopped) : w.Settled :=
  h.settled (by simp)

lemma World.inState.settled_of_idle {w : World σ} (h : w.inState .idle) : w.Settled :=
  h.settled (by simp)

lemma leads_reportProcessExit :
    Leads host World.Settled reportProcessExit fun _ => World.Settled := by
  intro w hw hok
  refine ⟨fun _ _ => trivial, fun a ha => ?_⟩
  have hc := (leads_fine (fine_of_prim prim_reportProcessExit) w hw.2 hok).2 a ha
  refine ⟨?_, hc⟩
  rcases reportProcessExit_cases w with ⟨_, h⟩ | ⟨_, h⟩
  · rw [h]
    exact hw.1
  · rw [h]
    exact hw.1

lemma leads_stepPastAllWatchpoints :
    Leads host (World.inState .stopped) (stepPastAllWatchpoints host)
      fun _ => World.Settled := by
  refine Spec.get_bind fun w hw => ?_
  refine Spec.bind (spec_rig host (.disarm w) hw) fun _ => Spec.bind_ok leads_step <|
    Spec.bind_rc leads_wait (fun rc hrc => ?_) ?_
  · refine Spec.get_bind fun w' hw' => Spec.pure _ ?_
    rintro _ rfl
    rcases hw' with ⟨h, _⟩ | ⟨_, h⟩
    · exact absurd h hrc
    · exact h.settled_of_idle
  · refine Spec.get_bind fun w' hw' => Spec.ite (fun _ => Spec.pure _ ?_) fun _ => ?_
    · rintro _ rfl
      rcases hw' with ⟨_, h⟩ | ⟨h, _⟩
      · exact h.settled_of_stopped
      · cases h
    · rcases hw' with ⟨_, h⟩ | ⟨h, _⟩
      · exact (spec_rig host (.arm w') h).post fun _ _ h => h.settled_of_stopped
      · cases h

lemma leads_handleWatchpointHit (index : ℕ) (isWrite : Bool) :
    Leads host (World.inState .stopped) (handleWatchpointHit host index isWrite)
      fun _ => World.Settled := by
  refine Spec.bind (leads_emit _) fun _ => Spec.bind_rc leads_stepPastAllWatchpoints
    (fun _ _ => Spec.pure _ fun _ h => h) ?_
  refine Spec.get_bind fun w hw => Spec.ite (fun _ => ?_) fun _ => ?_
  · exact Spec.bind (leads_reportProcessExit.from hw) fun _ =>
      Spec.pure _ fun _ h => h
  · refine Spec.bind ((leads_settled (edit_of_still (still_recordValue _))).from hw) fun _ =>
      Spec.get_bind fun w' hw' => ?_
    exact Spec.bind ((leads_settled (edit_of_still (still_printStopLocation _))).from hw')
      fun _ => Spec.pure _ fun _ h => h

lemma leads_handleUnresolvedWatchpointHit (far : Addr) :
    Leads host (World.inState .stopped) (handleUnresolvedWatchpointHit host far)
      fun _ => World.Settled := by
  refine Spec.bind (leads_emit _) fun _ => Spec.bind_rc leads_stepPastAllWatchpoints
    (fun _ _ => Spec.pure _ fun _ h => h) ?_
  refine Spec.get_bind fun w hw => Spec.ite (fun _ => ?_) fun _ => ?_
  · exact Spec.bind (leads_reportProcessExit.from hw) fun _ =>
      Spec.pure _ fun _ h => h
  · exact Spec.bind ((leads_settled (edit_of_still (still_printStopLocation _))).from hw)
      fun _ => Spec.pure _ fun _ h => h

/-- Without a watchpoint exception nothing happens; with one the debuggee is stepped. -/
lemma leads_tryReportWatchpointHit :
    Leads host (World.inState .stopped) (tryReportWatchpointHit host)
      fun hit w => w.Settled ∧ (hit = false → w.inState .stopped) := by
  refine Spec.get_bind fun w hw => ?_
  split
  · refine Spec.pure _ ?_
    rintro _ rfl
    exact ⟨hw.settled_of_stopped, fun _ => hw⟩
  split
  · exact Spec.bind ((leads_handleWatchpointHit _ _).from hw) fun _ =>
      Spec.pure _ fun _ h => ⟨h, by simp⟩
  · exact Spec.bind ((leads_handleUnresolvedWatchpointHit _).from hw) fun _ =>
      Spec.pure _ fun _ h => ⟨h, by simp⟩

lemma leads_print {m : Debugger σ Unit} (h : Moves Still m) (rc : ℤ) {P : World σ → Prop}
    (hP : ∀ w, P w → w.inState .stopped) :
    Leads host P (m >>= fun _ => pure rc) fun rc' w => rc' = rc ∧ w.inState .stopped :=
  Spec.bind ((leads_still h .stopped).pre hP) fun _ => Spec.pure _ fun _ h => ⟨rfl, h⟩

/-- A breakpoint hit is handled without fail. -/
lemma leads_handleBreakpointHit {index : ℕ} {bp : Breakpoint} :
    Leads host (fun w => w.inState .stopped ∧ w.dbg.breakpoints.entry index = some bp)
      (handleBreakpointHit index bp) fun rc w => rc = 0 ∧ w.inState .stopped := by
  refine Spec.bind_ok leads_disableEntry <| Spec.bind_ok leads_refreshRegs <|
    Spec.ite (fun _ => ?_) fun _ => ?_
  · have hset : Leads host World.Ready (modifyDbg fun d => { d with regs := d.regs.setPc bp.addr })
        fun _ => World.Ready :=
      Spec.modify fun w hw => ⟨hw.1.congr rfl rfl rfl, hw.2⟩
    exact Spec.bind hset fun _ => Spec.bind_ok leads_storeRegs <|
      Spec.bind (leads_emit _) fun _ => leads_print (still_printStopLocation _) 0 fun _ h => h
  · exact Spec.bind (leads_emit _) fun _ =>
      leads_print (still_printStopLocation _) 0 fun _ h => h.1

/-- `report_stop` succeeds and leaves the debuggee stopped or ended. -/
lemma leads_announceStop :
    Leads host (World.inState .stopped) (announceStop host)
      fun rc w => rc = 0 ∧ w.Settled := by
  refine Spec.bind (leads_edit edit_selectHitThread .stopped) fun _ =>
    Spec.get_bind fun w hw => ?_
  have hfreeze : Leads host (· = w) (threadsSuspendOthers w.dbg.pid w.dbg.currentTid)
      fun _ => World.inState .stopped := by
    rintro _ rfl _
    exact ⟨fun _ _ => trivial, fun _ _ => (Edit.freeze _).inState host hw⟩
  refine Spec.bind hfreeze fun _ => Spec.bind_ok leads_refreshRegs <|
    Spec.bind ((leads_still still_printStopHeader .stopped).pre fun _ h => h.1) fun _ =>
      Spec.get_bind fun w' hw' => ?_
  dsimp only
  split
  · split
    · next bp hbp =>
      exact (leads_handleBreakpointHit.from ⟨hw', hbp⟩).post
        fun _ _ h => ⟨h.1, h.2.settled_of_stopped⟩
    · exact Spec.pure_from _ ⟨rfl, hw'.settled_of_stopped⟩
  · refine Spec.bind (leads_tryReportWatchpointHit.from hw') fun hit => ?_
    refine Spec.ite (fun _ => Spec.pure _ fun _ h => ⟨rfl, h.1⟩) fun hhit => ?_
    exact Spec.bind (leads_emit _) fun _ =>
      (leads_print (still_printStopLocation _) 0 fun _ h => h.2 (Bool.eq_false_iff.mpr hhit)).post
        fun _ _ h => ⟨h.1, h.2.settled_of_stopped⟩

lemma leads_reportStop :
    Leads host (World.inState .stopped) (reportStop host) fun rc w => rc = 0 ∧ w.Settled :=
  Spec.bind leads_announceStop fun rc => Spec.bind (leads_emit _) fun _ =>
    Spec.pure rc fun _ h => h

/-! ### `step` and `next` -/

lemma leads_stepWithoutLine :
    Leads host (World.inState .stopped) (stepWithoutLine host)
      fun rc w => rc = 0 ∧ w.Settled := by
  refine Spec.bind_ok leads_step <| Spec.bind_rc leads_wait (fun rc hrc => ?_) ?_
  · refine Spec.get_bind fun w hw => Spec.pure _ ?_
    rintro _ rfl
    rcases hw with ⟨h, _⟩ | ⟨_, h⟩
    · exact absurd h hrc
    · exact ⟨if_pos h.1, h.settled_of_idle⟩
  · refine Spec.get_bind fun w hw => ?_
    have hs : w.inState .stopped := by
      rcases hw with ⟨_, h⟩ | ⟨h, _⟩
      · exact h
      · cases h
    refine Spec.ite (fun _ => ?_) fun _ => Spec.pure_from _ ⟨rfl, hs.settled_of_stopped⟩
    exact Spec.bind (leads_reportStop.from hs) fun _ =>
      Spec.pure _ fun _ h => ⟨rfl, h.2⟩

/-- The end of a command: the debugger has control, and a failure means that the process
has ended. -/
def World.Ends (rc : ℤ) (w : World σ) : Prop := w.Settled ∧ (rc = 0 ∨ w.dbg.state = .idle)

/-- What a round of a stepping loop leaves: a stop to go on from, or the end of the
command, successful or for lack of a process. -/
def World.Round (r : Option ℤ) (w : World σ) : Prop :=
  match r with
  | none => w.inState .stopped
  | some rc => w.Ends rc

lemma leads_stepOnce :
    Leads host (World.inState .stopped) (stepOnce host) World.Round := by
  refine Spec.bind_ok leads_step <| Spec.bind_rc leads_wait (fun rc hrc => ?_) ?_
  · refine Spec.get_bind fun w hw => Spec.pure _ ?_
    rintro _ rfl
    rcases hw with ⟨h, _⟩ | ⟨_, h⟩
    · exact absurd h hrc
    · exact ⟨h.settled_of_idle, Or.inr h.1⟩
  · refine Spec.get_bind fun w hw => ?_
    have hs : w.inState .stopped := by
      rcases hw with ⟨_, h⟩ | ⟨h, _⟩
      · exact h
      · cases h
    exact Spec.ite (fun hne => absurd hs.1 hne) fun _ => Spec.pure_from _ hs

lemma leads_checkLine (startFile : Str) (startLine : BitVec 32) :
    Leads host (World.inState .stopped) (checkLine host startFile startLine) World.Round := by
  refine Spec.bind_ok leads_refreshRegs <| Spec.get_bind fun w hw => ?_
  refine Spec.ite (fun _ => ?_) fun _ => ?_
  · exact Spec.bind (leads_reportStop.from hw.1) fun rc =>
      Spec.pure _ fun _ h => ⟨h.2, Or.inl h.1⟩
  refine Spec.bind (leads_tryReportWatchpointHit.from hw.1) fun hit => ?_
  refine Spec.ite (fun _ => Spec.pure _ fun _ h => ⟨h.1, Or.inl rfl⟩) fun hhit => ?_
  refine Spec.get_bind fun w' hw' => ?_
  have hs := hw'.2 (Bool.eq_false_iff.mpr hhit)
  split
  · exact Spec.pure_from _ hs
  · refine Spec.ite (fun _ => ?_) fun _ => Spec.pure_from _ hs
    exact Spec.bind ((leads_still still_printStopHeader .stopped).from hs) fun _ =>
      Spec.bind (leads_emit _) fun _ =>
        Spec.bind (leads_still (still_printStopLocation _) .stopped) fun _ =>
          Spec.pure _ fun _ h => ⟨h.settled_of_stopped, Or.inl rfl⟩

/-- The step limit is out of the question. -/
lemma leads_stepLimit {P : World σ → Prop} {Q : ℤ → World σ → Prop} :
    Leads host P (emit .stepLimit >>= fun _ => pure (-1)) Q := by
  intro w _ hok
  have hev : (⟨.stepLimit, w⟩ : Event σ).survivable host := hok _ (by simp [emit_bind])
  exact absurd hev.limit (by simp [EventKind.isStepLimit])

lemma leads_stepLoop (startFile : Str) (startLine : BitVec 32) : ∀ n : ℕ,
    Leads host (World.inState .stopped) (stepLoop host startFile startLine n)
      World.Ends
  | 0 => leads_stepLimit
  | n + 1 => by
      refine Spec.bind leads_stepOnce fun r => ?_
      cases r with
      | some rc => exact Spec.pure _ fun _ h => h
      | none =>
          refine Spec.bind (leads_checkLine _ _) fun r => ?_
          cases r with
          | some rc => exact Spec.pure _ fun _ h => h
          | none => exact leads_stepLoop startFile startLine n

lemma leads_stepNextLine :
    Leads host (World.inState .stopped) (stepNextLine host)
      World.Ends := by
  refine Spec.bind_ok leads_refreshRegs <| Spec.get_bind fun w hw => ?_
  split
  · exact (leads_stepWithoutLine.from hw.1).post fun _ _ h => ⟨h.2, Or.inl h.1⟩
  · exact (leads_stepLoop _ _ _).from hw.1

lemma leads_dropTemp (temp : Breakpoint) (s : State) :
    Leads host (World.inState s) (dropTemp temp) fun _ => World.inState s := by
  refine Spec.get_bind fun w hw => Spec.bind (Q := fun _ => World.inState s) ?_ fun _ =>
    Spec.pure _ fun _ h => h
  rintro w rfl _
  refine ⟨fun _ _ => trivial, fun _ _ => ?_⟩
  rcases bpDisable_cases temp w.dbg.pid w with ⟨_, h⟩ | ⟨_, p, hp, _, h⟩ | ⟨_, _, h⟩ |
    ⟨_, p, hp, _, h⟩
  · rw [h]
    exact hw
  · rw [h]
    exact hw.congr rfl rfl (World.child_setProc hp rfl rfl)
  · rw [h]
    exact hw
  · rw [h]
    exact hw.congr rfl rfl (World.child_setProc hp rfl rfl)

/-- Give up a temporary breakpoint and return. -/
lemma leads_dropTemp_return (temp : Breakpoint) (rc : ℤ) {s : State} {P : World σ → Prop}
    (hP : ∀ w, P w → w.inState s) :
    Leads host P (dropTemp temp >>= fun _ => pure rc) fun rc' w => rc' = rc ∧ w.inState s :=
  Spec.bind ((leads_dropTemp temp s).pre hP) fun _ => Spec.pure _ fun _ h => ⟨rfl, h⟩

lemma leads_bpEnable (site : BpSite) (bp : Breakpoint) (pid : ℕ) (addr : Addr) :
    Leads host (fun w => w.inState .stopped ∧ pid = w.dbg.pid) (bpEnable site bp pid addr)
      fun r w => r.2 = 0 ∧ w.inState .stopped := by
  rintro w ⟨hw, rfl⟩ hok
  rcases bpEnable_cases site bp w.dbg.pid addr w with ⟨_, h⟩ | ⟨p, hp, _, h⟩
  · rw [h] at hok
    exact ((hok _ List.mem_cons_self).not_memFailed hw).elim
  · rw [h]
    refine ⟨fun _ _ => trivial, fun r hr => ?_⟩
    obtain rfl := Option.some.inj hr
    exact ⟨rfl, hw.congr rfl rfl (World.child_setProc hp rfl rfl)⟩

lemma leads_finishTempBreakpoint (temp : Breakpoint) :
    Leads host (World.inState .stopped) (finishTempBreakpoint host temp) World.Ends := by
  refine Spec.bind_ok leads_refreshRegs <| Spec.get_bind fun w hw =>
    Spec.ite (fun _ => ?_) fun _ => ?_
  · exact Spec.bind ((leads_dropTemp temp .stopped).from hw.1) fun _ =>
      leads_reportStop.post fun _ _ h => ⟨h.2, Or.inl h.1⟩
  · refine Spec.bind ((leads_bpDisable temp _).from ⟨hw.1, rfl⟩) fun r => ?_
    refine Spec.ite (fun hrc => Spec.of_not fun _ h => hrc h.1) fun _ => Spec.pure _ fun _ h => ?_
    exact ⟨h.2.settled_of_stopped, Or.inl rfl⟩

lemma leads_continue :
    Leads host (World.inState .stopped) (cdbgContinue host)
      fun rc w => rc = 0 ∧ w.inState .running ∨ rc = 1 ∧ w.inState .idle :=
  (leads_cdbgContinue False).weaken (fun _ h => ⟨h, False.elim⟩)
    fun _ _ h => h.imp_right fun h => ⟨h.1, h.2.1⟩

lemma leads_stepOverCall (returnAddr : Addr) :
    Leads host (World.inState .stopped) (stepOverCall host returnAddr) World.Ends := by
  refine Spec.get_bind fun w hw =>
    Spec.bind ((leads_bpEnable _ _ _ _).from ⟨hw, rfl⟩) fun r => ?_
  refine Spec.ite (fun hrc => Spec.of_not fun _ h => hrc h.1) fun _ => ?_
  refine Spec.bind_rc (leads_continue.pre fun _ h => h.2) (fun rc hrc => ?_) ?_
  · refine (leads_dropTemp_return r.1 (-1) (s := .idle) ?_).post fun _ _ h =>
      ⟨h.2.settled_of_idle, Or.inr h.2.1⟩
    rintro w' (⟨h, _⟩ | ⟨_, h⟩)
    · exact absurd h hrc
    · exact h
  refine Spec.get_bind fun w' hw' => ?_
  have hrun : w'.inState .running := by
    rcases hw' with ⟨_, h⟩ | ⟨h, _⟩
    · exact h
    · cases h
  refine Spec.ite (fun hi => ?_) fun _ => ?_
  · rw [hrun.1] at hi
    cases hi
  refine Spec.bind_rc (leads_wait.from hrun) (fun rc hrc => ?_) ?_
  · refine Spec.bind ((leads_dropTemp r.1 .idle).pre ?_) fun _ => Spec.get_bind fun w'' hw'' => ?_
    · rintro w' (⟨h, _⟩ | ⟨_, h⟩)
      · exact absurd h hrc
      · exact h
    · exact Spec.pure_from _ ⟨hw''.settled_of_idle, Or.inr hw''.1⟩
  refine Spec.get_bind fun w'' hw'' => ?_
  have hs : w''.inState .stopped := by
    rcases hw'' with ⟨_, h⟩ | ⟨h, _⟩
    · exact h
    · cases h
  exact Spec.ite (fun hne => absurd hs.1 hne) fun _ =>
    (leads_finishTempBreakpoint _).from hs

lemma leads_callReturnAddress (pc : Addr) (s : State) :
    Leads host (World.inState s) (callReturnAddress pc) fun _ => World.inState s :=
  leads_still (still_callReturnAddress pc) s

lemma leads_nextOnce (pc : Addr) :
    Leads host (World.inState .stopped) (nextOnce host pc) World.Round := by
  refine Spec.bind (leads_callReturnAddress pc .stopped) fun r => ?_
  cases r with
  | none => exact leads_stepOnce
  | some returnAddr =>
      refine Spec.bind_rc (leads_stepOverCall returnAddr) (fun rc hrc => Spec.pure _ ?_) ?_
      · exact fun _ h => ⟨h.1, h.2.imp_left fun h0 => absurd h0 hrc⟩
      · refine Spec.get_bind fun w hw => Spec.ite (fun hne => ?_) fun hs => ?_
        · exact Spec.pure_from _ ⟨hw.1, Or.inl rfl⟩
        · refine Spec.pure_from _ (hw.1.stopped ?_)
          rw [not_not.mp hs]
          simp

lemma leads_nextLoop (startFile : Str) (startLine : BitVec 32) : ∀ (n : ℕ) (pc : Addr),
    Leads host (World.inState .stopped) (nextLoop host startFile startLine pc n) World.Ends
  | 0, _ => leads_stepLimit
  | n + 1, pc => by
      refine Spec.bind (leads_nextOnce pc) fun r => ?_
      cases r with
      | some rc => exact Spec.pure _ fun _ h => h
      | none =>
          refine Spec.bind (leads_checkLine _ _) fun r => ?_
          cases r with
          | some rc => exact Spec.pure _ fun _ h => h
          | none =>
              exact Spec.get_bind fun w hw =>
                (leads_nextLoop startFile startLine n _).from hw

lemma leads_nextSourceLine :
    Leads host (World.inState .stopped) (nextSourceLine host) World.Ends := by
  refine Spec.bind_ok leads_refreshRegs <| Spec.get_bind fun w hw => ?_
  split
  · exact (leads_stepWithoutLine.from hw.1).post fun _ _ h => ⟨h.2, Or.inl h.1⟩
  · exact (leads_nextLoop _ _ _ _).from hw.1

/-! ### Starting and ending a debuggee -/

lemma leads_stopDebuggee :
    Leads host World.Settled (stopDebuggee host)
      fun rc w => w.Settled ∧ (rc = 0 → w.dbg.state = .idle) := by
  intro w hw hok
  refine ⟨fun _ _ => trivial, fun rc hrc => ?_⟩
  have hc := (leads_fine (fine_of_prim prim_stopDebuggee) w hw.2 hok).2 rc hrc
  rcases stopDebuggee_cases host w with ⟨_, h⟩ | ⟨_, h⟩ | ⟨_, h⟩ | ⟨p, _, _, h⟩
  · rw [h] at hc ⊢
    exact ⟨⟨by simp, hc⟩, fun _ => rfl⟩
  · rw [h] at hc ⊢
    exact ⟨⟨by simp [Dbg.stopped], hc⟩, fun _ => rfl⟩
  · rw [h] at hc hrc ⊢
    refine ⟨hw, fun h0 => ?_⟩
    have := Option.some.inj hrc
    omega
  · rw [h] at hc ⊢
    exact ⟨⟨by simp [Dbg.stopped], hc⟩, fun _ => rfl⟩

lemma leads_launch (program : Str) :
    Leads host (fun w => w.Settled ∧ w.dbg.state = .idle) (launch host program)
      fun rc w => (rc ≠ 0 → w.Settled) ∧ (rc = 0 → w.inState .running) := by
  rintro w ⟨hw, hi⟩ _
  refine ⟨fun _ _ => trivial, fun rc hrc => ?_⟩
  have hc := Fine.coherent (.prim (.launch w program hi) : Fine host w _ _) hw.2
  rcases launch_cases host program w with h | ⟨b, h', lineno, syms, _, h⟩
  · rw [h] at hc hrc ⊢
    refine ⟨fun _ => ⟨hw.1, hc⟩, fun h0 => ?_⟩
    have := Option.some.inj hrc
    omega
  · rw [h] at hc hrc ⊢
    exact ⟨fun h0 => absurd (Option.some.inj hrc).symm h0, fun _ => ⟨rfl, hc⟩⟩

lemma leads_runToEntryStop :
    Leads host (World.inState .stopped) (runToEntryStop host) fun _ => World.Settled := by
  refine Spec.get_bind fun w hw => Spec.ite (fun hne => absurd hw.1 hne) fun _ => ?_
  split
  · exact Spec.pure_from _ hw.settled_of_stopped
  -- a temporary breakpoint at the entry, and a continue up to it
  refine Spec.bind ((leads_bpEnable _ _ _ _).from ⟨hw, rfl⟩) fun r => ?_
  refine Spec.ite (fun hrc => Spec.of_not fun _ h => hrc h.1) fun _ => ?_
  refine Spec.bind_rc (leads_continue.pre fun _ h => h.2) (fun rc hrc => ?_) ?_
  · refine (leads_dropTemp_return r.1 (-1) (s := .idle) ?_).post fun _ _ h =>
      h.2.settled_of_idle
    rintro w' (⟨h, _⟩ | ⟨_, h⟩)
    · exact absurd h hrc
    · exact h
  refine Spec.bind_rc (leads_wait.pre ?_) (fun rc hrc => ?_) ?_
  · rintro w' (⟨_, h⟩ | ⟨h, _⟩)
    · exact h
    · cases h
  · refine (leads_dropTemp_return r.1 (-1) (s := .idle) ?_).post fun _ _ h =>
      h.2.settled_of_idle
    rintro w' (⟨h, _⟩ | ⟨_, h⟩)
    · exact absurd h hrc
    · exact h
  refine Spec.get_bind fun w' hw' => ?_
  -- the wait has succeeded, so the debuggee has stopped
  have hs : w'.inState .stopped := by
    rcases hw' with ⟨_, h⟩ | ⟨h, _⟩
    · exact h
    · cases h
  refine Spec.ite (fun hne => absurd hs.1 hne) fun _ =>
    Spec.bind_ok (leads_refreshRegs.from hs) <| Spec.get_bind fun w'' hw'' => ?_
  -- elsewhere the breakpoint is dropped, at the entry the stop is announced too
  refine Spec.ite (fun _ => ?_) fun _ => ?_
  · exact ((leads_dropTemp_return r.1 0 fun _ h => h ▸ hw''.1)).post fun _ _ h =>
      h.2.settled_of_stopped
  refine Spec.bind ((leads_dropTemp r.1 .stopped).from hw''.1) fun _ => Spec.ite (fun _ => ?_)
    fun _ => ?_
  · refine (leads_edit (edit_of_still ?_) .stopped).post fun _ _ h => h.settled_of_stopped
    exact Moves.bind (still_setRegs fun r => r.setPc _) fun _ =>
      Moves.bind still_storeRegs fun _ => Moves.ite (Moves.pure _) <|
        Moves.bind still_printStopHeader fun _ =>
          Moves.bind (still_printStopLocation _) fun _ => Moves.pure _
  · refine (leads_edit (edit_of_still ?_) .stopped).post fun _ _ h => h.settled_of_stopped
    exact Moves.bind still_printStopHeader fun _ =>
      Moves.bind (still_printStopLocation _) fun _ => Moves.pure _

lemma leads_startProgram :
    Leads host World.Settled (startProgram host) fun _ => World.Settled := by
  refine Spec.get_bind fun w hw => ?_
  split
  · exact Spec.pure_from _ hw
  refine Spec.bind_rc (leads_stopDebuggee.from hw) (fun _ _ => Spec.pure _ fun _ h => h.1) ?_
  refine Spec.bind_rc ((leads_launch _).pre fun _ h => ⟨h.1, h.2 rfl⟩)
    (fun _ hrc => Spec.pure _ fun _ h => h.1 hrc) ?_
  refine Spec.bind_rc (leads_wait.pre fun _ h => h.2 rfl) (fun rc hrc => ?_) ?_
  · refine Spec.bind (leads_reportProcessExit.pre ?_) fun _ => Spec.pure _ fun _ h => h
    rintro w' (⟨h, _⟩ | ⟨_, h⟩)
    · exact absurd h hrc
    · exact h.settled_of_idle
  refine Spec.bind ((leads_still still_updateSlides .stopped).pre ?_) fun _ =>
    Spec.bind leads_runToEntryStop fun rc => Spec.ite (fun _ => ?_) fun _ => ?_
  · rintro w' (⟨_, h⟩ | ⟨h, _⟩)
    · exact h
    · cases h
  · exact Spec.bind leads_reportProcessExit fun _ => Spec.pure _ fun _ h => h
  · refine Spec.get_bind fun w' hw' => Spec.ite (fun _ => ?_) fun _ => Spec.pure_from _ hw'
    exact Spec.bind ((leads_settled (edit_of_still still_printStopContext)).from hw') fun _ =>
      Spec.pure _ fun _ h => h

lemma leads_cdbgRun (argv : Option (List Str)) :
    Leads host World.Settled (cdbgRun host argv) fun _ => World.Settled := by
  cases argv with
  | none => exact leads_startProgram
  | some argv =>
      exact Spec.bind_rc (leads_settled (edit_of_still (still_setRunTarget argv)))
        (fun _ _ => Spec.pure _ fun _ h => h) leads_startProgram

/-! ### `cdbg_repl` -/

lemma leads_cmdRun (args : Option Str) :
    Leads host World.Settled (cmdRun host args) fun _ => World.Settled := by
  rw [cmdRun]
  split
  · exact leads_cdbgRun _
  · refine Spec.ite (fun _ => Spec.pure _ fun _ h => h) fun _ => ?_
    split
    · exact Spec.pure _ fun _ h => h
    · exact leads_cdbgRun _

lemma leads_cmdKill :
    Leads host World.Settled (cmdKill host) fun _ => World.Settled := by
  refine Spec.get_bind fun w hw => Spec.ite (fun _ => Spec.pure_from _ hw) fun _ => ?_
  exact Spec.bind (leads_stopDebuggee.from hw) fun _ => Spec.pure _ fun _ h => h.1

/-- A command that `cdbg_repl` survives: it goes on, and the debugger has control. -/
def World.GoesOn (r : Option ℤ) (w : World σ) : Prop := r = none ∧ w.Settled

lemma leads_ignoring {m : Debugger σ α} {P : World σ → Prop}
    (h : Leads host P m fun _ => World.Settled) : Leads host P (ignoring m) World.GoesOn :=
  Spec.bind h fun _ => Spec.pure _ fun _ h => ⟨rfl, h⟩

lemma leads_exitReported {P : World σ → Prop} (hP : ∀ w, P w → w.Settled) :
    Leads host P (reportProcessExit >>= fun _ => pure none) World.GoesOn :=
  Spec.bind (leads_reportProcessExit.pre hP) fun _ => Spec.pure _ fun _ h => ⟨rfl, h⟩

lemma leads_waitAndReport :
    Leads host (World.inState .running) (waitAndReport host) World.GoesOn := by
  refine Spec.bind_rc leads_wait (fun rc hrc => Spec.get_bind fun w hw => ?_)
    (Spec.get_bind fun w hw => ?_)
  · have hi : w.inState .idle := by
      rcases hw with ⟨h, _⟩ | ⟨_, h⟩
      · exact absurd h hrc
      · exact h
    exact Spec.ite (fun _ => leads_exitReported fun _ h => h ▸ hi.settled_of_idle)
      fun hne => absurd hi.1 hne
  · have hs : w.inState .stopped := by
      rcases hw with ⟨_, h⟩ | ⟨h, _⟩
      · exact h
      · cases h
    exact Spec.ite (fun _ => Spec.bind (leads_reportStop.from hs) fun _ =>
      Spec.pure _ fun _ h => ⟨rfl, h.2⟩) fun hne => absurd hs.1 hne

lemma leads_execContinue :
    Leads host (fun w => w.Settled ∧ w.stepOverEnds host = false) (execContinue host)
      World.GoesOn := by
  refine Spec.get_bind fun w hw => Spec.ite (fun _ => Spec.pure_from _ ⟨rfl, hw.1⟩) fun hi => ?_
  refine Spec.bind_rc ((leads_cdbgContinue True).from ⟨hw.1.stopped hi, fun _ => hw.2⟩)
    (fun rc hrc => Spec.of_not ?_) ?_
  · rintro w' (⟨h, _⟩ | ⟨_, _, h⟩)
    · exact hrc h
    · exact h trivial
  · refine Spec.get_bind fun w' hw' => ?_
    have hr : w'.inState .running := by
      rcases hw' with ⟨_, h⟩ | ⟨h, _⟩
      · exact h
      · cases h
    refine Spec.ite (fun hi' => ?_) fun _ => leads_waitAndReport.from hr
    rw [hr.1] at hi'
    cases hi'

lemma leads_execStep {stepLine : Debugger σ ℤ}
    (h : Leads host (World.inState .stopped) stepLine World.Ends) :
    Leads host World.Settled (execStep stepLine) World.GoesOn := by
  refine Spec.get_bind fun w hw => Spec.ite (fun _ => Spec.pure_from _ ⟨rfl, hw⟩) fun hi => ?_
  refine Spec.bind (h.from (hw.stopped hi)) fun rc => Spec.get_bind fun w' hw' => ?_
  refine Spec.ite (fun hfail => Spec.of_not fun _ _ => ?_) fun _ =>
    leads_exitReported fun _ h => h ▸ hw'.1
  exact hw'.2.elim hfail.1 hfail.2

lemma leads_execSi : Leads host World.Settled (execSi host) World.GoesOn := by
  refine Spec.get_bind fun w hw => Spec.ite (fun _ => Spec.pure_from _ ⟨rfl, hw⟩) fun hi => ?_
  exact Spec.bind_ok (leads_step.from (hw.stopped hi)) leads_waitAndReport

lemma leads_execRegs :
    Leads host (fun w => w.Settled ∧ w.dbg.state ≠ .idle) execRegs World.GoesOn :=
  Spec.bind_ok (leads_refreshRegs.pre fun _ h => h.1.stopped h.2) <|
    Spec.pure _ fun _ h => ⟨rfl, h.1.settled_of_stopped⟩

/-- **A command other than `quit` is survived**. -/
theorem leads_execCommand {cmd : Command} (hq : cmd ≠ .quit) :
    Leads host (fun w => w.Settled ∧ (⟨.command cmd, w⟩ : Event σ).survivable host)
      (execCommand host cmd) World.GoesOn := by
  have hpure : Leads host (fun w => w.Settled ∧ (⟨.command cmd, w⟩ : Event σ).survivable host)
      (pure none) World.GoesOn := Spec.pure _ fun _ h => ⟨rfl, h.1⟩
  have hedit {β : Type} {m : Debugger σ β} (h : Moves Edit m) :
      Leads host (fun w => w.Settled ∧ (⟨.command cmd, w⟩ : Event σ).survivable host)
        (ignoring m) World.GoesOn := leads_ignoring ((leads_settled h).pre fun _ h => h.1)
  cases cmd with
  | quit => exact absurd rfl hq
  | run arg => exact leads_ignoring ((leads_cmdRun arg).pre fun _ h => h.1)
  | continue_ => exact leads_execContinue.pre fun _ h => ⟨h.1, h.2.cont rfl⟩
  | step => exact (leads_execStep leads_stepNextLine).pre fun _ h => h.1
  | si => exact leads_execSi.pre fun _ h => h.1
  | next => exact (leads_execStep leads_nextSourceLine).pre fun _ h => h.1
  | up => exact hedit (edit_of_still still_frameUp)
  | regs => exact leads_execRegs.pre fun _ h => ⟨h.1, h.2.regs rfl⟩
  | print fmt arg => exact hedit (edit_of_still (still_cmdPrint _))
  | set arg => exact hedit (edit_cmdSet arg)
  | show_ arg => exact hedit (edit_of_still (still_cmdShow arg))
  | tb => exact hedit (edit_of_still still_cmdBacktrace)
  | break_ arg =>
      cases arg with
      | none => exact hpure
      | some target => exact hedit (edit_cmdBreak target)
  | del arg => exact hedit (edit_cmdDel arg)
  | watch kind arg => exact hedit (edit_of_still (still_cmdWatch arg kind))
  | delwatch arg => exact hedit (edit_of_still (still_cmdDelwatch arg))
  | list arg => exact hedit (edit_of_still (still_cmdList arg))
  | thread arg =>
      cases arg with
      | none => exact hpure
      | some arg => exact hedit (edit_cmdThread arg)
  | kill => exact leads_ignoring (leads_cmdKill.pre fun _ h => h.1)
  | empty | help | leaks | dis | lines | lists | syms | x | unknown => exact hpure

/-! ### Sessions -/

/-- The commands that a run has read. -/
def commandsOf (t : List (Event σ)) : List Command := t.filterMap fun e => e.kind.commandRead

@[simp] lemma commandsOf_nil : commandsOf ([] : List (Event σ)) = [] := rfl

@[simp] lemma commandsOf_append (t t' : List (Event σ)) :
    commandsOf (t ++ t') = commandsOf t ++ commandsOf t' := List.filterMap_append

lemma commandsOf_command (c : Command) (w : World σ) (t : List (Event σ)) :
    commandsOf (⟨.command c, w⟩ :: t) = c :: commandsOf t := rfl

lemma EventKind.commandRead_of_mild {k : EventKind} (h : k.mild = true) :
    k.commandRead = none := by
  cases k <;> simp_all [mild, inert, isHit, commandRead]

/-- No operation reads a command. -/
lemma Fine.commandRead {w w' : World σ} {t : List (Event σ)} (h : Fine host w t w') :
    ∀ e ∈ t, e.kind.commandRead = none := by
  cases h.effect with
  | mild _ ht => exact fun e he => EventKind.commandRead_of_mild (ht e he).2
  | _ => simp [EventKind.commandRead]

lemma commandRead_of_moves {m : Debugger σ α} (h : Moves (Fine host) m) (w : World σ) :
    ∀ e ∈ (m w).trace, e.kind.commandRead = none := h.events (fun _ _ _ => Fine.commandRead) w

lemma commandsOf_of_moves {m : Debugger σ α} (h : Moves (Fine host) m) (w : World σ) :
    commandsOf (m w).trace = [] := List.filterMap_eq_nil_iff.mpr (commandRead_of_moves h w)

/-- The run of a session over these lines of input returns after the last line or after
`quit` only, unless it returns before the first. -/
def Survives (lines : List Str) (r : Run (Event σ) (World σ) ℤ) : Prop :=
  r.value.isSome → commandsOf r.trace ≠ [] →
    commandsOf r.trace = lines.map Command.parse ∨
      (commandsOf r.trace).getLast? = some .quit

instance (lines : List Str) (r : Run (Event σ) (World σ) ℤ) : Decidable (Survives lines r) :=
  inferInstanceAs (Decidable (_ → _))

/-- `quit` ends `cdbg_repl`. -/
lemma leads_execQuit :
    Leads host (fun _ => True) (execQuit host) fun r _ => r = some 0 :=
  Spec.bind (Q := fun _ _ => True) (fun _ _ _ => ⟨fun _ _ => trivial, fun _ _ => trivial⟩)
    fun _ => Spec.bind (Q := fun _ _ => True) (Spec.modify fun _ _ => trivial) fun _ =>
      Spec.pure _ fun _ _ => rfl

/-- The loop of `cdbg_repl`, by induction on the lines left. -/
lemma replLoop_ends : ∀ (lines : List Str) (w : World σ), w.Settled →
    (∀ e ∈ (replLoop host lines w).trace, e.survivable host) →
    (replLoop host lines w).value.isSome →
    commandsOf (replLoop host lines w).trace = lines.map Command.parse ∨
      (commandsOf (replLoop host lines w).trace).getLast? = some .quit
  | [], _, _, _, _ => Or.inl rfl
  | line :: lines, w, hw, hok, hv => by
      have hrun : replLoop host (line :: lines) w = _ := emit_bind _ _ w
      rw [hrun] at hok hv ⊢
      have hcmd := hok _ List.mem_cons_self
      have hnil := commandsOf_of_moves (grain_execCommand (Fine.grain host) (Command.parse line)) w
      rcases Prog.bind_cases (execCommand host (Command.parse line)) _ w with
        ⟨_, h⟩ | ⟨r, hr, h⟩
      · rw [h] at hv
        cases hv
      rw [h] at hok hv ⊢
      have hexec : ∀ e ∈ (execCommand host (Command.parse line) w).trace, e.survivable host :=
        fun e he => hok e (List.mem_cons_of_mem _ (List.mem_append_left _ he))
      simp only [commandsOf_command, commandsOf_append, hnil, List.nil_append]
      by_cases hq : Command.parse line = .quit
      -- nothing is read after `quit`
      · obtain rfl : r = some 0 := by
          rw [hq] at hexec hr
          exact (leads_execQuit w trivial hexec).2 r hr
        exact Or.inr (by simp [hq])
      obtain ⟨rfl, hw'⟩ := (leads_execCommand hq w ⟨hw, hcmd⟩ hexec).2 r hr
      have hrest := replLoop_ends lines _ hw' (fun e he =>
        hok e (List.mem_cons_of_mem _ (List.mem_append_right _ he))) hv
      change Command.parse line :: commandsOf (replLoop host lines _).trace = _ ∨
        (Command.parse line :: commandsOf (replLoop host lines _).trace).getLast? = _
      rcases hrest with h | h
      · exact Or.inl (by rw [h, List.map_cons])
      · refine Or.inr ?_
        rw [List.getLast?_cons, h]
        rfl

lemma World.settled_start (s : σ) : (World.start s).Settled :=
  ⟨by simp [World.start, Dbg.init], rfl⟩

/-- What is done before `cdbg_repl` is entered reads no command. -/
lemma survives_bind {lines : List Str} {m : Debugger σ α} {f : α → Debugger σ ℤ} {w : World σ}
    (hm : Moves (Fine host) m) (hok : ∀ e ∈ ((m >>= f) w).trace, e.survivable host)
    (hf : ∀ a, (m w).value = some a → (∀ e ∈ (m w).trace, e.survivable host) →
      (∀ e ∈ (f a (m w).final).trace, e.survivable host) → Survives lines (f a (m w).final)) :
    Survives lines ((m >>= f) w) := by
  rcases Prog.bind_cases m f w with ⟨_, h⟩ | ⟨a, ha, h⟩
  · rw [h]
    intro hv
    cases hv
  · rw [h] at hok ⊢
    have hrest := hf a ha (fun e he => hok e (List.mem_append_left _ he))
      fun e he => hok e (List.mem_append_right _ he)
    simpa only [Survives, commandsOf_append, commandsOf_of_moves hm, List.nil_append] using hrest

/-- **Survival**: a session in which every event is survivable returns on `quit` or after
the last line, once it has read a command. -/
theorem repl_survives (host : Host σ) (s : σ) (argv input : List Str)
    (h : ∀ e ∈ (cdbgMain host argv input (World.start s)).trace, e.survivable host) :
    Survives (replLines input) (cdbgMain host argv input (World.start s)) := by
  have hpure (rc : ℤ) (w : World σ) : Survives (replLines input) ((pure rc : Debugger σ ℤ) w) :=
    fun _ hne => absurd rfl hne
  cases argv with
  | nil => exact hpure 1 _
  | cons program args =>
  rw [cdbgMain] at h ⊢
  cases hp : resolveProgram host program with
  | none =>
      simp only [hp] at h ⊢
      exact hpure 1 _
  | some path =>
  simp only [hp] at h ⊢
  by_cases hlen : 256 < args.length + 2
  · rw [if_pos hlen]
    exact hpure 1 _
  rw [if_neg hlen] at h ⊢
  -- the program is there: its arguments are kept, and it is started
  have htarget : Moves (Fine host) (setRunTarget (σ := σ) (path :: args)) :=
    fine_of_still (still_setRunTarget _)
  refine survives_bind htarget h fun rc hrc hok1 h1 => ?_
  have hw1 := (leads_settled (edit_of_still (still_setRunTarget _)) _
    (World.settled_start s) hok1).2 rc hrc
  by_cases hz : rc ≠ 0
  · rw [if_pos hz]
    exact hpure 1 _
  rw [if_neg hz] at h1 ⊢
  refine survives_bind (grain_cdbgRun (Fine.grain host) none) h1 fun rc' hrc' hok2 h2 => ?_
  have hw2 := (leads_cdbgRun none _ hw1 hok2).2 rc' hrc'
  by_cases hz' : rc' ≠ 0
  · rw [if_pos hz']
    exact hpure 1 _
  rw [if_neg hz'] at h2 ⊢
  rcases Prog.bind_cases (cdbgRepl host input) _
    (cdbgRun host none (setRunTarget (path :: args) (World.start s)).final).final with
    ⟨_, hr⟩ | ⟨r, hr', hr⟩
  · rw [hr]
    intro hv
    cases hv
  rw [hr] at h2 ⊢
  -- from the start on every line is answered
  have hrepl := replLoop_ends (replLines input) _ hw2
    (fun e he => h2 e (List.mem_append_left _ he)) (Option.isSome_iff_exists.mpr ⟨r, hr'⟩)
  intro _ _
  have hlast : ∀ w : World σ, ((if r ≠ 0 then pure 1 else pure 0 : Debugger σ ℤ) w).trace = [] := by
    intro w
    split <;> rfl
  rw [hlast, List.append_nil]
  exact hrepl

/-- A child with one thread that stops twice at its first instruction and then exits. -/
def exitScript : Script :=
  let stop := StopState.at 0x1000 fun _ => 0
  ⟨[.of stop], [.stopped stop, .stopped stop, .exited 0]⟩

/-- The debugger survives a session in which the debuggee exits. -/
theorem repl_survives_script :
    Survives (replLines ["regs".toList, "si".toList, "continue".toList, "step".toList,
        "quit".toList])
      (cdbgMain (Script.host .stripped) ["a".toList]
        ["regs".toList, "si".toList, "continue".toList, "step".toList, "quit".toList]
        (World.start exitScript)) :=
  repl_survives _ _ _ _ (by decide +kernel)

/-- `regs` after the exit of the debuggee ends the debugger before it reads `quit`,
although every call on the debuggee has succeeded. -/
theorem regs_ends_repl :
    (∀ e ∈ (cdbgMain (Script.host .stripped) ["a".toList]
        ["si".toList, "continue".toList, "regs".toList, "quit".toList]
        (World.start exitScript)).trace, e.kind.isMemFailed = false ∧ e.findsThread) ∧
      ¬ Survives (replLines ["si".toList, "continue".toList, "regs".toList, "quit".toList])
        (cdbgMain (Script.host .stripped) ["a".toList]
          ["si".toList, "continue".toList, "regs".toList, "quit".toList]
          (World.start exitScript)) := by
  decide +kernel

end Cdbg
