import Cdbg.Control.Walk
import Cdbg.Laws.Prompt

/-!
Progress of `continue`: whether the program gets on before another breakpoint is hit.

`cdbg_continue` steps off the breakpoints that are disabled at the program counter, not
off those that are enabled there. While the debuggee executes nothing it stays where it
is, and entries are enabled at other addresses only; so if no entry was enabled at its
program counter when `continue` was read, none is there to be hit (`continue_progresses`).
-/

namespace Cdbg

open Prog

variable {σ α : Type} {host : Host σ}

/-- A count of the instructions of the program that have been executed, the traps of
breakpoints not among them: it never goes back, and a debuggee that stops without having
executed any has not moved. -/
structure Host.Counts (host : Host σ) (executed : σ → ℕ) : Prop where
  fork : ∀ h b h', host.fork h = some (b, h') → executed h ≤ executed h'
  resume : ∀ r p h, executed h ≤ executed (host.resume r p h).2
  still : ∀ r p h s h', host.resume r p h = (some (.stopped s), h') → executed h' = executed h →
    s.threads.list.map (fun t => t.regs.pc) = p.threads.list.map fun t => t.regs.pc

/-- Whether an event reports the hit of a breakpoint. -/
def EventKind.isBreakpointHit : EventKind → Bool
  | .breakpointHit _ => true
  | _ => false

/-- What is gathered from the events: the command that was read last, and how many
instructions had been executed then. -/
structure Odometer where
  command : Option Command
  executed : ℕ

/-- Before anything has happened. -/
def Odometer.zero : Odometer := ⟨none, 0⟩

/-- What an event adds. -/
def Odometer.note (executed : σ → ℕ) (c : Odometer) (e : Event σ) : Odometer :=
  match e.kind with
  | .command k => ⟨some k, executed e.world.host⟩
  | _ => c

/-- The debuggee has one thread, and there are no watchpoints. -/
def World.Solo (w : World σ) : Prop :=
  w.dbg.watchpoints.count = 0 ∧ ∀ p ∈ w.proc, p.threads.list.length = 1

/-- No entry of the table is enabled at the program counter of a thread. -/
def World.OffTraps (w : World σ) : Prop :=
  ∀ p ∈ w.proc, ∀ t ∈ p.threads.list, bpIsTrap t.regs.pc w.dbg.breakpoints = false

namespace Event

/-- A hit reported by `continue` comes after an instruction of the program. -/
def progressed (executed : σ → ℕ) (c : Odometer) (e : Event σ) : Prop :=
  e.kind.isBreakpointHit = true → c.command = some .continue_ → c.executed < executed e.world.host

/-- `continue` is read with a single thread and no watchpoints. -/
def solo (e : Event σ) : Prop := e.kind.commandRead = some .continue_ → e.world.Solo

/-- `continue` is read with no enabled breakpoint at the program counter. -/
def offTraps (e : Event σ) : Prop := e.kind.commandRead = some .continue_ → e.world.OffTraps

instance instDecidableWorldSolo (w : World σ) : Decidable w.Solo :=
  inferInstanceAs (Decidable (_ ∧ _))

instance instDecidableWorldOffTraps (w : World σ) : Decidable w.OffTraps :=
  inferInstanceAs (Decidable (∀ p ∈ w.proc, _))

instance (executed : σ → ℕ) (c : Odometer) (e : Event σ) : Decidable (e.progressed executed c) :=
  inferInstanceAs (Decidable (_ → _ → _))

instance instDecidableSolo (e : Event σ) : Decidable e.solo :=
  inferInstanceAs (Decidable (_ → _))

instance instDecidableOffTraps (e : Event σ) : Decidable e.offTraps :=
  inferInstanceAs (Decidable (_ → _))

end Event

/-! ### The invariant -/

/-- The program counters of the debuggee's threads. -/
def Proc.pcs (p : Proc) : List Addr := p.threads.list.map fun t => t.regs.pc

/-- The one thread of the debuggee is at no enabled breakpoint. -/
def World.Parked (w : World σ) : Prop :=
  ∀ p ∈ w.proc, ∃ pc, p.pcs = [pc] ∧ bpIsTrap pc w.dbg.breakpoints = false

/-- Without watchpoints, the count has passed `n`, or it is at `n` and no breakpoint is
there to be hit. -/
structure World.Moving (executed : σ → ℕ) (n : ℕ) (w : World σ) : Prop where
  unwatched : w.dbg.watchpoints.count = 0
  moved : n < executed w.host ∨ executed w.host = n ∧ w.Parked

/-- A hit is reported with the count past `n`. -/
def Event.grown (executed : σ → ℕ) (n : ℕ) (e : Event σ) : Prop :=
  e.kind.isBreakpointHit = true → n < executed e.world.host

/-- From a world in `P`, hits are reported with the count past `n`, and the value returned
and the world left satisfy `Q`. -/
abbrev Gains (executed : σ → ℕ) (n : ℕ) (P : World σ → Prop) (m : Debugger σ α)
    (Q : α → World σ → Prop) : Prop :=
  Spec (fun _ : Event σ => True) (Event.grown executed n) P m Q

/-- A change that concerns neither the program counters nor the tables. -/
structure World.Stands (w w' : World σ) : Prop where
  host : w'.host = w.host
  watchpoints : w'.dbg.watchpoints = w.dbg.watchpoints
  breakpoints : w'.dbg.breakpoints = w.dbg.breakpoints
  pcs : ∀ p' ∈ w'.proc, ∃ p ∈ w.proc, p'.pcs = p.pcs

section Gains

variable {executed : σ → ℕ} {n : ℕ}

lemma Event.grown_of_not_hit {e : Event σ} (h : e.kind.isBreakpointHit = false) :
    e.grown executed n := by
  intro hk
  rw [h] at hk
  cases hk

lemma World.Stands.of_proc {w w' : World σ} (hh : w'.host = w.host)
    (hw : w'.dbg.watchpoints = w.dbg.watchpoints) (hb : w'.dbg.breakpoints = w.dbg.breakpoints)
    (hp : w'.proc = w.proc) : w.Stands w' :=
  ⟨hh, hw, hb, fun p' hp' => ⟨p', hp ▸ hp', rfl⟩⟩

lemma World.Moving.stands {w w' : World σ} (h : w.Moving executed n) (hs : w.Stands w') :
    w'.Moving executed n := by
  refine ⟨hs.watchpoints ▸ h.unwatched, ?_⟩
  rw [hs.host]
  rcases h.moved with hg | ⟨he, hp⟩
  · exact .inl hg
  · refine .inr ⟨he, fun p' hp' => ?_⟩
    obtain ⟨p, hproc, hpcs⟩ := hs.pcs p' hp'
    rw [hpcs, hs.breakpoints]
    exact hp p hproc

lemma gains_of_stands {m : Debugger σ α} (h : ∀ w, w.Stands (m w).final ∧
    ∀ e ∈ (m w).trace, e.kind.isBreakpointHit = false) :
    Gains executed n (World.Moving executed n) m fun _ => World.Moving executed n :=
  fun w hw _ => ⟨fun e he => Event.grown_of_not_hit ((h w).2 e he), fun _ _ => hw.stands (h w).1⟩

lemma gains_emit {k : EventKind} (hk : k.isBreakpointHit = false) {P : World σ → Prop} :
    Gains executed n P (emit k) fun _ => P :=
  Spec.emit (fun _ _ _ => Event.grown_of_not_hit hk) fun _ h _ => h

/-- `Moving`, with the address of the thread that has not moved. -/
structure World.StillAt (executed : σ → ℕ) (n : ℕ) (pc : Addr) (w : World σ) : Prop where
  unwatched : w.dbg.watchpoints.count = 0
  moved : n < executed w.host ∨ executed w.host = n ∧
    bpIsTrap pc w.dbg.breakpoints = false ∧ ∀ p ∈ w.proc, p.pcs = [pc]

lemma World.StillAt.moving {pc : Addr} {w : World σ} (h : w.StillAt executed n pc) :
    w.Moving executed n :=
  ⟨h.unwatched, h.moved.imp_right fun ⟨he, ht, hp⟩ => ⟨he, fun p hproc => ⟨pc, hp p hproc, ht⟩⟩⟩

/-- The registers refreshed are those of the one thread. -/
lemma gains_refreshRegs : Gains executed n (World.Moving executed n) (refreshRegs (σ := σ))
    fun rc w => w.Moving executed n ∧ (rc = 0 → w.StillAt executed n w.dbg.regs.pc) := by
  intro w hw _
  rcases refreshRegs_cases w with ⟨_, h⟩ | ⟨t, ht, h⟩
  · rw [h]
    refine ⟨by simp [Event.grown, EventKind.isBreakpointHit], fun rc hrc => ⟨hw, fun h0 => ?_⟩⟩
    have := Option.some.inj hrc
    omega
  · rw [h]
    have hw' : (w.setDbg { w.dbg with regs := t.regs }).Moving executed n :=
      hw.stands (.of_proc rfl rfl rfl rfl)
    refine ⟨by simp [Event.grown, EventKind.isBreakpointHit], fun rc _ => ⟨hw', fun _ => ?_⟩⟩
    refine ⟨hw.unwatched, hw.moved.imp_right fun ⟨he, hpark⟩ => ⟨he, ?_⟩⟩
    obtain ⟨p, hp, htp⟩ := Option.bind_eq_some_iff.mp ht
    have hproc := (World.taskForPid_eq_some.mp hp).1
    obtain ⟨pc, hpcs, htrap⟩ := hpark p hproc
    have hmem : t.regs.pc ∈ p.pcs := List.mem_map_of_mem (Threads.resolve_mem htp)
    rw [hpcs] at hmem
    obtain rfl : t.regs.pc = pc := List.mem_singleton.mp hmem
    refine ⟨htrap, fun q hq => ?_⟩
    obtain rfl : p = q := Option.some.inj (hproc.symm.trans hq)
    exact hpcs

/-- Entries enabled away from the program counter do not matter. -/
lemma gains_reenableLoop (pc : Addr) : ∀ is : List ℕ,
    Gains executed n (World.StillAt executed n pc) (reenableLoop pc is)
      fun _ => World.StillAt executed n pc
  | [] => Spec.pure _ fun _ h => h
  | i :: is => by
      refine Spec.get_bind fun w hw => ?_
      split
      · exact (gains_reenableLoop pc is).from hw
      next bp hbp =>
      refine Spec.ite (fun hne => ?_) fun _ => (gains_reenableLoop pc is).from hw
      have hen : Gains executed n (· = w) (enableEntry i bp)
          fun _ => World.StillAt executed n pc := by
        rintro _ rfl _
        rcases enableEntry_cases hbp with ⟨_, h⟩ | ⟨p, hp, _, h⟩
        · rw [h]
          exact ⟨by simp [Event.grown, EventKind.isBreakpointHit], fun _ _ => hw⟩
        rw [h]
        refine ⟨by simp [Event.grown, EventKind.isBreakpointHit], fun _ _ => ⟨hw.unwatched, ?_⟩⟩
        refine hw.moved.imp_right fun ⟨he, htrap, hpcs⟩ => ⟨he, ?_, fun q hq => ?_⟩
        · rw [bpIsTrap, List.any_eq_false] at htrap ⊢
          intro b hb
          rcases Table.mem_set hb with rfl | ⟨j, _, hj⟩
          · simp [Breakpoint.matchesPc, Proc.breakpointAt, hne.2]
          · exact htrap b (Table.mem_of_entry hj)
        · obtain rfl : p.planted bp.addr = q := Option.some.inj hq
          exact hpcs p (World.taskForPid_eq_some.mp hp).1
      refine Spec.bind hen fun _ => Spec.ite (fun _ => Spec.pure _ fun _ h => h) fun _ => ?_
      exact gains_reenableLoop pc is

lemma gains_reenableBreakpointsAfterStep :
    Gains executed n (World.Moving executed n) (reenableBreakpointsAfterStep (σ := σ))
      fun _ => World.Moving executed n := by
  refine Spec.get_bind fun w hw => Spec.ite (fun _ => Spec.pure_from _ hw) fun _ => ?_
  refine Spec.bind_rc (gains_refreshRegs.from hw) (fun _ _ => Spec.pure _ fun _ h => h.1) ?_
  refine Spec.get_bind fun w' hw' => ?_
  exact ((gains_reenableLoop _ _).from (hw'.2 rfl)).post fun _ _ h => h.moving

lemma Proc.pcs_stopWith (p : Proc) (s : StopState) :
    (p.stopWith s).pcs = s.threads.list.map fun t => t.regs.pc := by
  simp only [Proc.pcs, Proc.stopWith, Threads.list_map, List.map_map]
  refine List.map_congr_left fun t _ => ?_
  rw [Function.comp_apply, Proc.keepKernelState]
  split <;> rfl

/-- A stop without an instruction finds the thread where it was. -/
lemma gains_waitForStop (hc : host.Counts executed) :
    Gains executed n (World.Moving executed n) (waitForStop host)
      fun _ => World.Moving executed n := by
  intro w hw _
  rcases waitForStop_cases host w with ⟨_, h⟩ | ⟨h', h⟩ | ⟨p, r, o, h', hp, _, ho, h⟩
  · rw [h]
    exact ⟨by simp, fun _ _ => hw⟩
  · rw [h]
    exact ⟨by simp, by simp⟩
  rw [h]
  refine ⟨by simp [Event.grown, EventKind.isBreakpointHit], fun _ _ => ?_⟩
  have hproc := (World.taskForPid_eq_some.mp hp).1
  have hle : executed w.host ≤ executed h' := by
    rcases ho with ⟨-, -, rfl⟩ | ⟨-, hr⟩
    · exact le_refl _
    · have := hc.resume r p w.host
      rwa [hr] at this
  have hfinal : executed (w.afterWait h' p o).host = executed h' := by cases o <;> rfl
  refine ⟨by cases o <;> exact hw.unwatched, ?_⟩
  rw [hfinal]
  -- instructions have been executed before, or the wait executes some
  rcases hw.moved with hg | ⟨he, hpark⟩
  · exact .inl (lt_of_lt_of_le hg hle)
  rcases Nat.lt_or_ge n (executed h') with hlt | hge
  · exact .inl hlt
  -- with none executed the thread is still where it was
  have heq : executed h' = executed w.host := by omega
  refine .inr ⟨heq.trans he, fun q hq => ?_⟩
  cases o with
  | exited _ => cases hq
  | signaled _ => cases hq
  | stopped s =>
      obtain rfl : p.stopWith s = q := Option.some.inj hq
      obtain ⟨pc, hpcs, htrap⟩ := hpark p hproc
      rcases ho with ⟨-, ho, -⟩ | ⟨-, hr⟩
      · cases ho
      · refine ⟨pc, ?_, htrap⟩
        rw [Proc.pcs_stopWith, hc.still r p w.host s h' hr heq]
        exact hpcs

/-- `cdbg_wait` keeps count. -/
lemma gains_cdbgWait (hc : host.Counts executed) :
    Gains executed n (World.Moving executed n) (cdbgWait host)
      fun _ => World.Moving executed n := by
  refine Spec.bind_rc (gains_waitForStop hc) (fun _ _ => Spec.pure _ fun _ h => h) ?_
  refine Spec.get_bind fun w hw => Spec.ite (fun _ => Spec.pure_from _ hw) fun _ => ?_
  refine Spec.bind_rc (gains_reenableBreakpointsAfterStep.from hw)
    (fun _ _ => Spec.pure _ fun _ h => h) ?_
  exact Spec.pure _ fun _ h => h

lemma gains_cdbgSingleStep :
    Gains executed n (World.Moving executed n) (cdbgSingleStep (σ := σ))
      fun _ => World.Moving executed n := by
  refine gains_of_stands fun w => ?_
  rcases cdbgSingleStep_cases w with ⟨h, _⟩ | ⟨p, hp, _, h⟩
  · rw [h]
    exact ⟨.of_proc rfl rfl rfl rfl, by simp⟩
  · rw [h]
    refine ⟨⟨rfl, rfl, rfl, fun p' hp' => ?_⟩, by simp [EventKind.isBreakpointHit]⟩
    exact ⟨p, (World.taskForPid_eq_some.mp hp).1, by rw [← Option.some.inj hp']; rfl⟩

lemma gains_stepOverDisabledBreakpoint (hc : host.Counts executed) :
    Gains executed n (World.Moving executed n) (stepOverDisabledBreakpoint host)
      fun _ => World.Moving executed n := by
  refine Spec.get_bind fun w hw => Spec.ite (fun _ => Spec.pure_from _ hw) fun _ => ?_
  refine Spec.bind_rc (gains_refreshRegs.from hw) (fun _ _ => Spec.pure _ fun _ h => h.1) ?_
  refine Spec.bind (gains_emit rfl) fun _ => ?_
  refine Spec.get_bind fun w' hw' => Spec.ite (fun _ => Spec.pure_from _ hw'.1) fun _ => ?_
  refine Spec.bind_rc (gains_cdbgSingleStep.from hw'.1) (fun _ _ => Spec.pure _ fun _ h => h) ?_
  exact gains_cdbgWait hc

lemma gains_thawAndContinue :
    Gains executed n (World.Moving executed n) (thawAndContinue (σ := σ))
      fun _ => World.Moving executed n := by
  refine gains_of_stands fun w => ?_
  have hpcs : ∀ p : Proc, (p.thawed w.dbg.currentTid).pcs = p.pcs := by
    intro p
    simp [Proc.pcs, Proc.thawed, Threads.resumeOthers, List.map_map, Function.comp_def]
  rcases thawAndContinue_cases w with ⟨_, h⟩ | ⟨p, hp, ⟨_, h⟩ | ⟨_, h⟩⟩
  · rw [h]
    exact ⟨.of_proc rfl rfl rfl rfl, by simp⟩
  · rw [h]
    refine ⟨⟨rfl, rfl, rfl, fun p' hp' => ?_⟩, by simp [EventKind.isBreakpointHit]⟩
    exact ⟨p, (World.taskForPid_eq_some.mp hp).1, by rw [← Option.some.inj hp', hpcs]⟩
  · rw [h]
    refine ⟨⟨rfl, rfl, rfl, fun p' hp' => ?_⟩, by simp [EventKind.isBreakpointHit]⟩
    refine ⟨p, (World.taskForPid_eq_some.mp hp).1, ?_⟩
    rw [← Option.some.inj hp', ← hpcs p]
    rfl

lemma gains_cdbgContinue (hc : host.Counts executed) :
    Gains executed n (World.Moving executed n) (cdbgContinue host)
      fun _ => World.Moving executed n := by
  refine Spec.bind (gains_stepOverDisabledBreakpoint hc) fun rc => ?_
  refine Spec.ite (fun _ => Spec.pure _ fun _ h => h) fun _ => ?_
  exact Spec.get_bind fun w hw =>
    Spec.ite (fun _ => Spec.pure_from _ hw) fun _ => gains_thawAndContinue.from hw

/-! ### Reporting -/

/-- An edit leaves the host alone. -/
lemma Edit.host_eq {w w' : World σ} {t : List (Event σ)} (h : Edit w t w') :
    w'.host = w.host ∧ ∀ e ∈ t, e.world.host = w.host := by
  cases h with
  | still h => exact ⟨h.1.host, fun e he => by rw [(h.2.2 e he).1]⟩
  | enable _ _ _ hbp =>
      rcases enableEntry_cases hbp with ⟨_, h⟩ | ⟨p, _, _, h⟩ <;> simp [h]
  | disable _ _ _ hbp =>
      rcases disableEntry_cases hbp with ⟨_, h⟩ | ⟨_, p, _, _, h⟩ | ⟨_, _, h⟩ | ⟨_, p, _, _, h⟩ <;>
        simp [h]
  | add _ addr =>
      rcases addBreakpoint_cases addr w with h | ⟨_, h⟩ | ⟨p, _, _, _, h⟩ <;> simp [h]
  | erase => simp
  | freeze =>
      rcases threadsSuspendOthers_cases w.dbg.pid w.dbg.currentTid w with h | ⟨p, _, h⟩ <;> simp [h]
  | select => simp
  | store _ addr size value =>
      rcases writeScalarValue_cases addr size value w with ⟨_, h⟩ | ⟨p, _, ⟨_, h⟩ | ⟨_, h⟩⟩ <;>
        simp [h]

/-- A hit handled after the count has grown. -/
lemma gains_handleBreakpointHit {index : ℕ} {bp : Breakpoint} {w : World σ}
    (hbp : w.dbg.breakpoints.entry index = some bp) (hw : n < executed w.host) :
    Gains executed n (· = w) (handleBreakpointHit index bp) fun _ _ => True := by
  rintro _ rfl _
  obtain ⟨w', hc, _⟩ := movesFrom_handleBreakpointHit (σ := σ) hbp
  refine ⟨(hc.invariant (I := fun u => n < executed u.host) (fun u t u' he hu _ => ?_) hw
    (fun _ _ => trivial : ∀ e ∈ _, True)).2, fun _ _ => trivial⟩
  obtain ⟨hh, ht⟩ := he.host_eq
  refine ⟨hh ▸ hu, fun e hmem _ => ?_⟩
  rw [ht e hmem]
  exact hu

/-- Without watchpoints there is no hit of one to report. -/
lemma tryReportWatchpointHit_unwatched {w : World σ} (h : w.dbg.watchpoints.count = 0) :
    tryReportWatchpointHit host w = ⟨some false, w, []⟩ := by
  simp [tryReportWatchpointHit, World.watchException, h]

lemma gains_selectHitThread :
    Gains executed n (World.Moving executed n) (selectHitThread (σ := σ))
      fun _ => World.Moving executed n := by
  refine gains_of_stands fun w => ?_
  by_cases h : w.hitTid = 0
  · simp only [selectHitThread, Prog.get_bind, h, if_true]
    exact ⟨.of_proc rfl rfl rfl rfl, by simp⟩
  · simp only [selectHitThread, Prog.get_bind, h, if_false]
    exact ⟨.of_proc rfl rfl rfl rfl, by simp⟩

lemma gains_suspendOthers (pid : ℕ) (keep : Tid) :
    Gains executed n (World.Moving executed n) (threadsSuspendOthers (σ := σ) pid keep)
      fun _ => World.Moving executed n := by
  refine gains_of_stands fun w => ?_
  rcases threadsSuspendOthers_cases pid keep w with h | ⟨p, hp, h⟩
  · rw [h]
    exact ⟨.of_proc rfl rfl rfl rfl, by simp⟩
  · rw [h]
    refine ⟨⟨rfl, rfl, rfl, fun p' hp' => ?_⟩, by simp [EventKind.isBreakpointHit]⟩
    refine ⟨p, (World.taskForPid_eq_some.mp hp).1, ?_⟩
    rw [← Option.some.inj hp']
    simp [Proc.pcs, Proc.frozen, Threads.suspendOthers, List.map_map, Function.comp_def]

/-- A thread that has not moved is at no breakpoint, so that none is reported. -/
lemma gains_announceStop :
    Gains executed n (World.Moving executed n) (announceStop host) fun _ _ => True := by
  refine Spec.bind gains_selectHitThread fun _ => Spec.get_bind fun w hw => ?_
  refine Spec.bind ((gains_suspendOthers _ _).from hw) fun _ => ?_
  refine Spec.bind_rc gains_refreshRegs (fun _ _ => Spec.pure _ fun _ _ => trivial) ?_
  refine Spec.bind (gains_emit (k := .stopHeader) rfl) fun _ => Spec.get_bind fun u hu => ?_
  have hat := hu.2 rfl
  dsimp only
  split
  next i hi =>
    split
    next bp hbp =>
      have hgrown : n < executed u.host := by
        rcases hat.moved with hg | ⟨-, htrap, -⟩
        · exact hg
        · rw [← bpMatchIndex_isSome, hi] at htrap
          cases htrap
      exact gains_handleBreakpointHit hbp hgrown
    next => exact Spec.pure_from _ trivial
  next =>
    have htry : Gains executed n (· = u) (tryReportWatchpointHit host) fun _ _ => True := by
      rintro _ rfl _
      rw [tryReportWatchpointHit_unwatched hat.unwatched]
      exact ⟨by simp, fun _ _ => trivial⟩
    refine Spec.bind htry fun _ => Spec.ite (fun _ => Spec.pure _ fun _ _ => trivial) fun _ => ?_
    refine Spec.bind (gains_emit rfl) fun _ => Spec.bind (gains_emit rfl) fun _ => ?_
    exact Spec.pure _ fun _ _ => trivial

lemma gains_reportStop :
    Gains executed n (World.Moving executed n) (reportStop host) fun _ _ => True :=
  Spec.bind gains_announceStop fun _ => Spec.bind (gains_emit rfl) fun _ =>
    Spec.pure _ fun _ _ => trivial

lemma gains_reportProcessExit {P : World σ → Prop} :
    Gains executed n P (reportProcessExit (σ := σ)) fun _ _ => True := by
  intro w _ _
  rcases reportProcessExit_cases w with ⟨_, h⟩ | ⟨_, h⟩ <;>
    simp [h, Event.grown, EventKind.isBreakpointHit]

lemma gains_waitAndReport (hc : host.Counts executed) :
    Gains executed n (World.Moving executed n) (waitAndReport host) fun _ _ => True := by
  refine Spec.bind_rc (gains_cdbgWait hc) (fun _ _ => ?_) ?_
  · refine Spec.get_bind fun w _ => Spec.ite (fun _ => ?_) fun _ => Spec.pure_from _ trivial
    exact Spec.bind gains_reportProcessExit fun _ => Spec.pure _ fun _ _ => trivial
  · refine Spec.get_bind fun w hw => Spec.ite (fun _ => ?_) fun _ => ?_
    · exact Spec.bind (gains_reportStop.from hw) fun _ => Spec.pure _ fun _ _ => trivial
    · exact Spec.bind gains_reportProcessExit fun _ => Spec.pure _ fun _ _ => trivial

/-- `continue` from where no breakpoint is to be hit. -/
lemma gains_execContinue (hc : host.Counts executed) :
    Gains executed n (World.Moving executed n) (execContinue host) fun _ _ => True := by
  refine Spec.get_bind fun w hw => Spec.ite (fun _ => Spec.pure_from _ trivial) fun _ => ?_
  refine Spec.bind_rc ((gains_cdbgContinue hc).from hw)
    (fun _ _ => Spec.pure _ fun _ _ => trivial) ?_
  refine Spec.get_bind fun u hu => Spec.ite (fun _ => ?_) fun _ => (gains_waitAndReport hc).from hu
  exact Spec.bind gains_reportProcessExit fun _ => Spec.pure _ fun _ _ => trivial

/-- Where `continue` is read, nothing has been executed yet. -/
lemma World.moving_of_solo {w : World σ} (hs : w.Solo) (ho : w.OffTraps) :
    w.Moving executed (executed w.host) := by
  refine ⟨hs.1, .inr ⟨rfl, fun p hp => ?_⟩⟩
  obtain ⟨t, ht⟩ := List.length_eq_one_iff.mp (hs.2 p hp)
  refine ⟨t.regs.pc, by rw [Proc.pcs, ht]; rfl, ho p hp t ?_⟩
  rw [ht]
  exact List.mem_singleton_self t

end Gains

/-! ### Sessions -/

variable {executed : σ → ℕ}

lemma Odometer.note_of_not_command {e : Event σ} (h : e.kind.commandRead = none) (c : Odometer) :
    c.note executed e = c := by
  obtain ⟨k, w⟩ := e
  cases k <;> simp_all [note, EventKind.commandRead]

/-- Events among which no command is read are judged by what was gathered before them. -/
lemma along_of_no_command (executed : σ → ℕ) {good : Odometer → Event σ → Prop} {c : Odometer}
    {t : List (Event σ)} (hn : ∀ e ∈ t, e.kind.commandRead = none) (h : ∀ e ∈ t, good c e) :
    Along (Odometer.note executed) good c t ∧ t.foldl (Odometer.note executed) c = c := by
  induction t with
  | nil => exact ⟨trivial, rfl⟩
  | cons e t ih =>
      have he : c.note executed e = c := Odometer.note_of_not_command (hn e List.mem_cons_self) c
      obtain ⟨ha, hf⟩ := ih (fun e' h' => hn e' (List.mem_cons_of_mem _ h'))
        fun e' h' => h e' (List.mem_cons_of_mem _ h')
      rw [List.foldl_cons, Along, he]
      exact ⟨⟨h e List.mem_cons_self, ha⟩, hf⟩

/-- The hits reported by one command. -/
lemma progressed_execCommand (hc : host.Counts executed) (cmd : Command) (w : World σ)
    (h : cmd = .continue_ → w.Solo ∧ w.OffTraps) :
    ∀ e ∈ (execCommand host cmd w).trace, e.progressed executed ⟨some cmd, executed w.host⟩ := by
  intro e he hk hcmd
  obtain rfl : cmd = .continue_ := Option.some.inj hcmd
  obtain ⟨hs, ho⟩ := h rfl
  have hg := gains_execContinue hc w (World.moving_of_solo hs ho) fun _ _ => trivial
  exact hg.1 e he hk

/-- The loop of `cdbg_repl`, by induction on the lines left. -/
lemma along_replLoop (hc : host.Counts executed) :
    ∀ (lines : List Str) (w : World σ) (c : Odometer),
    (∀ e ∈ (replLoop host lines w).trace, e.solo ∧ e.offTraps) →
      Along (Odometer.note executed) (Event.progressed executed) c (replLoop host lines w).trace
  | [], _, _, _ => trivial
  | line :: lines, w, c, h => by
      have hrun : replLoop host (line :: lines) w = _ := Cdbg.emit_bind _ _ w
      rw [hrun] at h ⊢
      have hcmd : Command.parse line = .continue_ → w.Solo ∧ w.OffTraps := fun hk =>
        have hread := h _ List.mem_cons_self
        ⟨hread.1 (congrArg some hk), hread.2 (congrArg some hk)⟩
      have hexec := progressed_execCommand hc _ w hcmd
      have hnone := commandRead_of_moves
        (grain_execCommand (Fine.grain host) (Command.parse line)) w
      obtain ⟨hal, hfold⟩ := along_of_no_command executed hnone hexec
      refine And.intro (fun hk => by cases hk) ?_
      change Along _ _ (Odometer.mk (some (Command.parse line)) (executed w.host)) _
      rcases Prog.bind_cases (execCommand host (Command.parse line)) _ w with
        ⟨_, hr⟩ | ⟨r, _, hr⟩
      · rw [hr]
        exact hal
      rw [hr] at h ⊢
      refine along_append.mpr ⟨hal, ?_⟩
      rw [hfold]
      cases r with
      | some rc => trivial
      | none =>
          exact along_replLoop hc lines _ _ fun e he =>
            h e (List.mem_cons_of_mem _ (List.mem_append_right _ he))

/-- A run that reads commands only in the loop of `cdbg_repl`, which it ends with. -/
def EndsInRepl (host : Host σ) (m : Debugger σ ℤ) : Prop :=
  ∀ w, ∃ t w' lines, (m w).trace = t ++ (replLoop host lines w').trace ∧
    ∀ e ∈ t, e.kind.commandRead = none

lemma EndsInRepl.pure (rc : ℤ) : EndsInRepl host (pure rc : Debugger σ ℤ) :=
  fun w => ⟨[], w, [], rfl, by simp⟩

lemma EndsInRepl.bind {m : Debugger σ α} {f : α → Debugger σ ℤ} (hm : Moves (Fine host) m)
    (hf : ∀ a, EndsInRepl host (f a)) : EndsInRepl host (m >>= f) := by
  intro w
  have hnone := commandRead_of_moves hm w
  rcases Prog.bind_cases m f w with ⟨_, hr⟩ | ⟨a, _, hr⟩
  · exact ⟨(m w).trace, w, [], by rw [hr]; exact (List.append_nil _).symm, hnone⟩
  · obtain ⟨t, w', lines, ht, hn⟩ := hf a (m w).final
    refine ⟨(m w).trace ++ t, w', lines, by rw [hr, List.append_assoc, ← ht], fun e he => ?_⟩
    exact (List.mem_append.mp he).elim (hnone e) (hn e)

lemma EndsInRepl.ite {c : Prop} [Decidable c] {m n : Debugger σ ℤ} (hm : EndsInRepl host m)
    (hn : EndsInRepl host n) : EndsInRepl host (if c then m else n) := by
  split <;> assumption

/-- A session reads its commands in the loop of `cdbg_repl`. -/
lemma endsInRepl_cdbgMain (host : Host σ) (argv input : List Str) :
    EndsInRepl host (cdbgMain host argv input) := by
  cases argv with
  | nil => exact .pure 1
  | cons program args =>
      rw [cdbgMain]
      split
      · exact .pure 1
      refine .ite (.pure 1) (.bind (fine_of_still (still_setRunTarget _)) fun _ =>
        .ite (.pure 1) (.bind (grain_cdbgRun (Fine.grain host) none) fun _ => .ite (.pure 1) ?_))
      intro w
      refine ⟨[], w, replLines input, ?_, by simp⟩
      rcases Prog.bind_cases (cdbgRepl host input) _ w with ⟨_, hr⟩ | ⟨rc, _, hr⟩
      · rw [hr]
        rfl
      · rw [hr]
        dsimp only
        split <;> exact List.append_nil _

/-- **`continue` makes progress**: in a session in which `continue` is read with one thread,
without watchpoints and with no breakpoint enabled at the program counter, it reports no hit
before an instruction has been executed. -/
theorem continue_progresses (hc : host.Counts executed) (s : σ) (argv input : List Str)
    (hsolo : ∀ e ∈ (cdbgMain host argv input (World.start s)).trace, e.solo)
    (h : ∀ e ∈ (cdbgMain host argv input (World.start s)).trace, e.offTraps) :
    Along (Odometer.note executed) (Event.progressed executed) .zero
      (cdbgMain host argv input (World.start s)).trace := by
  obtain ⟨t, w, lines, ht, hn⟩ := endsInRepl_cdbgMain host argv input (World.start s)
  rw [ht] at hsolo h ⊢
  -- before the first command no hit counts
  have hearly : ∀ e ∈ t, e.progressed executed .zero := fun _ _ _ hcmd => by cases hcmd
  obtain ⟨hal, hfold⟩ := along_of_no_command executed hn hearly
  refine along_append.mpr ⟨hal, ?_⟩
  rw [hfold]
  exact along_replLoop hc lines w _ fun e he =>
    ⟨hsolo e (List.mem_append_right t he), h e (List.mem_append_right t he)⟩

/-- The program that executes its instructions one after the other is counted right. -/
lemma counts_walk (image : Image) : (Walk.host image).Counts id where
  fork h b h' hf := by
    obtain ⟨-, rfl⟩ := Prod.mk.inj (Option.some.inj hf)
    exact le_refl _
  resume r p h := by
    cases r with
    | step => exact (Walk.step_stopped rfl).1
    | cont => exact (Walk.run_stopped rfl).1
    | exec => exact le_refl _
    | sigkill => exact le_refl _
  still r p h s h' hr he := by
    have hts : s.threads = p.threads := by
      cases r with
      | step =>
          obtain ⟨ho, hn⟩ := Prod.mk.inj hr
          exact (Walk.step_stopped (o := .stopped s) (Prod.ext (Option.some.inj ho) hn)).2 he s rfl
      | cont => exact (Walk.run_stopped hr).2 he s rfl
      | exec | sigkill =>
          have ho : Outcome.stopped _ = .stopped s := Option.some.inj (Prod.mk.inj hr).1
          rw [← Outcome.stopped.inj ho]
    rw [hts]

/-- A breakpoint that was hit and one that is hit later. -/
theorem continue_progresses_walk :
    Along (Odometer.note id) (Event.progressed id) .zero
      (cdbgMain (Walk.host .stripped) ["a".toList]
        ["break 0x1008".toList, "continue".toList, "break 0x100c".toList, "continue".toList]
        (World.start 0)).trace :=
  continue_progresses (counts_walk _) _ _ _ (by decide +kernel) (by decide +kernel)

/-- A breakpoint set where the program is stopped is hit at once. -/
theorem continue_stands_still :
    (∀ e ∈ (cdbgMain (Walk.host .stripped) ["a".toList] ["break 0x1000".toList, "continue".toList]
      (World.start 0)).trace, e.solo) ∧
    ¬ Along (Odometer.note id) (Event.progressed id) .zero
      (cdbgMain (Walk.host .stripped) ["a".toList] ["break 0x1000".toList, "continue".toList]
        (World.start 0)).trace := by
  decide +kernel

end Cdbg
