import Cdbg.Laws.Frozen
import Cdbg.Laws.Progress
import Cdbg.Laws.StepLine

/-!
Signals during `step` and `next`: what is gathered from the events of such a command, and what
each call leaves of it.

`cdbg_wait` tells the stepping loops only that the debuggee has stopped. They take a stop
by a signal for one of their own: they look whether the selected thread is at an enabled
breakpoint or at another line, and step on if it is not; the stop of the step off a
disabled breakpoint they do not look at at all. The demands of `Event.heeded` exclude just
that. Which stops are by signals is up to the host, so it is given as a predicate of events.
-/

namespace Cdbg

open Prog

variable {σ α : Type} {host : Host σ}

/-! ### What the events tell -/

/-- What the debuggee has been resumed for: one step of a loop, the step off a disabled
breakpoint, the step past a watchpoint, or to run to a temporary breakpoint. -/
inductive Way
  | own | off | past | call
  deriving DecidableEq

/-- What is gathered from the events of a stepping command. -/
structure Gait where
  /-- what the next `PT_STEP` is for -/
  next : Way
  /-- what the debuggee was last resumed for -/
  way : Way
  /-- the address of the last temporary breakpoint -/
  temp : Addr
  /-- the program counters of the threads at the last stop by a signal -/
  stop : Option (List Addr)
  /-- a stop on the way to a temporary breakpoint is still to be reported -/
  astray : Bool
  /-- the place of that stop has been printed since -/
  reported : Bool

/-- Before a command does anything. -/
def Gait.start : Gait := ⟨.own, .own, 0, none, false, false⟩

/-- The program counters of the debuggee's threads. -/
def World.pcs (w : World σ) : Option (List Addr) := w.proc.map Proc.pcs

/-- The program counter of the selected thread. -/
def World.selectedPc (w : World σ) : Option Addr :=
  (w.resolvePort w.dbg.pid w.dbg.currentTid).map fun t => t.regs.pc

/-- The world with the debuggee stopped. -/
def World.stoppedAs (w : World σ) (s : StopState) : World σ :=
  { w with proc := w.proc.map fun p => p.stopWith s }

/-- Whether, after a stop, `step_over_call` is to report one elsewhere than at its temporary
breakpoint; the step past a watchpoint is part of such a report. -/
def Gait.strays (c : Gait) (w : World σ) : Bool :=
  match c.way with
  | .call => w.selectedPc ≠ some c.temp
  | .past => c.astray
  | _ => false

/-- What an event adds, given which of the stops are by signals. -/
def Gait.note (signal : Event σ → Bool) (c : Gait) (e : Event σ) : Gait :=
  match e.kind with
  | .steppingOver => { c with next := .off }
  | .watchpointHit _ _ => { c with next := .past }
  | .watchpointNear _ => { c with next := .past }
  | .bpEnable .temp addr => { c with next := .own, temp := addr }
  | .ptStep => { c with next := .own, way := c.next }
  | .ptContinue => { c with next := .own, way := .call }
  | .waited (.stopped s) =>
      let c := { c with next := .own, astray := c.strays (e.world.stoppedAs s) }
      if signal e then { c with stop := (e.world.stoppedAs s).pcs, reported := false } else c
  | .reported => { c with next := .own, astray := false }
  | .location pc =>
      { c with next := .own, reported := c.reported || c.stop.any fun pcs => pc ∈ pcs }
  | _ => { c with next := .own }

/-- The selected thread is where a stepping loop stops that has started from this line, if
from any: at an enabled breakpoint or at another line. -/
def World.Heeds (start : Option (Str × BitVec 32)) (w : World σ) : Prop :=
  ∀ l ∈ start, ∃ pc ∈ w.selectedPc,
    bpIsTrap pc w.dbg.breakpoints = true ∨ ∃ line ∈ w.dbg.lineno.lineAtPc pc, line ≠ l

instance instDecidableHeeds (start : Option (Str × BitVec 32)) (w : World σ) :
    Decidable (w.Heeds start) :=
  -- the instance that tries all program counters would be found first
  @Option.decidableForallMem _ _ (fun _ => Option.decidableExistsMem _) start

/-- The registers that the debugger keeps are those of the selected thread, or are refreshed
before the disabled breakpoints are enabled again. -/
def World.Fresh (w : World σ) : Prop :=
  w.dbg.breakpoints.count ≠ 0 ∨ w.selectedPc = some w.dbg.regs.pc

instance instDecidableFresh (w : World σ) : Decidable w.Fresh := inferInstanceAs (Decidable (_ ∨ _))

/-- What is demanded of a stop by a signal. -/
def Gait.demands (start : Option (Str × BitVec 32)) (c : Gait) (w : World σ) : Prop :=
  match c.way with
  -- the stop of the step off a disabled breakpoint is not looked at
  | .off => False
  | .own => w.Heeds start
  -- after the step past a watchpoint all are armed again and the registers are printed
  | .past =>
      (∀ wp ∈ w.dbg.watchpoints.toList, wp.enabled = true → wp.fits = true) ∧ w.Fresh
  -- at the temporary breakpoint the loop looks at once, elsewhere after a report
  | .call => c.strays w = false → w.Heeds start

instance instDecidableDemands (start : Option (Str × BitVec 32)) (c : Gait) (w : World σ) :
    Decidable (c.demands start w) := by
  unfold Gait.demands
  cases c.way <;> infer_instance

namespace Event

/-- The demand of an event: a stop by a signal is one that the loop notices, and after it
the calls of the debugger succeed and no watchpoint is stepped past. -/
def heeded (signal : Event σ → Bool) (start : Option (Str × BitVec 32)) (c : Gait)
    (e : Event σ) : Prop :=
  match e.kind with
  | .waited (.stopped s) => signal e = true → c.demands start (e.world.stoppedAs s)
  | .reported => c.stop.isSome → c.astray = true → e.world.Heeds start
  | .refreshRegs => c.stop.isSome → e.world.selectedPc.isSome
  | .memFailed _ _ => c.stop = none
  | .watchpointHit _ _ => c.stop = none
  | .watchpointNear _ => c.stop = none
  | _ => True

/-- Whether an event resumes the debuggee. -/
def resumes (e : Event σ) : Bool := e.kind.isStep || e.kind.isContinue

/-- After a stop by a signal the debuggee is not resumed. -/
def obeys (c : Gait) (e : Event σ) : Prop := e.resumes = true → c.stop = none

instance instDecidableHeeded (signal : Event σ → Bool) (start : Option (Str × BitVec 32))
    (c : Gait) (e : Event σ) : Decidable (e.heeded signal start c) :=
  match e with
  | ⟨.waited (.stopped _), _⟩ => inferInstanceAs (Decidable (_ = true → _))
  | ⟨.reported, _⟩ => inferInstanceAs (Decidable (_ = true → _ = true → _))
  | ⟨.refreshRegs, _⟩ => inferInstanceAs (Decidable (_ = true → _ = true))
  | ⟨.memFailed _ _, _⟩ | ⟨.watchpointHit _ _, _⟩ | ⟨.watchpointNear _, _⟩ =>
      inferInstanceAs (Decidable (c.stop = none))
  | ⟨.waited (.exited _), _⟩ | ⟨.waited (.signaled _), _⟩ | ⟨.command _, _⟩ | ⟨.bpEnable _ _, _⟩
  | ⟨.suspendOthers _, _⟩ | ⟨.resumeOthers _, _⟩ | ⟨.ptStep, _⟩ | ⟨.ptContinue, _⟩ | ⟨.fork, _⟩
  | ⟨.steppingOver, _⟩ | ⟨.store _ _, _⟩ | ⟨.stopHeader, _⟩ | ⟨.breakpointHit _, _⟩
  | ⟨.stoppedAt _, _⟩ | ⟨.location _, _⟩ | ⟨.processExit _ _, _⟩ | ⟨.stepLimit, _⟩ =>
      inferInstanceAs (Decidable True)

instance instDecidableObeys (c : Gait) (e : Event σ) : Decidable (e.obeys c) :=
  inferInstanceAs (Decidable (_ → _))

end Event

/-- The line from which a stepping command starts. -/
def World.startLine (w : World σ) : Option (Str × BitVec 32) :=
  w.selectedPc.bind w.dbg.lineno.lineAtPc

/-! ### What is kept -/

/-- The events that tell nothing of resumes, stops and the ends of reports. -/
def EventKind.calm : EventKind → Bool
  | .bpEnable .temp _ => false
  | .ptStep => false
  | .ptContinue => false
  | .waited (.stopped _) => false
  | .reported => false
  | _ => true

/-- What such events leave of what has been gathered. -/
structure Gait.Onward (c c' : Gait) : Prop where
  way : c'.way = c.way
  temp : c'.temp = c.temp
  stop : c'.stop = c.stop
  astray : c'.astray = c.astray
  reported : c.reported = true → c'.reported = true

namespace Gait

variable {signal : Event σ → Bool} {c c' c'' : Gait}

lemma Onward.refl (c : Gait) : c.Onward c := ⟨rfl, rfl, rfl, rfl, id⟩

lemma Onward.trans (h : c.Onward c') (h' : c'.Onward c'') : c.Onward c'' :=
  ⟨h'.way.trans h.way, h'.temp.trans h.temp, h'.stop.trans h.stop, h'.astray.trans h.astray,
    fun hr => h'.reported (h.reported hr)⟩

lemma onward_note {e : Event σ} (h : e.kind.calm = true) : c.Onward (c.note signal e) := by
  obtain ⟨k, w⟩ := e
  cases k with
  | bpEnable site addr => cases site <;> first | exact ⟨rfl, rfl, rfl, rfl, id⟩ | cases h
  | waited o => cases o <;> first | exact ⟨rfl, rfl, rfl, rfl, id⟩ | cases h
  | location pc => exact ⟨rfl, rfl, rfl, rfl, fun h => by simp [note, h]⟩
  | ptStep | ptContinue | reported => cases h
  | _ => exact ⟨rfl, rfl, rfl, rfl, id⟩

lemma onward_foldl {t : List (Event σ)} (h : ∀ e ∈ t, e.kind.calm = true) :
    c.Onward (t.foldl (note signal) c) := by
  induction t generalizing c with
  | nil => exact .refl c
  | cons e t ih =>
      exact (onward_note (h e List.mem_cons_self)).trans
        (ih fun e' he' => h e' (List.mem_cons_of_mem _ he'))

/-- A call that would have succeeded after a stop by a signal fails only before any. -/
lemma stop_none_of_ne {rc : ℤ} (h : c.stop.isSome → rc = 0) (hrc : rc ≠ 0) : c.stop = none :=
  Option.not_isSome_iff_eq_none.mp fun hs => hrc (h hs)

end Gait

lemma Event.resumes_of_calm {e : Event σ} (h : e.kind.calm = true) : e.resumes = false := by
  obtain ⟨k, w⟩ := e
  cases k <;> simp_all [resumes, EventKind.calm, EventKind.isStep, EventKind.isContinue]

lemma along_obeys_of_calm {gather : Gait → Event σ → Gait} {t : List (Event σ)}
    (h : ∀ e ∈ t, e.kind.calm = true) (c : Gait) : Along gather (fun c e => e.obeys c) c t := by
  induction t generalizing c with
  | nil => trivial
  | cons e t ih =>
      refine ⟨fun hr => ?_, ih (fun e' he' => h e' (List.mem_cons_of_mem _ he')) _⟩
      rw [Event.resumes_of_calm (h e List.mem_cons_self)] at hr
      cases hr

/-- A step of the program of a command, from what has been gathered and a world on. -/
abbrev Tracks (signal : Event σ → Bool) (start : Option (Str × BitVec 32)) (c : Gait)
    (w : World σ) (m : Debugger σ α) (Q : α → Gait → World σ → Prop) : Prop :=
  Track (Gait.note signal) (Event.heeded signal start) (fun c e => e.obeys c)
    (fun c => c.stop = none) c w m Q

section Tracks

variable {signal : Event σ → Bool} {start : Option (Str × BitVec 32)} {c : Gait} {w : World σ}

/-- A run that neither resumes nor waits nor reports. -/
lemma tracks_calm {m : Debugger σ α} {a : α} {w' : World σ} {t : List (Event σ)}
    (h : m w = ⟨some a, w', t⟩) (ht : ∀ e ∈ t, e.kind.calm = true) {Q : α → Gait → World σ → Prop}
    (hQ : Along (Gait.note signal) (Event.heeded signal start) c t →
      ∀ c', c.Onward c' → Q a c' w') : Tracks signal start c w m Q :=
  Track.of_eq h fun hok => ⟨along_obeys_of_calm ht c, hQ hok _ (Gait.onward_foldl ht)⟩

/-- Whether an event is a stop of the debuggee. -/
def EventKind.isStop : EventKind → Bool
  | .waited (.stopped _) => true
  | _ => false

/-- A run without stops, before any stop by a signal. -/
lemma tracks_free {m : Debugger σ α} (hc : c.stop = none)
    (h : ∀ e ∈ (m w).trace, e.kind.isStop = false) :
    Tracks signal start c w m fun _ c' _ => c'.stop = none := by
  have key : ∀ (t : List (Event σ)) (c : Gait), c.stop = none → (∀ e ∈ t, e.kind.isStop = false) →
      Along (Gait.note signal) (fun c e => e.obeys c) c t ∧
        (t.foldl (Gait.note signal) c).stop = none := by
    intro t
    induction t with
    | nil => exact fun c hc _ => ⟨trivial, hc⟩
    | cons e t ih =>
        intro c hc ht
        have hnote : (c.note signal e).stop = none := by
          have hne := ht e List.mem_cons_self
          obtain ⟨k, w⟩ := e
          cases k with
          | bpEnable site addr => cases site <;> exact hc
          | waited o =>
              cases o with
              | stopped s => cases hne
              | _ => exact hc
          | _ => exact hc
        obtain ⟨hal, hf⟩ := ih _ hnote fun e' he' => ht e' (List.mem_cons_of_mem _ he')
        exact ⟨⟨fun _ => hc, hal⟩, hf⟩
  obtain ⟨hal, hf⟩ := key _ c hc h
  exact fun _ => ⟨hal, fun _ => hf, fun _ _ => hf⟩

end Tracks

/-! ### After a stop by a signal -/

/-- The debuggee is where it was at the last stop by a signal. -/
structure World.Held (c : Gait) (w : World σ) : Prop where
  stop : ∃ pcs, c.stop = some pcs ∧ w.pcs = some pcs
  state : w.dbg.state = .stopped

/-- A change that leaves alone where the debuggee is. -/
structure World.Put (w w' : World σ) : Prop where
  pcs : w'.pcs = w.pcs
  state : w'.dbg.state = w.dbg.state

/-- A change that leaves alone also what the stepping loops look at, but for the table of
breakpoints. -/
structure World.Level (w w' : World σ) : Prop extends World.Put w w' where
  selected : w'.selectedPc = w.selectedPc
  lineno : w'.dbg.lineno = w.dbg.lineno
  watchpoints : w'.dbg.watchpoints = w.dbg.watchpoints
  alive : (w'.taskForPid w'.dbg.pid).isSome = (w.taskForPid w.dbg.pid).isSome

namespace World

variable {c c' : Gait} {w w' w'' : World σ}

lemma Put.refl (w : World σ) : w.Put w := ⟨rfl, rfl⟩

lemma Put.trans (h : w.Put w') (h' : w'.Put w'') : w.Put w'' :=
  ⟨h'.pcs.trans h.pcs, h'.state.trans h.state⟩

lemma Level.refl (w : World σ) : w.Level w := ⟨.refl w, rfl, rfl, rfl, rfl⟩

lemma Level.trans (h : w.Level w') (h' : w'.Level w'') : w.Level w'' :=
  ⟨h.toPut.trans h'.toPut, h'.selected.trans h.selected, h'.lineno.trans h.lineno,
    h'.watchpoints.trans h.watchpoints, h'.alive.trans h.alive⟩

lemma Held.put (h : w.Held c) (hp : w.Put w') (hc : c.Onward c') : w'.Held c' := by
  obtain ⟨pcs, hs, hw⟩ := h.stop
  exact ⟨⟨pcs, hc.stop.trans hs, hp.pcs.trans hw⟩, hp.state.trans h.state⟩

/-- The selected thread is one of those of the debuggee. -/
lemma mem_pcs {pc : Addr} (h : w.selectedPc = some pc) : ∀ pcs ∈ w.pcs, pc ∈ pcs := by
  intro pcs hpcs
  obtain ⟨t, ht, rfl⟩ := Option.map_eq_some_iff.mp h
  obtain ⟨p, hp, htp⟩ := Option.bind_eq_some_iff.mp ht
  have hproc := (taskForPid_eq_some.mp hp).1
  rw [World.pcs, hproc] at hpcs
  obtain rfl := Option.some.inj hpcs
  exact List.mem_map_of_mem (Threads.resolve_mem htp)

lemma Held.isSome (h : w.Held c) : c.stop.isSome = true := by
  obtain ⟨pcs, hs, _⟩ := h.stop
  rw [hs]
  rfl

/-- The registers that the debugger keeps do not matter. -/
lemma level_setRegs (w : World σ) (regs : Regs) :
    w.Level (w.setDbg { w.dbg with regs := regs }) := ⟨⟨rfl, rfl⟩, rfl, rfl, rfl, rfl⟩

/-- A change of memory and of the table of breakpoints. -/
lemma level_of_mem {p : Proc} {pid : ℕ} (hp : w.taskForPid pid = some p) (m : Memory) {d : Dbg}
    (hpid : d.pid = w.dbg.pid) (hs : d.state = w.dbg.state) (ht : d.currentTid = w.dbg.currentTid)
    (hl : d.lineno = w.dbg.lineno) (hw : d.watchpoints = w.dbg.watchpoints) :
    w.Level ((w.setProc { p with mem := m }).setDbg d) := by
  have hproc := (taskForPid_eq_some.mp hp).1
  have htask : ((w.setProc { p with mem := m }).setDbg d).taskForPid d.pid
      = (w.taskForPid w.dbg.pid).map fun p => { p with mem := m } := by
    rw [taskForPid_setDbg, taskForPid, taskForPid, hproc, setProc_proc, hpid]
    by_cases h : p.pid = w.dbg.pid
    · simp [Option.filter, h]
    · simp [Option.filter, h]
  refine ⟨⟨?_, hs⟩, ?_, hl, hw, ?_⟩
  · simp only [pcs, setDbg_proc, setProc_proc, hproc, Option.map_some]
    rfl
  · simp only [selectedPc, resolvePort, setDbg_dbg, htask, ht]
    cases w.taskForPid w.dbg.pid <;> rfl
  · rw [setDbg_dbg, htask, Option.isSome_map]

end World

section Calls

variable {signal : Event σ → Bool} {start : Option (Str × BitVec 32)} {c : Gait} {w : World σ}

/-- Refreshing the registers succeeds after a stop by a signal. -/
lemma tracks_refreshRegs : Tracks signal start c w refreshRegs fun rc c' w' =>
    c.Onward c' ∧ c'.next = .own ∧ (c.stop.isSome → rc = 0) ∧
      ∃ regs : Regs, w' = w.setDbg { w.dbg with regs := regs } ∧
        (rc = 0 → w.selectedPc = some regs.pc) := by
  have hcalm : ∀ e ∈ [Event.mk (.refreshRegs) w], e.kind.calm = true := by simp [EventKind.calm]
  rcases refreshRegs_cases w with ⟨hn, h⟩ | ⟨t, ht, h⟩
  · refine Track.of_eq h fun hok => ⟨along_obeys_of_calm hcalm c, Gait.onward_foldl hcalm, rfl,
      fun hs => ?_, w.dbg.regs, rfl, by simp⟩
    have hsome := hok.1 hs
    rw [World.selectedPc, hn] at hsome
    cases hsome
  · exact Track.of_eq h fun hok => ⟨along_obeys_of_calm hcalm c, Gait.onward_foldl hcalm, rfl,
      fun _ => rfl, t.regs, rfl, fun _ => by rw [World.selectedPc, ht]; rfl⟩

/-- Enabling an entry succeeds after a stop by a signal. -/
lemma tracks_enableEntry {i : ℕ} {bp : Breakpoint} (hi : w.dbg.breakpoints.entry i = some bp) :
    Tracks signal start c w (enableEntry i bp) fun rc c' w' => c.Onward c' ∧
      (c.stop.isSome → rc = 0) ∧ w.Level w' ∧ w'.dbg.regs = w.dbg.regs ∧
      ∀ pc, pc ≠ bp.addr → bpIsTrap pc w'.dbg.breakpoints = bpIsTrap pc w.dbg.breakpoints := by
  rcases enableEntry_cases hi with ⟨_, h⟩ | ⟨p, hp, _, h⟩
  · refine tracks_calm h (by simp [EventKind.calm]) fun hok c' hc => ⟨hc, fun hs => ?_, .refl w,
      rfl, fun _ _ => rfl⟩
    have hnone : c.stop = none := hok.1
    rw [hnone] at hs
    cases hs
  · refine tracks_calm h (by simp [EventKind.calm]) fun _ c' hc => ⟨hc, fun _ => rfl,
      World.level_of_mem hp _ rfl rfl rfl rfl rfl, rfl, fun pc hne => ?_⟩
    have hiff : bpIsTrap pc (w.dbg.breakpoints.set i (p.breakpointAt bp.addr)) = true ↔
        bpIsTrap pc w.dbg.breakpoints = true := by
      have haddr : (p.breakpointAt bp.addr).addr = bp.addr := rfl
      rw [bpIsTrap_set hi haddr rfl]
      exact ⟨fun h => h.resolve_right fun he => hne he.symm, .inl⟩
    exact Bool.eq_iff_iff.mpr hiff

/-- So does enabling the entries elsewhere, by induction on the indices left. -/
lemma tracks_reenableLoop (pc : Addr) : ∀ (is : List ℕ) (c : Gait) (w : World σ),
    Tracks signal start c w (reenableLoop pc is) fun rc c' w' => c.Onward c' ∧
      (c.stop.isSome → rc = 0) ∧ w.Level w' ∧ w'.dbg.regs = w.dbg.regs ∧
      bpIsTrap pc w'.dbg.breakpoints = bpIsTrap pc w.dbg.breakpoints
  | [], c, w => Track.pure 0 ⟨.refl c, fun _ => rfl, .refl w, rfl, rfl⟩
  | i :: is, c, w => by
      refine Track.get_bind ?_
      split
      next => exact tracks_reenableLoop pc is c w
      next bp hbp =>
      split
      next hdis =>
        refine Track.bind_rc (tracks_enableEntry hbp) (fun rc c' w' hrc ⟨hc, h0, hl, hr, ht⟩ => ?_)
          fun c' w' ⟨hc, h0, hl, hr, ht⟩ => ?_
        · exact Track.pure _ ⟨hc, fun hs => absurd (h0 hs) hrc, hl, hr, ht pc hdis.2.symm⟩
        · refine (tracks_reenableLoop pc is c' w').post fun rc c'' w'' ⟨hc', h0', hl', hr', ht'⟩ =>
            ⟨hc.trans hc', fun hs => h0' (hc.stop ▸ hs), hl.trans hl', hr'.trans hr,
              ht'.trans (ht pc hdis.2.symm)⟩
      next => exact tracks_reenableLoop pc is c w

lemma tracks_reenableBreakpointsAfterStep :
    Tracks signal start c w reenableBreakpointsAfterStep fun rc c' w' => c.Onward c' ∧
      (c.stop.isSome → rc = 0) ∧ w.Level w' ∧
      (rc = 0 → w.dbg.state = .stopped → w.Fresh → w'.selectedPc = some w'.dbg.regs.pc) ∧
      ∀ pc ∈ w.selectedPc, bpIsTrap pc w'.dbg.breakpoints = bpIsTrap pc w.dbg.breakpoints := by
  refine Track.get_bind ?_
  split
  next hskip =>
    refine Track.pure 0 ⟨.refl c, fun _ => rfl, .refl w, fun _ hst hf => ?_, fun _ _ => rfl⟩
    exact hf.resolve_left fun hne => hne (hskip.resolve_right fun h => h hst)
  next =>
    refine Track.bind_rc tracks_refreshRegs ?_ ?_
    · rintro rc c' _ hrc ⟨hc, _, h0, regs, rfl, _⟩
      exact Track.pure _ ⟨hc, fun hs => absurd (h0 hs) hrc, w.level_setRegs regs,
        fun h0 => absurd h0 (by norm_num), fun _ _ => rfl⟩
    · rintro c' _ ⟨hc, _, _, regs, rfl, hpc⟩
      refine Track.get_bind ((tracks_reenableLoop _ _ c' _).post ?_)
      rintro rc c'' w'' ⟨hc', h0', hl', hr', ht'⟩
      have hl := (w.level_setRegs regs).trans hl'
      refine ⟨hc.trans hc', fun hs => h0' (hc.stop ▸ hs), hl, fun _ _ _ => ?_, fun pc hmem => ?_⟩
      · rw [hl.selected, hr']
        exact hpc rfl
      · obtain rfl : regs.pc = pc := Option.some.inj ((hpc rfl).symm.trans hmem)
        exact ht'

end Calls

/-! ### The stop itself -/

/-- The debuggee has just been stopped by a signal, at a place that meets the demands. -/
structure World.Caught (start : Option (Str × BitVec 32)) (c : Gait) (w : World σ) : Prop
    extends World.Held c w where
  alive : (w.taskForPid w.dbg.pid).isSome
  demands : c.demands start w

lemma World.Heeds.level {start : Option (Str × BitVec 32)} {w w' : World σ} (h : w.Heeds start)
    (hl : w.Level w')
    (ht : ∀ pc ∈ w.selectedPc, bpIsTrap pc w'.dbg.breakpoints = bpIsTrap pc w.dbg.breakpoints) :
    w'.Heeds start := by
  intro l hstart
  obtain ⟨pc, hpc, hor⟩ := h l hstart
  refine ⟨pc, by rw [hl.selected]; exact hpc, ?_⟩
  rw [hl.lineno, ht pc hpc]
  exact hor

section Stop

variable {signal : Event σ → Bool} {start : Option (Str × BitVec 32)} {c c' : Gait}
  {w w' : World σ}

lemma Gait.strays_congr (hw : c'.way = c.way) (ht : c'.temp = c.temp)
    (ha : c.way = .past → c'.astray = c.astray) (hs : w'.selectedPc = w.selectedPc) :
    c'.strays w' = c.strays w := by
  rw [Gait.strays, Gait.strays, hw, ht, hs]
  cases h : c.way with
  | past => exact ha h
  | _ => rfl

lemma World.Caught.level (h : w.Caught start c) (hc : c.Onward c') (hl : w.Level w')
    (hf : w.Fresh → w'.Fresh)
    (ht : ∀ pc ∈ w.selectedPc, bpIsTrap pc w'.dbg.breakpoints = bpIsTrap pc w.dbg.breakpoints) :
    w'.Caught start c' := by
  have hstrays : c'.strays w' = c.strays w :=
    Gait.strays_congr hc.way hc.temp (fun _ => hc.astray) hl.selected
  refine ⟨h.toHeld.put hl.toPut hc, by rw [hl.alive]; exact h.alive, ?_⟩
  have hd := h.demands
  rw [Gait.demands] at hd ⊢
  rw [hc.way, hstrays, hl.watchpoints]
  cases hw : c.way with
  | off => rw [hw] at hd; exact hd
  | own => rw [hw] at hd; exact hd.level hl ht
  | past => rw [hw] at hd; exact hd.imp_right hf
  | call => rw [hw] at hd; exact fun hs => (hd hs).level hl ht

/-- A wait has found no stop by a signal, or one that meets the demands. -/
structure Waited (start : Option (Str × BitVec 32)) (c : Gait) (rc : ℤ) (c' : Gait)
    (w' : World σ) : Prop where
  way : c'.way = c.way
  temp : c'.temp = c.temp
  astray : rc = 0 → w'.dbg.state = .stopped → c'.astray = c.strays w'
  caught : c'.stop = none ∨ rc = 0 ∧ w'.Caught start c'

lemma Waited.none_of_ne {rc : ℤ} (h : Waited start c rc c' w') (hrc : rc ≠ 0) :
    c'.stop = none := h.caught.resolve_right fun h => hrc h.1

lemma Waited.caught_of_ok (h : Waited start c 0 c' w') : c'.stop = none ∨ w'.Caught start c' :=
  h.caught.imp_right fun h => h.2

lemma tracks_waitForStop (hc : c.stop = none) :
    Tracks signal start c w (waitForStop host) fun rc c' w' => Waited start c rc c' w' := by
  rcases waitForStop_cases host w with ⟨_, h⟩ | ⟨h', h⟩ | ⟨p, r, o, h', hp, _, _, h⟩
  · exact Track.of_eq h fun _ => ⟨trivial, rfl, rfl, fun h0 => absurd h0 (by norm_num), .inl hc⟩
  · intro _
    rw [h]
    exact ⟨trivial, fun _ => hc, by simp⟩
  refine Track.of_eq h fun hok => ⟨⟨fun _ => hc, trivial⟩, ?_⟩
  cases o with
  | exited code => exact ⟨rfl, rfl, fun _ hs => (by cases hs), .inl hc⟩
  | signaled sig => exact ⟨rfl, rfl, fun _ hs => (by cases hs), .inl hc⟩
  | stopped s =>
  have hproc := (World.taskForPid_eq_some.mp hp).1
  have hstop : w.stoppedAs s = { w with proc := some (p.stopWith s) } := by
    rw [World.stoppedAs, hproc]
    rfl
  have halive : (w.afterWait h' p (.stopped s)).taskForPid w.dbg.pid = some (p.stopWith s) :=
    World.taskForPid_eq_some.mpr ⟨rfl, (World.taskForPid_eq_some.mp hp).2⟩
  -- what the stop demands is settled by the way the debuggee was running
  have hdem := hok.1
  simp only [Event.heeded, hstop] at hdem
  rw [List.foldl_cons, List.foldl_nil]
  simp only [Gait.note, hstop]
  split
  next hs =>
    refine ⟨rfl, rfl, fun _ _ => rfl, .inr ⟨rfl, ⟨⟨_, rfl, rfl⟩, rfl⟩, ?_, ?_⟩⟩
    · exact Option.isSome_iff_exists.mpr ⟨_, halive⟩
    · have hd := hdem hs
      rw [Gait.demands] at hd ⊢
      cases hw : c.way with
      | call =>
          rw [hw] at hd
          intro hstray
          refine hd (Eq.trans ?_ hstray)
          rw [Gait.strays, Gait.strays, hw]
          rfl
      | _ => rw [hw] at hd; exact hd
  next => exact ⟨rfl, rfl, fun _ _ => rfl, .inl hc⟩

/-- After a wait for the step past a watchpoint the registers are those of the stop. -/
lemma tracks_cdbgWait_fresh (hc : c.stop = none) :
    Tracks signal start c w (cdbgWait host) fun rc c' w' => Waited start c rc c' w' ∧
      (c.way = .past → c'.stop.isSome → w'.selectedPc = some w'.dbg.regs.pc) := by
  have hsome : ∀ {c' : Gait} {Q : Prop}, c'.stop = none → c.way = .past → c'.stop.isSome → Q := by
    intro c' Q hn _ hs
    rw [hn] at hs
    cases hs
  refine Track.bind_rc (tracks_waitForStop hc) ?_ ?_
  · intro rc c' w' hrc hw
    have hnone := hw.none_of_ne hrc
    exact Track.pure _ ⟨⟨hw.way, hw.temp, fun h0 => absurd h0 (by norm_num), .inl hnone⟩,
      hsome hnone⟩
  intro c' w' hw
  refine Track.get_bind ?_
  split
  -- the process has ended
  next hidle =>
    have hnone : c'.stop = none := hw.caught_of_ok.resolve_right fun h => by
      rw [h.state] at hidle
      cases hidle
    exact Track.pure _ ⟨⟨hw.way, hw.temp, fun h0 => absurd h0 (by norm_num), .inl hnone⟩,
      hsome hnone⟩
  next =>
  -- enabling the entries refreshes the registers, with the thread of the stop selected
  refine Track.bind_rc tracks_reenableBreakpointsAfterStep ?_ ?_
  · intro rc c'' w'' hrc ⟨hon, h0, _⟩
    have hnone : c'.stop = none := Gait.stop_none_of_ne h0 hrc
    exact Track.pure _ ⟨⟨hon.way.trans hw.way, hon.temp.trans hw.temp,
      fun h0 => absurd h0 (by norm_num), .inl (hon.stop.trans hnone)⟩,
      hsome (hon.stop.trans hnone)⟩
  · intro c'' w'' ⟨hon, _, hl, hfr, ht⟩
    refine Track.pure _ ⟨⟨hon.way.trans hw.way, hon.temp.trans hw.temp, fun _ hst => ?_, ?_⟩, ?_⟩
    · rw [hon.astray, hw.astray rfl (hl.state.symm.trans hst)]
      exact Gait.strays_congr rfl rfl (fun _ => rfl) hl.selected.symm
    · exact hw.caught_of_ok.imp (fun h => hon.stop.trans h) fun h =>
        ⟨rfl, h.level hon hl (fun hf => .inr (hfr rfl h.state hf)) ht⟩
    · intro hpast hs
      rw [hon.stop] at hs
      have hcaught := hw.caught_of_ok.resolve_left (Option.isSome_iff_ne_none.mp hs)
      have hd := hcaught.demands
      rw [Gait.demands, hw.way, hpast] at hd
      exact hfr rfl hcaught.state hd.2

lemma tracks_cdbgWait (hc : c.stop = none) :
    Tracks signal start c w (cdbgWait host) fun rc c' w' => Waited start c rc c' w' :=
  (tracks_cdbgWait_fresh hc).post fun _ _ _ h => h.1

end Stop

/-! ### Reports -/

/-- No stop by a signal, or the debuggee at it, in the report that began with `c`. -/
def Stands (c c' : Gait) (w' : World σ) : Prop :=
  c'.stop = none ∨ w'.Held c' ∧ c'.astray = c.astray

/-- What a report leaves: also the place of the stop has been printed. -/
def Answered (c c' : Gait) (w' : World σ) : Prop :=
  c'.stop = none ∨ w'.Held c' ∧ c'.astray = c.astray ∧ c'.reported = true

lemma Stands.put {c c' c'' : Gait} {w w' : World σ} (h : Stands c c' w) (hp : w.Put w')
    (hc : c'.Onward c'') : Stands c c'' w' :=
  h.imp (fun hn => hc.stop.trans hn) fun hh => ⟨hh.1.put hp hc, hc.astray.trans hh.2⟩

lemma Answered.onward {c c' c'' : Gait} {w : World σ} (h : Answered c' c'' w)
    (hc : c.Onward c') : Answered c c'' w :=
  h.imp_right fun hh => ⟨hh.1, hh.2.1.trans hc.astray, hh.2.2⟩

/-- Registers stored at the program counter that they were read from move no thread. -/
lemma storeRegs_put {w : World σ} (h : w.selectedPc = some w.dbg.regs.pc) :
    ∃ w', storeRegs w = ⟨some 0, w', []⟩ ∧ w.Put w' := by
  obtain ⟨t, ht, hpc⟩ := Option.map_eq_some_iff.mp h
  obtain ⟨p, hp, htp⟩ := Option.bind_eq_some_iff.mp ht
  have hproc := (World.taskForPid_eq_some.mp hp).1
  refine ⟨_, storeRegs_run hp htp, ?_, rfl⟩
  simp only [World.pcs, World.setProc_proc, hproc, Option.map_some, Proc.pcs, Proc.stored,
    Threads.update, Threads.list_map, List.map_map]
  congr 1
  refine List.map_congr_left fun u hu => ?_
  rw [Function.comp_apply]
  split
  next hid =>
    -- the thread changed is the selected one
    obtain rfl : u = t := Threads.eq_of_tid hu (Threads.resolve_mem htp)
      (hid.trans (Threads.idOf_of_resolve htp))
    exact hpc.symm
  next => rfl

section Reports

variable {signal : Event σ → Bool} {start : Option (Str × BitVec 32)} {c : Gait} {w : World σ}

/-- Disabling an entry succeeds after a stop by a signal. -/
lemma tracks_bpDisable (bp : Breakpoint) :
    Tracks signal start c w (bpDisable bp w.dbg.pid) fun r c' w' => c.Onward c' ∧
      (c.stop.isSome → r.2 = 0) ∧ w.Level w' ∧ w'.dbg = w.dbg := by
  have hfail : ∀ {a n} {v : World σ}, Along (Gait.note signal) (Event.heeded signal start) c
      [⟨.memFailed a n, v⟩] → ¬ c.stop.isSome = true := by
    intro a n v hok hs
    have hnone : c.stop = none := hok.1
    rw [hnone] at hs
    cases hs
  rcases bpDisable_cases bp w.dbg.pid w with ⟨_, h⟩ | ⟨_, p, hp, _, h⟩ | ⟨_, _, h⟩ |
    ⟨_, p, hp, _, h⟩
  · exact tracks_calm h (by simp) fun _ c' hc => ⟨hc, fun _ => rfl, .refl w, rfl⟩
  · exact tracks_calm h (by simp) fun _ c' hc =>
      ⟨hc, fun _ => rfl, World.level_of_mem (d := w.dbg) hp _ rfl rfl rfl rfl rfl, rfl⟩
  · exact tracks_calm h (by simp [EventKind.calm]) fun hok c' hc =>
      ⟨hc, fun hs => absurd hs (hfail hok), .refl w, rfl⟩
  · exact tracks_calm h (by simp [EventKind.calm]) fun hok c' hc =>
      ⟨hc, fun hs => absurd hs (hfail hok),
        World.level_of_mem (d := w.dbg) hp _ rfl rfl rfl rfl rfl, rfl⟩

lemma tracks_disableEntry (i : ℕ) (bp : Breakpoint) :
    Tracks signal start c w (disableEntry i bp) fun rc c' w' => c.Onward c' ∧
      (c.stop.isSome → rc = 0) ∧ w.Level w' := by
  refine Track.get_bind ((tracks_bpDisable bp).bind ?_)
  rintro ⟨bp', rc⟩ c' w' ⟨hc, h0, hl, _⟩
  refine tracks_calm rfl (by simp) fun _ c'' hc' => ⟨hc.trans hc', h0, hl.trans ?_⟩
  exact ⟨⟨rfl, rfl⟩, rfl, rfl, rfl, rfl⟩

/-- Printing the place of a stop. -/
lemma tracks_location {c₀ : Gait} {pc : Addr} (hpc : c.stop.isSome → ∀ pcs ∈ w.pcs, pc ∈ pcs)
    (h : Stands c₀ c w) :
    Tracks signal start c w (printStopLocation pc) fun _ c' w' =>
      c.Onward c' ∧ Answered c₀ c' w' := by
  refine Track.emit fun _ => ⟨fun hr => (by cases hr), ?_⟩
  have hon : c.Onward (c.note signal ⟨.location pc, w⟩) := Gait.onward_note rfl
  refine ⟨hon, (h.put (.refl w) hon).imp_right fun hh => ⟨hh.1, hh.2, ?_⟩⟩
  obtain ⟨pcs, hs, hw⟩ := hh.1.stop
  have hstop : c.stop = some pcs := hs
  simp [Gait.note, hstop, hpc (by rw [hstop]; rfl) pcs hw]

/-- An event that tells nothing. -/
lemma tracks_emit {k : EventKind} (hk : k.calm = true) :
    Tracks signal start c w (emit k) fun _ c' w' => c.Onward c' ∧ w' = w :=
  tracks_calm rfl (by simpa using hk) fun _ _ hc => ⟨hc, rfl⟩

/-- The hit of a breakpoint at the selected thread is handled and its place printed. -/
lemma tracks_handleBreakpointHit {c₀ : Gait} {i : ℕ} {bp : Breakpoint}
    (hpc : w.selectedPc = some bp.addr) (h : Stands c₀ c w) :
    Tracks signal start c w (handleBreakpointHit i bp) fun _ c' w' => Answered c₀ c' w' := by
  refine Track.bind_rc (tracks_disableEntry i bp) ?_ ?_
  · rintro rc c₁ w₁ hrc ⟨hc₁, h0, _⟩
    have hnone : c.stop = none := Gait.stop_none_of_ne h0 hrc
    exact Track.pure _ (.inl (hc₁.stop.trans hnone))
  rintro c₁ w₁ ⟨hc₁, _, hl₁⟩
  have h₁ := h.put hl₁.toPut hc₁
  refine Track.bind_rc tracks_refreshRegs ?_ ?_
  · rintro rc c₂ _ hrc ⟨hc₂, _, h0, regs, rfl, _⟩
    have hnone : c₁.stop = none := Gait.stop_none_of_ne h0 hrc
    exact Track.pure _ (.inl (hc₂.stop.trans hnone))
  rintro c₂ _ ⟨hc₂, _, _, regs, rfl, hregs⟩
  have hsel : w₁.selectedPc = some bp.addr := hl₁.selected.trans hpc
  -- the announcement, wherever it is made
  have hend : ∀ (c₃ : Gait) (w₃ : World σ), w₁.Put w₃ → Stands c₀ c₃ w₃ →
      Tracks signal start c₃ w₃ (do emit (.breakpointHit bp.addr)
                                    printStopLocation bp.addr
                                    return (0 : ℤ)) fun _ c' w' => Answered c₀ c' w' := by
    intro c₃ w₃ hput h₃
    have hmem : ∀ pcs ∈ w₃.pcs, bp.addr ∈ pcs := by
      rw [hput.pcs]
      exact World.mem_pcs hsel
    refine (tracks_emit rfl).bind ?_
    rintro _ c₄ _ ⟨hc₄, rfl⟩
    refine (tracks_location (fun _ => hmem) (h₃.put (.refl _) hc₄)).bind ?_
    rintro _ c₅ w₅ ⟨_, ha⟩
    exact Track.pure 0 ha
  split
  next hne =>
    refine Track.bind (Q := fun _ c' w' => c₂ = c' ∧
      w' = w₁.setDbg { w₁.dbg with regs := regs.setPc bp.addr })
      (Track.of_eq rfl fun _ => ⟨trivial, rfl, rfl⟩) ?_
    rintro _ _ _ ⟨rfl, rfl⟩
    obtain ⟨w₃, hrun, hput⟩ := storeRegs_put
      (w := w₁.setDbg { w₁.dbg with regs := regs.setPc bp.addr }) hsel
    refine Track.bind_rc (tracks_calm (Q := fun rc c' w' => rc = 0 ∧ c₂.Onward c' ∧ w₃ = w')
      hrun (by simp) fun _ c' hc => ⟨rfl, hc, rfl⟩) ?_ ?_
    · rintro rc _ _ hrc ⟨h0, _⟩
      exact absurd h0 hrc
    · rintro c₃ _ ⟨_, hc₃, rfl⟩
      have hput' : w₁.Put w₃ := (w₁.level_setRegs _).toPut.trans hput
      exact hend c₃ _ hput' (h₁.put hput' (hc₂.trans hc₃))
  next =>
    exact hend c₂ _ (w₁.level_setRegs _).toPut (h₁.put (w₁.level_setRegs _).toPut hc₂)

/-- Arming watchpoints moves no thread. -/
lemma Proc.pcs_armedAll : ∀ (wps : List Watchpoint) (p : Proc), (p.armedAll wps).pcs = p.pcs
  | [], _ => rfl
  | wp :: wps, p => by
      rw [Proc.armedAll]
      split
      · rw [pcs_armedAll wps, Proc.pcs, Proc.pcs, Proc.armed, Proc.mapDebug, Threads.list_mapDebug,
          List.map_map]
        refine List.map_congr_left fun t _ => ?_
        rw [Function.comp_apply]
        split <;> rfl
      · exact pcs_armedAll wps p

/-- A single step, before any stop by a signal. -/
lemma tracks_cdbgSingleStep (hc : c.stop = none) :
    Tracks signal start c w cdbgSingleStep fun rc c' _ =>
      c'.stop = none ∧ (rc = 0 → c'.way = c.next) ∧ c'.temp = c.temp ∧ c'.astray = c.astray := by
  rcases cdbgSingleStep_cases w with ⟨h, _⟩ | ⟨p, _, _, h⟩
  · exact Track.of_eq h fun _ => ⟨trivial, hc, fun h0 => absurd h0 (by norm_num), rfl, rfl⟩
  · exact Track.of_eq h fun _ => ⟨⟨fun _ => hc, trivial⟩, hc, fun _ => rfl, rfl, rfl⟩

/-- The registers that the debugger keeps are those of a thread of the debuggee. -/
def World.Known (w : World σ) : Prop := ∀ pcs ∈ w.pcs, w.dbg.regs.pc ∈ pcs

/-- The step past a watchpoint may be stopped by a signal; the watchpoints are armed again. -/
lemma tracks_stepPastAllWatchpoints (hc : c.stop = none) (hn : c.next = .past) :
    Tracks signal start c w (stepPastAllWatchpoints host) fun rc c' w' =>
      c'.stop = none ∨ rc = 0 ∧ w'.Held c' ∧ c'.astray = c.astray ∧ w'.Known := by
  refine Track.get_bind ?_
  have hdis : ∃ w₁, disarmEnabled w.dbg.watchpoints.toList w = ⟨some (), w₁, []⟩ := by
    cases hp : w.taskForPid w.dbg.pid with
    | none => exact ⟨_, disarmEnabled_none _ hp⟩
    | some p => exact ⟨_, disarmEnabled_some _ hp⟩
  obtain ⟨w₁, hdis⟩ := hdis
  refine Track.bind (Q := fun _ c' w' => c = c' ∧ w₁ = w')
    (Track.of_eq hdis fun _ => ⟨trivial, rfl, rfl⟩) ?_
  rintro _ _ _ ⟨rfl, rfl⟩
  -- a step over the access, which owes no report of its own
  refine Track.bind_rc (tracks_cdbgSingleStep hc) (fun rc c' w' _ h => Track.pure _ (.inl h.1)) ?_
  rintro c₂ w₂ ⟨hc₂, hway, _, hast⟩
  have hpast : c₂.way = .past := (hway rfl).trans hn
  refine Track.bind_rc (tracks_cdbgWait_fresh hc₂) ?_ ?_
  · intro rc c₃ w₃ hrc hw
    exact Track.get_bind (Track.pure _ (.inl (hw.1.none_of_ne hrc)))
  intro c₃ w₃ ⟨hw, hregs⟩
  refine Track.get_bind ?_
  rcases hw.caught_of_ok with hnone | hcaught
  · split
    · exact Track.pure _ (.inl hnone)
    · have harm : ∀ e ∈ (armEnabled w₃.dbg.watchpoints.toList w₃).trace, e.kind.isStop = false := by
        rcases armEnabled_cases w₃.dbg.watchpoints.toList w₃ with
          ⟨_, rc, h⟩ | ⟨p, _, rc, us, _, _, _, h⟩ <;> simp [h]
      exact (tracks_free hnone harm).post fun _ _ _ h => .inl h
  -- the debuggee has stopped: arming it again leaves its threads where they are
  · rw [if_neg (not_not.mpr hcaught.state)]
    have hfits := hcaught.demands
    rw [Gait.demands, hw.way, hpast] at hfits
    have hsame : c₃.astray = c.astray := by
      rw [hw.astray rfl hcaught.state, Gait.strays, hpast]
      exact hast
    obtain ⟨pcs, hstop, hpcs⟩ := hcaught.stop
    rcases armEnabled_cases w₃.dbg.watchpoints.toList w₃ with
      ⟨hn, _⟩ | ⟨p, hp, rc, us, _, _, h0, h⟩
    · have halive := hcaught.alive
      rw [hn] at halive
      cases halive
    · have harmed : (w₃.setProc (p.armedAll us)).pcs = w₃.pcs := by
        rw [World.pcs, World.pcs, (World.taskForPid_eq_some.mp hp).1]
        exact congrArg some (Proc.pcs_armedAll us p)
      refine Track.of_eq h fun _ => ⟨trivial, .inr ⟨h0 hfits.1, ⟨⟨pcs, hstop, ?_⟩, hcaught.state⟩,
        hsame, ?_⟩⟩
      · exact harmed.trans hpcs
      · rw [World.Known, harmed]
        exact World.mem_pcs (hregs hpast hcaught.isSome)

lemma tracks_recordValue {c₀ : Gait} (i : ℕ) (h : Stands c₀ c w) :
    Tracks signal start c w (recordValue i) fun _ c' w' =>
      Stands c₀ c' w' ∧ c.Onward c' ∧ (w.Known → w'.Known) := by
  obtain ⟨t, ht, h' | ⟨wp, wp', _, _, h'⟩⟩ := recordValue_cases i w
  all_goals
    refine tracks_calm h' (fun e he => ?_) fun _ c' hc => ⟨h.put ⟨rfl, rfl⟩ hc, hc, fun hk => hk⟩
    obtain ⟨a, n, rfl⟩ := ht e he
    rfl

/-- The last part of both handlers of a watchpoint hit. -/
lemma tracks_stepPastHit {k : EventKind} (hk : ∀ c : Gait,
      c.note signal ⟨k, w⟩ = { c with next := .past })
    (hok : Event.heeded signal start c ⟨k, w⟩ → c.stop = none) (hr : Event.resumes ⟨k, w⟩ = false) :
    Tracks signal start c w (stepPastHit host k) fun rc c' w' =>
      (rc ≠ 0 → c'.stop = none) ∧ Stands c c' w' ∧ (c'.stop.isSome → w'.Known) := by
  refine Track.bind (Q := fun _ c' w' => c'.stop = none ∧ c'.next = .past ∧ c'.astray = c.astray)
    (Track.emit fun h => ?_) fun _ c' w' ⟨hs, hn, ha⟩ =>
      (tracks_stepPastAllWatchpoints hs hn).post fun rc c'' w'' h =>
        ⟨fun hrc => h.resolve_right fun h => hrc h.1,
          h.imp_right fun h => ⟨h.2.1, h.2.2.1.trans ha⟩,
          fun hs => (h.resolve_left (Option.isSome_iff_ne_none.mp hs)).2.2.2⟩
  refine ⟨fun h' => ?_, ?_⟩
  · rw [hr] at h'
    cases h'
  · rw [hk]
    exact ⟨hok h, rfl, rfl⟩

lemma reportProcessExit_not_stop (w : World σ) :
    ∀ e ∈ (reportProcessExit w).trace, e.kind.isStop = false := by
  rcases reportProcessExit_cases w with ⟨_, h⟩ | ⟨_, h⟩ <;> simp [h, EventKind.isStop]

/-- A debuggee that is not stopped has not been stopped by a signal. -/
lemma Stands.none_of_ne {c₀ : Gait} (h : Stands c₀ c w) (hs : w.dbg.state ≠ .stopped) :
    c.stop = none := h.resolve_right fun h => hs h.1.state

/-- A watchpoint is stepped past only if there has been no stop by a signal; if one comes
then, its place is printed. -/
lemma tracks_handleWatchpointHit (i : ℕ) (isWrite : Bool) :
    Tracks signal start c w (handleWatchpointHit host i isWrite)
      fun _ c' w' => Answered c c' w' := by
  rw [handleWatchpointHit, ← bind_assoc]
  refine Track.bind_rc (tracks_stepPastHit (fun _ => rfl) (fun h => h) rfl)
    (fun rc c' w' hrc h => Track.pure _ (.inl (h.1 hrc))) ?_
  rintro c₁ w₁ ⟨_, h₁, hknown⟩
  refine Track.get_bind ?_
  split
  next hst =>
    refine (tracks_free (h₁.none_of_ne hst) (reportProcessExit_not_stop w₁)).bind
      fun _ c₂ w₂ h => ?_
    exact Track.pure _ (.inl h)
  next =>
    refine (tracks_recordValue i h₁).bind ?_
    rintro _ c₂ w₂ ⟨h₂, hc₂, hk⟩
    have hmem : c₂.stop.isSome → w₂.Known := fun hs => hk (hknown (hc₂.stop ▸ hs))
    refine Track.get_bind ((tracks_location hmem h₂).bind fun _ c₃ w₃ h₃ => ?_)
    exact Track.pure _ h₃.2

lemma tracks_handleUnresolvedWatchpointHit (far : Addr) :
    Tracks signal start c w (handleUnresolvedWatchpointHit host far)
      fun _ c' w' => Answered c c' w' := by
  rw [handleUnresolvedWatchpointHit, ← bind_assoc]
  refine Track.bind_rc (tracks_stepPastHit (fun _ => rfl) (fun h => h) rfl)
    (fun rc c' w' hrc h => Track.pure _ (.inl (h.1 hrc))) ?_
  rintro c₁ w₁ ⟨_, h₁, hknown⟩
  refine Track.get_bind ?_
  split
  next hst =>
    refine (tracks_free (h₁.none_of_ne hst) (reportProcessExit_not_stop w₁)).bind
      fun _ c₂ w₂ h => ?_
    exact Track.pure _ (.inl h)
  next =>
    refine (tracks_location hknown h₁).bind fun _ c₃ w₃ h₃ => ?_
    exact Track.pure _ h₃.2

lemma tracks_tryReportWatchpointHit :
    Tracks signal start c w (tryReportWatchpointHit host) fun b c' w' =>
      if b = true then Answered c c' w' else c = c' ∧ w = w' := by
  refine Track.get_bind ?_
  split
  next => exact Track.pure _ ⟨rfl, rfl⟩
  next far isWrite _ =>
    split
    next i _ =>
      exact (tracks_handleWatchpointHit i isWrite).bind fun _ c' w' h => Track.pure _ h
    next =>
      exact (tracks_handleUnresolvedWatchpointHit far).bind fun _ c' w' h => Track.pure _ h

/-- The body of `report_stop` prints the place. -/
lemma tracks_announceStop (h : c.stop = none ∨ w.Held c) :
    Tracks signal start c w (announceStop host) fun _ c' w' => Answered c c' w' := by
  refine Track.bind (Q := fun _ c' w' => c = c' ∧ w.Put w') ?_ ?_
  · by_cases hz : w.hitTid = 0
    · have hrun : selectHitThread w = ⟨some (), w, []⟩ := by simp [selectHitThread, hz]
      exact Track.of_eq hrun fun _ => ⟨trivial, rfl, .refl w⟩
    · have hrun : selectHitThread w =
          ⟨some (), w.setDbg { w.dbg with currentTid := w.hitTid }, []⟩ := by
        simp only [selectHitThread, Prog.get_bind, hz, if_false]
        rfl
      exact Track.of_eq hrun fun _ => ⟨trivial, rfl, rfl, rfl⟩
  -- the thread of the hit is selected, and the others are frozen
  rintro _ _ w₁ ⟨rfl, hp₁⟩
  refine Track.get_bind (Track.bind (Q := fun _ c' w' => c.Onward c' ∧ w₁.Put w') ?_ ?_)
  · rcases threadsSuspendOthers_cases w₁.dbg.pid w₁.dbg.currentTid w₁ with hr | ⟨p, hp, hr⟩
    · exact tracks_calm hr (by simp) fun _ c' hc => ⟨hc, .refl w₁⟩
    · refine tracks_calm hr (by simp [EventKind.calm]) fun _ c' hc => ⟨hc, ?_, rfl⟩
      rw [World.pcs, World.pcs, (World.taskForPid_eq_some.mp hp).1]
      exact congrArg some (by simp [Proc.pcs, Proc.frozen, Threads.suspendOthers])
  rintro _ c₂ w₂ ⟨hc₂, hp₂⟩
  have h₂ : Stands c c₂ w₂ :=
    Stands.put (h.imp_right fun hh => ⟨hh, rfl⟩) (hp₁.trans hp₂) hc₂
  refine Track.bind_rc tracks_refreshRegs ?_ ?_
  · rintro rc c₃ _ hrc ⟨hc₃, _, h0, _⟩
    have hnone : c₂.stop = none := Gait.stop_none_of_ne h0 hrc
    exact Track.pure _ (.inl (hc₃.stop.trans hnone))
  rintro c₃ _ ⟨hc₃, _, _, regs, rfl, hregs⟩
  -- the registers are those of that thread
  have hsel : w₂.selectedPc = some regs.pc := hregs rfl
  have hmem : (w₂.setDbg { w₂.dbg with regs := regs }).Known := World.mem_pcs hsel
  refine (tracks_emit rfl).bind ?_
  rintro _ c₄ _ ⟨hc₄, rfl⟩
  have h₄ := h₂.put (w₂.level_setRegs regs).toPut (hc₃.trans hc₄)
  refine Track.get_bind ?_
  dsimp only
  split
  -- an entry, a watchpoint or neither is announced
  next i hi =>
    obtain ⟨bp, hbp, haddr⟩ := entry_of_bpMatchIndex hi
    rw [hbp]
    exact tracks_handleBreakpointHit (by rw [haddr]; exact hsel) h₄
  next =>
    refine tracks_tryReportWatchpointHit.bind fun b c₅ w₅ h₅ => ?_
    split at h₅
    next hb =>
      rw [if_pos hb]
      exact Track.pure 0 (h₅.onward (hc₂.trans (hc₃.trans hc₄)))
    next hb =>
      obtain ⟨rfl, rfl⟩ := h₅
      rw [if_neg hb]
      refine (tracks_emit rfl).bind ?_
      rintro _ c₆ _ ⟨hc₆, rfl⟩
      refine (tracks_location (fun _ => hmem) (h₄.put (.refl _) hc₆)).bind ?_
      rintro _ c₇ w₇ ⟨_, ha⟩
      exact Track.pure 0 ha

/-- What ends a command: no stop by a signal, or the debuggee at it, with its place printed. -/
def Ended (c : Gait) (w : World σ) : Prop := c.stop = none ∨ w.Held c ∧ c.reported = true

/-- A report on the way to a temporary breakpoint leaves the selected thread where the loop
stops. -/
lemma tracks_reportStop (h : c.stop = none ∨ w.Held c) :
    Tracks signal start c w (reportStop host) fun _ c' w' => Ended c' w' ∧
      (c'.stop = none ∨ (c.astray = true → w'.Heeds start)) := by
  refine (tracks_announceStop h).bind fun rc c₁ w₁ h₁ => ?_
  refine Track.bind (Q := fun _ c' w' => Ended c' w' ∧
    (c'.stop = none ∨ (c.astray = true → w'.Heeds start))) (Track.emit fun hok => ?_)
    fun _ c₂ w₂ h₂ => Track.pure rc h₂
  refine ⟨fun hr => (by cases hr), ?_⟩
  rcases h₁ with hnone | ⟨hh, ha, hrep⟩
  · exact ⟨.inl hnone, .inl hnone⟩
  · exact ⟨.inr ⟨⟨hh.stop, hh.state⟩, hrep⟩, .inr fun hc => hok hh.isSome (ha.trans hc)⟩

end Reports

end Cdbg
