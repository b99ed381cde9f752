import Cdbg.Control.Slots
import Cdbg.Laws.Prompt

/-!
The table of watchpoints and the debug registers of the threads.

A watchpoint is armed on all threads when it is set, and all of them are armed on all
threads when one of them is hit and the access is stepped past; no other stop arms
anything. So the threads that lack the watchpoints are those that appeared at a stop since
the last hit, which can be read off the events of a session (`Census`), and on all others
the registers hold what the table says (`World.Watched`).

Between the disarming and the arming of a step past a hit the registers are behind the
table, so this step is taken as a whole (`Tour`).
-/

namespace Cdbg

open Prog

variable {σ α : Type} {host : Host σ}

/-! ### What the events tell about the threads -/

/-- What is gathered from the events of a session: whether a watchpoint hit is being stepped
past, and the threads that have appeared at a stop and not been armed since. -/
structure Census where
  hit : Bool
  fresh : List Tid

/-- Some entry of the table of watchpoints is enabled. -/
def World.watching (w : World σ) : Prop := ∃ wp ∈ w.dbg.watchpoints.toList, wp.enabled = true

instance (w : World σ) : Decidable w.watching :=
  inferInstanceAs (Decidable (∃ wp ∈ w.dbg.watchpoints.toList, wp.enabled = true))

/-- Before anything has happened. -/
def Census.zero : Census := ⟨false, []⟩

/-- A stop brings threads without watchpoints, unless there are none to arm or all of them
are armed next. -/
def Census.count (c : Census) (e : Event σ) : Census :=
  match e.kind with
  | .watchpointHit _ _ => { c with hit := true }
  | .watchpointNear _ => { c with hit := true }
  | .fork => .zero
  | .waited (.stopped s) =>
      if c.hit ∨ ¬ e.world.watching then .zero
      else ⟨false, (e.world.proc.map fun p => p.freshAt s c.fresh).getD []⟩
  | .waited _ => .zero
  | _ => c

/-- What is asked of an event: the calls succeed, and there are never more threads than
`cdbg_threads_list` gives. -/
structure Event.crewed (host : Host σ) (e : Event σ) : Prop extends e.granted where
  stop : ∀ s ∈ e.kind.stop, s.threads.list.length ≤ maxThreads
  birth : e.kind.isFork = true → ∀ b ∈ host.fork e.world.host,
    b.1.start.threads.list.length ≤ maxThreads

/-- The events that matter to the census. -/
def EventKind.counted : EventKind → Bool
  | .fork => true
  | .waited _ => true
  | k => k.isHit

lemma Census.count_of_not_counted {e : Event σ} (h : e.kind.counted = false) (c : Census) :
    c.count e = c := by
  obtain ⟨k, w⟩ := e
  cases k with
  | waited o => simp [EventKind.counted] at h
  | fork => simp [EventKind.counted] at h
  | watchpointHit i b => simp [EventKind.counted, EventKind.isHit] at h
  | watchpointNear a => simp [EventKind.counted, EventKind.isHit] at h
  | _ => rfl

lemma Census.foldl_count {t : List (Event σ)} (h : ∀ e ∈ t, e.kind.counted = false)
    (c : Census) : t.foldl count c = c := by
  induction t generalizing c with
  | nil => rfl
  | cons e t ih =>
      have he : c.count e = c := count_of_not_counted (h e List.mem_cons_self) c
      rw [List.foldl_cons, he]
      exact ih (fun e he => h e (List.mem_cons_of_mem _ he)) c

lemma EventKind.not_counted_of_edits {k : EventKind} (h : k.edits = true) :
    k.counted = false := by
  cases k <;> simp_all [edits, inert, counted, isHit]

/-! ### The invariant -/

/-- What the debug registers follow from the table. -/
def World.armings (w : World σ) : List Arming :=
  w.dbg.watchpoints.toList.map Watchpoint.arming

/-- The entries have slots of their own, are enabled while there is a process, and all but
the fresh threads have them programmed. -/
structure World.Watched (c : Census) (w : World σ) : Prop where
  coherent : w.Coherent
  slots : WellSlotted w.armings
  live : ∀ p, w.proc = some p → ∀ a ∈ w.armings, a.enabled = true
  rigged : ∀ p, w.proc = some p → Rigged w.armings c.fresh p.debugs
  unhit : c.hit = true → w.proc = none

namespace World

lemma debugs_setProc {w : World σ} {pid : ℕ} {p q : Proc} (hp : w.taskForPid pid = some p)
    (h : q.debugs = p.debugs) : (w.setProc q).debugs = w.debugs := by
  have hproc := (taskForPid_eq_some.mp hp).1
  change some q.debugs = w.proc.map Proc.debugs
  rw [hproc, h]
  rfl

variable {c : Census} {w w' : World σ}

/-- Nothing has changed about the watchpoints. -/
lemma Watched.hush (h : w.Watched c) (hc : w'.Coherent) (ha : w'.armings = w.armings)
    (hd : w'.debugs = w.debugs) : w'.Watched c := by
  have hproc : ∀ p', w'.proc = some p' → ∃ p, w.proc = some p ∧ p.debugs = p'.debugs := by
    intro p' hp'
    have hmap : w.proc.map Proc.debugs = some p'.debugs := by
      calc w.proc.map Proc.debugs = w'.proc.map Proc.debugs := hd.symm
        _ = some p'.debugs := by rw [hp']; rfl
    exact Option.map_eq_some_iff.mp hmap
  refine ⟨hc, ha ▸ h.slots, fun p' hp' => ?_, fun p' hp' => ?_, fun hh => ?_⟩
  · obtain ⟨p, hp, _⟩ := hproc p' hp'
    rw [ha]
    exact h.live p hp
  · obtain ⟨p, hp, hpd⟩ := hproc p' hp'
    rw [ha, ← hpd]
    exact h.rigged p hp
  · by_contra hne
    obtain ⟨p', hp'⟩ := Option.ne_none_iff_exists'.mp hne
    obtain ⟨p, hp, _⟩ := hproc p' hp'
    rw [h.unhit hh] at hp
    cases hp

/-- Without a process only the table matters. -/
lemma Watched.of_none (hc : w.Coherent) (hp : w.proc = none) (hs : WellSlotted w.armings) :
    w.Watched c := by
  refine ⟨hc, hs, fun p h => ?_, fun p h => ?_, fun _ => hp⟩
  · rw [hp] at h
    cases h
  · rw [hp] at h
    cases h

/-- An idle debugger has no process. -/
lemma Watched.no_proc (h : w.Watched c) (hi : w.dbg.state = .idle) : w.proc = none := by
  have hc := h.coherent
  rw [Coherent, hi] at hc
  exact Option.map_eq_none_iff.mp hc

/-- The entries of a table without enabled ones, while there is a process. -/
lemma Watched.armings_nil (h : w.Watched c) {p : Proc} (hp : w.proc = some p)
    (hn : ¬ w.watching) : w.armings = [] := by
  rw [armings, List.map_eq_nil_iff, List.eq_nil_iff_forall_not_mem]
  intro wp hwp
  exact hn ⟨wp, hwp, h.live p hp _ (List.mem_map_of_mem hwp)⟩

end World

/-! ### Edits -/

/-- A free slot is not that of an enabled entry. -/
lemma findFreeWatchSlot_free {wps : Table Watchpoint maxWatchpoints} {slot : ℕ}
    (h : findFreeWatchSlot wps = some slot) :
    ∀ wp ∈ wps.toList, wp.enabled = true → wp.slot ≠ slot := by
  have hfree := List.find?_some h
  intro wp hwp he hs
  simp only [Bool.not_eq_true', List.any_eq_false, Bool.and_eq_true, decide_eq_true_eq,
    not_and] at hfree
  exact hfree wp hwp he hs

lemma Dbg.toList_pushWatchpoint {d : Dbg} (h : d.watchpoints.count < maxWatchpoints)
    (wp : Watchpoint) :
    (d.pushWatchpoint wp).watchpoints.toList = d.watchpoints.toList ++ [wp] := by
  obtain ⟨t, ht⟩ := Option.isSome_iff_exists.mp (Table.push_isSome h wp)
  simp only [Dbg.pushWatchpoint, ht, Option.getD_some]
  exact Table.toList_push ht

namespace World

variable {c : Census} {w : World σ}

/-- Setting a watchpoint in a free slot. -/
lemma Watched.watch (h : w.Watched c) (wp : Watchpoint)
    (hs : findFreeWatchSlot w.dbg.watchpoints = some wp.slot)
    (hc : w.dbg.watchpoints.count < maxWatchpoints)
    (hco : (addWatchpoint wp w).final.Coherent) : (addWatchpoint wp w).final.Watched c := by
  rcases addWatchpoint_cases wp w with ⟨rc, hr⟩ | ⟨p, hp, hf, wp', hwp', hr⟩
  · rw [hr]
    exact h
  rw [hr] at hco ⊢
  have hproc := (taskForPid_eq_some.mp hp).1
  have harm : ((w.setProc (p.armed wp)).setDbg (w.dbg.pushWatchpoint wp')).armings =
      w.armings ++ [wp'.arming] := by
    rw [armings, setDbg_dbg, Dbg.toList_pushWatchpoint hc, List.map_append]
    rfl
  have hen : wp'.arming.enabled = true := by rw [hwp']
  have hslot : wp'.arming.slot = wp.slot := by rw [hwp']; rfl
  have hfree : ∀ b ∈ w.armings, b.slot ≠ wp.slot := by
    intro b hb
    obtain ⟨v, hv, rfl⟩ := List.mem_map.mp hb
    exact findFreeWatchSlot_free hs v hv (h.live p hproc _ hb)
  have hfits : wp'.arming.fits := by
    rw [hwp']
    exact wp.fits_iff.mp hf
  refine ⟨hco, ?_, fun q _ a ha => ?_, fun q hq => ?_, fun hh => ?_⟩
  · rw [harm]
    exact h.slots.concat hfits fun b hb => hslot ▸ hfree b hb
  · rw [harm] at ha
    rcases List.mem_append.mp ha with ha | ha
    · exact h.live p hproc a ha
    · obtain rfl := List.mem_singleton.mp ha
      exact hen
  · obtain rfl : p.armed wp = q := Option.some.inj hq
    rw [harm]
    exact (h.rigged p hproc).armed (by rw [hen, hwp']) hfree
  · rw [h.unhit hh] at hproc
    cases hproc

/-- Deleting a watchpoint. -/
lemma Watched.unwatch (h : w.Watched c) (i : ℕ)
    (hco : (deleteWatchpointAt i w).final.Coherent) :
    (deleteWatchpointAt i w).final.Watched c := by
  rcases deleteWatchpointAt_cases i w with ⟨_, hr⟩ | ⟨wp, hwp, ⟨hn, hr⟩ | ⟨p, hp, hr⟩⟩
  · rw [hr]
    exact h
  -- without a process to disarm
  · have hnone : w.proc = none := by
      by_contra hne
      obtain ⟨p, hproc⟩ := Option.ne_none_iff_exists'.mp hne
      have hp := h.coherent.task_of_proc hproc
      have hpos : 0 < w.dbg.pid := (taskForPid_eq_some.mp hp).2 ▸ p.pid_pos
      rcases hn with hn | hn
      · exact hn ⟨hpos, h.coherent.not_idle hp⟩
      · rw [hp] at hn
        cases hn
    rw [hr] at hco ⊢
    refine Watched.of_none hco hnone ?_
    have := h.slots.eraseIdx i
    rwa [armings, List.eraseIdx_map] at this
  -- the enable bit of the slot is cleared on every thread, and the entry is erased
  · rw [hr] at hco ⊢
    have hproc := (taskForPid_eq_some.mp hp).1
    have harm : ((w.setProc (p.disarmed wp.slot)).setDbg (w.dbg.eraseWatchpoint i)).armings =
        w.armings.eraseIdx i := by
      rw [armings, armings, List.eraseIdx_map]
      rfl
    have hi : w.armings[i]? = some wp.arming := by
      rw [armings, List.getElem?_map]
      exact congrArg (Option.map Watchpoint.arming) hwp
    refine ⟨hco, ?_, fun q _ a ha => ?_, fun q hq => ?_, fun hh => ?_⟩
    · rw [harm]
      exact h.slots.eraseIdx i
    · rw [harm] at ha
      exact h.live p hproc a (List.mem_of_mem_eraseIdx ha)
    · obtain rfl : p.disarmed wp.slot = q := Option.some.inj hq
      rw [harm]
      exact (h.rigged p hproc).disarmed h.slots hi
    · rw [h.unhit hh] at hproc
      cases hproc

end World

/-- Edits keep the watchpoints in the registers. -/
lemma Edit.watched (host : Host σ) {c : Census} {w w' : World σ} {t : List (Event σ)}
    (h : Edit w t w') (hw : w.Watched c) : w'.Watched c := by
  have hc := Fine.coherent (.prim (.edit h) : Fine host w t w') hw.coherent
  cases h with
  | still h =>
      obtain ⟨_, ht, _⟩ := h
      cases ht with
      | hush ha hd => exact hw.hush hc ha hd
      | watch wp hs hn => exact hw.watch wp hs hn hc
      | unwatch i => exact hw.unwatch i hc
  -- breakpoints change the code only: the debug registers stay as they are
  | enable _ _ _ hbp =>
      rcases enableEntry_cases hbp with ⟨_, h⟩ | ⟨p, hp, _, h⟩
      · rw [h]
        exact hw
      · rw [h] at hc ⊢
        exact hw.hush hc rfl (World.debugs_setProc hp rfl)
  | disable _ _ _ hbp =>
      rcases disableEntry_cases hbp with ⟨_, h⟩ | ⟨_, p, hp, _, h⟩ | ⟨_, _, h⟩ | ⟨_, p, hp, _, h⟩
      · rw [h]
        exact hw
      · rw [h] at hc ⊢
        exact hw.hush hc rfl (World.debugs_setProc hp rfl)
      · rw [h]
        exact hw
      · rw [h] at hc ⊢
        exact hw.hush hc rfl (World.debugs_setProc hp rfl)
  | add _ addr =>
      rcases addBreakpoint_cases addr w with h | ⟨_, h⟩ | ⟨p, hp, _, _, h⟩
      · rw [h]
        exact hw
      · rw [h]
        exact hw
      · rw [h] at hc ⊢
        exact hw.hush hc rfl (World.debugs_setProc hp rfl)
  -- the selection and the table of breakpoints are no part of the invariant
  | erase => exact hw.hush hc rfl rfl
  | freeze =>
      rcases threadsSuspendOthers_cases w.dbg.pid w.dbg.currentTid w with h | ⟨p, hp, h⟩
      · rw [h]
        exact hw
      · rw [h] at hc ⊢
        refine hw.hush hc rfl (World.debugs_setProc hp ?_)
        simp [Proc.debugs, Proc.frozen, Threads.suspendOthers]
  | select => exact hw.hush hc rfl rfl
  | store _ addr size value =>
      rcases writeScalarValue_cases addr size value w with ⟨_, h⟩ | ⟨p, hp, ⟨_, h⟩ | ⟨_, h⟩⟩
      · rw [h]
        exact hw
      · rw [h] at hc ⊢
        exact hw.hush hc rfl (World.debugs_setProc hp rfl)
      · rw [h] at hc ⊢
        exact hw.hush hc rfl (World.debugs_setProc hp rfl)

/-! ### Single operations -/

namespace World

variable {c : Census} {w : World σ}

/-- A wait: the end of the process leaves nothing to arm, and at a stop the threads that are
new lack the watchpoints. -/
lemma Watched.waitForStop (h : w.Watched c)
    (hok : ∀ e ∈ (waitForStop host w).trace, e.crewed host) :
    (waitForStop host w).final.Watched ((waitForStop host w).trace.foldl Census.count c) := by
  have hco := Fine.coherent (.prim (.wait w) : Fine host w _ _) h.coherent
  rcases waitForStop_cases host w with ⟨_, hr⟩ | ⟨h', hr⟩ | ⟨p, r, o, h', hp, _, _, hr⟩
  · rw [hr]
    exact h
  · rw [hr] at hco ⊢
    exact h.hush hco rfl rfl
  rw [hr] at hco hok ⊢
  have hproc := (taskForPid_eq_some.mp hp).1
  cases o with
  | exited _ => exact Watched.of_none hco rfl h.slots
  | signaled _ => exact Watched.of_none hco rfl h.slots
  | stopped s =>
      -- threads that are new at the stop join the ones to arm
      have hfew := (hok _ List.mem_cons_self).stop s rfl
      have hlive : ∀ a ∈ w.armings, a.enabled = true := h.live p hproc
      have hstop := (h.rigged p hproc).stopWith hfew
      have hhit : c.hit ≠ true := by
        intro hh
        rw [h.unhit hh] at hproc
        cases hproc
      refine ⟨hco, h.slots, fun _ _ => hlive, fun q hq => ?_, fun hh => ?_⟩
      · obtain rfl : p.stopWith s = q := Option.some.inj hq
        change Rigged w.armings (c.count ⟨.waited (.stopped s), w⟩).fresh _
        by_cases hwatch : w.watching
        · have hfresh : (c.count ⟨.waited (.stopped s), w⟩).fresh = p.freshAt s c.fresh := by
            simp [Census.count, hhit, hwatch, hproc]
          rw [hfresh]
          exact hstop
        -- without an enabled entry there is nothing that a new thread could lack
        · have hnil := h.armings_nil hproc hwatch
          have hfresh : (c.count ⟨.waited (.stopped s), w⟩).fresh = [] := by
            simp [Census.count, hwatch, Census.zero]
          rw [hfresh, hnil]
          rw [hnil] at hstop
          exact hstop.of_nil
      · change (c.count ⟨.waited (.stopped s), w⟩).hit = true at hh
        rw [Census.count] at hh
        dsimp only at hh
        split at hh <;> cases hh

lemma armings_disableAll {d : Dbg} (hd : d.watchpoints = w.dbg.disableAll.watchpoints) :
    (w.setDbg d).armings = w.armings.map fun a => { a with enabled := false } := by
  rw [armings, setDbg_dbg, hd, armings, Dbg.disableAll, Table.toList_map, List.map_map,
    List.map_map]
  rfl

/-- Without a process the entries may be disabled. -/
lemma Watched.disableAll (h : w.Watched c) {w' : World σ} {c' : Census} (hc : w'.Coherent)
    (hp : w'.proc = none) (hd : w'.dbg.watchpoints = w.dbg.disableAll.watchpoints) :
    w'.Watched c' := by
  refine Watched.of_none hc hp ?_
  have harm : w'.armings = w.armings.map fun a => { a with enabled := false } :=
    armings_disableAll (w := w) (d := w'.dbg) hd
  rw [harm]
  exact h.slots.disabled

end World

/-- Primitive steps keep the watchpoints in the registers. -/
lemma Prim.watched {c : Census} {w w' : World σ} {t : List (Event σ)} (h : Prim host w t w')
    (hw : w.Watched c) (hok : ∀ e ∈ t, e.crewed host) : w'.Watched (t.foldl Census.count c) := by
  have hc := Fine.coherent (.prim h : Fine host w t w') hw.coherent
  cases h with
  | edit h =>
      rw [Census.foldl_count fun e he => EventKind.not_counted_of_edits (h.edits e he)]
      exact h.watched host hw
  | singleStep =>
      rcases cdbgSingleStep_cases w with ⟨h, _⟩ | ⟨p, hp, _, h⟩
      · rw [h]
        exact hw
      · rw [h] at hc ⊢
        exact hw.hush hc rfl (World.debugs_setProc (q := { p with running := some .step }) hp rfl)
  | wait => exact hw.waitForStop hok
  | launch _ program hi =>
      -- a new process starts with an empty table and clear registers
      have hnone := hw.no_proc hi
      rcases launch_cases host program w with h | ⟨b, h', lineno, syms, hf, h⟩
      · rw [h] at hc ⊢
        exact World.Watched.of_none hc hnone WellSlotted.nil
      · rw [h] at hc hok ⊢
        have hfew := (hok _ List.mem_cons_self).birth rfl (b, h') (by simpa using hf)
        refine ⟨hc, WellSlotted.nil, fun _ _ a ha => ?_, fun q hq => ?_, fun hh => by cases hh⟩
        · cases ha
        · obtain rfl : b.proc = q := Option.some.inj hq
          refine ⟨?_, fun d hd => ?_, fun _ _ _ a ha => by cases ha⟩
          · simpa [Proc.debugs, Birth.proc] using hfew
          · obtain ⟨u, hu, rfl⟩ := List.mem_map.mp hd
            obtain ⟨t, _, rfl⟩ := List.mem_map.mp hu
            exact OnlyFor.zero _
  -- at the end of the process its registers go, and the entries are disabled
  | kill =>
      rcases stopDebuggee_cases host w with ⟨_, h⟩ | ⟨hi, h⟩ | ⟨_, h⟩ | ⟨p, _, _, h⟩
      · rw [h] at hc ⊢
        exact hw.hush hc rfl rfl
      · rw [h] at hc ⊢
        exact hw.disableAll hc (hw.no_proc hi) rfl
      · rw [h]
        exact hw
      · rw [h] at hc ⊢
        exact hw.disableAll hc rfl rfl
  | exit =>
      rcases reportProcessExit_cases w with ⟨_, h⟩ | ⟨hi, h⟩
      · rw [h]
        exact hw
      · rw [h] at hc ⊢
        exact hw.disableAll hc (hw.no_proc hi) rfl

/-! ### Stepping past a hit -/

/-- The table of watchpoints and the debug registers are left alone. -/
def SameWatch : Step (Event σ) (World σ) := fun w _ w' =>
  w'.dbg.watchpoints = w.dbg.watchpoints ∧ w'.debugs = w.debugs

lemma sameWatch_reenableBreakpointsAfterStep :
    Moves SameWatch (reenableBreakpointsAfterStep (σ := σ)) := by
  refine moves_reenableBreakpointsAfterStep (moves_of_step fun w => ?_) fun w i bp hbp => ?_
  · rcases refreshRegs_cases w with ⟨_, h⟩ | ⟨t, _, h⟩
    · rw [h]
      exact ⟨rfl, rfl⟩
    · rw [h]
      exact ⟨rfl, rfl⟩
  · rcases enableEntry_cases hbp with ⟨_, h⟩ | ⟨p, hp, _, h⟩
    · rw [h]
      exact ⟨rfl, rfl⟩
    · rw [h]
      exact ⟨rfl, World.debugs_setProc hp rfl⟩

/-- Enabling the breakpoints again succeeds and has nothing to do with the watchpoints. -/
lemma reenable_of_granted {w : World σ} (hs : w.inState .stopped)
    (hok : ∀ e ∈ (reenableBreakpointsAfterStep w).trace, e.granted) {a : ℤ}
    (ha : (reenableBreakpointsAfterStep w).value = some a) :
    a = 0 ∧ (reenableBreakpointsAfterStep w).final.inState .stopped ∧
      SameWatch w [] (reenableBreakpointsAfterStep w).final ∧
      ∀ e ∈ (reenableBreakpointsAfterStep w).trace, e.kind.counted = false := by
  have hrc := (grants_reenableBreakpointsAfterStep w hs hok).2 a ha
  have hsame : Spec (fun _ => True) (fun _ => True) (SameWatch w []) reenableBreakpointsAfterStep
      fun _ => SameWatch w [] :=
    sameWatch_reenableBreakpointsAfterStep.spec fun _ _ _ h hI _ =>
      ⟨⟨h.1.trans hI.1, h.2.trans hI.2⟩, fun _ _ => trivial⟩
  have hkinds : ∀ e ∈ (reenableBreakpointsAfterStep w).trace, e.kind.edits = true :=
    edit_reenableBreakpointsAfterStep.events (fun _ _ _ => Edit.edits) w
  refine ⟨hrc.1, hrc.2, (hsame w ⟨rfl, rfl⟩ fun _ _ => trivial).2 a ha, fun e he => ?_⟩
  exact EventKind.not_counted_of_edits (hkinds e he)

/-- The ways `cdbg_wait` returns if the calls succeed. -/
lemma cdbgWait_of_granted {w : World σ} (hw : w.inState .running) {a : ℤ}
    (ha : (cdbgWait host w).value = some a) (hok : ∀ e ∈ (cdbgWait host w).trace, e.granted) :
    ∃ p o h, w.taskForPid w.dbg.pid = some p ∧
      (o.ends = true ∧
          cdbgWait host w = ⟨some 1, w.afterWait h p o, [⟨.waited o, w⟩]⟩ ∨
        ∃ s w' t, o = .stopped s ∧ w'.inState .stopped ∧ SameWatch (w.afterWait h p o) [] w' ∧
          (∀ e ∈ t, e.kind.counted = false) ∧
          cdbgWait host w = ⟨some 0, w', ⟨.waited o, w⟩ :: t⟩) := by
  rcases waitForStop_of_running host hw with hn | ⟨p, r, o, h, hp, _, _, hwait⟩
  -- a wait that does not return
  · exfalso
    rcases hr : waitForStop host w with ⟨v, w', t⟩
    rw [hr] at hn
    obtain rfl : v = none := hn
    rw [cdbgWait, bind_of_none hr] at ha
    cases ha
  refine ⟨p, o, h, hp, ?_⟩
  have hset := World.settled_afterWait hp h o
  rw [cdbgWait, bind_of_eq hwait, if_neg (by simp), get_bind] at ha hok ⊢
  -- the end of the process, or a stop
  cases ho : o.ends with
  | true =>
      left
      have hidle : (w.afterWait h p o).dbg.state = .idle := by
        cases o with
        | exited _ => rfl
        | signaled _ => rfl
        | stopped _ => cases ho
      rw [if_pos hidle]
      exact ⟨rfl, rfl⟩
  | false =>
      right
      obtain ⟨s, rfl⟩ : ∃ s, o = .stopped s := by
        cases o with
        | exited _ => cases ho
        | signaled _ => cases ho
        | stopped s => exact ⟨s, rfl⟩
      have hidle : (w.afterWait h p (.stopped s)).dbg.state ≠ .idle := by
        simp [World.afterWait, World.deliver, WaitStatus.state]
      rw [if_neg hidle] at ha hok ⊢
      set v := w.afterWait h p (.stopped s) with hv
      -- at a stop the breakpoints are enabled again, which leaves the registers alone
      rcases hre : reenableBreakpointsAfterStep v with ⟨_ | rc, v', t⟩
      · rw [bind_of_none hre] at ha
        cases ha
      rw [bind_of_eq hre] at ha hok ⊢
      have hgrant := reenable_of_granted (hset.stopped hidle) (a := rc)
        (by
          rw [hre]
          exact fun e he => hok e (List.mem_append_right _ (List.mem_append_left _ he)))
        (by rw [hre])
      rw [hre] at hgrant
      obtain ⟨rfl, hs', hsame, hcount⟩ := hgrant
      exact ⟨s, v', t, rfl, hs', hsame, hcount, by simp⟩

namespace World

variable {c : Census} {w : World σ}

/-- At a stop at which every enable bit is clear, arming the entries programs them. -/
lemma Watched.arm (h : w.Watched c) {v : World σ} (hv : v.inState .stopped)
    (hws : v.dbg.watchpoints = w.dbg.watchpoints) {p : Proc} (hproc : w.proc = some p)
    {fresh : List Tid} (hclear : ∀ q, v.proc = some q → Rigged [] fresh q.debugs) :
    ∃ rc v', armEnabled v.dbg.watchpoints.toList v = ⟨some rc, v', []⟩ ∧ v'.Watched .zero := by
  have henabled : ∀ wp ∈ v.dbg.watchpoints.toList, wp.enabled = true := by
    rw [hws]
    exact fun wp hwp => h.live p hproc _ (List.mem_map_of_mem hwp)
  have hslots : WellSlotted (v.dbg.watchpoints.toList.map Watchpoint.arming) := by
    rw [hws]
    exact h.slots
  obtain ⟨q, hq, _⟩ := hv.task
  rcases armEnabled_cases v.dbg.watchpoints.toList v with
    ⟨hn, _⟩ | ⟨q', hq', rc, us, _, hall, hfit, hrun⟩
  · rw [hq] at hn
    cases hn
  obtain rfl : q = q' := Option.some.inj (hq.symm.trans hq')
  have hrc : rc = 0 := hfit fun wp hwp _ =>
    wp.fits_iff.mpr (hslots.fits _ (List.mem_map_of_mem hwp))
  obtain rfl := hall hrc
  refine ⟨rc, _, hrun, ?_⟩
  have hstop : (v.setProc (q.armedAll v.dbg.watchpoints.toList)).inState .stopped := by
    have harm := Rig.inState (⟨fun _ => none, fun _ _ s => (none, s), fun _ => ⟨none, none, []⟩,
      fun _ => false⟩ : Host σ) (.arm v) hv
    rwa [hrun] at harm
  refine ⟨hstop.2, hslots, fun _ _ => ?_, fun q' hq' => ?_, fun hh => by cases hh⟩
  · exact List.forall_mem_map.mpr henabled
  · obtain rfl : q.armedAll v.dbg.watchpoints.toList = q' := Option.some.inj hq'
    have hnil := (hclear q (taskForPid_eq_some.mp hq).1).of_nil
    have harmed := hnil.armedAll henabled hslots
    rwa [List.nil_append] at harmed

/-- The world in which `step_past_all_watchpoints` waits for its single step. -/
def steppedPast (w : World σ) (p : Proc) : World σ :=
  (w.setProc { p.disarmedAll w.dbg.watchpoints.toList with running := some .step }).setDbg
    w.dbg.resumed

lemma steppedPast_running {p : Proc} (hp : w.taskForPid w.dbg.pid = some p) :
    (w.steppedPast p).inState .running :=
  coherent_resumed (q := { p.disarmedAll w.dbg.watchpoints.toList with running := some .step }) hp
    (p.quiet_disarmedAll _).pid rfl (by simp)

end World

/-- What `step_past_all_watchpoints` does after its wait. -/
def rearm (rc : ℤ) : Debugger σ ℤ :=
  if rc ≠ 0 then do
    let w ← Prog.get
    return if w.dbg.state = .idle then 0 else -1
  else do
    let w ← Prog.get
    if w.dbg.state ≠ .stopped then
      return 0
    armEnabled w.dbg.watchpoints.toList

/-- At a stop `step_past_all_watchpoints` disarms everything and steps. -/
lemma stepPastAllWatchpoints_run {w : World σ} {p : Proc}
    (hp : w.taskForPid w.dbg.pid = some p) (hr : p.running = none) :
    ∃ e : Event σ, e.kind.counted = false ∧ stepPastAllWatchpoints host w =
      ⟨((cdbgWait host >>= rearm) (w.steppedPast p)).value,
        ((cdbgWait host >>= rearm) (w.steppedPast p)).final,
        e :: ((cdbgWait host >>= rearm) (w.steppedPast p)).trace⟩ := by
  have hquiet := p.quiet_disarmedAll w.dbg.watchpoints.toList
  have hdis := disarmEnabled_some w.dbg.watchpoints.toList hp
  have htask := World.taskForPid_setProc hp (q := p.disarmedAll w.dbg.watchpoints.toList)
    hquiet.pid
  rcases cdbgSingleStep_cases (w.setProc (p.disarmedAll w.dbg.watchpoints.toList)) with
    ⟨_, hne⟩ | ⟨q, hq, _, hstep⟩
  · exact absurd (hquiet.running.trans hr) (hne _ htask)
  obtain rfl : p.disarmedAll w.dbg.watchpoints.toList = q :=
    Option.some.inj (htask.symm.trans hq)
  refine ⟨⟨.ptStep, w.setProc (p.disarmedAll w.dbg.watchpoints.toList)⟩, rfl, ?_⟩
  rw [stepPastAllWatchpoints, get_bind, bind_of_eq hdis, bind_of_eq hstep, if_neg (by simp)]
  rfl

namespace World

variable {c : Census} {w : World σ}

/-- **Stepping past a hit** arms every watchpoint on every thread there is then. -/
lemma Watched.stepPast (h : w.Watched c) (hs : w.inState .stopped) {a : ℤ}
    (ha : (stepPastAllWatchpoints host w).value = some a)
    (hok : ∀ e ∈ (stepPastAllWatchpoints host w).trace, e.crewed host) {c' : Census}
    (hc' : c'.hit = true) :
    (stepPastAllWatchpoints host w).final.Watched .zero ∧
      (stepPastAllWatchpoints host w).trace.foldl Census.count c' = .zero := by
  obtain ⟨p, hp, hr⟩ := hs.task
  have hproc := (taskForPid_eq_some.mp hp).1
  -- before the step every enable bit is cleared
  have hclear : Rigged [] c.fresh (p.disarmedAll w.dbg.watchpoints.toList).debugs :=
    Rigged.disarmedAll (fun wp hwp => h.live p hproc _ (List.mem_map_of_mem hwp)) h.slots
      (h.rigged p hproc)
  have hpast := @stepPastAllWatchpoints_run _ host _ _ hp hr
  obtain ⟨e, he, hrun⟩ := hpast
  rw [hrun] at ha hok ⊢
  have hok' : ∀ e ∈ ((cdbgWait host >>= rearm) (w.steppedPast p)).trace, e.crewed host :=
    fun e he => hok e (List.mem_cons_of_mem _ he)
  -- then comes the step with its wait, of which each of the two ends is followed
  obtain ⟨rc, hrc⟩ := exists_value_of_bind ha
  obtain ⟨q, o, h', hq, hcases⟩ := cdbgWait_of_granted (steppedPast_running hp) hrc fun e he =>
    (hok' e (mem_trace_bind _ he)).togranted
  have hzero (o : Outcome) : c'.count ⟨.waited o, w.steppedPast p⟩ = .zero := by
    cases o <;> simp [Census.count, hc']
  rw [List.foldl_cons, Census.count_of_not_counted he]
  rcases hcases with ⟨ho, heq⟩ | ⟨s, v, t, rfl, hs', hsame, hcount, heq⟩
  -- the debuggee has ended
  · have hnone : ((w.steppedPast p).afterWait h' q o).proc = none := by
      cases o with
      | exited _ => rfl
      | signaled _ => rfl
      | stopped _ => cases ho
    have hidle : ((w.steppedPast p).afterWait h' q o).dbg.state = .idle := by
      cases o with
      | exited _ => rfl
      | signaled _ => rfl
      | stopped _ => cases ho
    have hrearm : rearm 1 ((w.steppedPast p).afterWait h' q o) =
        ⟨some 0, (w.steppedPast p).afterWait h' q o, []⟩ := by
      rw [rearm, if_pos (by simp), get_bind, if_pos hidle]
      rfl
    have hslots : WellSlotted ((w.steppedPast p).afterWait h' q o).armings := by
      cases o <;> exact h.slots
    rw [bind_of_eq heq, hrearm]
    exact ⟨Watched.of_none (settled_afterWait hq h' o).2 hnone hslots, hzero o⟩
  -- the debuggee has stopped: its threads, new ones too, are armed from the table
  · have hfew : s.threads.list.length ≤ maxThreads := by
      have hmem := mem_trace_bind (m := cdbgWait host) (s := w.steppedPast p)
        (e := ⟨.waited (.stopped s), w.steppedPast p⟩) rearm (by rw [heq]; exact List.mem_cons_self)
      exact (hok' _ hmem).stop s rfl
    -- the threads of the stop are those of the step and new ones, all of them clear
    have hclear' : ∀ u, v.proc = some u → Rigged [] (q.freshAt s c.fresh) u.debugs := by
      intro u hu
      obtain rfl : { p.disarmedAll w.dbg.watchpoints.toList with running := some .step } = q :=
        Option.some.inj (taskForPid_eq_some.mp hq).1
      have hdebugs : some u.debugs = some (Proc.debugs (Proc.stopWith
          { p.disarmedAll w.dbg.watchpoints.toList with running := some .step } s)) := by
        have hv := hsame.2
        rw [debugs, hu] at hv
        exact hv
      rw [Option.some.inj hdebugs]
      exact Rigged.stopWith hclear hfew
    obtain ⟨rc', v', harm, hv'⟩ := h.arm hs' hsame.1 hproc hclear'
    have hrearm : rearm 0 v = ⟨some rc', v', []⟩ := by
      rw [rearm, if_neg (by simp), get_bind, if_neg (by simp [hs'.1])]
      exact harm
    rw [bind_of_eq heq, hrearm, List.append_nil, List.foldl_cons, hzero,
      Census.foldl_count hcount]
    exact ⟨hv', rfl⟩

end World

/-! ### Sessions -/

/-- The world after a step past a hit that never returns, from which nothing goes on. -/
def World.gone (w : World σ) : World σ := ⟨{ w.dbg with state := .idle }, none, w.host⟩

/-- The single operations and, as one step each, the steps past a hit. -/
inductive Tour (host : Host σ) : Step (Event σ) (World σ)
  | prim {w w' : World σ} {t : List (Event σ)} (h : Prim host w t w') : Tour host w t w'
  | plant (w : World σ) (addr : Addr) :
      Tour host w (bpEnable .temp .zero w.dbg.pid addr w).trace
        (bpEnable .temp .zero w.dbg.pid addr w).final
  | lift (w : World σ) (bp : Breakpoint) :
      Tour host w (bpDisable bp w.dbg.pid w).trace (bpDisable bp w.dbg.pid w).final
  | resume (w : World σ) : Tour host w (thawAndContinue w).trace (thawAndContinue w).final
  | past (w : World σ) {k : EventKind} (hk : k.isHit = true) {a : ℤ}
      (ha : (stepPastHit host k w).value = some a) :
      Tour host w (stepPastHit host k w).trace (stepPastHit host k w).final
  | stuck (w : World σ) {k : EventKind} (hk : k.isHit = true)
      (ha : (stepPastHit host k w).value = none) : Tour host w (stepPastHit host k w).trace w.gone

lemma Tour.parts (host : Host σ) : Parts host (Tour host) where
  prim _ _ _ := Tour.prim
  stepPast k hk w := by
    cases ha : (stepPastHit host k w).value with
    | none => exact ⟨w.gone, Chain.single (.stuck w hk ha), by simp [ha]⟩
    | some a => exact MovesFrom.single (.past w hk ha)
  drive _ _ _ h := Tour.prim h.prim
  plant := Tour.plant
  lift := Tour.lift
  resume := Tour.resume

/-- No step but the reading of a command emits one. -/
lemma Tour.commandRead {w w' : World σ} {t : List (Event σ)} (h : Tour host w t w') :
    ∀ e ∈ t, e.kind.commandRead = none := by
  cases h with
  | prim h => exact Fine.commandRead (.prim h : Fine host w _ _)
  | plant _ addr => exact Fine.commandRead (.plant w addr : Fine host w _ _)
  | lift _ bp => exact Fine.commandRead (.lift w bp : Fine host w _ _)
  | resume => exact Fine.commandRead (.resume w : Fine host w _ _)
  | past _ hk => exact commandRead_of_moves ((Fine.parts host).stepPast _ hk) w
  | stuck _ hk => exact commandRead_of_moves ((Fine.parts host).stepPast _ hk) w

/-- One step keeps the watchpoints in the registers. -/
lemma Tour.watched {c : Census} {w w' : World σ} {t : List (Event σ)} (h : Tour host w t w')
    (hw : w.Watched c) (hok : ∀ e ∈ t, e.crewed host ∧ e.sighted) :
    w'.Watched (t.foldl Census.count c) := by
  have hcrew : ∀ e ∈ t, e.crewed host := fun e he => (hok e he).1
  cases h with
  | prim h => exact h.watched hw hcrew
  -- a temporary breakpoint changes the code only
  | plant _ addr =>
      have hc := Fine.coherent (.plant w addr : Fine host w _ _) hw.coherent
      rcases bpEnable_cases .temp .zero w.dbg.pid addr w with ⟨_, h⟩ | ⟨p, hp, _, h⟩
      · rw [h]
        exact hw
      · rw [h] at hc ⊢
        exact hw.hush hc rfl (World.debugs_setProc hp rfl)
  | lift _ bp =>
      have hc := Fine.coherent (.lift w bp : Fine host w _ _) hw.coherent
      rcases bpDisable_cases bp w.dbg.pid w with ⟨_, h⟩ | ⟨_, p, hp, _, h⟩ | ⟨_, _, h⟩ |
        ⟨_, p, hp, _, h⟩
      · rw [h]
        exact hw
      · rw [h] at hc ⊢
        exact hw.hush hc rfl (World.debugs_setProc hp rfl)
      · rw [h]
        exact hw
      · rw [h] at hc ⊢
        exact hw.hush hc rfl (World.debugs_setProc hp rfl)
  -- a resume changes the counts of freezes only
  | resume =>
      have hc := Fine.coherent (.resume w : Fine host w _ _) hw.coherent
      have hthaw (p : Proc) : (p.thawed w.dbg.currentTid).debugs = p.debugs := by
        simp [Proc.debugs, Proc.thawed, Threads.resumeOthers]
      rcases thawAndContinue_cases w with ⟨_, h⟩ | ⟨p, hp, ⟨_, h⟩ | ⟨_, h⟩⟩
      · rw [h]
        exact hw
      · rw [h] at hc ⊢
        exact hw.hush hc rfl (World.debugs_setProc hp (hthaw p))
      · rw [h] at hc ⊢
        exact hw.hush hc rfl (World.debugs_setProc
          (q := { p.thawed w.dbg.currentTid with running := some .cont }) hp (hthaw p))
  | @past _ k hk a ha =>
      have hrun : stepPastHit host k w = _ := emit_bind _ _ w
      rw [hrun] at ha hok hcrew ⊢
      -- a hit is announced at a stop, from where the step past it re-arms
      have hs : w.inState .stopped := (hok _ List.mem_cons_self).2 hk
      have hhit : (c.count ⟨k, w⟩).hit = true := by
        cases k <;> simp_all [Census.count, EventKind.isHit]
      obtain ⟨hfinal, hcensus⟩ := hw.stepPast hs ha
        (fun e he => hcrew e (List.mem_cons_of_mem _ he)) hhit
      rw [List.foldl_cons, hcensus]
      exact hfinal
  | stuck => exact World.Watched.of_none rfl rfl hw.slots

/-- A command is read with the watchpoints in the registers. -/
def Event.rigged (c : Census) (e : Event σ) : Prop :=
  e.kind.commandRead.isSome → e.world.Watched c

lemma Turn.watched {w w' : World σ} {t : List (Event σ)} (h : Turn (Tour host) w t w')
    (c : Census) (hw : w.Watched c) (hok : ∀ e ∈ t, e.crewed host ∧ e.sighted) :
    w'.Watched (t.foldl Census.count c) ∧ Along Census.count Event.rigged c t := by
  cases h with
  | op h =>
      have hnone := h.commandRead
      refine ⟨h.watched hw hok, along_of_invariant (I := fun _ => True) (fun c' e _ he => ?_)
        trivial hnone⟩
      refine ⟨fun hc => ?_, trivial⟩
      rw [he] at hc
      cases hc
  | read => exact ⟨hw, fun _ => hw, trivial⟩

/-- At every prompt of a session the registers hold the table, but for the threads that the
events so far tell to be fresh. -/
lemma rigged_cdbgMain {s : σ} {argv input : List Str}
    (hok : ∀ e ∈ (cdbgMain host argv input (World.start s)).trace, e.crewed host) :
    Along Census.count Event.rigged .zero (cdbgMain host argv input (World.start s)).trace := by
  have hstart : (World.start s).Watched .zero := World.Watched.of_none rfl rfl WellSlotted.nil
  exact (grain_cdbgMain (Tour.parts host).grain argv input).along (fun _ _ _ => Turn.watched)
    hstart fun e he => ⟨hok e he, (prompted_cdbgMain host s argv input e he).2⟩

end Cdbg
