import Cdbg.Control.Runs
import Cdbg.Machine.Script

/-!
To which watchpoint a watchpoint exception is attributed.

`find_watchpoint_hit` takes the first watchpoint of the table that contains the fault address,
whatever accesses it is for, while the processor reports accesses of the kind of the watchpoint
only. What follows says when the watchpoint found is one that could have fired
(`attributed_iff`).
-/

namespace Cdbg

open Prog

variable {σ : Type} {host : Host σ} {R : Step (Event σ) (World σ)}

/-- Whether a kind of watchpoint includes loads, or stores. -/
def WatchKind.includes (k : WatchKind) (isWrite : Bool) : Bool :=
  if isWrite then k.writes else k.reads

/-- An access of this direction at this address can make the watchpoint fire. -/
def Watchpoint.CouldFire (wp : Watchpoint) (far : Addr) (isWrite : Bool) : Prop :=
  wp.enabled = true ∧ wp.addr.toNat ≤ far.toNat ∧ far.toNat < wp.addr.toNat + wp.size ∧
    wp.kind.includes isWrite = true

/-- The last value kept for an entry, and whether there is one. -/
def World.lastOf (w : World σ) (i : ℕ) : Option (BitVec 64 × Bool) :=
  (w.dbg.watchpoints.entry i).map fun wp => (wp.lastValue, wp.hasLastValue)

/-- A watchpoint exception is reported as one hit, of a watchpoint that could have fired, and
no last value but that of this watchpoint changes. -/
def Attributed (host : Host σ) (w : World σ) (far : Addr) (isWrite : Bool) : Prop :=
  ∃ i wp, w.dbg.watchpoints.entry i = some wp ∧ wp.CouldFire far isWrite ∧
    ((tryReportWatchpointHit host w).trace.filter (·.kind.isHit)).map Event.kind =
      [.watchpointHit i isWrite] ∧
    ((tryReportWatchpointHit host w).value.isSome → ∀ j ≠ i,
      (tryReportWatchpointHit host w).final.lastOf j = w.lastOf j)

/-- A watchpoint over the address for accesses of this direction has no watchpoint over the
address for others before it. -/
def Unshadowed (wps : Table Watchpoint maxWatchpoints) (far : Addr) (isWrite : Bool) : Prop :=
  ∃ i wp, wps.entry i = some wp ∧ wp.addrHit far = true ∧ wp.kind.includes isWrite = true ∧
    ∀ j < i, ∀ v, wps.entry j = some v → v.addrHit far = true → v.kind.includes isWrite = true

/-! ### Stepping past an access -/

/-- Whether an event tells the user of a stop at a watchpoint: that it was hit, or where. -/
def EventKind.displays : EventKind → Bool
  | .watchpointHit _ _ => true
  | .watchpointNear _ => true
  | .location _ => true
  | _ => false

/-- The table of watchpoints is left alone and nothing is displayed. -/
def Undisplayed : Step (Event σ) (World σ) := fun w t w' =>
  w'.dbg.watchpoints = w.dbg.watchpoints ∧ ∀ e ∈ t, e.kind.displays = false

lemma World.afterWait_watchpoints (w : World σ) (h : σ) (p : Proc) (o : Outcome) :
    (w.afterWait h p o).dbg.watchpoints = w.dbg.watchpoints := by
  cases o <;> rfl

/-- Disarming and arming change the process only. -/
lemma undisplayed_of_rig {w w' : World σ} {t : List (Event σ)} (h : Rig w t w') :
    Undisplayed w t w' := by
  cases h with
  | disarm =>
      cases hp : w.taskForPid w.dbg.pid with
      | none =>
          rw [disarmEnabled_none _ hp]
          exact ⟨rfl, by simp⟩
      | some p =>
          rw [disarmEnabled_some _ hp]
          exact ⟨rfl, by simp⟩
  | arm =>
      rcases armEnabled_cases w.dbg.watchpoints.toList w with
        ⟨_, rc, h⟩ | ⟨p, _, rc, us, _, _, _, h⟩
      · rw [h]
        exact ⟨rfl, by simp⟩
      · rw [h]
        exact ⟨rfl, by simp⟩

lemma undisplayed_stepPastAllWatchpoints : Moves Undisplayed (stepPastAllWatchpoints host) := by
  refine moves_stepPastAllWatchpoints (fun _ _ _ => undisplayed_of_rig) (moves_of_step fun w => ?_)
    (moves_cdbgWait (moves_of_step fun w => ?_) (fun w j bp hbp => ?_) (moves_of_step fun w => ?_))
  · rcases cdbgSingleStep_cases w with ⟨h, _⟩ | ⟨p, _, _, h⟩
    · rw [h]
      exact ⟨rfl, by simp⟩
    · rw [h]
      exact ⟨rfl, by simp [EventKind.displays]⟩
  · rcases refreshRegs_cases w with ⟨_, h⟩ | ⟨t, _, h⟩
    · rw [h]
      exact ⟨rfl, by simp [EventKind.displays]⟩
    · rw [h]
      exact ⟨rfl, by simp [EventKind.displays]⟩
  · rcases enableEntry_cases hbp with ⟨_, h⟩ | ⟨p, _, _, h⟩
    · rw [h]
      exact ⟨rfl, by simp [EventKind.displays]⟩
    · rw [h]
      exact ⟨rfl, by simp [EventKind.displays]⟩
  · rcases waitForStop_cases host w with ⟨_, h⟩ | ⟨h', h⟩ | ⟨p, r, o, h', _, _, _, h⟩
    · rw [h]
      exact ⟨rfl, by simp⟩
    · rw [h]
      exact ⟨rfl, by simp⟩
    · rw [h]
      exact ⟨w.afterWait_watchpoints h' p o, by simp [EventKind.displays]⟩

/-! ### What a report does not touch -/

/-- No hit is announced, and no last value but that of one entry changes. -/
def SparesBut (i : ℕ) : Step (Event σ) (World σ) := fun w t w' =>
  (∀ j ≠ i, w'.lastOf j = w.lastOf j) ∧ ∀ e ∈ t, e.kind.isHit = false

lemma sparesBut_of_watchpoints {i : ℕ} {w w' : World σ} {t : List (Event σ)}
    (h : w'.dbg.watchpoints = w.dbg.watchpoints) (ht : ∀ e ∈ t, e.kind.isHit = false) :
    SparesBut i w t w' := ⟨fun j _ => by rw [World.lastOf, h, World.lastOf], ht⟩

lemma EventKind.isHit_of_not_displays {k : EventKind} (h : k.displays = false) :
    k.isHit = false := by
  cases k <;> first | rfl | cases h

lemma spares_stepPastAllWatchpoints (i : ℕ) :
    Moves (SparesBut i) (stepPastAllWatchpoints host) :=
  undisplayed_stepPastAllWatchpoints.mono fun _ _ _ h =>
    sparesBut_of_watchpoints h.1 fun e he => EventKind.isHit_of_not_displays (h.2 e he)

lemma spares_reportProcessExit (i : ℕ) : Moves (SparesBut i) (reportProcessExit (σ := σ)) := by
  refine moves_of_step fun w => ?_
  rcases reportProcessExit_cases w with ⟨_, h⟩ | ⟨_, h⟩
  · rw [h]
    exact sparesBut_of_watchpoints rfl (by simp)
  · rw [h]
    refine ⟨fun j _ => ?_, by simp [EventKind.isHit]⟩
    simp only [World.lastOf, World.setDbg_dbg, Dbg.exitReported, Dbg.disableAll, Table.entry,
      Table.toList_map, List.getElem?_map, Option.map_map]
    rfl

/-- The value that is recorded is that of the entry. -/
lemma spares_recordValue (i : ℕ) : Moves (SparesBut i) (recordValue (σ := σ) i) := by
  refine moves_of_step fun w => ?_
  obtain ⟨t, ht, h | ⟨wp, wp', _, _, h⟩⟩ := recordValue_cases i w
  · have hhit : ∀ e ∈ t, e.kind.isHit = false := fun e he => by
      obtain ⟨a, n, rfl⟩ := ht e he
      rfl
    rw [h]
    exact sparesBut_of_watchpoints rfl hhit
  · have hhit : ∀ e ∈ t, e.kind.isHit = false := fun e he => by
      obtain ⟨a, n, rfl⟩ := ht e he
      rfl
    rw [h]
    refine ⟨fun j hj => ?_, hhit⟩
    rw [World.lastOf, World.setDbg_dbg, Table.entry_set_ne hj.symm, World.lastOf]

lemma spares_printStopLocation (i : ℕ) (pc : Addr) :
    Moves (SparesBut i) (printStopLocation (σ := σ) pc) :=
  moves_of_step fun _ => sparesBut_of_watchpoints rfl (by simp [printStopLocation, EventKind.isHit])

/-- A run that spares all entries but one. -/
lemma spares_run {α : Type} {i : ℕ} {m : Debugger σ α} (h : Moves (SparesBut i) m) (w : World σ) :
    (∀ e ∈ (m w).trace, e.kind.isHit = false) ∧
      ((m w).value.isSome → ∀ j ≠ i, (m w).final.lastOf j = w.lastOf j) := by
  have hspec : Spec (fun _ => True) (fun e => e.kind.isHit = false)
      (fun v => ∀ j ≠ i, v.lastOf j = w.lastOf j) m fun _ v => ∀ j ≠ i, v.lastOf j = w.lastOf j :=
    h.spec fun v t v' h hv _ => ⟨fun j hj => (h.1 j hj).trans (hv j hj), h.2⟩
  obtain ⟨hhit, hlast⟩ := hspec w (fun _ _ => rfl) fun _ _ => trivial
  refine ⟨hhit, fun hsome => ?_⟩
  obtain ⟨a, ha⟩ := Option.isSome_iff_exists.mp hsome
  exact hlast a ha

/-- An announcement before something that spares all entries but one. -/
lemma spares_announced {α : Type} {i : ℕ} {m : Debugger σ α} (h : Moves (SparesBut i) m)
    {k : EventKind} (hk : k.isHit = true) (w : World σ) :
    (((emit k >>= fun _ => m) w).trace.filter (·.kind.isHit)).map Event.kind = [k] ∧
      (((emit k >>= fun _ => m) w).value.isSome →
        ∀ j ≠ i, ((emit k >>= fun _ => m) w).final.lastOf j = w.lastOf j) := by
  obtain ⟨hhit, hlast⟩ := spares_run h w
  rw [Cdbg.emit_bind]
  refine ⟨?_, hlast⟩
  have hnone : (m w).trace.filter (·.kind.isHit) = [] :=
    List.filter_eq_nil_iff.mpr fun e he => by rw [hhit e he]; simp
  simp only [List.filter_cons, hk, if_true, hnone, List.map_cons, List.map_nil]

/-- What the handler of a hit does after its announcement. -/
lemma spares_handleWatchpointHit (host : Host σ) (i : ℕ) : Moves (SparesBut i) (do
    if (← stepPastAllWatchpoints host) ≠ 0 then
      return -1
    let w ← Prog.get
    if w.dbg.state ≠ .stopped then
      reportProcessExit
      return 0
    recordValue i
    let w ← Prog.get
    printStopLocation w.dbg.regs.pc
    return (0 : ℤ)) :=
  Moves.bind (spares_stepPastAllWatchpoints i) fun _ => Moves.ite (Moves.pure _) <|
    Moves.get_bind' fun _ => Moves.ite
      (Moves.bind (spares_reportProcessExit i) fun _ => Moves.pure _) <|
      Moves.bind (spares_recordValue i) fun _ => Moves.get_bind' fun _ =>
        Moves.bind (spares_printStopLocation i _) fun _ => Moves.pure _

/-- What the handler of a hit that no watchpoint contains does after its announcement. -/
lemma spares_handleUnresolvedWatchpointHit (host : Host σ) (i : ℕ) : Moves (SparesBut i) (do
    if (← stepPastAllWatchpoints host) ≠ 0 then
      return -1
    let w ← Prog.get
    if w.dbg.state ≠ .stopped then
      reportProcessExit
      return 0
    printStopLocation w.dbg.regs.pc
    return (0 : ℤ)) :=
  Moves.bind (spares_stepPastAllWatchpoints i) fun _ => Moves.ite (Moves.pure _) <|
    Moves.get_bind' fun _ => Moves.ite
      (Moves.bind (spares_reportProcessExit i) fun _ => Moves.pure _) <|
      Moves.bind (spares_printStopLocation i _) fun _ => Moves.pure _

/-! ### The first watchpoint over the address -/

lemma Watchpoint.couldFire_of_addrHit {wp : Watchpoint} {far : Addr} {isWrite : Bool}
    (h : wp.addrHit far = true) (hk : wp.kind.includes isWrite = true) :
    wp.CouldFire far isWrite := by
  simp only [addrHit, Bool.and_eq_true, decide_eq_true_eq, BitVec.le_def, BitVec.lt_def,
    BitVec.toNat_add, BitVec.toNat_ofNat] at h
  obtain ⟨⟨he, hle⟩, hlt⟩ := h
  refine ⟨he, hle, lt_of_lt_of_le hlt ?_, hk⟩
  calc (wp.addr.toNat + wp.size % 2 ^ 64) % 2 ^ 64 ≤ wp.addr.toNat + wp.size % 2 ^ 64 :=
        Nat.mod_le _ _
    _ ≤ wp.addr.toNat + wp.size := Nat.add_le_add_left (Nat.mod_le _ _) _

lemma findWatchpointHit_eq_some {wps : Table Watchpoint maxWatchpoints} {far : Addr} {i : ℕ} :
    findWatchpointHit wps far = some i ↔
      (∃ wp, wps.entry i = some wp ∧ wp.addrHit far = true) ∧
        ∀ j < i, ∀ v, wps.entry j = some v → v.addrHit far = false := by
  rw [findWatchpointHit, List.findIdx?_eq_some_iff_getElem]
  constructor
  · rintro ⟨hi, hhit, hbefore⟩
    refine ⟨⟨_, List.getElem?_eq_getElem hi, hhit⟩, fun j hj v hv => ?_⟩
    obtain ⟨hjl, rfl⟩ := List.getElem?_eq_some_iff.mp hv
    simpa using hbefore j hj
  · rintro ⟨⟨wp, hwp, hhit⟩, hbefore⟩
    obtain ⟨hi, rfl⟩ := List.getElem?_eq_some_iff.mp hwp
    refine ⟨hi, hhit, fun j hj => ?_⟩
    rw [hbefore j hj _ (List.getElem?_eq_getElem (hj.trans hi))]
    simp

/-- What `try_report_watchpoint_hit` reports and touches at a watchpoint exception. -/
lemma tryReportWatchpointHit_run (host : Host σ) {w : World σ} {far : Addr} {isWrite : Bool}
    (h : w.watchException = some (far, isWrite)) :
    ((tryReportWatchpointHit host w).trace.filter (·.kind.isHit)).map Event.kind =
        [(findWatchpointHit w.dbg.watchpoints far).elim (.watchpointNear far)
          fun i => .watchpointHit i isWrite] ∧
      ∀ i ∈ findWatchpointHit w.dbg.watchpoints far,
        (tryReportWatchpointHit host w).value.isSome →
          ∀ j ≠ i, (tryReportWatchpointHit host w).final.lastOf j = w.lastOf j := by
  rw [tryReportWatchpointHit]
  simp only [get_bind, h]
  cases findWatchpointHit w.dbg.watchpoints far with
  | none =>
      refine ⟨?_, fun i hi => by cases hi⟩
      dsimp only [Option.elim_none]
      rw [handleUnresolvedWatchpointHit, bind_assoc]
      exact (spares_announced ((spares_handleUnresolvedWatchpointHit host 0).bind fun _ =>
        Moves.pure true) rfl w).1
  | some i =>
      dsimp only [Option.elim_some]
      rw [handleWatchpointHit, bind_assoc]
      have hrun := spares_announced (k := .watchpointHit i isWrite)
        ((spares_handleWatchpointHit host i).bind fun _ => Moves.pure true) rfl w
      refine ⟨hrun.1, fun j hj => ?_⟩
      obtain rfl : i = j := by simpa using hj
      exact hrun.2

/-- **Attribution**: a watchpoint exception is attributed to a watchpoint that could have fired
exactly if one over the address for such accesses has none for others before it. -/
theorem attributed_iff (host : Host σ) (w : World σ) (far : Addr) (isWrite : Bool)
    (h : w.watchException = some (far, isWrite)) :
    Attributed host w far isWrite ↔ Unshadowed w.dbg.watchpoints far isWrite := by
  obtain ⟨hevents, hlast⟩ := tryReportWatchpointHit_run host h
  rw [Attributed, Unshadowed, hevents]
  constructor
  · rintro ⟨i, wp, hwp, ⟨_, _, _, hk⟩, hhit, -⟩
    cases hfind : findWatchpointHit w.dbg.watchpoints far with
    | none => simp [hfind] at hhit
    | some j =>
        obtain rfl : j = i := by simpa [hfind] using hhit
        obtain ⟨⟨v, hv, hover⟩, hbefore⟩ := findWatchpointHit_eq_some.mp hfind
        obtain rfl : wp = v := Option.some.inj (hwp.symm.trans hv)
        refine ⟨j, wp, hwp, hover, hk, fun l hl u hu hu' => ?_⟩
        rw [hbefore l hl u hu] at hu'
        cases hu'
  · rintro ⟨i, wp, hwp, hover, hk, hbefore⟩
    -- the first watchpoint over the address is at `i` or before
    have hmem : ∃ x ∈ w.dbg.watchpoints.toList, x.addrHit far = true :=
      ⟨wp, Table.mem_of_entry hwp, hover⟩
    have hfind := List.findIdx?_eq_some_of_exists hmem
    rw [← findWatchpointHit] at hfind
    obtain ⟨⟨v, hv, hvover⟩, hfirst⟩ := findWatchpointHit_eq_some.mp hfind
    have hvk : v.kind.includes isWrite = true := by
      rcases Nat.lt_trichotomy (w.dbg.watchpoints.toList.findIdx (·.addrHit far)) i
        with hlt | heq | hgt
      · exact hbefore _ hlt v hv hvover
      · rw [heq, hwp] at hv
        exact Option.some.inj hv ▸ hk
      · rw [hfirst i hgt wp hwp] at hover
        cases hover
    refine ⟨_, v, hv, Watchpoint.couldFire_of_addrHit hvover hvk, ?_, hlast _ hfind⟩
    rw [hfind, Option.elim_some]

/-! ### Two watchpoints over one word -/

/-- A watchpoint over the word at `0x2000`. -/
def watchWord (kind : WatchKind) (slot : ℕ) : Watchpoint :=
  ⟨0x2000, 4, kind, true, slot, [], 0, false⟩

/-- A child stopped at a store to the word, over which there are two watchpoints. -/
def stoppedAtStore (first second : WatchKind) : World Script where
  dbg := { Dbg.init with
    pid := 7
    state := .stopped
    currentTid := 1
    watchpoints := ⟨[watchWord first 0, watchWord second 1], by simp [maxWatchpoints]⟩ }
  proc :=
    let accessing := { Thread.at 1 0x1000 with far := 0x2000, esr := 0xd0000040 }
    some (.resting (.numbered accessing []) fun _ => 0)
  host := ⟨[], []⟩

/-- The watchpoint for stores comes first and is reported. -/
theorem attributed_iff_first :
    Attributed (Script.host .stripped) (stoppedAtStore .write .read) 0x2000 true :=
  (attributed_iff _ _ _ _ (by decide)).mpr
    ⟨0, watchWord .write 0, rfl, by decide, rfl, fun j hj => absurd hj (Nat.not_lt_zero j)⟩

/-- The watchpoint for loads comes first, and a store is attributed to it. -/
theorem attributed_to_load :
    (stoppedAtStore .read .write).watchException = some (0x2000, true) ∧
      (∃ wp ∈ (stoppedAtStore .read .write).dbg.watchpoints.toList, wp.CouldFire 0x2000 true) ∧
      ¬ Attributed (Script.host .stripped) (stoppedAtStore .read .write) 0x2000 true := by
  have hexc : (stoppedAtStore .read .write).watchException = some (0x2000, true) := by decide
  refine ⟨hexc, ⟨watchWord .write 1, by decide, rfl, by decide, by decide, rfl⟩, ?_⟩
  rintro ⟨i, wp, hwp, ⟨_, _, _, hk⟩, hhit, -⟩
  have hfind : findWatchpointHit (stoppedAtStore .read .write).dbg.watchpoints 0x2000 = some 0 := by
    decide
  rw [(tryReportWatchpointHit_run _ hexc).1, hfind] at hhit
  obtain rfl : i = 0 := by simpa using hhit.symm
  obtain rfl : watchWord .read 0 = wp := Option.some.inj hwp
  cases hk

end Cdbg
