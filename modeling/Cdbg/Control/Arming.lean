import Cdbg.Machine.Calls
import Cdbg.Repl.Commands

/-!
What arming and disarming watchpoints does to the debug registers of the debuggee.

The loops over the threads go through the list that `cdbg_threads_list` gives. Ids are
distinct, and arming or disarming a slot twice is the same as doing it once, so a loop
changes every thread of the list once (`Threads.mapDebug`).
-/

namespace Cdbg

variable {σ : Type}

/-- Change the debug registers of the threads of these ids. -/
def Threads.mapDebug (ts : Threads) (ids : List Tid) (f : DebugState → DebugState) : Threads :=
  ts.map (fun t => if t.tid ∈ ids then { t with debug := f t.debug } else t) fun t => by
    split <;> rfl

namespace DebugState

/-- The registers after `cdbg_watch_disarm`. -/
def disarm (s : DebugState) (slot : ℕ) : DebugState :=
  if maxWatchpoints ≤ slot then s else s.clearSlot slot

/-- The registers after `cdbg_watch_arm`. -/
def arm (s : DebugState) (wp : Watchpoint) : DebugState :=
  s.setSlot wp.slot (wp.addr &&& ~~~ 7) (watchControl wp.addr wp.size wp.kind)

lemma disarm_disarm (s : DebugState) (slot : ℕ) :
    (s.disarm slot).disarm slot = s.disarm slot := by
  rw [disarm, disarm]
  split
  · rfl
  · rw [clearSlot, clearSlot]
    congr 1
    funext i
    dsimp only
    split
    · rw [BitVec.and_assoc, BitVec.and_self]
    · rfl

lemma arm_arm (s : DebugState) (wp : Watchpoint) : (s.arm wp).arm wp = s.arm wp := by
  rw [arm, arm, setSlot, setSlot]
  congr 1
  · funext i
    dsimp only
    split <;> rfl
  · funext i
    dsimp only
    split <;> rfl

end DebugState

/-- What the debug registers follow from a watchpoint: all but its expression and last
value. -/
structure Arming where
  addr : Addr
  size : ℕ
  kind : WatchKind
  enabled : Bool
  slot : ℕ
  deriving DecidableEq

/-- The part of an entry that the debug registers follow. -/
def Watchpoint.arming (wp : Watchpoint) : Arming :=
  ⟨wp.addr, wp.size, wp.kind, wp.enabled, wp.slot⟩

/-- The tests `cdbg_watch_arm` makes of its arguments. -/
def Watchpoint.fits (wp : Watchpoint) : Bool :=
  wp.slot < maxWatchpoints && wp.size ≠ 0 && wp.size ≤ 8 && (wp.addr &&& 7).toNat + wp.size ≤ 8

namespace Proc

/-- The ids that `cdbg_threads_list` gives. -/
def listedIds (p : Proc) : List Tid := (p.threads.list.take maxThreads).map Thread.tid

/-- Change the debug registers of the threads of these ids. -/
def mapDebug (p : Proc) (ids : List Tid) (f : DebugState → DebugState) : Proc :=
  { p with threads := p.threads.mapDebug ids f }

/-- The process with a watchpoint armed on the listed threads. -/
def armed (p : Proc) (wp : Watchpoint) : Proc := p.mapDebug p.listedIds fun s => s.arm wp

/-- The process with a slot disarmed on the listed threads. -/
def disarmed (p : Proc) (slot : ℕ) : Proc := p.mapDebug p.listedIds fun s => s.disarm slot

end Proc

namespace Threads

lemma ext {ts us : Threads} (h : ts.list = us.list) : ts = us := by
  cases ts
  cases us
  simpa using h

@[simp] lemma list_mapDebug (ts : Threads) (ids : List Tid) (f : DebugState → DebugState) :
    (ts.mapDebug ids f).list =
      ts.list.map fun t => if t.tid ∈ ids then { t with debug := f t.debug } else t := rfl

@[simp] lemma mapDebug_nil (ts : Threads) (f : DebugState → DebugState) :
    ts.mapDebug [] f = ts := by
  apply ext
  simp

@[simp] lemma mapDebug_id (ts : Threads) (ids : List Tid) : ts.mapDebug ids (fun s => s) = ts := by
  apply ext
  simp

/-- Changes that may be repeated, of one id and then of others. -/
lemma mapDebug_mapDebug {f : DebugState → DebugState} (hf : ∀ s, f (f s) = f s) (ts : Threads)
    (is js : List Tid) : (ts.mapDebug is f).mapDebug js f = ts.mapDebug (is ++ js) f := by
  apply ext
  simp only [list_mapDebug, List.map_map]
  refine List.map_congr_left fun t _ => ?_
  by_cases hi : t.tid ∈ is <;> by_cases hj : t.tid ∈ js <;> simp [hi, hj, hf]

/-- The ids are not changed. -/
lemma map_tid_mapDebug (ts : Threads) (ids : List Tid) (f : DebugState → DebugState) :
    (ts.mapDebug ids f).list.map Thread.tid = ts.list.map Thread.tid := by
  rw [list_mapDebug, List.map_map]
  refine List.map_congr_left fun t _ => ?_
  rw [Function.comp_apply]
  split <;> rfl

/-- The thread of an id that is listed. -/
lemma resolve_of_mem {ts : Threads} {tid : Tid} (h : tid ∈ ts.list.map Thread.tid) :
    ∃ t, ts.resolve tid = some t ∧ t.tid = tid ∧ t ∈ ts.list ∧ ts.idOf tid = tid := by
  obtain ⟨t, ht, rfl⟩ := List.mem_map.mp h
  have h0 := ts.tid_ne_zero t ht
  have hsome : (ts.resolve t.tid).isSome := (ts.resolve_isSome_iff t.tid).mpr (Or.inr ⟨t, ht, rfl⟩)
  obtain ⟨u, hu⟩ := Option.isSome_iff_exists.mp hsome
  refine ⟨u, hu, ?_, resolve_mem hu, if_neg h0⟩
  rw [resolve, if_neg h0] at hu
  simpa using List.find?_some hu

/-- Threads of one id are one thread. -/
lemma eq_of_tid {ts : Threads} {t u : Thread} (ht : t ∈ ts.list) (hu : u ∈ ts.list)
    (h : t.tid = u.tid) : t = u := List.inj_on_of_nodup_map ts.nodup ht hu h

end Threads

lemma World.setProc_self {w : World σ} {p : Proc} (h : w.proc = some p) : w.setProc p = w := by
  rw [setProc, ← h]

@[simp] lemma World.setProc_setProc (w : World σ) (p q : Proc) :
    (w.setProc p).setProc q = w.setProc q := rfl

lemma World.taskForPid_setProc {w : World σ} {pid : ℕ} {p q : Proc}
    (hp : w.taskForPid pid = some p) (hq : q.pid = p.pid) :
    (w.setProc q).taskForPid pid = some q :=
  taskForPid_eq_some.mpr ⟨rfl, hq.trans (taskForPid_eq_some.mp hp).2⟩

namespace Proc

lemma mapDebug_nil (p : Proc) (f : DebugState → DebugState) : p.mapDebug [] f = p := by
  rw [mapDebug, Threads.mapDebug_nil]

lemma mapDebug_id (p : Proc) (ids : List Tid) : p.mapDebug ids (fun s => s) = p := by
  rw [mapDebug, Threads.mapDebug_id]

lemma mapDebug_mapDebug {f : DebugState → DebugState} (hf : ∀ s, f (f s) = f s) (p : Proc)
    (is js : List Tid) : (p.mapDebug is f).mapDebug js f = p.mapDebug (is ++ js) f := by
  rw [mapDebug, mapDebug, Threads.mapDebug_mapDebug hf, mapDebug]

end Proc

/-! ### One thread -/

/-- Reading and writing back the debug registers of a thread. -/
lemma setDebugState_run {w : World σ} {pid : ℕ} {p : Proc} (hp : w.taskForPid pid = some p)
    {t : Thread} {tid : Tid} (ht : p.threads.resolve tid = some t) (htid : t.tid = tid)
    (hid : p.threads.idOf tid = tid) (f : DebugState → DebugState) :
    regsSetDebugState pid tid (f t.debug) w =
      ⟨some 0, w.setProc (p.mapDebug [tid] f), []⟩ := by
  have hres : w.resolvePort pid tid = some t := by
    rw [World.resolvePort, hp, Option.bind_some, ht]
  have hproc := (World.taskForPid_eq_some.mp hp).1
  have hts : p.threads.update tid (fun u => { u with debug := f t.debug }) (fun _ => rfl) =
      p.threads.mapDebug [tid] f := by
    apply Threads.ext
    rw [Threads.update, Threads.list_map, Threads.list_mapDebug, hid]
    refine List.map_congr_left fun u hu => ?_
    by_cases h : u.tid = tid
    · obtain rfl := Threads.eq_of_tid (Threads.resolve_mem ht) hu (htid.trans h.symm)
      simp [h]
    · simp [h]
  simp only [regsSetDebugState, Prog.get_bind, hres, updateThread, modifyProc_bind hproc,
    Prog.pure_apply, hts, Proc.mapDebug]

lemma watchDisarm_run {w : World σ} {pid : ℕ} (slot : ℕ) {p : Proc} (hp : w.taskForPid pid = some p)
    {tid : Tid} (ht : tid ∈ p.threads.list.map Thread.tid) :
    ∃ rc, watchDisarm pid tid slot w = ⟨some rc, w.setProc
      (p.mapDebug [tid] fun s => s.disarm slot), []⟩ := by
  obtain ⟨t, hres, htid, _, hid⟩ := Threads.resolve_of_mem ht
  have hproc := (World.taskForPid_eq_some.mp hp).1
  rw [watchDisarm]
  by_cases hs : maxWatchpoints ≤ slot
  · refine ⟨-1, ?_⟩
    have hf : (fun s : DebugState => s.disarm slot) = fun s => s := by
      funext s
      exact if_pos hs
    rw [if_pos hs, hf, Proc.mapDebug_id, World.setProc_self hproc]
    rfl
  · refine ⟨0, ?_⟩
    have hf : (fun s : DebugState => s.disarm slot) = fun s => s.clearSlot slot := by
      funext s
      exact if_neg hs
    have hrun := setDebugState_run hp hres htid hid fun s => s.clearSlot slot
    rw [if_neg hs, hf, ← hrun]
    simp [regsGetDebugState, World.resolvePort, hp, hres]

lemma watchArm_of_fits {w : World σ} {pid : ℕ} {p : Proc} {wp : Watchpoint}
    (hp : w.taskForPid pid = some p) (hf : wp.fits = true) {tid : Tid}
    (ht : tid ∈ p.threads.list.map Thread.tid) :
    watchArm pid tid wp.slot wp.addr wp.size wp.kind w = ⟨some 0, w.setProc
      (p.mapDebug [tid] fun s => s.arm wp), []⟩ := by
  obtain ⟨t, hres, htid, _, hid⟩ := Threads.resolve_of_mem ht
  have hrun := setDebugState_run hp hres htid hid fun s => s.arm wp
  simp only [Watchpoint.fits, Bool.and_eq_true, decide_eq_true_eq] at hf
  obtain ⟨⟨⟨h1, h2⟩, h3⟩, h4⟩ := hf
  rw [watchArm, if_neg (by omega), if_neg (by omega), if_neg (by omega), ← hrun]
  simp [regsGetDebugState, World.resolvePort, hp, hres, DebugState.arm]

lemma watchArm_of_not_fits {w : World σ} {pid : ℕ} {tid : Tid} {wp : Watchpoint}
    (hf : wp.fits = false) :
    watchArm pid tid wp.slot wp.addr wp.size wp.kind w = ⟨some (-1), w, []⟩ := by
  simp only [Watchpoint.fits, Bool.and_eq_false_iff, decide_eq_false_iff_not] at hf
  rw [watchArm]
  by_cases h1 : maxWatchpoints ≤ wp.slot
  · rw [if_pos h1]
    rfl
  by_cases h2 : wp.size = 0 ∨ 8 < wp.size
  · rw [if_neg h1, if_pos h2]
    rfl
  · rw [if_neg h1, if_neg h2, if_pos (by omega)]
    rfl

/-! ### All threads -/

/-- Disarming a slot on listed threads. -/
lemma disarmThreads_run {pid : ℕ} (slot : ℕ) :
    ∀ (ids : List Tid) {w : World σ} {p : Proc},
    w.taskForPid pid = some p → (∀ i ∈ ids, i ∈ p.threads.list.map Thread.tid) →
    disarmThreads pid slot ids w = ⟨some (), w.setProc
      (p.mapDebug ids fun s => s.disarm slot), []⟩
  | [], w, p, hp, _ => by
      rw [Proc.mapDebug_nil, World.setProc_self (World.taskForPid_eq_some.mp hp).1]
      rfl
  | i :: is, w, p, hp, hi => by
      obtain ⟨rc, hrun⟩ := watchDisarm_run slot hp (hi i List.mem_cons_self)
      have hrest := disarmThreads_run slot is
        (World.taskForPid_setProc hp (q := p.mapDebug [i] fun s => s.disarm slot) rfl)
        fun j hj => by
          rw [Proc.mapDebug, Threads.map_tid_mapDebug]
          exact hi j (List.mem_cons_of_mem _ hj)
      have htwice := p.mapDebug_mapDebug (f := fun s => s.disarm slot)
        (fun s => s.disarm_disarm slot) [i] is
      rw [disarmThreads, Prog.bind_of_eq hrun, hrest, World.setProc_setProc, htwice]
      rfl

/-- Arming a watchpoint that fits on listed threads. -/
lemma armThreads_of_fits {pid : ℕ} {wp : Watchpoint} (hf : wp.fits = true) :
    ∀ (ids done : List Tid) {w : World σ} {p : Proc},
    w.taskForPid pid = some p → (∀ i ∈ ids, i ∈ p.threads.list.map Thread.tid) →
    armThreads pid wp done ids w = ⟨some 0, w.setProc
      (p.mapDebug ids fun s => s.arm wp), []⟩
  | [], _, w, p, hp, _ => by
      rw [Proc.mapDebug_nil, World.setProc_self (World.taskForPid_eq_some.mp hp).1]
      rfl
  | i :: is, done, w, p, hp, hi => by
      have hrun := watchArm_of_fits hp hf (hi i List.mem_cons_self)
      have hrest := armThreads_of_fits hf is (done ++ [i])
        (World.taskForPid_setProc hp (q := p.mapDebug [i] fun s => s.arm wp) rfl)
        fun j hj => by
          rw [Proc.mapDebug, Threads.map_tid_mapDebug]
          exact hi j (List.mem_cons_of_mem _ hj)
      have htwice := p.mapDebug_mapDebug (f := fun s => s.arm wp) (fun s => s.arm_arm wp) [i] is
      rw [armThreads, Prog.bind_of_eq hrun, if_neg (by simp), hrest, World.setProc_setProc, htwice]
      rfl

namespace Proc

lemma mem_of_listedIds {p : Proc} {i : Tid} (h : i ∈ p.listedIds) :
    i ∈ p.threads.list.map Thread.tid := by
  obtain ⟨t, ht, rfl⟩ := List.mem_map.mp h
  exact List.mem_map_of_mem (List.mem_of_mem_take ht)

lemma listedIds_ne_nil (p : Proc) : p.listedIds ≠ [] := by
  have hne := p.threads.ne_nil
  cases h : p.threads.list with
  | nil => exact absurd h hne
  | cons t ts => simp [listedIds, h, maxThreads]

end Proc

lemma threadsList_bind {α : Type} {w : World σ} {pid : ℕ}
    (f : Option (List (Tid × Addr)) → Debugger σ α) :
    (threadsList pid maxThreads >>= f) w = f ((w.taskForPid pid).map fun p =>
      (p.threads.list.take maxThreads).map fun t => (t.tid, t.regs.pc)) w := by
  simp [threadsList]

/-- The ways `disarm_watchpoint_all_threads` runs. -/
lemma disarmWatchpointAllThreads_cases (wp : Watchpoint) (w : World σ) :
    (w.taskForPid w.dbg.pid = none ∧ disarmWatchpointAllThreads wp w = ⟨some (), w, []⟩) ∨
    ∃ p, w.taskForPid w.dbg.pid = some p ∧
      disarmWatchpointAllThreads wp w = ⟨some (), w.setProc (p.disarmed wp.slot), []⟩ := by
  cases hp : w.taskForPid w.dbg.pid with
  | none =>
      left
      simp [disarmWatchpointAllThreads, threadsList_bind, hp]
  | some p =>
      right
      refine ⟨p, rfl, ?_⟩
      rw [disarmWatchpointAllThreads, Prog.get_bind, threadsList_bind, hp]
      simp only [Option.map_some, List.map_map]
      exact disarmThreads_run _ _ hp fun _ => Proc.mem_of_listedIds

/-- The ways `arm_watchpoint_all_threads` runs: it arms all listed threads or none. -/
lemma armWatchpointAllThreads_cases (wp : Watchpoint) (w : World σ) :
    (w.taskForPid w.dbg.pid = none ∧ armWatchpointAllThreads wp w = ⟨some (-1), w, []⟩) ∨
    ∃ p, w.taskForPid w.dbg.pid = some p ∧
      (wp.fits = true ∧ armWatchpointAllThreads wp w = ⟨some 0, w.setProc (p.armed wp), []⟩ ∨
        wp.fits = false ∧ armWatchpointAllThreads wp w = ⟨some (-1), w, []⟩) := by
  cases hp : w.taskForPid w.dbg.pid with
  | none =>
      left
      simp [armWatchpointAllThreads, threadsList_bind, hp]
  | some p =>
  refine Or.inr ⟨p, rfl, ?_⟩
  rw [armWatchpointAllThreads, Prog.get_bind, threadsList_bind, hp]
  simp only [Option.map_some, List.map_map]
  cases hf : wp.fits with
  | true => exact Or.inl ⟨rfl, armThreads_of_fits hf _ _ hp fun _ => Proc.mem_of_listedIds⟩
  | false =>
      right
      refine ⟨rfl, ?_⟩
      have hne := p.listedIds_ne_nil
      rw [Proc.listedIds] at hne
      change armThreads w.dbg.pid wp [] ((p.threads.list.take maxThreads).map Thread.tid) w = _
      cases hids : (p.threads.list.take maxThreads).map Thread.tid with
      | nil => exact absurd hids hne
      | cons i is =>
          rw [armThreads, Prog.bind_of_eq (watchArm_of_not_fits hf)]
          rfl

/-- The process with the enabled ones of some watchpoints disarmed. -/
def Proc.disarmedAll (p : Proc) : List Watchpoint → Proc
  | [] => p
  | wp :: wps => if wp.enabled then (p.disarmed wp.slot).disarmedAll wps else p.disarmedAll wps

/-- The process with the enabled ones of some watchpoints armed. -/
def Proc.armedAll (p : Proc) : List Watchpoint → Proc
  | [] => p
  | wp :: wps => if wp.enabled then (p.armed wp).armedAll wps else p.armedAll wps

lemma disarmEnabled_none : ∀ (wps : List Watchpoint) {w : World σ},
    w.taskForPid w.dbg.pid = none → disarmEnabled wps w = ⟨some (), w, []⟩
  | [], _, _ => rfl
  | wp :: wps, w, hp => by
      rw [disarmEnabled]
      cases wp.enabled with
      | false => exact disarmEnabled_none wps hp
      | true =>
          rcases disarmWatchpointAllThreads_cases wp w with ⟨_, h⟩ | ⟨p, hp', _⟩
          · simp only [if_true, Prog.bind_of_eq h, disarmEnabled_none wps hp]
            rfl
          · rw [hp] at hp'
            cases hp'

lemma disarmEnabled_some : ∀ (wps : List Watchpoint) {w : World σ} {p : Proc},
    w.taskForPid w.dbg.pid = some p →
    disarmEnabled wps w = ⟨some (), w.setProc (p.disarmedAll wps), []⟩
  | [], w, p, hp => by
      rw [Proc.disarmedAll, World.setProc_self (World.taskForPid_eq_some.mp hp).1]
      rfl
  | wp :: wps, w, p, hp => by
      rw [disarmEnabled, Proc.disarmedAll]
      cases wp.enabled with
      | false => exact disarmEnabled_some wps hp
      | true =>
          rcases disarmWatchpointAllThreads_cases wp w with ⟨hn, _⟩ | ⟨q, hq, h⟩
          · rw [hp] at hn
            cases hn
          obtain rfl : p = q := Option.some.inj (hp.symm.trans hq)
          have hrest := disarmEnabled_some wps (w := w.setProc (p.disarmed wp.slot))
            (World.taskForPid_setProc hp rfl)
          simp only [if_true, Prog.bind_of_eq h, hrest]
          rfl

/-- `armEnabled` arms watchpoints that fit one after the other; if one does not, it stops. -/
lemma armEnabled_cases : ∀ (wps : List Watchpoint) (w : World σ),
    (w.taskForPid w.dbg.pid = none ∧ ∃ rc, armEnabled wps w = ⟨some rc, w, []⟩) ∨
    ∃ p, w.taskForPid w.dbg.pid = some p ∧ ∃ rc us, us <+: wps ∧
      (rc = 0 → us = wps) ∧ ((∀ wp ∈ wps, wp.enabled = true → wp.fits = true) → rc = 0) ∧
      armEnabled wps w = ⟨some rc, w.setProc (p.armedAll us), []⟩
  | [], w => by
      cases hp : w.taskForPid w.dbg.pid with
      | none => exact Or.inl ⟨rfl, 0, rfl⟩
      | some p =>
          refine Or.inr ⟨p, rfl, 0, [], List.prefix_rfl, fun _ => rfl, fun _ => rfl, ?_⟩
          rw [Proc.armedAll, World.setProc_self (World.taskForPid_eq_some.mp hp).1]
          rfl
  | wp :: wps, w => by
      rw [armEnabled]
      cases he : wp.enabled with
      -- a disabled entry is passed over
      | false =>
          rcases armEnabled_cases wps w with ⟨hn, rc, h⟩ | ⟨p, hp, rc, us, hus, h0, hfit, h⟩
          · exact Or.inl ⟨hn, rc, h⟩
          · refine Or.inr ⟨p, hp, rc, wp :: us, (List.prefix_cons_inj wp).mpr hus, fun hrc => ?_,
              fun hall => hfit fun v hv => hall v (List.mem_cons_of_mem _ hv), ?_⟩
            · rw [h0 hrc]
            · simp only [Bool.false_eq_true, if_false, h, Proc.armedAll, he]
      -- an enabled one is armed, and the first that does not fit ends the loop
      | true =>
          rcases armWatchpointAllThreads_cases wp w with ⟨hn, h⟩ | ⟨p, hp, ⟨hf, h⟩ | ⟨hf, h⟩⟩
          · refine Or.inl ⟨hn, -1, ?_⟩
            simp [Prog.bind_of_eq h]
          · rcases armEnabled_cases wps (w.setProc (p.armed wp)) with
              ⟨hn, _⟩ | ⟨q, hq, rc, us, hus, h0, hfit, hrest⟩
            · have htask := World.taskForPid_setProc hp (q := p.armed wp) rfl
              rw [World.setProc_dbg, htask] at hn
              cases hn
            have htask := World.taskForPid_setProc hp (q := p.armed wp) rfl
            obtain rfl : p.armed wp = q := Option.some.inj (htask.symm.trans hq)
            refine Or.inr ⟨p, hp, rc, wp :: us, (List.prefix_cons_inj wp).mpr hus, fun hrc => ?_,
              fun hall => hfit fun v hv => hall v (List.mem_cons_of_mem _ hv), ?_⟩
            · rw [h0 hrc]
            · simp only [if_true, Prog.bind_of_eq h, ne_eq, not_true_eq_false, if_false, hrest,
                Proc.armedAll, he]
              rfl
          · refine Or.inr ⟨p, hp, -1, [], List.nil_prefix, by simp, fun hall => ?_, ?_⟩
            · rw [hall wp List.mem_cons_self he] at hf
              cases hf
            · rw [Proc.armedAll, World.setProc_self (World.taskForPid_eq_some.mp hp).1]
              simp [Prog.bind_of_eq h]

/-! ### Setting and deleting a watchpoint -/

/-- The debugger's state with a watchpoint appended to the table. -/
def Dbg.pushWatchpoint (d : Dbg) (wp : Watchpoint) : Dbg :=
  { d with watchpoints := (d.watchpoints.push wp).getD d.watchpoints }

/-- The debugger's state with a watchpoint removed from the table. -/
def Dbg.eraseWatchpoint (d : Dbg) (i : ℕ) : Dbg := { d with watchpoints := d.watchpoints.erase i }

/-- A watchpoint is set if it fits, on all listed threads and in the table. -/
lemma addWatchpoint_cases (wp : Watchpoint) (w : World σ) :
    (∃ rc, addWatchpoint wp w = ⟨some rc, w, []⟩) ∨
    ∃ p, w.taskForPid w.dbg.pid = some p ∧ wp.fits = true ∧
      ∃ wp', wp'.arming = { wp.arming with enabled := true } ∧
        addWatchpoint wp w =
          ⟨some 0, (w.setProc (p.armed wp)).setDbg (w.dbg.pushWatchpoint wp'), []⟩ := by
  rcases armWatchpointAllThreads_cases wp w with ⟨_, h⟩ | ⟨p, hp, ⟨hf, h⟩ | ⟨_, h⟩⟩
  · left
    exact ⟨-1, by simp [addWatchpoint, Prog.bind_of_eq h]⟩
  · right
    refine ⟨p, hp, hf, ?_⟩
    rw [addWatchpoint, Prog.bind_of_eq h, if_neg (by simp), Prog.get_bind]
    cases hr : (w.setProc (p.armed wp)).readMem (w.setProc (p.armed wp)).dbg.pid wp.addr
      wp.size with
    | none =>
        refine ⟨{ wp with enabled := true }, rfl, ?_⟩
        simp [Dbg.pushWatchpoint]
    | some v =>
        refine ⟨{ wp with lastValue := BitVec.ofNat 64 v, hasLastValue := true, enabled := true },
          rfl, ?_⟩
        simp [Dbg.pushWatchpoint]
  · left
    exact ⟨-1, by simp [addWatchpoint, Prog.bind_of_eq h]⟩

/-- A watchpoint is deleted from the table and, if there is a process, disarmed. -/
lemma deleteWatchpointAt_cases (i : ℕ) (w : World σ) :
    (w.dbg.watchpoints.entry i = none ∧ deleteWatchpointAt i w = ⟨some (-1), w, []⟩) ∨
    ∃ wp, w.dbg.watchpoints.entry i = some wp ∧
      ((¬ (0 < w.dbg.pid ∧ w.dbg.state ≠ .idle) ∨ w.taskForPid w.dbg.pid = none) ∧
          deleteWatchpointAt i w = ⟨some 0, w.setDbg (w.dbg.eraseWatchpoint i), []⟩ ∨
        ∃ p, w.taskForPid w.dbg.pid = some p ∧
          deleteWatchpointAt i w =
            ⟨some 0, (w.setProc (p.disarmed wp.slot)).setDbg (w.dbg.eraseWatchpoint i), []⟩) := by
  cases he : w.dbg.watchpoints.entry i with
  | none => exact Or.inl ⟨rfl, by simp [deleteWatchpointAt, he]⟩
  | some wp =>
  refine Or.inr ⟨wp, rfl, ?_⟩
  rw [deleteWatchpointAt, Prog.get_bind]
  simp only [he]
  by_cases hl : 0 < w.dbg.pid ∧ w.dbg.state ≠ .idle
  · rw [if_pos hl]
    rcases disarmWatchpointAllThreads_cases wp w with ⟨hn, h⟩ | ⟨p, hp, h⟩
    · refine Or.inl ⟨Or.inr hn, ?_⟩
      simp [Prog.bind_of_eq h, Dbg.eraseWatchpoint]
    · refine Or.inr ⟨p, hp, ?_⟩
      simp [Prog.bind_of_eq h, Dbg.eraseWatchpoint]
  · rw [if_neg hl]
    refine Or.inl ⟨Or.inl hl, ?_⟩
    simp [Dbg.eraseWatchpoint]

/-- The last value of a watchpoint is recorded, or not. -/
lemma recordValue_cases (i : ℕ) (w : World σ) :
    ∃ t, (∀ e ∈ t, ∃ a n, e = ⟨.memFailed a n, w⟩) ∧
      (recordValue i w = ⟨some (), w, t⟩ ∨
        ∃ wp wp', w.dbg.watchpoints.entry i = some wp ∧ wp'.arming = wp.arming ∧
          recordValue i w =
            ⟨some (), w.setDbg { w.dbg with watchpoints := w.dbg.watchpoints.set i wp' }, t⟩) := by
  cases he : w.dbg.watchpoints.entry i with
  | none => exact ⟨[], by simp, Or.inl (by simp [recordValue, he])⟩
  | some wp =>
  cases hr : w.readMem w.dbg.pid wp.addr wp.size with
  | none =>
      refine ⟨[⟨.memFailed wp.addr wp.size, w⟩], by simp, Or.inl ?_⟩
      simp [recordValue, he, Prog.bind_of_eq (memRead_of_none hr)]
  | some v =>
      refine ⟨[], by simp, Or.inr ⟨wp,
        { wp with lastValue := BitVec.ofNat 64 v, hasLastValue := true }, rfl, rfl, ?_⟩⟩
      simp [recordValue, he, Prog.bind_of_eq (memRead_of_some hr)]

end Cdbg
