import Cdbg.Control.Arming

/-!
`cdbg_watch_arm`, `cdbg_watch_disarm` and `arm_watchpoint_all_threads` over any means of
listing threads and of reading and writing their debug registers, with the reading back that
`cdbg_watch_arm` does.

In a `World` the registers of a slot in use are there and hold what was written, so reading
them back finds it: there these functions are the ones of `Cdbg.Control.Watchpoint`
(`worldPort_watchArm`, `worldPort_armAllThreads`).
-/

namespace Cdbg

variable {σ : Type}

/-- The control register of a slot. -/
def DebugState.control (s : DebugState) (slot : ℕ) : BitVec 64 :=
  if h : slot < 16 then s.wcr ⟨slot, h⟩ else 0

/-- `cdbg_threads_list`, `cdbg_regs_get_debug_state` and `cdbg_regs_set_debug_state` for one
process. -/
structure DebugPort (m : Type → Type) where
  threadsList : m (Option (List Tid))
  getDebugState : Tid → m (Option DebugState)
  setDebugState : Tid → DebugState → m ℤ

namespace DebugPort

variable {m : Type → Type} [Monad m] (port : DebugPort m)

/-- `cdbg_watch_arm`. -/
def watchArm (tid : Tid) (slot : ℕ) (addr : Addr) (size : ℕ) (kind : WatchKind) : m ℤ := do
  if maxWatchpoints ≤ slot then
    return -1
  if size = 0 ∨ 8 < size then
    return -1
  if 8 < (addr &&& 7).toNat + size then
    return -1
  match ← port.getDebugState tid with
  | none => return -1
  | some state =>
      let wcr := watchControl addr size kind
      if (← port.setDebugState tid (state.setSlot slot (addr &&& ~~~ 7) wcr)) ≠ 0 then
        return -1
      match ← port.getDebugState tid with
      | none => return -1
      | some verify => return if verify.control slot = wcr then 0 else -1

/-- `cdbg_watch_disarm`. -/
def watchDisarm (tid : Tid) (slot : ℕ) : m ℤ := do
  if maxWatchpoints ≤ slot then
    return -1
  match ← port.getDebugState tid with
  | none => return -1
  | some state => port.setDebugState tid (state.clearSlot slot)

/-- The loop that takes back what has been armed. -/
def disarmThreads (slot : ℕ) : List Tid → m Unit
  | [] => return ()
  | t :: ts => do
      let _ ← port.watchDisarm t slot
      disarmThreads slot ts

/-- The loop of `arm_watchpoint_all_threads`; `done` are the threads armed so far. -/
def armThreads (wp : Watchpoint) (done : List Tid) : List Tid → m ℤ
  | [] => return 0
  | t :: ts => do
      if (← port.watchArm t wp.slot wp.addr wp.size wp.kind) ≠ 0 then
        port.disarmThreads wp.slot done
        return -1
      armThreads wp (done ++ [t]) ts

/-- `arm_watchpoint_all_threads`. -/
def armAllThreads (wp : Watchpoint) : m ℤ := do
  match ← port.threadsList with
  | none => return -1
  | some threads => port.armThreads wp [] threads

end DebugPort

/-! ### The port of a world -/

/-- The calls on a process of the world. -/
def worldPort (pid : ℕ) : DebugPort (Prog (Event σ) (World σ)) where
  threadsList := do return (← threadsList pid maxThreads).map (List.map Prod.fst)
  getDebugState := regsGetDebugState pid
  setDebugState := regsSetDebugState pid

namespace Threads

/-- The thread an id stands for, after it has been changed. -/
lemma resolve_update {ts : Threads} {tid : Tid} {t : Thread} (h : ts.resolve tid = some t)
    (f : Thread → Thread) (hf : ∀ t, (f t).tid = t.tid) :
    (ts.update tid f hf).resolve tid = some (f t) := by
  have hid := idOf_of_resolve h
  rw [resolve] at h ⊢
  split at h
  next h0 =>
    obtain rfl := Option.some.inj h
    rw [if_pos h0, primary]
    simp only [update, list_map, List.head_map]
    exact congrArg some (if_pos hid.symm)
  next h0 =>
    have hmap : ∀ u : Thread, (if u.tid = ts.idOf tid then f u else u).tid = u.tid := by
      intro u
      split
      · exact hf u
      · rfl
    rw [if_neg h0, update, list_map, List.find?_map]
    simp only [Function.comp_def, hmap, h, Option.map_some]
    exact congrArg some (if_pos hid.symm)

end Threads

/-- The port of a thread that is there, after its debug registers have been written. -/
lemma setDebugState_resolve {w : World σ} {pid : ℕ} {tid : Tid} {t : Thread}
    (h : w.resolvePort pid tid = some t) (s : DebugState) :
    ∃ w', regsSetDebugState pid tid s w = ⟨some 0, w', []⟩ ∧ w'.dbg = w.dbg ∧
      w'.resolvePort pid tid = some { t with debug := s } := by
  obtain ⟨p, hp, ht⟩ := Option.bind_eq_some_iff.mp h
  have hproc := (World.taskForPid_eq_some.mp hp).1
  let q : Proc := { p with
    threads := p.threads.update tid (fun t => { t with debug := s }) fun _ => rfl }
  have hq : (w.setProc q).taskForPid pid = some q := World.taskForPid_setProc hp rfl
  refine ⟨w.setProc q, ?_, rfl, ?_⟩
  · simp only [regsSetDebugState, Prog.get_bind, h, updateThread, modifyProc_bind hproc,
      Prog.pure_apply, q]
  · rw [World.resolvePort, hq, Option.bind_some]
    exact Threads.resolve_update ht (fun t => { t with debug := s }) fun _ => rfl

lemma setSlot_control (s : DebugState) {slot : ℕ} (h : slot < maxWatchpoints)
    (wvr wcr : BitVec 64) : (s.setSlot slot wvr wcr).control slot = wcr := by
  have h16 : slot < 16 := lt_trans h (by decide)
  rw [DebugState.control, dif_pos h16]
  exact if_pos rfl

/-- Reading back finds what was written. -/
lemma worldPort_watchArm (pid : ℕ) (tid : Tid) (slot : ℕ) (addr : Addr) (size : ℕ)
    (kind : WatchKind) :
    (worldPort (σ := σ) pid).watchArm tid slot addr size kind =
      watchArm pid tid slot addr size kind := by
  funext w
  rw [DebugPort.watchArm, watchArm]
  split
  · rfl
  next hslot =>
  split
  · rfl
  split
  · rfl
  cases ht : w.resolvePort pid tid with
  | none => simp [worldPort, regsGetDebugState, ht]
  | some t =>
      obtain ⟨w', hset, -, ht'⟩ := setDebugState_resolve ht
        (t.debug.setSlot slot (addr &&& ~~~ 7) (watchControl addr size kind))
      have hback := setSlot_control t.debug (not_le.mp hslot) (addr &&& ~~~ 7)
        (watchControl addr size kind)
      have hget : ∀ w'' : World σ, regsGetDebugState pid tid w'' =
          ⟨some ((w''.resolvePort pid tid).map Thread.debug), w'', []⟩ := fun _ => rfl
      have hread := hget w
      rw [ht] at hread
      have hverify := hget w'
      rw [ht'] at hverify
      simp only [worldPort]
      rw [Prog.bind_of_eq hread, Prog.bind_of_eq hread]
      dsimp only [Option.map_some]
      rw [Prog.bind_of_eq hset, hset]
      dsimp only
      rw [if_neg (by simp), Prog.bind_of_eq hverify]
      simp only [Option.map_some, hback, if_true, Prog.pure_apply, List.append_nil]

lemma worldPort_watchDisarm (pid : ℕ) (tid : Tid) (slot : ℕ) :
    (worldPort (σ := σ) pid).watchDisarm tid slot = watchDisarm pid tid slot := rfl

lemma worldPort_disarmThreads (pid slot : ℕ) (ts : List Tid) :
    (worldPort (σ := σ) pid).disarmThreads slot ts = disarmThreads pid slot ts := by
  induction ts with
  | nil => rfl
  | cons t ts ih => rw [DebugPort.disarmThreads, disarmThreads, worldPort_watchDisarm, ih]

lemma worldPort_armThreads (pid : ℕ) (wp : Watchpoint) (ts : List Tid) :
    ∀ done, (worldPort (σ := σ) pid).armThreads wp done ts = armThreads pid wp done ts := by
  induction ts with
  | nil => exact fun _ => rfl
  | cons t ts ih =>
      intro done
      rw [DebugPort.armThreads, armThreads, worldPort_watchArm, worldPort_disarmThreads, ih]

/-- Arming a watchpoint in a world is arming it through the port of its process. -/
lemma worldPort_armAllThreads (wp : Watchpoint) : armWatchpointAllThreads (σ := σ) wp =
    (do let w ← Prog.get; (worldPort w.dbg.pid).armAllThreads wp) := by
  rw [armWatchpointAllThreads]
  congr 1
  funext w
  rw [DebugPort.armAllThreads, worldPort]
  dsimp only
  rw [bind_assoc]
  congr 1
  funext r
  rw [pure_bind]
  cases r with
  | none => rfl
  | some threads => exact (worldPort_armThreads _ wp _ []).symm

end Cdbg
