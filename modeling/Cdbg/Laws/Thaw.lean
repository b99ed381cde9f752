import Cdbg.Control.Effect
import Cdbg.Machine.Script

/-!
Suspend counts: whether every thread runs again when the debuggee is continued.

`report_stop` suspends every thread but the selected one, `cdbg_continue` resumes
every thread but the one selected then. The counts are balanced if a freeze finds no
other thread suspended and a thaw leaves out no suspended thread (`Event.balanced`);
then no count exceeds one and all are zero at `PT_CONTINUE`
(`continue_thaws_all`). Two `si` in a row already break the balance.
-/

namespace Cdbg

open Prog

variable {σ : Type}

/-- The threads of the debuggee, none without one. -/
def World.threads (w : World σ) : List Thread :=
  match w.proc with
  | none => []
  | some p => p.threads.list

/-- The id that `tid` stands for in the debuggee. -/
def World.idOf (w : World σ) (tid : Tid) : Tid :=
  match w.proc with
  | none => tid
  | some p => p.threads.idOf tid

@[simp] lemma World.threads_setProc (w : World σ) (p : Proc) :
    (w.setProc p).threads = p.threads.list := rfl

@[simp] lemma World.threads_setDbg (w : World σ) (d : Dbg) :
    (w.setDbg d).threads = w.threads := rfl

lemma World.threads_of_task {w : World σ} {pid : ℕ} {p : Proc} (h : w.taskForPid pid = some p) :
    w.threads = p.threads.list := by
  rw [threads, (World.taskForPid_eq_some.mp h).1]

lemma World.idOf_of_task {w : World σ} {pid : ℕ} {p : Proc} (h : w.taskForPid pid = some p)
    (tid : Tid) : w.idOf tid = p.threads.idOf tid := by
  rw [idOf, (World.taskForPid_eq_some.mp h).1]

/-- The thread left out of a freeze. -/
def EventKind.freezeBut : EventKind → Option Tid
  | .suspendOthers keep => some keep
  | _ => none

/-- The thread left out of a thaw. -/
def EventKind.thawBut : EventKind → Option Tid
  | .resumeOthers keep => some keep
  | _ => none

namespace Event

/-- At `PT_CONTINUE` no thread is suspended. -/
def allThawed (e : Event σ) : Prop :=
  e.kind.isContinue = true → ∀ t ∈ e.world.threads, t.suspendCount = 0

/-- A freeze finds no thread but the one it leaves out suspended, and a thaw leaves out
no suspended thread. -/
def balanced (e : Event σ) : Prop :=
  (∀ keep ∈ e.kind.freezeBut, ∀ t ∈ e.world.threads,
    t.tid ≠ e.world.idOf keep → t.suspendCount = 0) ∧
  ∀ keep ∈ e.kind.thawBut, ∀ t ∈ e.world.threads,
    t.tid = e.world.idOf keep → t.suspendCount = 0

instance (e : Event σ) : Decidable e.allThawed := inferInstanceAs (Decidable (_ → _))

instance (e : Event σ) : Decidable e.balanced := inferInstanceAs (Decidable (_ ∧ _))

end Event

/-- No thread is suspended more than once. -/
def World.atMostOnce (w : World σ) : Prop := ∀ t ∈ w.threads, t.suspendCount ≤ 1

namespace World

lemma atMostOnce_mild {w w' : World σ} (hm : Mild w w') (h : w.atMostOnce) :
    w'.atMostOnce := by
  intro t ht
  rw [threads] at ht
  cases hp' : w'.proc with
  | none => simp [hp'] at ht
  | some p' =>
      rw [hp'] at ht
      obtain ⟨p, hp, hr⟩ := hm.exists_proc' hp'
      have hmem : (t.tid, t.suspendCount)
          ∈ p'.threads.list.map fun t => (t.tid, t.suspendCount) := List.mem_map_of_mem ht
      rw [hr.threads] at hmem
      obtain ⟨u, hu, hut⟩ := List.mem_map.mp hmem
      have hcount : t.suspendCount = u.suspendCount := (congrArg Prod.snd hut).symm
      rw [hcount]
      exact h u (by rw [threads, hp]; exact hu)

/-- At a stop the kernel keeps the counts, and new threads are not suspended. -/
lemma atMostOnce_deliver {w w' : World σ} {p : Proc} {pid : ℕ} (hp : w.taskForPid pid = some p)
    (h : w.atMostOnce) (o : Outcome) : (w'.deliver p o).atMostOnce := by
  cases o with
  | exited _ => intro t ht; simp [deliver, threads] at ht
  | signaled _ => intro t ht; simp [deliver, threads] at ht
  | stopped s =>
      intro t ht
      simp only [deliver, threads, Proc.stopWith, Threads.list_map, List.mem_map] at ht
      obtain ⟨u, _, rfl⟩ := ht
      rw [Proc.keepKernelState]
      split
      · next v hv =>
        refine h v ?_
        rw [threads_of_task hp]
        exact List.mem_of_find?_eq_some hv
      · exact Nat.zero_le _

end World

/-- Thawing brings counts of at most one to zero, if the thread left out is not
suspended. -/
lemma Threads.resumeOthers_count {ts : Threads} {keep : Tid}
    (h1 : ∀ t ∈ ts.list, t.suspendCount ≤ 1)
    (h0 : ∀ t ∈ ts.list, t.tid = ts.idOf keep → t.suspendCount = 0) :
    ∀ t ∈ (ts.resumeOthers keep).list, t.suspendCount = 0 := by
  intro t ht
  obtain ⟨u, hu, rfl⟩ := List.mem_map.mp ht
  dsimp only
  split
  · next hk => exact h0 u hu hk
  · have := h1 u hu
    omega

/-- Freezing keeps counts at most one, if the threads it suspends were running. -/
lemma Threads.suspendOthers_count {ts : Threads} {keep : Tid}
    (h1 : ∀ t ∈ ts.list, t.suspendCount ≤ 1)
    (h0 : ∀ t ∈ ts.list, t.tid ≠ ts.idOf keep → t.suspendCount = 0) :
    ∀ t ∈ (ts.suspendOthers keep).list, t.suspendCount ≤ 1 := by
  intro t ht
  obtain ⟨u, hu, rfl⟩ := List.mem_map.mp ht
  dsimp only
  split
  · exact h1 u hu
  · next hk => rw [h0 u hu hk]

/-- Thawing never suspends. -/
lemma Threads.resumeOthers_le {ts : Threads} {keep : Tid}
    (h1 : ∀ t ∈ ts.list, t.suspendCount ≤ 1) :
    ∀ t ∈ (ts.resumeOthers keep).list, t.suspendCount ≤ 1 := by
  intro t ht
  obtain ⟨u, hu, rfl⟩ := List.mem_map.mp ht
  have := h1 u hu
  dsimp only
  split <;> omega

lemma Event.allThawed_of_mild {e : Event σ} (h : e.kind.mild = true) : e.allThawed := by
  intro hc
  obtain ⟨k, w⟩ := e
  cases k <;> simp_all [EventKind.mild, EventKind.inert, EventKind.isHit, EventKind.isContinue]

/-- One step keeps every count at most one if the freezes and thaws in it are balanced,
and continues the debuggee with all counts zero. -/
lemma Fine.thaw {host : Host σ} {w w' : World σ} {t : List (Event σ)}
    (h : Fine host w t w') (hw : w.atMostOnce) (hok : ∀ e ∈ t, e.balanced) :
    w'.atMostOnce ∧ ∀ e ∈ t, e.allThawed := by
  cases h.effect with
  | mild hm ht =>
      exact ⟨World.atMostOnce_mild hm hw, fun e he => Event.allThawed_of_mild (ht e he).2⟩
  | step hp hr =>
      refine ⟨?_, by simp [Event.allThawed, EventKind.isContinue]⟩
      rw [World.atMostOnce, World.threads_of_task hp] at hw
      exact hw
  -- a continue lowers each count by one, but for a thread that stays frozen
  | @resume _ p hp hr =>
      have hbal := (hok _ List.mem_cons_self).2 w.dbg.currentTid rfl
      rw [World.threads_of_task hp, World.idOf_of_task hp] at hbal
      rw [World.atMostOnce, World.threads_of_task hp] at hw
      have hzero : ∀ t ∈ (p.thawed w.dbg.currentTid).threads.list, t.suspendCount = 0 :=
        Threads.resumeOthers_count hw hbal
      refine ⟨fun t ht => ?_, ?_⟩
      · exact (hzero t ht).le.trans zero_le_one
      · simpa [Event.allThawed, EventKind.isContinue] using hzero
  | thaw hp hr =>
      rw [World.atMostOnce, World.threads_of_task hp] at hw
      exact ⟨Threads.resumeOthers_le hw, by simp [Event.allThawed, EventKind.isContinue]⟩
  | hang _ => exact ⟨hw, by simp⟩
  | waited hp hr ho =>
      exact ⟨World.atMostOnce_deliver hp hw _, by simp [Event.allThawed, EventKind.isContinue]⟩
  -- a freeze raises counts that are zero
  | freeze hp =>
      have hbal := (hok _ List.mem_cons_self).1 w.dbg.currentTid rfl
      rw [World.threads_of_task hp, World.idOf_of_task hp] at hbal
      rw [World.atMostOnce, World.threads_of_task hp] at hw
      exact ⟨Threads.suspendOthers_count hw hbal,
        by simp [Event.allThawed, EventKind.isContinue]⟩
  | select _ => exact ⟨hw, by simp⟩
  | forkFails _ => exact ⟨hw, by simp⟩
  -- the threads of a new process run freely
  | fork _ _ _ _ =>
      refine ⟨fun t ht => ?_, by simp [Event.allThawed, EventKind.isContinue]⟩
      obtain ⟨u, _, rfl⟩ := List.mem_map.mp ht
      exact Nat.zero_le _
  | stopNone _ => exact ⟨hw, by simp⟩
  | stopIdle _ => exact ⟨hw, by simp⟩
  | killed _ _ =>
      exact ⟨fun t ht => by simp [World.threads] at ht,
        by simp [Event.allThawed, EventKind.isContinue]⟩
  | exit _ => exact ⟨hw, by simp [Event.allThawed, EventKind.isContinue]⟩

/-- Reading a command changes nothing. -/
lemma Turn.thaw {host : Host σ} {w w' : World σ} {t : List (Event σ)}
    (h : Turn (Fine host) w t w') (hw : w.atMostOnce) (hok : ∀ e ∈ t, e.balanced) :
    w'.atMostOnce ∧ ∀ e ∈ t, e.allThawed := by
  cases h with
  | op h => exact h.thaw hw hok
  | read => exact ⟨hw, by simp [Event.allThawed, EventKind.isContinue]⟩

/-- **Thread thaw**: in a session whose freezes and thaws are balanced, no thread is
suspended at any `PT_CONTINUE`. -/
theorem continue_thaws_all (host : Host σ) (s : σ) (argv input : List Str)
    (h : ∀ e ∈ (cdbgMain host argv input (World.start s)).trace, e.balanced) :
    ∀ e ∈ (cdbgMain host argv input (World.start s)).trace, e.allThawed :=
  ((grain_cdbgMain (Fine.grain host) argv input).spec (fun _ _ _ hf => hf.thaw) _
    (fun t ht => by simp [World.threads, World.start] at ht) h).1

/-- A child with one thread, and its stops with a second thread at the given counters. -/
def twoThreadScript : Script :=
  let stop1 := StopState.at 0x1000 fun _ => 0
  let stop2 : StopState := ⟨.numbered (.at 1 0x1004) [.at 2 0x2000], fun _ => 0, fun _ => true⟩
  ⟨[.of stop1], [.stopped stop1, .stopped stop2, .stopped stop2, .stopped stop2]⟩

/-- A session of `continue` with one stop before it is balanced. -/
theorem continue_thaws_all_script :
    List.Forall Event.allThawed (cdbgMain (Script.host .stripped) ["a".toList]
      ["si".toList, "continue".toList] (World.start twoThreadScript)).trace :=
  List.forall_iff_forall_mem.mpr (continue_thaws_all _ _ _ _ (by decide +kernel))

/-- After two `si` the second thread is suspended twice and stays frozen when the
debuggee is continued. -/
theorem continue_leaves_frozen :
    ¬ ∀ e ∈ (cdbgMain (Script.host .stripped) ["a".toList]
      ["si".toList, "si".toList, "continue".toList]
      (World.start twoThreadScript)).trace, e.allThawed := by
  decide +kernel

end Cdbg
