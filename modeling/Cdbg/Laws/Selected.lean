import Cdbg.Control.Effect
import Cdbg.Machine.Script

/-!
The selected thread: whether `dbg->current_tid` names a thread of the debuggee when
its registers are read.

The selection is made from the threads of the debuggee and then kept: by `cdbg_run`,
which does not clear it for the new process, and across stops, at which the thread may
be gone. If no thread is selected at any fork and the selected thread is still there
at every stop (`Event.keepsSelection`), every refresh of the registers finds its
thread (`refresh_finds_thread`).
-/

namespace Cdbg

open Prog

variable {σ : Type}

/-- The selection stands for a thread of the process. -/
def Proc.selects (p : Proc) (tid : Tid) : Prop := tid = 0 ∨ p.threads.has tid

instance (p : Proc) (tid : Tid) : Decidable (p.selects tid) :=
  inferInstanceAs (Decidable (_ ∨ _))

/-- Whether an event is a call of `cdbg_refresh_regs`. -/
def EventKind.isRefresh : EventKind → Bool
  | .refreshRegs => true
  | _ => false

/-- Whether an event is the start of a new process. -/
def EventKind.isFork : EventKind → Bool
  | .fork => true
  | _ => false

/-- The stop reported by an event, if any. -/
def EventKind.stop : EventKind → Option StopState
  | .waited (.stopped s) => some s
  | _ => none

namespace Event

/-- A refresh of the registers of a stopped debuggee finds the selected thread. -/
def findsThread (e : Event σ) : Prop :=
  e.kind.isRefresh = true → ∀ p ∈ e.world.taskForPid e.world.dbg.pid, p.running = none →
    p.selects e.world.dbg.currentTid

/-- A fork finds no thread selected, and a stop still has the selected thread. -/
def keepsSelection (e : Event σ) : Prop :=
  (e.kind.isFork = true → e.world.dbg.currentTid = 0) ∧
  ∀ s ∈ e.kind.stop, e.world.dbg.currentTid = 0 ∨ s.threads.has e.world.dbg.currentTid

instance (e : Event σ) : Decidable e.findsThread := inferInstanceAs (Decidable (_ → _))

instance (e : Event σ) : Decidable e.keepsSelection := inferInstanceAs (Decidable (_ ∧ _))

end Event

/-- The selection stands for a thread of the child process. -/
def World.selectionValid (w : World σ) : Prop :=
  ∀ p, w.proc = some p → p.selects w.dbg.currentTid

namespace World

lemma selectionValid_of_proc {w w' : World σ} (h : w.selectionValid) (hp : w'.proc = w.proc)
    (ht : w'.dbg.currentTid = w.dbg.currentTid) : w'.selectionValid := by
  intro p hp'
  rw [ht]
  exact h p (hp ▸ hp')

lemma selectionValid_of_none {w : World σ} (h : w.proc = none) : w.selectionValid := by
  intro p hp
  rw [h] at hp
  cases hp

lemma selectionValid_mild {w w' : World σ} (hm : Mild w w') (h : w.selectionValid) :
    w'.selectionValid := by
  intro p' hp'
  obtain ⟨p, hp, hr⟩ := hm.exists_proc' hp'
  rw [hm.currentTid, Proc.selects, hr.has_iff]
  exact h p hp

/-- Changing threads without changing their ids keeps the selection. -/
lemma selectionValid_setProc {w : World σ} {p q : Proc} {pid : ℕ}
    (hp : w.taskForPid pid = some p) (h : w.selectionValid)
    (hq : ∀ tid, p.threads.has tid → q.threads.has tid) {d : Dbg}
    (hd : d.currentTid = w.dbg.currentTid) : ((w.setProc q).setDbg d).selectionValid := by
  intro q' hq'
  obtain rfl : q = q' := Option.some.inj hq'
  rw [setDbg_dbg, hd]
  exact (h p (taskForPid_eq_some.mp hp).1).imp_right (hq _)

end World

/-- One step keeps the selection valid and refreshes with a valid selection. -/
lemma Fine.selection {host : Host σ} {w w' : World σ} {t : List (Event σ)}
    (h : Fine host w t w') (hw : w.selectionValid) (hok : ∀ e ∈ t, e.keepsSelection) :
    w'.selectionValid ∧ ∀ e ∈ t, e.findsThread := by
  cases h.effect with
  -- steps that leave the threads alone
  | mild hm ht =>
      refine ⟨World.selectionValid_mild hm hw, fun e he _ p hp _ => ?_⟩
      rw [(ht e he).1] at hp ⊢
      exact hw p (World.taskForPid_eq_some.mp hp).1
  | @step _ p hp hr =>
      exact ⟨World.selectionValid_setProc (q := { p with running := some .step }) hp hw
          (fun _ h => h) rfl,
        by simp [Event.findsThread, EventKind.isRefresh]⟩
  | resume hp hr =>
      exact ⟨World.selectionValid_setProc hp hw
          (fun tid => (Threads.has_resumeOthers _ _ tid).mpr) rfl,
        by simp [Event.findsThread, EventKind.isRefresh]⟩
  | thaw hp hr =>
      exact ⟨World.selectionValid_setProc (d := w.dbg) hp hw
          (fun tid => (Threads.has_resumeOthers _ _ tid).mpr) rfl,
        by simp [Event.findsThread, EventKind.isRefresh]⟩
  | hang _ => exact ⟨World.selectionValid_of_proc hw rfl rfl, by simp⟩
  -- a stop gives the debuggee new threads, among which the selected one has to be
  | @waited _ p r o s' hp hr ho =>
      refine ⟨?_, by simp [Event.findsThread, EventKind.isRefresh]⟩
      cases o with
      | exited _ => exact World.selectionValid_of_none rfl
      | signaled _ => exact World.selectionValid_of_none rfl
      | stopped s =>
          have hsel := (hok _ List.mem_cons_self).2 s rfl
          intro q hq
          obtain rfl : p.stopWith s = q := Option.some.inj hq
          exact hsel.imp_right (Proc.stopWith_has p s _).mpr
  | freeze hp =>
      exact ⟨World.selectionValid_setProc (d := w.dbg) hp hw
          (fun tid => (Threads.has_suspendOthers _ _ tid).mpr) rfl,
        by simp [Event.findsThread, EventKind.isRefresh]⟩
  -- `thread` and the reports select among the threads that are listed
  | @select _ u hu =>
      refine ⟨fun p hp => Or.inr ⟨u, ?_, rfl⟩, by simp⟩
      rw [World.listed] at hu
      split at hu
      · simp at hu
      · next q hq =>
        obtain rfl : q = p := by
          have := (World.taskForPid_eq_some.mp hq).1
          exact Option.some.inj (this.symm.trans hp)
        exact List.mem_of_mem_take hu
  | forkFails _ => exact ⟨World.selectionValid_of_proc hw rfl rfl, by simp⟩
  | fork _ _ _ _ =>
      have h0 := (hok _ List.mem_cons_self).1 rfl
      exact ⟨fun p _ => Or.inl h0, by simp [Event.findsThread, EventKind.isRefresh]⟩
  | stopNone _ => exact ⟨World.selectionValid_of_proc hw rfl rfl, by simp⟩
  | stopIdle _ => exact ⟨World.selectionValid_of_proc hw rfl rfl, by simp⟩
  | killed _ _ =>
      exact ⟨World.selectionValid_of_none rfl, by simp [Event.findsThread, EventKind.isRefresh]⟩
  | exit _ =>
      exact ⟨World.selectionValid_of_proc hw rfl rfl,
        by simp [Event.findsThread, EventKind.isRefresh]⟩

/-- Reading a command changes nothing. -/
lemma Turn.selection {host : Host σ} {w w' : World σ} {t : List (Event σ)}
    (h : Turn (Fine host) w t w') (hw : w.selectionValid) (hok : ∀ e ∈ t, e.keepsSelection) :
    w'.selectionValid ∧ ∀ e ∈ t, e.findsThread := by
  cases h with
  | op h => exact h.selection hw hok
  | read => exact ⟨hw, by simp [Event.findsThread, EventKind.isRefresh]⟩

/-- **The selected thread exists**: in a session in which no thread is selected at a fork
and the selected thread is there at every stop, every refresh of the registers of a
stopped debuggee finds its thread. -/
theorem refresh_finds_thread (host : Host σ) (s : σ) (argv input : List Str)
    (h : ∀ e ∈ (cdbgMain host argv input (World.start s)).trace, e.keepsSelection) :
    ∀ e ∈ (cdbgMain host argv input (World.start s)).trace, e.findsThread :=
  ((grain_cdbgMain (Fine.grain host) argv input).spec (fun _ _ _ hf => hf.selection) _
    (World.selectionValid_of_none rfl) h).1

/-- Two children, of one thread each; the first one stops at `0x1004`. -/
def twoRunsScript : Script :=
  let stop (tid : Tid) (h : tid ≠ 0) (pc : Addr) : StopState :=
    ⟨⟨[Thread.at tid pc], by simp, by simp, by simpa [Thread.at] using h⟩,
      fun _ => 0, fun _ => true⟩
  ⟨[.of (stop 5 (by simp) 0x1000), ⟨8, by simp, 0x1000, stop 6 (by simp) 0x1000⟩],
    [.stopped (stop 5 (by simp) 0x1000), .stopped (stop 5 (by simp) 0x1004),
      .stopped (stop 6 (by simp) 0x1000)]⟩

/-- A session with a breakpoint hit and a look at the registers keeps its selection. -/
theorem refresh_finds_thread_script :
    List.Forall Event.findsThread (cdbgMain (Script.host .stripped) ["a".toList]
      ["break 0x1004".toList, "continue".toList, "regs".toList]
      (World.start twoRunsScript)).trace :=
  List.forall_iff_forall_mem.mpr (refresh_finds_thread _ _ _ _ (by decide +kernel))

/-- After a breakpoint hit has selected thread `5`, `run` starts a process with thread
`6` only, whose registers are asked for under the id `5`. -/
theorem refresh_misses_thread :
    ¬ ∀ e ∈ (cdbgMain (Script.host .stripped) ["a".toList]
      ["break 0x1004".toList, "continue".toList, "run".toList]
      (World.start twoRunsScript)).trace, e.findsThread := by
  decide +kernel

end Cdbg
