import Cdbg.Laws.Thaw
import Cdbg.Laws.Prompt

/-!
Suspend counts while stepping: whether the selected thread runs alone at the `PT_STEP`s of
`step`, `next` and `si`.

Threads are suspended by `report_stop` only and resumed by `cdbg_continue`, which `next`
uses in its middle. Which threads are known to be suspended can be read off the events
(`Hold`): those there at the last report, until the debuggee is continued. At a `PT_STEP`
that finds the thread of that report selected and no thread beside it and these, the
selected thread runs alone (`steps_freeze_siblings`).
-/

namespace Cdbg

open Prog

variable {σ : Type}

/-! ### What the events tell about the threads -/

/-- What is known of the suspend counts: that all are zero, or that a thread is not
suspended and some others are, or nothing. -/
inductive Hold
  | free
  | held (keep : Tid) (others : List Tid)
  | lost

namespace Hold

/-- Continuing leaves the kept thread as it is, and the others in doubt. -/
def thawed : Hold → Hold
  | free => free
  | held keep _ => held keep []
  | lost => lost

/-- At a stop only threads that were there before are still suspended. -/
def stopped (w : World σ) : Hold → Hold
  | free => free
  | held keep others => held keep (others.filter fun tid => tid ∈ w.threads.map Thread.tid)
  | lost => lost

/-- A report suspends all threads but one; if that one is suspended as well, nothing is
known of the thread to be stepped. -/
def reported (w : World σ) (keep : Tid) : Hold :=
  if ∀ t ∈ w.threads, t.tid = w.idOf keep → t.suspendCount = 0 then
    held (w.idOf keep) (w.threads.map Thread.tid)
  else lost

end Hold

/-- What is gathered from the events: the command that was read last, and the threads that
are suspended. -/
structure Custody where
  command : Option Command
  hold : Hold

/-- Before anything has happened. -/
def Custody.zero : Custody := ⟨none, .free⟩

/-- What an event adds. -/
def Custody.note (c : Custody) (e : Event σ) : Custody :=
  match e.kind with
  | .command k => { c with command := some k }
  | .suspendOthers keep => { c with hold := .reported e.world keep }
  | .resumeOthers _ => { c with hold := c.hold.thawed }
  | .waited (.stopped _) => { c with hold := c.hold.stopped e.world }
  | .fork => { c with hold := .free }
  | _ => c

/-- The commands that step one thread. -/
def Command.steps (c : Command) : Prop := c = .step ∨ c = .next ∨ c = .si

instance instDecidableSteps (c : Command) : Decidable c.steps :=
  inferInstanceAs (Decidable (_ ∨ _))

/-- Whether an event is an accepted `PT_STEP`. -/
def EventKind.isStep : EventKind → Bool
  | .ptStep => true
  | _ => false

namespace Event

/-- At a `PT_STEP` the selected thread is not suspended and all others are. -/
def stepsAlone (e : Event σ) : Prop :=
  ∀ t ∈ e.world.threads, if t.tid = e.world.idOf e.world.dbg.currentTid then t.suspendCount = 0
    else 1 ≤ t.suspendCount

/-- A `PT_STEP` of `step`, `next` or `si` steps the selected thread alone. -/
def siblingsFrozen (c : Custody) (e : Event σ) : Prop :=
  e.kind.isStep = true → (∃ k ∈ c.command, k.steps) → e.stepsAlone

/-- At such a `PT_STEP` the debuggee was never reported and has one thread, or the selected
thread is the one that the last report kept, and the others were there at it and have not
been resumed. -/
def underHold (c : Custody) (e : Event σ) : Prop :=
  e.kind.isStep = true → (∃ k ∈ c.command, k.steps) →
    match c.hold with
    | .free => ∀ t ∈ e.world.threads, t.tid = e.world.idOf e.world.dbg.currentTid
    | .held keep others => e.world.idOf e.world.dbg.currentTid = keep ∧
        ∀ t ∈ e.world.threads, t.tid = keep ∨ t.tid ∈ others
    | .lost => False

instance (e : Event σ) : Decidable e.stepsAlone :=
  inferInstanceAs (Decidable (∀ t ∈ e.world.threads, _))

instance instDecidableSiblingsFrozen (c : Custody) (e : Event σ) :
    Decidable (e.siblingsFrozen c) :=
  inferInstanceAs (Decidable (_ → _ → _))

instance instDecidableUnderHold (c : Custody) (e : Event σ) : Decidable (e.underHold c) := by
  unfold underHold
  cases c.hold <;> infer_instance

end Event

/-! ### The invariant -/

/-- The suspend counts are as they are known to be. -/
def World.Upholds (w : World σ) : Hold → Prop
  | .free => ∀ t ∈ w.threads, t.suspendCount = 0
  | .held keep others => ∀ t ∈ w.threads,
      (t.tid = keep → t.suspendCount = 0) ∧ (t.tid ∈ others → t.tid ≠ keep → 1 ≤ t.suspendCount)
  | .lost => True

namespace World

variable {w w' : World σ} {hold : Hold}

/-- A process whose threads have the counts of the threads before keeps them. -/
lemma Upholds.of_threads (h : w.Upholds hold)
    (hw : ∀ t ∈ w'.threads, ∃ u ∈ w.threads, u.tid = t.tid ∧ u.suspendCount = t.suspendCount) :
    w'.Upholds hold := by
  cases hold with
  | free =>
      intro t ht
      obtain ⟨u, hu, -, hc⟩ := hw t ht
      rw [← hc]
      exact h u hu
  | held keep others =>
      intro t ht
      obtain ⟨u, hu, htid, hc⟩ := hw t ht
      rw [← hc, ← htid]
      exact h u hu
  | lost => trivial

lemma Upholds.mild (h : w.Upholds hold) (hm : Mild w w') : w'.Upholds hold := by
  refine h.of_threads fun t ht => ?_
  rw [threads] at ht
  cases hp' : w'.proc with
  | none => simp [hp'] at ht
  | some p' =>
      rw [hp'] at ht
      obtain ⟨p, hp, hr⟩ := hm.exists_proc' hp'
      have hmem : (t.tid, t.suspendCount)
          ∈ p'.threads.list.map fun t => (t.tid, t.suspendCount) := List.mem_map_of_mem ht
      rw [hr.threads] at hmem
      obtain ⟨u, hu, hut⟩ := List.mem_map.mp hmem
      exact ⟨u, by rw [threads, hp]; exact hu, (Prod.mk.inj hut).1, (Prod.mk.inj hut).2⟩

lemma Upholds.of_none (hp : w.proc = none) : w.Upholds hold := by
  have hnil : w.threads = [] := by rw [threads, hp]
  cases hold with
  | free => intro t ht; rw [hnil] at ht; cases ht
  | held keep others => intro t ht; rw [hnil] at ht; cases ht
  | lost => trivial

/-- The process of a world changed only in how it runs, and the debugger changed. -/
lemma Upholds.setProc {pid : ℕ} {p : Proc} (h : w.Upholds hold) (hp : w.taskForPid pid = some p)
    {q : Proc} (hq : q.threads = p.threads) {d : Dbg} : ((w.setProc q).setDbg d).Upholds hold := by
  refine h.of_threads fun t ht => ⟨t, ?_, rfl, rfl⟩
  rw [threads_of_task hp, ← hq]
  exact ht

/-- Resuming the others keeps what is still known. -/
lemma Upholds.thawed {pid : ℕ} {p : Proc} {keep : Tid} (h : w.Upholds hold)
    (hp : w.taskForPid pid = some p) {q : Proc}
    (hq : q.threads = p.threads.resumeOthers keep) {d : Dbg} :
    ((w.setProc q).setDbg d).Upholds hold.thawed := by
  have hcount : ∀ t ∈ q.threads.list, ∃ u ∈ w.threads,
      u.tid = t.tid ∧ (u.suspendCount = 0 → t.suspendCount = 0) := by
    intro t ht
    rw [hq] at ht
    obtain ⟨u, hu, rfl⟩ := List.mem_map.mp ht
    refine ⟨u, by rw [threads_of_task hp]; exact hu, rfl, fun h0 => ?_⟩
    dsimp only
    split
    · exact h0
    · rw [h0]
  cases hold with
  | free =>
      intro t ht
      obtain ⟨u, hu, -, hz⟩ := hcount t ht
      exact hz (h u hu)
  | held k others =>
      intro t ht
      obtain ⟨u, hu, htid, hz⟩ := hcount t ht
      exact ⟨fun hk => hz ((h u hu).1 (htid.trans hk)), fun hmem => absurd hmem List.not_mem_nil⟩
  | lost => trivial

/-- Suspending the others. -/
lemma upholds_frozen {pid : ℕ} {p : Proc} {keep : Tid} (hp : w.taskForPid pid = some p) :
    (w.setProc (p.frozen keep)).Upholds (.reported w keep) := by
  rw [Hold.reported]
  split
  next hzero =>
    intro t ht
    obtain ⟨u, hu, rfl⟩ := List.mem_map.mp ht
    rw [threads_of_task hp] at hzero
    rw [idOf_of_task hp] at hzero ⊢
    refine ⟨fun hk => ?_, fun _ hk => ?_⟩
    · dsimp only at hk ⊢
      rw [if_pos hk]
      exact hzero u hu hk
    · dsimp only at hk ⊢
      rw [if_neg hk]
      exact Nat.le_add_left _ _
  next => trivial

/-- At a stop the threads that were there keep their counts. -/
lemma Upholds.stopped {pid : ℕ} {p : Proc} (h : w.Upholds hold) (hp : w.taskForPid pid = some p)
    {s : StopState} (hw : w'.threads = (p.stopWith s).threads.list) :
    w'.Upholds (hold.stopped w) := by
  have hcount : ∀ t ∈ w'.threads, (∃ u ∈ w.threads, u.tid = t.tid ∧
      u.suspendCount = t.suspendCount) ∨
      (∀ u ∈ w.threads, u.tid ≠ t.tid) ∧ t.suspendCount = 0 := by
    intro t ht
    rw [hw, Proc.stopWith, Threads.list_map] at ht
    obtain ⟨v, _, rfl⟩ := List.mem_map.mp ht
    rw [Proc.keepKernelState, threads_of_task hp]
    split
    next u hu =>
      refine .inl ⟨u, List.mem_of_find?_eq_some hu, ?_, rfl⟩
      simpa using List.find?_some hu
    next hu =>
      refine .inr ⟨fun u hmem => ?_, rfl⟩
      simpa using List.find?_eq_none.mp hu u hmem
  cases hold with
  | free =>
      intro t ht
      rcases hcount t ht with ⟨u, hu, -, hs⟩ | ⟨-, h0⟩
      · rw [← hs]
        exact h u hu
      · exact h0
  | held keep others =>
      intro t ht
      rcases hcount t ht with ⟨u, hu, htid, hs⟩ | ⟨hnew, h0⟩
      · rw [← htid, ← hs]
        exact ⟨(h u hu).1, fun hmem => (h u hu).2 (List.mem_of_mem_filter hmem)⟩
      · refine ⟨fun _ => h0, fun hmem => ?_⟩
        have hold : t.tid ∈ w.threads.map Thread.tid := by
          simpa using (List.mem_filter.mp hmem).2
        obtain ⟨u, hu, htid⟩ := List.mem_map.mp hold
        exact absurd htid (hnew u hu)
  | lost => trivial

end World

/-- What is known makes a `PT_STEP` under it step one thread alone. -/
lemma Event.stepsAlone_of_upholds {c : Custody} {e : Event σ} (h : e.world.Upholds c.hold)
    (hu : e.underHold c) : e.siblingsFrozen c := by
  intro hk hc t ht
  have hold := hu hk hc
  cases hh : c.hold with
  | free =>
      rw [hh] at h hold
      rw [if_pos (hold t ht)]
      exact h t ht
  | held keep others =>
      rw [hh] at h hold
      obtain ⟨rfl, hall⟩ := hold
      split
      next heq => exact (h t ht).1 heq
      next hne => exact (h t ht).2 ((hall t ht).resolve_left hne) hne
  | lost =>
      rw [hh] at hold
      exact hold.elim

/-! ### Steps -/

/-- The events that matter to the custody of the threads. -/
def EventKind.moved : EventKind → Bool
  | .command _ => true
  | .suspendOthers _ => true
  | .resumeOthers _ => true
  | .waited (.stopped _) => true
  | .fork => true
  | _ => false

lemma Custody.note_of_not_moved {e : Event σ} (h : e.kind.moved = false) (c : Custody) :
    c.note e = c := by
  obtain ⟨k, w⟩ := e
  cases k with
  | waited o => cases o <;> simp_all [note, EventKind.moved]
  | _ => simp_all [note, EventKind.moved]

lemma Custody.foldl_note {t : List (Event σ)} (h : ∀ e ∈ t, e.kind.moved = false)
    (c : Custody) : t.foldl note c = c := by
  induction t generalizing c with
  | nil => rfl
  | cons e t ih =>
      have he : c.note e = c := note_of_not_moved (h e List.mem_cons_self) c
      rw [List.foldl_cons, he]
      exact ih (fun e he => h e (List.mem_cons_of_mem _ he)) c

/-- At a `PT_STEP` the suspend counts are as they are known to be. -/
def Event.kept (c : Custody) (e : Event σ) : Prop :=
  e.kind.isStep = true → e.world.Upholds c.hold

lemma along_kept_of_not_step {t : List (Event σ)} (h : ∀ e ∈ t, e.kind.isStep = false)
    (c : Custody) : Along Custody.note (fun c e => e.kept c) c t := by
  induction t generalizing c with
  | nil => trivial
  | cons e t ih =>
      refine ⟨fun hk => ?_, ih (fun e he => h e (List.mem_cons_of_mem _ he)) _⟩
      rw [h e List.mem_cons_self] at hk
      cases hk

lemma EventKind.not_moved_of_mild {k : EventKind} (h : k.mild = true) :
    k.moved = false ∧ k.isStep = false := by
  cases k <;> simp_all [mild, inert, isHit, moved, isStep]

/-- One step keeps the counts as they are known to be. -/
lemma Fine.kept {host : Host σ} {w w' : World σ} {t : List (Event σ)} (h : Fine host w t w')
    (c : Custody) (hw : w.Upholds c.hold) :
    w'.Upholds (t.foldl Custody.note c).hold ∧ Along Custody.note (fun c e => e.kept c) c t := by
  cases h.effect with
  | mild hm ht =>
      have hk := fun e he => EventKind.not_moved_of_mild (ht e he).2
      rw [Custody.foldl_note fun e he => (hk e he).1]
      exact ⟨hw.mild hm, along_kept_of_not_step (fun e he => (hk e he).2) c⟩
  | @step _ p hp hr => exact ⟨hw.setProc (d := w.dbg.resumed) hp rfl, fun _ => hw, trivial⟩
  | resume hp hr =>
      exact ⟨hw.thawed hp rfl, along_kept_of_not_step (by simp [EventKind.isStep]) c⟩
  | thaw hp hr =>
      exact ⟨hw.thawed hp rfl, along_kept_of_not_step (by simp [EventKind.isStep]) c⟩
  | hang _ => exact ⟨hw, trivial⟩
  | @waited _ p r o h hp hr ho =>
      refine ⟨?_, along_kept_of_not_step (by simp [EventKind.isStep]) c⟩
      cases o with
      | exited _ => exact World.Upholds.of_none rfl
      | signaled _ => exact World.Upholds.of_none rfl
      | stopped s => exact hw.stopped hp rfl
  | freeze hp =>
      exact ⟨World.upholds_frozen hp, along_kept_of_not_step (by simp [EventKind.isStep]) c⟩
  | select _ => exact ⟨hw, trivial⟩
  | forkFails _ => exact ⟨hw, trivial⟩
  | fork _ _ _ _ =>
      refine ⟨fun t ht => ?_, along_kept_of_not_step (by simp [EventKind.isStep]) c⟩
      obtain ⟨u, _, rfl⟩ := List.mem_map.mp ht
      rfl
  | stopNone _ => exact ⟨hw, trivial⟩
  | stopIdle _ => exact ⟨hw, trivial⟩
  | killed _ _ =>
      exact ⟨World.Upholds.of_none rfl, along_kept_of_not_step (by simp [EventKind.isStep]) c⟩
  | exit _ => exact ⟨hw, along_kept_of_not_step (by simp [EventKind.isStep]) c⟩

/-- Reading a command changes no thread. -/
lemma Turn.kept {host : Host σ} {w w' : World σ} {t : List (Event σ)}
    (h : Turn (Fine host) w t w') (c : Custody) (hw : w.Upholds c.hold) :
    w'.Upholds (t.foldl Custody.note c).hold ∧ Along Custody.note (fun c e => e.kept c) c t := by
  cases h with
  | op h => exact h.kept c hw
  | read => exact ⟨hw, along_kept_of_not_step (by simp [EventKind.isStep]) c⟩

/-- **Siblings are frozen while stepping**: in a session in which every `PT_STEP` of `step`,
`next` and `si` finds the selected thread and the others as the last report left them, it
steps the selected thread alone. -/
theorem steps_freeze_siblings (host : Host σ) (s : σ) (argv input : List Str)
    (h : Along Custody.note (fun c e => e.underHold c) .zero
      (cdbgMain host argv input (World.start s)).trace) :
    Along Custody.note (fun c e => e.siblingsFrozen c) .zero
      (cdbgMain host argv input (World.start s)).trace := by
  have hstep : ∀ w t w', Turn (Fine host) w t w' → ∀ c : Custody, w.Upholds c.hold →
      (∀ e ∈ t, True) →
      w'.Upholds (t.foldl Custody.note c).hold ∧ Along Custody.note (fun c e => e.kept c) c t :=
    fun _ _ _ ht c hw _ => ht.kept c hw
  have hkept : Along Custody.note (fun c e => e.kept c) .zero
      (cdbgMain host argv input (World.start s)).trace :=
    (grain_cdbgMain (Fine.grain host) argv input).along hstep
      (fun t ht => by simp [World.threads, World.start] at ht) fun _ _ => trivial
  exact hkept.imp₂ (fun c e hk hu hs => Event.stepsAlone_of_upholds (hk hs) hu hs) h

/-- After two `si` the second thread is suspended once at the second `PT_STEP`. -/
theorem steps_freeze_siblings_script :
    Along Custody.note (fun c e => e.siblingsFrozen c) .zero
      (cdbgMain (Script.host .stripped) ["a".toList]
        ["si".toList, "si".toList, "continue".toList, "si".toList]
        (World.start twoThreadScript)).trace :=
  steps_freeze_siblings _ _ _ _ (by decide +kernel)

/-- A child that has two threads from the start. -/
def crowdScript : Script :=
  let stop : StopState := ⟨.numbered (.at 1 0x1004) [.at 2 0x2000], fun _ => 0, fun _ => true⟩
  ⟨[.of stop], [.stopped stop, .stopped stop]⟩

/-- The first `si` of a child with two threads lets the second one run. -/
theorem step_frees_sibling :
    ¬ Along Custody.note (fun c e => e.siblingsFrozen c) .zero
      (cdbgMain (Script.host .stripped) ["a".toList] ["si".toList]
        (World.start crowdScript)).trace := by
  decide +kernel

end Cdbg
