import Cdbg.Control.Effect

/-!
The state of the debugger and what its child is doing: `dbg->state` says whether there
is a child, whether it is stopped for the debugger and whether it runs, and every
operation keeps it so (`Fine.coherent`), whatever goes wrong in between.
-/

namespace Cdbg

open Prog

variable {σ α : Type} {host : Host σ}

/-- The child, as far as resuming and waiting go: its id and how it runs. -/
def World.child (w : World σ) : Option (ℕ × Option Resume) :=
  w.proc.map fun p => (p.pid, p.running)

/-- What a state of the debugger says about the child. -/
def State.agrees (pid : ℕ) (child : Option (ℕ × Option Resume)) : State → Prop
  | .idle => child = none
  | .stopped => child = some (pid, none)
  | .running => ∃ r, child = some (pid, some r) ∧ r ≠ .sigkill

/-- The debugger's state agrees with its child. -/
def World.Coherent (w : World σ) : Prop := w.dbg.state.agrees w.dbg.pid w.child

/-- The debugger is in this state, and its child too. -/
def World.inState (s : State) (w : World σ) : Prop := w.dbg.state = s ∧ w.Coherent

/-- The debugger has been given control: its child is not running. -/
def World.Settled (w : World σ) : Prop := w.dbg.state ≠ .running ∧ w.Coherent

namespace World

lemma inState.settled {w : World σ} {s : State} (h : w.inState s) (hs : s ≠ .running) :
    w.Settled := ⟨h.1 ▸ hs, h.2⟩

/-- A settled debugger that is not idle is stopped. -/
lemma Settled.stopped {w : World σ} (h : w.Settled) (hi : w.dbg.state ≠ .idle) :
    w.inState .stopped := by
  refine ⟨?_, h.2⟩
  have hr := h.1
  cases hs : w.dbg.state with
  | idle => exact absurd hs hi
  | running => exact absurd hs hr
  | stopped => rfl

lemma child_of_task {w : World σ} {pid : ℕ} {p : Proc} (h : w.taskForPid pid = some p) :
    w.child = some (pid, p.running) := by
  obtain ⟨hp, rfl⟩ := taskForPid_eq_some.mp h
  rw [child, hp]
  rfl

lemma task_of_child {w : World σ} {pid : ℕ} {r : Option Resume}
    (h : w.child = some (pid, r)) : ∃ p, w.taskForPid pid = some p ∧ p.running = r := by
  obtain ⟨p, hp, he⟩ := Option.map_eq_some_iff.mp h
  obtain ⟨h1, h2⟩ := Prod.mk.inj he
  exact ⟨p, taskForPid_eq_some.mpr ⟨hp, h1⟩, h2⟩

/-- At a stop the child can be reached and is stopped. -/
lemma inState.task {w : World σ} (h : w.inState .stopped) :
    ∃ p, w.taskForPid w.dbg.pid = some p ∧ p.running = none := by
  have hc := h.2
  rw [Coherent, h.1] at hc
  exact task_of_child hc

/-- While the debugger waits the child can be reached and is running. -/
lemma inState.task_running {w : World σ} (h : w.inState .running) :
    ∃ p r, w.taskForPid w.dbg.pid = some p ∧ p.running = some r ∧ r ≠ .sigkill := by
  have hc := h.2
  rw [Coherent, h.1] at hc
  obtain ⟨r, hc, hr⟩ := hc
  obtain ⟨p, hp, hpr⟩ := task_of_child hc
  exact ⟨p, r, hp, hpr, hr⟩

/-- A child that can be reached shows that the debugger is not idle. -/
lemma Coherent.not_idle {w : World σ} (h : w.Coherent) {pid : ℕ} {p : Proc}
    (hp : w.taskForPid pid = some p) : w.dbg.state ≠ .idle := by
  intro hs
  rw [Coherent, hs, child_of_task hp] at h
  cases h

/-- The child is the one of the debugger's process id. -/
lemma Coherent.task_of_proc {w : World σ} (h : w.Coherent) {p : Proc} (hp : w.proc = some p) :
    w.taskForPid w.dbg.pid = some p := by
  have hchild : w.child = some (p.pid, p.running) := by
    rw [child, hp]
    rfl
  refine taskForPid_eq_some.mpr ⟨hp, ?_⟩
  rw [Coherent, hchild] at h
  cases hs : w.dbg.state with
  | idle =>
      rw [hs] at h
      cases h
  | stopped =>
      rw [hs] at h
      exact congrArg Prod.fst (Option.some.inj h)
  | running =>
      rw [hs] at h
      obtain ⟨r, h, _⟩ := h
      exact congrArg Prod.fst (Option.some.inj h)

/-- Coherence depends on the state, the process id and how the child runs only. -/
lemma Coherent.congr {w w' : World σ} (h : w.Coherent) (hs : w'.dbg.state = w.dbg.state)
    (hpid : w'.dbg.pid = w.dbg.pid) (hc : w'.child = w.child) : w'.Coherent := by
  rw [Coherent, hs, hpid, hc]
  exact h

lemma inState.congr {w w' : World σ} {s : State} (h : w.inState s)
    (hs : w'.dbg.state = w.dbg.state) (hpid : w'.dbg.pid = w.dbg.pid)
    (hc : w'.child = w.child) : w'.inState s :=
  ⟨hs.trans h.1, h.2.congr hs hpid hc⟩

/-- Replacing a child that runs likewise. -/
lemma child_setProc {w : World σ} {pid : ℕ} {p q : Proc} (hp : w.taskForPid pid = some p)
    (hpid : q.pid = p.pid) (hr : q.running = p.running) : (w.setProc q).child = w.child := by
  obtain ⟨hproc, _⟩ := taskForPid_eq_some.mp hp
  simp [child, hproc, hpid, hr]

/-- The child right after the debugger has resumed it. -/
lemma coherent_resumed {w : World σ} {p q : Proc} {r : Resume}
    (hp : w.taskForPid w.dbg.pid = some p) (hpid : q.pid = p.pid)
    (hr : q.running = some r) (hk : r ≠ .sigkill) :
    ((w.setProc q).setDbg w.dbg.resumed).inState .running := by
  obtain ⟨_, hpp⟩ := taskForPid_eq_some.mp hp
  refine ⟨rfl, r, ?_, hk⟩
  simp [child, hpid, hr, hpp, Dbg.resumed]

/-- After a wait the debugger is stopped or idle, as is its child. -/
lemma settled_afterWait {w : World σ} {p : Proc} (hp : w.taskForPid w.dbg.pid = some p)
    (h : σ) (o : Outcome) : (w.afterWait h p o).Settled := by
  obtain ⟨_, hpp⟩ := taskForPid_eq_some.mp hp
  cases o with
  | exited c => exact ⟨by simp [afterWait, deliver, WaitStatus.state], rfl⟩
  | signaled s => exact ⟨by simp [afterWait, deliver, WaitStatus.state], rfl⟩
  | stopped s =>
      refine ⟨by simp [afterWait, deliver, WaitStatus.state], ?_⟩
      change some ((p.stopWith s).pid, (p.stopWith s).running) = some (w.dbg.pid, none)
      rw [← hpp]
      rfl

end World

lemma Mild.child {w w' : World σ} (h : Mild w w') : w'.child = w.child := by
  cases hp : w.proc with
  | none =>
      cases hp' : w'.proc with
      | none => rw [World.child, World.child, hp, hp']
      | some p' =>
          obtain ⟨p, hp0, _⟩ := h.exists_proc' hp'
          rw [hp] at hp0
          cases hp0
  | some p =>
      obtain ⟨p', hp', hm⟩ := h.exists_proc hp
      rw [World.child, World.child, hp, hp', Option.map_some, Option.map_some, hm.pid, hm.running]

/-- **Coherence is invariant**: every operation leaves the debugger's state in agreement
with its child. -/
theorem Fine.coherent {w w' : World σ} {t : List (Event σ)} (h : Fine host w t w')
    (hw : w.Coherent) : w'.Coherent := by
  cases h.effect with
  | mild hm _ => exact hw.congr hm.state hm.pid hm.child
  | @step _ p hp hr =>
      exact (World.coherent_resumed (q := { p with running := some .step }) hp rfl rfl
        (by simp)).2
  | @resume _ p hp hr =>
      exact (World.coherent_resumed
        (q := { p.thawed w.dbg.currentTid with running := some .cont }) hp rfl rfl (by simp)).2
  | thaw hp hr => exact hw.congr rfl rfl (World.child_setProc hp rfl rfl)
  | hang _ => exact hw
  | waited hp hr ho => exact (World.settled_afterWait hp _ _).2
  | freeze hp => exact hw.congr rfl rfl (World.child_setProc hp rfl rfl)
  | select _ => exact hw
  | forkFails _ => exact hw
  | @fork b h _ _ _ _ => exact ⟨.exec, rfl, by simp⟩
  -- a process id of zero is that of no process
  | stopNone h0 =>
      cases hs : w.dbg.state with
      | idle => rw [World.Coherent, hs] at hw; exact hw
      | stopped =>
          obtain ⟨p, hp, _⟩ := World.inState.task ⟨hs, hw⟩
          have := p.pid_pos
          have := (World.taskForPid_eq_some.mp hp).2
          omega
      | running =>
          obtain ⟨p, _, hp, _⟩ := World.inState.task_running ⟨hs, hw⟩
          have := p.pid_pos
          have := (World.taskForPid_eq_some.mp hp).2
          omega
  | stopIdle hs => rw [World.Coherent, hs] at hw; exact hw
  | killed _ _ => exact rfl
  | exit hs =>
      rw [World.Coherent, hs] at hw
      rw [World.Coherent]
      change (w.dbg.state).agrees _ _
      rw [hs]
      exact hw

/-- An edit leaves the state of the debugger alone. -/
lemma Edit.state {w w' : World σ} {t : List (Event σ)} (h : Edit w t w') :
    w'.dbg.state = w.dbg.state := by
  cases h with
  | still h => exact h.1.state
  | enable _ _ _ hbp =>
      rcases enableEntry_cases hbp with ⟨_, h⟩ | ⟨p, _, _, h⟩ <;> simp [h, Dbg.setEntry]
  | disable _ _ _ hbp =>
      rcases disableEntry_cases hbp with ⟨_, h⟩ | ⟨_, p, _, _, h⟩ | ⟨_, _, h⟩ | ⟨_, p, _, _, h⟩ <;>
        simp [h, Dbg.setEntry]
  | add _ addr =>
      rcases addBreakpoint_cases addr w with h | ⟨_, h⟩ | ⟨p, _, _, _, h⟩ <;>
        simp [h, Dbg.pushEntry]
  | erase => rfl
  | freeze =>
      rcases threadsSuspendOthers_cases w.dbg.pid w.dbg.currentTid w with h | ⟨p, _, h⟩ <;> simp [h]
  | select => rfl
  | store _ addr size value =>
      rcases writeScalarValue_cases addr size value w with ⟨_, h⟩ | ⟨p, _, ⟨_, h⟩ | ⟨_, h⟩⟩ <;>
        simp [h]

/-- An edit keeps the debugger in its state. -/
lemma Edit.inState (host : Host σ) {w w' : World σ} {t : List (Event σ)} {s : State}
    (h : Edit w t w') (hw : w.inState s) : w'.inState s :=
  ⟨h.state.trans hw.1, Fine.coherent (.prim (.edit h) : Fine host w t w') hw.2⟩

/-- Disarming and arming keeps the debugger in its state. -/
lemma Rig.inState (host : Host σ) {w w' : World σ} {t : List (Event σ)} {s : State}
    (h : Rig w t w') (hw : w.inState s) : w'.inState s :=
  ⟨h.quiet.1.state.trans hw.1, Fine.coherent (.rig h : Fine host w t w') hw.2⟩

/-- Whatever moves by fine steps keeps the debugger and its child in agreement. -/
lemma spec_coherent {ok good : Event σ → Prop} {m : Debugger σ α} (h : Moves (Fine host) m)
    (hg : ∀ e, ok e → good e) : Spec ok good World.Coherent m fun _ => World.Coherent :=
  h.spec fun _ _ _ hf hw hok => ⟨hf.coherent hw, fun e he => hg e (hok e he)⟩

/-- Whatever only edits keeps the debugger in its state. -/
lemma spec_edit (host : Host σ) {ok good : Event σ → Prop} {m : Debugger σ α}
    (h : Moves Edit m) (hg : ∀ e, ok e → good e) (s : State) :
    Spec ok good (World.inState s) m fun _ => World.inState s :=
  h.spec fun _ _ _ he hw hok => ⟨he.inState host hw, fun e h => hg e (hok e h)⟩

/-- A program that disarms or arms at this world. -/
lemma spec_rig (host : Host σ) {ok good : Event σ → Prop} {m : Debugger σ α} {w : World σ}
    (h : Rig w (m w).trace (m w).final) {s : State} (hw : w.inState s) :
    Spec ok good (· = w) m fun _ => World.inState s := by
  rintro _ rfl _
  refine ⟨?_, fun _ _ => h.inState host hw⟩
  rw [h.quiet.2]
  simp

end Cdbg
