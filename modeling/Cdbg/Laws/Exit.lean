import Cdbg.Laws.Restart

/-!
The end of `cdbg_repl`: whether the debuggee is gone when it returns.

Only `quit` ends the debuggee. The loop is also left at the end of the input and by the
commands that fail, and then the debuggee is whatever it was; so it is gone exactly if
there was none at the last prompt.
-/

namespace Cdbg

open Prog

variable {σ α : Type} {host : Host σ}

/-- The debuggee has been reaped, and the debugger knows. -/
def World.Reaped (w : World σ) : Prop := w.dbg.pid = 0 ∧ w.dbg.state = .idle

instance (w : World σ) : Decidable w.Reaped := inferInstanceAs (Decidable (_ ∧ _))

/-- The last command that `cdbg_repl` reads from these lines before it returns, none if it
returns at their end, and the world at that last prompt. -/
def lastPrompt (host : Host σ) : List Str → World σ → Option (Option Command × World σ)
  | [], w => some (none, w)
  | line :: lines, w =>
      let cmd := Command.parse line
      match (execCommand host cmd w).value with
      | none => none
      | some (some _) => some (some cmd, w)
      | some none => lastPrompt host lines (execCommand host cmd w).final

/-- A debugger at rest knows that the debuggee is gone if it is idle. -/
lemma World.Resting.reaped_iff {w : World σ} (h : w.Resting) :
    w.Reaped ↔ w.dbg.state = .idle :=
  ⟨fun hr => hr.2, fun hi => ⟨(h.2 hi).1, hi⟩⟩

/-! ### The process id -/

/-- Steps that leave the process id alone. -/
def SamePid : Step (Event σ) (World σ) := fun w _ w' => w'.dbg.pid = w.dbg.pid

/-- Stepping and waiting leave the process id alone. -/
lemma Drive.pid {w w' : World σ} {t : List (Event σ)} (h : Drive host w t w') :
    w'.dbg.pid = w.dbg.pid := by
  cases h with
  | still h => exact h.1.pid
  | enable _ i bp hbp =>
      rcases enableEntry_cases hbp with ⟨_, h⟩ | ⟨p, _, _, h⟩ <;> rw [h]
      rfl
  | singleStep =>
      rcases cdbgSingleStep_cases w with ⟨h, _⟩ | ⟨p, _, _, h⟩ <;> rw [h]
      rfl
  | wait =>
      rcases waitForStop_cases host w with ⟨_, h⟩ | ⟨h', h⟩ | ⟨p, r, o, h', _, _, _, h⟩
      · rw [h]
      · rw [h]
      · rw [h]
        cases o <;> rfl

lemma SamePid.haul (host : Host σ) : Haul host (SamePid (σ := σ)) where
  drive _ _ _ h := h.pid
  plant w addr := by
    rcases bpEnable_cases .temp .zero w.dbg.pid addr w with ⟨_, h⟩ | ⟨p, _, _, h⟩ <;>
      rw [SamePid, h]
    rfl
  lift w bp := by
    rcases bpDisable_cases bp w.dbg.pid w with ⟨_, h⟩ | ⟨_, p, _, _, h⟩ | ⟨_, _, h⟩ |
      ⟨_, p, _, _, h⟩ <;> rw [SamePid, h] <;> rfl
  resume w := by
    rcases thawAndContinue_cases w with ⟨_, h⟩ | ⟨p, _, ⟨_, h⟩ | ⟨_, h⟩⟩ <;>
      rw [SamePid, h] <;> rfl

/-- What a program leaves, without its events. -/
lemma ends_of_rests {P : World σ → Prop} {m : Debugger σ α} {Q : α → World σ → Prop}
    (h : Rests P m Q) : Ends P m Q :=
  fun w hw hok => ⟨fun _ _ => trivial, (h w hw hok).2⟩

/-- The process id stays that of a debuggee that is continued. -/
lemma pid_cdbgContinue {n : ℕ} :
    Ends (fun w => w.inState .stopped ∧ w.dbg.pid = n) (cdbgContinue host)
      fun rc w => (rc = 0 → w.inState .running) ∧ w.dbg.pid = n := by
  have hpid : Ends (fun w => w.dbg.pid = n) (cdbgContinue host) fun _ w => w.dbg.pid = n :=
    (haul_cdbgContinue (SamePid.haul host)).spec fun _ _ _ hs hn _ =>
      ⟨(show _ = _ from hs).trans hn, fun _ _ => trivial⟩
  intro w hw hok
  refine ⟨fun _ _ => trivial, fun rc hrc => ⟨fun h0 => ?_, (hpid w hw.2 hok).2 rc hrc⟩⟩
  rcases (rests_cdbgContinue w hw.1 hok).2 rc hrc with h | h
  · exact h.2
  · exact absurd h0 h.1

/-! ### Commands that end the loop -/

/-- If a command ends `cdbg_repl`, the debuggee is gone exactly if this holds. -/
def World.GoneIff (c : Prop) (r : Option ℤ) (w : World σ) : Prop := r ≠ none → (w.Reaped ↔ c)

lemma World.goneIff_none {c : Prop} (w : World σ) : w.GoneIff c none := fun h => absurd rfl h

lemma World.goneIff_false {r : Option ℤ} {w : World σ} (h : w.dbg.state ≠ .idle) :
    w.GoneIff False r := fun _ => iff_of_false (fun hr => h hr.2) id

/-- A command that never ends `cdbg_repl`. -/
lemma gone_ignoring {P : World σ → Prop} {c : Prop} (m : Debugger σ α) :
    Ends P (ignoring m) (World.GoneIff c) :=
  Spec.bind (ends_any m) fun _ => Spec.pure _ fun w _ => w.goneIff_none

lemma gone_pure {P : World σ → Prop} {c : Prop} :
    Ends P (pure none : Debugger σ (Option ℤ)) (World.GoneIff c) :=
  Spec.pure _ fun w _ => w.goneIff_none

lemma gone_waitAndReport :
    Ends (World.inState .running) (waitAndReport host) (World.GoneIff False) := by
  refine Spec.bind_rc (ends_of_rests rests_cdbgWait) (fun rc _ => Spec.get_bind fun w hw => ?_)
    (Spec.get_bind fun w hw => ?_)
  · exact Spec.ite (fun _ => gone_ignoring reportProcessExit)
      fun hi => Spec.pure_from _ (World.goneIff_false hi)
  · exact Spec.ite (fun _ => gone_ignoring (reportStop host))
      fun _ => gone_ignoring reportProcessExit

/-- A command that does nothing without a debuggee. -/
lemma gone_of_stopped {w : World σ} {m : Debugger σ (Option ℤ)}
    (hm : w.dbg.state ≠ .idle → Ends (· = w) m (World.GoneIff False)) :
    Ends (· = w) (do
      let w ← Prog.get
      if w.dbg.state = .idle then
        return none
      m) (World.GoneIff (w.dbg.state = .idle)) := by
  refine Spec.get_bind fun w' hw' => ?_
  subst hw'
  refine Spec.ite (fun _ => gone_pure) fun hi => (hm hi).post fun r w'' h hne => ?_
  exact (h hne).trans (iff_of_false id hi)

lemma gone_execContinue {w : World σ} (hw : w.Resting) :
    Ends (· = w) (execContinue host) (World.GoneIff (w.dbg.state = .idle)) := by
  refine gone_of_stopped fun hi => ?_
  have hpid : w.dbg.pid ≠ 0 := fun h0 => hi (hw.atPrompt.idle_iff.mpr h0)
  have hcont : Ends (· = w) (cdbgContinue host) fun rc w' =>
      (rc = 0 → w'.inState .running) ∧ w'.dbg.pid = w.dbg.pid :=
    pid_cdbgContinue.from ⟨hw.1.stopped hi, rfl⟩
  refine Spec.bind_rc hcont (fun _ _ => ?_) ?_
  · exact Spec.pure _ fun w' h _ => iff_of_false (fun hr => hpid (h.2.symm.trans hr.1)) id
  · refine Spec.get_bind fun w' hw' => Spec.ite (fun _ => gone_ignoring reportProcessExit) ?_
    exact fun _ => gone_waitAndReport.from (hw'.1 rfl)

lemma gone_execStep (w : World σ) (stepLine : Debugger σ ℤ) :
    Ends (· = w) (execStep stepLine) (World.GoneIff (w.dbg.state = .idle)) := by
  refine gone_of_stopped fun _ => Spec.bind (ends_any stepLine) fun rc => ?_
  refine Spec.get_bind fun w' _ => Spec.ite (fun hc => ?_) fun _ => gone_ignoring reportProcessExit
  exact Spec.pure_from _ (World.goneIff_false hc.2)

lemma gone_execSi {w : World σ} (hw : w.Resting) :
    Ends (· = w) (execSi host) (World.GoneIff (w.dbg.state = .idle)) := by
  refine gone_of_stopped fun hi => ?_
  exact Spec.bind_ok ((ends_of_rests rests_singleStep).from (hw.1.stopped hi)) gone_waitAndReport

/-- `regs` changes nothing that matters here, whether it ends the loop or not. -/
lemma gone_execRegs {w : World σ} (hw : w.Resting) :
    Ends (· = w) (execRegs (σ := σ)) (World.GoneIff (w.dbg.state = .idle)) := by
  intro w' hw' hok
  subst hw'
  have hquiet : Ends (fun w'' => w''.dbg.pid = w'.dbg.pid ∧ w''.dbg.state = w'.dbg.state)
      (execRegs (σ := σ)) fun _ w'' => w''.dbg.pid = w'.dbg.pid ∧ w''.dbg.state = w'.dbg.state :=
    still_execRegs.spec fun _ _ _ hs h _ =>
      ⟨⟨hs.1.pid.trans h.1, hs.1.state.trans h.2⟩, fun _ _ => trivial⟩
  refine ⟨fun _ _ => trivial, fun r hr _ => ?_⟩
  obtain ⟨hpid, hstate⟩ := (hquiet w' ⟨rfl, rfl⟩ hok).2 r hr
  rw [World.Reaped, hpid, hstate]
  exact hw.reaped_iff

/-- **A command other than `quit`** that ends `cdbg_repl` leaves the debuggee gone exactly if
it was gone before. -/
lemma gone_execCommand {w : World σ} (hw : w.Resting) {cmd : Command} (hq : cmd ≠ .quit) :
    Ends (· = w) (execCommand host cmd) (World.GoneIff (w.dbg.state = .idle)) := by
  cases cmd with
  | quit => exact absurd rfl hq
  | regs => exact gone_execRegs hw
  | continue_ => exact gone_execContinue hw
  | step => exact gone_execStep w _
  | si => exact gone_execSi hw
  | next => exact gone_execStep w _
  | break_ arg => cases arg with
    | none => exact gone_pure
    | some target => exact gone_ignoring _
  | thread arg => cases arg with
    | none => exact gone_pure
    | some arg => exact gone_ignoring _
  | empty | help | leaks | dis | lines | lists | syms | x | unknown => exact gone_pure
  | _ => exact gone_ignoring _

/-! ### `cdbg_repl` -/

/-- `quit` leaves the debuggee gone. -/
lemma reaped_execQuit :
    Ends World.Resting (execQuit host) fun _ w => w.Reaped := by
  refine Spec.bind (Q := fun _ => World.Reaped) ?_ fun _ =>
    Spec.bind (Q := fun _ => World.Reaped) (Spec.modify fun _ h => h) fun _ =>
      Spec.pure _ fun _ h => h
  intro w hw _
  refine ⟨fun _ _ => trivial, fun rc hrc => ?_⟩
  rcases stopDebuggee_cases host w with ⟨h0, h⟩ | ⟨_, h⟩ | ⟨hn, h⟩ | ⟨p, _, _, h⟩
  · rw [h]
    exact ⟨h0, rfl⟩
  · rw [h]
    exact ⟨rfl, rfl⟩
  · by_cases hi : w.dbg.state = .idle
    · have hpid := (hw.2 hi).1
      simp [stopDebuggee, hpid] at h
    · obtain ⟨p, hp, _⟩ := (hw.1.stopped hi).task
      rw [hn] at hp
      cases hp
  · rw [h]
    exact ⟨rfl, rfl⟩

/-- What the loop leaves, by induction on the lines left. -/
lemma reaped_replLoop : ∀ (lines : List Str) {w : World σ} {rc : ℤ}, w.Resting →
    (replLoop host lines w).value = some rc →
    ∃ c w', lastPrompt host lines w = some (c, w') ∧
      ((replLoop host lines w).final.Reaped ↔ c = some .quit ∨ w'.dbg.state = .idle)
  | [], w, rc, hw, _ => ⟨none, w, rfl, hw.reaped_iff.trans (by simp)⟩
  | line :: lines, w, rc, hw, hret => by
      have hprompt : Ends World.Resting (execCommand host (Command.parse line)) World.Prompts :=
        ends_of_rests (rests_execCommand _)
      have hnext := (hprompt w hw fun _ _ => trivial).2
      rw [replLoop, emit_bind] at hret ⊢
      rw [lastPrompt]
      rcases h : execCommand host (Command.parse line) w with ⟨_ | r, w', t⟩
      · rw [bind_of_none h] at hret
        cases hret
      rw [h] at hnext
      rw [bind_of_eq h] at hret ⊢
      cases r with
      | none => exact reaped_replLoop lines (hnext none rfl rfl) hret
      | some rc' =>
          refine ⟨_, w, rfl, ?_⟩
          show w'.Reaped ↔ _
          by_cases hq : Command.parse line = .quit
          · have hquit : Ends World.Resting (execQuit host) fun _ w => w.Reaped := reaped_execQuit
            have hreaped := (hquit w hw fun _ _ => trivial).2 (some rc')
            rw [hq] at h
            rw [show execQuit host w = _ from h] at hreaped
            exact iff_of_true (hreaped rfl) (Or.inl (congrArg some hq))
          · have hgone : Ends (· = w) (execCommand host (Command.parse line))
              (World.GoneIff (w.dbg.state = .idle)) := gone_execCommand hw hq
            have hiff := (hgone w rfl fun _ _ => trivial).2 (some rc')
            rw [h] at hiff
            rw [hiff rfl (by simp)]
            simp [hq]

/-- **The end of `cdbg_repl`**: when it returns, the debuggee is gone exactly if the last
command was `quit` or there was no debuggee at the last prompt. -/
theorem repl_reaps_debuggee (host : Host σ) (input : List Str) (w : World σ) (hw : w.Resting)
    (rc : ℤ) (hret : (cdbgRepl host input w).value = some rc) :
    ∃ c w', lastPrompt host (replLines input) w = some (c, w') ∧
      ((cdbgRepl host input w).final.Reaped ↔ c = some .quit ∨ w'.dbg.state = .idle) :=
  reaped_replLoop _ hw hret

/-- What `main` does before `cdbg_repl` leaves the debugger at rest. -/
lemma resting_cdbgRun (host : Host σ) (s : σ) (argv : Option (List Str)) {rc : ℤ}
    (h : (cdbgRun host argv (World.start s)).value = some rc) :
    (cdbgRun host argv (World.start s)).final.Resting :=
  (rests_cdbgRun argv _ (World.resting_start s) fun _ _ => trivial).2 rc h

/-- The debugger with a program just started. -/
def justStarted : World Script :=
  (cdbgRun (Script.host .stripped) (some ["a".toList]) (World.start exitScript)).final

/-- `quit` with a debuggee. -/
theorem repl_reaps_debuggee_quit :
    ∃ c w', lastPrompt (Script.host .stripped) (replLines ["si".toList, "quit".toList])
        justStarted = some (c, w') ∧
      ((cdbgRepl (Script.host .stripped) ["si".toList, "quit".toList] justStarted).final.Reaped ↔
        c = some .quit ∨ w'.dbg.state = .idle) :=
  repl_reaps_debuggee _ _ _ (resting_cdbgRun _ _ _ rfl) 0 (by decide +kernel)

/-- At the end of the input the debuggee is still there. -/
theorem repl_leaves_debuggee :
    (cdbgRepl (Script.host .stripped) ["si".toList] justStarted).value = some 0 ∧
      ¬ (cdbgRepl (Script.host .stripped) ["si".toList] justStarted).final.Reaped := by
  decide +kernel

end Cdbg
