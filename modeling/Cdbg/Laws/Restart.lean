import Cdbg.Laws.Prompt
import Cdbg.Laws.Selected
import Cdbg.Laws.Resume

/-!
Breakpoints across `run`: whether the table holds the same breakpoints afterwards, moved
with the program and armed in the new process.

`cdbg_run` clears the table before it starts the program, and on the way to the entry of
the program nothing adds to it, since the breakpoint there is a temporary one. So the new
table is empty, and no breakpoint is kept unless there was none.
-/

namespace Cdbg

open Prog

variable {σ α : Type} {host : Host σ}

/-- The table of the second world holds the breakpoints of the first in their order, each
at the same place of the program (`slide` and `slide'` tell where the program lies in the
two processes), all enabled and in memory. -/
def World.Keeps (slide slide' : Addr) (w w' : World σ) : Prop :=
  w'.sites.map (· - slide') = w.sites.map (· - slide) ∧ w'.allEnabled ∧ w'.trapsIn

instance (slide slide' : Addr) (w w' : World σ) : Decidable (World.Keeps slide slide' w w') :=
  inferInstanceAs (Decidable (_ ∧ _))

/-- Steps that leave the addresses of the entries alone. -/
def SameSites : Step (Event σ) (World σ) := fun w _ w' => w'.sites = w.sites

/-- Continuing the debuggee up to a temporary breakpoint leaves the entries alone. -/
lemma SameSites.haul (host : Host σ) : Haul host (SameSites (σ := σ)) where
  drive _ _ _ h := h.sites
  plant w addr := by
    rcases bpEnable_cases .temp .zero w.dbg.pid addr w with ⟨_, h⟩ | ⟨p, _, _, h⟩
    · rw [SameSites, h]
    · rw [SameSites, h]
      rfl
  lift w bp := by
    rcases bpDisable_cases bp w.dbg.pid w with ⟨_, h⟩ | ⟨_, p, _, _, h⟩ | ⟨_, _, h⟩ |
      ⟨_, p, _, _, h⟩ <;> rw [SameSites, h] <;> rfl
  resume w := by
    rcases thawAndContinue_cases w with ⟨_, h⟩ | ⟨p, _, ⟨_, h⟩ | ⟨_, h⟩⟩ <;>
      rw [SameSites, h] <;> rfl

/-- From a world in `P`, the value returned and the world left satisfy `Q`. -/
abbrev Ends (P : World σ → Prop) (m : Debugger σ α) (Q : α → World σ → Prop) : Prop :=
  Spec (fun _ : Event σ => True) (fun _ => True) P m Q

/-- The table has no entries. -/
def World.Bare (w : World σ) : Prop := w.sites = []

lemma bare_moves {m : Debugger σ α} (h : Moves SameSites m) :
    Ends World.Bare m fun _ => World.Bare :=
  h.spec fun _ _ _ hs hw _ => ⟨(show _ = _ from hs).trans hw, fun _ _ => trivial⟩

/-- A program whose result does not matter. -/
lemma ends_any {P : World σ → Prop} (m : Debugger σ α) : Ends P m fun _ _ => True :=
  fun _ _ _ => ⟨fun _ _ => trivial, fun _ _ => trivial⟩

lemma bare_launch (program : Str) {P : World σ → Prop} :
    Ends P (launch host program) fun _ => World.Bare := by
  intro w _ _
  refine ⟨fun _ _ => trivial, fun rc _ => ?_⟩
  rcases launch_cases host program w with h | ⟨b, h', lineno, syms, _, h⟩ <;> rw [h] <;> rfl

/-- A successful start of a program leaves the table without entries. -/
lemma bare_startProgram :
    Ends (fun _ => True) (startProgram host) fun rc w => rc = 0 → w.Bare := by
  have q := SameSites.haul (σ := σ) host
  have hfail {P : World σ → Prop} : Ends P (pure (-1 : ℤ)) fun rc w => rc = 0 → w.Bare :=
    Spec.pure _ fun _ _ h => by omega
  refine Spec.get_bind fun w _ => ?_
  split
  · exact hfail
  refine Spec.bind_rc (ends_any (stopDebuggee host)) (fun _ _ => hfail) ?_
  refine Spec.bind_rc (bare_launch _) (fun _ _ => hfail) ?_
  refine Spec.bind_rc (bare_moves (q.of_drive drive_cdbgWait))
    (fun _ _ => Spec.bind (ends_any reportProcessExit) fun _ => hfail) ?_
  refine Spec.bind (bare_moves (q.of_still still_updateSlides)) fun _ =>
    Spec.bind (bare_moves (haul_runToEntryStop q)) fun rc => Spec.ite
      (fun _ => Spec.bind (ends_any reportProcessExit) fun _ => hfail) fun _ => ?_
  refine Spec.get_bind fun w' hw' => Spec.ite (fun _ => ?_) fun _ => Spec.pure_from _ fun _ => hw'
  exact Spec.bind ((bare_moves (q.of_still still_printStopContext)).from hw') fun _ =>
    Spec.pure _ fun _ h _ => h

lemma bare_cdbgRun (argv : Option (List Str)) :
    Ends (fun _ => True) (cdbgRun host argv) fun rc w => rc = 0 → w.Bare := by
  cases argv with
  | none => exact bare_startProgram
  | some argv =>
      exact Spec.bind_rc (ends_any (setRunTarget argv))
        (fun _ _ => Spec.pure _ fun _ _ h => by omega) bare_startProgram

/-- Nothing is kept in an empty table but an empty table. -/
lemma World.keeps_bare {slide slide' : Addr} {w w' : World σ} (h : w'.Bare) :
    World.Keeps slide slide' w w' ↔ w.dbg.breakpoints.toList = [] := by
  have hb : w'.dbg.breakpoints.toList = [] := List.map_eq_nil_iff.mp h
  have he : w'.allEnabled := by simp [allEnabled, hb]
  have ht : w'.trapsIn := by simp [trapsIn, hb]
  have hs : w.sites = [] ↔ w.dbg.breakpoints.toList = [] := List.map_eq_nil_iff
  rw [Keeps, show w'.sites = [] from h, List.map_nil, eq_comm, List.map_eq_nil_iff, hs]
  exact and_iff_left ⟨he, ht⟩

/-- **Breakpoints across a restart**: a successful `run` keeps the breakpoints exactly if
there are none. -/
theorem run_keeps_breakpoints (host : Host σ) (argv : Option (List Str)) (slide slide' : Addr)
    (w : World σ) (h : (cdbgRun host argv w).value = some 0) :
    World.Keeps slide slide' w (cdbgRun host argv w).final ↔ w.dbg.breakpoints.toList = [] :=
  World.keeps_bare ((bare_cdbgRun argv w trivial fun _ _ => trivial).2 0 h rfl)

/-- A session with a breakpoint set. -/
def brokenAt (addr : Str) : World Script :=
  (cdbgMain (Script.host .stripped) ["a".toList] ["break ".toList ++ addr]
    (World.start twoRunsScript)).final

/-- In a session in which nothing was set, `run` keeps the empty table. -/
theorem run_keeps_breakpoints_empty :
    World.Keeps 0 0 (brokenAt "nowhere".toList)
      (cdbgRun (Script.host .stripped) none (brokenAt "nowhere".toList)).final :=
  (run_keeps_breakpoints _ none 0 0 _ (by decide +kernel)).mpr (by decide +kernel)

/-- With a breakpoint at `0x1004`, `run` succeeds and the breakpoint is gone. -/
theorem run_loses_breakpoint :
    (cdbgRun (Script.host .stripped) none (brokenAt "0x1004".toList)).value = some 0 ∧
      ¬ World.Keeps 0 0 (brokenAt "0x1004".toList)
        (cdbgRun (Script.host .stripped) none (brokenAt "0x1004".toList)).final := by
  decide +kernel

end Cdbg
