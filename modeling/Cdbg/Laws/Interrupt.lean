import Cdbg.Laws.Gait

/-!
The stepping loops under the demands of `Event.heeded`: a command that has been stopped by a
signal prints the place and returns (`signals_interrupt`).

The head of a loop is reached only before any such stop (`tracks_stepLoop`,
`tracks_nextLoop`): the round in which one comes ends with the debuggee at a place that the
loop takes for an end.
-/

namespace Cdbg

open Prog

variable {σ α : Type} {host : Host σ} {signal : Event σ → Bool} {c : Gait} {w : World σ}

/-! ### A round of the loops -/

/-- What a round leaves to the check of the line: no stop by a signal, or one where the loop
stops. -/
def Goes (start : Option (Str × BitVec 32)) (c : Gait) (w : World σ) : Prop :=
  c.stop = none ∨ w.Held c ∧ w.Heeds start

/-- A round goes on only if there has been no stop by a signal. -/
lemma tracks_checkLine {file : Str} {line : BitVec 32} (h : Goes (some (file, line)) c w) :
    Tracks signal (some (file, line)) c w (checkLine host file line) fun r c' w' =>
      Ended c' w' ∧ (r = none → c'.stop = none ∧ c'.next = .own) := by
  refine Track.bind_rc tracks_refreshRegs ?_ ?_
  · rintro rc c₁ _ hrc ⟨hc₁, _, h0, _⟩
    have hnone : c.stop = none := Gait.stop_none_of_ne h0 hrc
    exact Track.pure _ ⟨.inl (hc₁.stop.trans hnone), fun hr => by cases hr⟩
  rintro c₁ _ ⟨hc₁, hown, _, regs, rfl, hregs⟩
  -- the registers are those of the selected thread at the stop
  have hsel : w.selectedPc = some regs.pc := hregs rfl
  have hl := w.level_setRegs regs
  have hheld : c₁.stop = none ∨ (w.setDbg { w.dbg with regs := regs }).Held c₁ :=
    h.imp (fun hn => hc₁.stop.trans hn) fun hh => hh.1.put hl.toPut hc₁
  refine Track.get_bind ?_
  dsimp only
  split
  next =>
    exact (tracks_reportStop hheld).bind fun rc c₂ w₂ h₂ =>
      Track.pure _ ⟨h₂.1, fun hr => by cases hr⟩
  next hoff =>
  -- a watchpoint is announced, or nothing is said
  refine tracks_tryReportWatchpointHit.bind fun b c₂ w₂ h₂ => ?_
  split at h₂
  next hb =>
    rw [if_pos hb]
    exact Track.pure _ ⟨h₂.imp_right fun hh => ⟨hh.1, hh.2.2⟩, fun hr => by cases hr⟩
  next hb =>
  obtain ⟨rfl, rfl⟩ := h₂
  rw [if_neg hb]
  refine Track.get_bind ?_
  -- the demand leaves a line other than that of the start
  have hline : c₁.stop = none ∨ ∃ l ∈ w.dbg.lineno.lineAtPc regs.pc, l ≠ (file, line) := by
    refine h.imp (fun hn => hc₁.stop.trans hn) fun hh => ?_
    obtain ⟨pc, hpc, htrap | hother⟩ := hh.2 _ rfl
    · obtain rfl : pc = regs.pc := Option.some.inj (hpc.symm.trans hsel)
      exact absurd htrap hoff
    · obtain rfl : pc = regs.pc := Option.some.inj (hpc.symm.trans hsel)
      exact hother
  simp only [World.setDbg_dbg]
  cases hat : w.dbg.lineno.lineAtPc regs.pc with
  | none =>
      have hnone : c₁.stop = none := hline.resolve_right fun ⟨l, hl, _⟩ => by
        rw [hat] at hl
        cases hl
      exact Track.pure _ ⟨.inl hnone, fun _ => ⟨hnone, hown⟩⟩
  | some cur =>
      dsimp only
      split
      next =>
        refine (tracks_emit rfl).bind ?_
        rintro _ c₃ _ ⟨hc₃, rfl⟩
        refine (tracks_emit rfl).bind ?_
        rintro _ c₄ _ ⟨hc₄, rfl⟩
        have h₄ : Stands c₄ c₄ (w.setDbg { w.dbg with regs := regs }) :=
          hheld.imp (fun hn => (hc₃.trans hc₄).stop.trans hn) fun hh =>
            ⟨hh.put (.refl _) (hc₃.trans hc₄), rfl⟩
        have hmem : (w.setDbg { w.dbg with regs := regs }).Known := World.mem_pcs hsel
        refine (tracks_location (fun _ => hmem) h₄).bind ?_
        rintro _ c₅ w₅ ⟨_, ha⟩
        exact Track.pure _ ⟨ha.imp_right fun hh => ⟨hh.1, hh.2.2⟩, fun hr => by cases hr⟩
      next heq =>
        have hnone : c₁.stop = none := hline.resolve_right fun ⟨l, hl, hne⟩ => by
          obtain rfl : cur = l := Option.some.inj (hat.symm.trans hl)
          rw [not_or, not_not, not_not] at heq
          exact hne (Prod.ext heq.1 heq.2)
        exact Track.pure _ ⟨.inl hnone, fun _ => ⟨hnone, hown⟩⟩

/-- The step of a round. -/
lemma tracks_stepOnce {start : Option (Str × BitVec 32)} (hc : c.stop = none)
    (hn : c.next = .own) :
    Tracks signal start c w (stepOnce host) fun r c' w' =>
      (r.isSome → c'.stop = none) ∧ Goes start c' w' := by
  refine Track.bind_rc (tracks_cdbgSingleStep hc)
    (fun rc c₁ w₁ _ h => Track.pure _ ⟨fun _ => h.1, .inl h.1⟩) ?_
  rintro c₁ w₁ ⟨hc₁, hway, _⟩
  have hown : c₁.way = .own := (hway rfl).trans hn
  refine Track.bind_rc (tracks_cdbgWait hc₁) ?_ ?_
  · intro rc c₂ w₂ hrc hw
    have hnone := hw.none_of_ne hrc
    exact Track.get_bind (Track.pure _ ⟨fun _ => hnone, .inl hnone⟩)
  intro c₂ w₂ hw
  refine Track.get_bind ?_
  split
  next hst =>
    have hnone : c₂.stop = none := hw.caught_of_ok.resolve_right fun h => hst h.state
    exact Track.pure _ ⟨fun _ => hnone, .inl hnone⟩
  next =>
    refine Track.pure _ ⟨fun hr => (by cases hr), hw.caught_of_ok.imp_right fun h =>
      ⟨h.toHeld, ?_⟩⟩
    have hd := h.demands
    rw [Gait.demands, hw.way, hown] at hd
    exact hd

/-- The loop of `step`, by induction on the number of rounds left. -/
lemma tracks_stepLoop {file : Str} {line : BitVec 32} : ∀ (rounds : ℕ) (c : Gait) (w : World σ),
    c.stop = none → c.next = .own →
    Tracks signal (some (file, line)) c w (stepLoop host file line rounds)
      fun _ c' w' => Ended c' w'
  | 0, c, w, hc, _ =>
      (tracks_emit rfl).bind fun _ c' w' h => Track.pure _ (.inl (h.1.stop.trans hc))
  | rounds + 1, c, w, hc, hn => by
      refine (tracks_stepOnce hc hn).bind fun r c₁ w₁ ⟨hsome, h₁⟩ => ?_
      cases r with
      | some rc => exact Track.pure rc (.inl (hsome rfl))
      | none =>
      refine (tracks_checkLine h₁).bind fun r c₂ w₂ ⟨hend, hgo⟩ => ?_
      cases r with
      | some rc => exact Track.pure rc hend
      | none => exact tracks_stepLoop rounds c₂ w₂ (hgo rfl).1 (hgo rfl).2

/-- A program counter without line information is left by a single step. -/
lemma tracks_stepWithoutLine (hc : c.stop = none) :
    Tracks signal none c w (stepWithoutLine host) fun _ c' w' => Ended c' w' := by
  refine Track.bind_rc (tracks_cdbgSingleStep hc) (fun rc c₁ w₁ _ h => Track.pure _ (.inl h.1)) ?_
  rintro c₁ w₁ ⟨hc₁, _⟩
  refine Track.bind_rc (tracks_cdbgWait hc₁) ?_ ?_
  · intro rc c₂ w₂ hrc hw
    exact Track.get_bind (Track.pure _ (.inl (hw.none_of_ne hrc)))
  intro c₂ w₂ hw
  have hheld := hw.caught_of_ok.imp_right fun h => h.toHeld
  refine Track.get_bind ?_
  split
  next => exact (tracks_reportStop hheld).bind fun rc c₃ w₃ h₃ => Track.pure _ h₃.1
  next hst => exact Track.pure _ (.inl (hheld.resolve_right fun h => hst h.state))

/-! ### Over a call -/

lemma tracks_dropTemp (temp : Breakpoint) {start : Option (Str × BitVec 32)} :
    Tracks signal start c w (dropTemp temp) fun _ c' w' => c.Onward c' ∧ w.Level w' :=
  Track.get_bind ((tracks_bpDisable temp).bind fun _ _ _ h => Track.pure () ⟨h.1, h.2.2.1⟩)

section Call

variable {start : Option (Str × BitVec 32)}

/-- No signal is taken in the step off a disabled breakpoint. -/
lemma tracks_stepOverDisabledBreakpoint (hc : c.stop = none) :
    Tracks signal start c w (stepOverDisabledBreakpoint host) fun _ c' _ =>
      c'.stop = none ∧ c'.temp = c.temp := by
  refine Track.get_bind ?_
  split
  next => exact Track.pure _ ⟨hc, rfl⟩
  next =>
  refine Track.bind_rc tracks_refreshRegs
    (fun rc c₁ w₁ _ ⟨h, _⟩ => Track.pure _ ⟨h.stop.trans hc, h.temp⟩) ?_
  rintro c₁ w₁ ⟨hc₁, _⟩
  refine Track.bind (Q := fun _ c' w' => c₁.Onward c' ∧ c'.next = .off)
    (Track.emit fun _ => ⟨fun hr => (by cases hr), Gait.onward_note rfl, rfl⟩) ?_
  rintro _ c₂ w₂ ⟨hc₂, hoff⟩
  have hon := hc₁.trans hc₂
  refine Track.get_bind ?_
  split
  next => exact Track.pure _ ⟨hon.stop.trans hc, hon.temp⟩
  next =>
  refine Track.bind_rc (tracks_cdbgSingleStep (hon.stop.trans hc))
    (fun rc c₃ w₃ _ h => Track.pure _ ⟨h.1, h.2.2.1.trans hon.temp⟩) ?_
  rintro c₃ w₃ ⟨hc₃, hway, htemp, _⟩
  refine (tracks_cdbgWait hc₃).post fun rc c₄ w₄ hw => ⟨hw.caught.resolve_right fun h => ?_,
    hw.temp.trans (htemp.trans hon.temp)⟩
  have hd := h.2.demands
  rw [Gait.demands, hw.way, hway rfl, hoff] at hd
  exact hd

/-- `cdbg_continue` sets the debuggee on its way to the temporary breakpoint, unless it has
ended. -/
lemma tracks_cdbgContinue (hc : c.stop = none) :
    Tracks signal start c w (cdbgContinue host) fun rc c' w' => c'.stop = none ∧
      c'.temp = c.temp ∧ (rc = 0 → w'.dbg.state = .idle ∨ c'.way = .call) := by
  refine Track.bind_rc (tracks_stepOverDisabledBreakpoint hc)
    (fun rc c₁ w₁ hrc h => Track.pure _ ⟨h.1, h.2, fun h0 => absurd h0 hrc⟩) ?_
  rintro c₁ w₁ ⟨hc₁, htemp⟩
  refine Track.get_bind ?_
  split
  next hidle => exact Track.pure _ ⟨hc₁, htemp, fun _ => .inl hidle⟩
  next =>
  rcases thawAndContinue_cases w₁ with ⟨_, h⟩ | ⟨p, _, ⟨_, h⟩ | ⟨_, h⟩⟩
  · exact Track.of_eq h fun _ => ⟨trivial, hc₁, htemp, fun h0 => absurd h0 (by norm_num)⟩
  · exact Track.of_eq h fun _ => ⟨⟨fun _ => hc₁, trivial⟩, hc₁, htemp,
      fun h0 => absurd h0 (by norm_num)⟩
  · exact Track.of_eq h fun _ => ⟨⟨fun _ => hc₁, fun _ => hc₁, trivial⟩, hc₁, htemp,
      fun _ => .inr rfl⟩

/-- At the temporary breakpoint the demand is that of the loop, and elsewhere a report comes
first. -/
lemma tracks_finishTempBreakpoint {temp : Breakpoint} (htemp : temp.enabled = true)
    (haddr : c.temp = temp.addr) (hway : c.way = .call) (hast : c.astray = c.strays w)
    (h : c.stop = none ∨ w.Caught start c) :
    Tracks signal start c w (finishTempBreakpoint host temp) fun rc c' w' =>
      Goes start c' w' ∧ (rc ≠ 0 → Ended c' w') := by
  refine Track.bind_rc tracks_refreshRegs ?_ ?_
  · rintro rc c₁ _ hrc ⟨hc₁, _, h0, _⟩
    have hnone : c.stop = none := Gait.stop_none_of_ne h0 hrc
    refine (tracks_dropTemp temp).bind ?_
    rintro _ c₂ w₂ ⟨hc₂, _⟩
    have hnone₂ := (hc₁.trans hc₂).stop.trans hnone
    exact Track.pure _ ⟨.inl hnone₂, fun _ => .inl hnone₂⟩
  rintro c₁ _ ⟨hc₁, _, _, regs, rfl, hregs⟩
  have hsel : w.selectedPc = some regs.pc := hregs rfl
  have hl := w.level_setRegs regs
  have hheld : c₁.stop = none ∨ (w.setDbg { w.dbg with regs := regs }).Held c₁ :=
    h.imp (fun hn => hc₁.stop.trans hn) fun hh => hh.toHeld.put hl.toPut hc₁
  refine Track.get_bind ?_
  -- the stop is elsewhere, or it is that of the call
  by_cases hmiss : temp.matchesPc regs.pc = false
  · rw [World.setDbg_dbg, if_pos hmiss]
    have hne : regs.pc ≠ c.temp := by
      rintro heq
      rw [haddr] at heq
      simp [Breakpoint.matchesPc, htemp, heq] at hmiss
    have hastray : c.astray = true := by
      rw [hast, Gait.strays, hway, hsel]
      simpa using hne
    -- the breakpoint is dropped and the stop reported as any other
    refine (tracks_dropTemp temp).bind ?_
    rintro _ c₂ w₂ ⟨hc₂, hl₂⟩
    have hheld₂ : c₂.stop = none ∨ w₂.Held c₂ :=
      hheld.imp (fun hn => hc₂.stop.trans hn) fun hh => hh.put hl₂.toPut hc₂
    refine (tracks_reportStop hheld₂).post ?_
    rintro rc c₃ w₃ ⟨hend, hheeds⟩
    refine ⟨?_, fun _ => hend⟩
    rcases hend with hnone | hh
    · exact .inl hnone
    · refine hheeds.imp_right fun hheeds => ⟨hh.1, hheeds ?_⟩
      rw [hc₂.astray, hc₁.astray, hastray]
  · rw [World.setDbg_dbg, if_neg hmiss]
    have heq : regs.pc = c.temp := by
      rw [haddr]
      simp only [Breakpoint.matchesPc, htemp, Bool.true_and, Bool.not_eq_false,
        decide_eq_true_eq] at hmiss
      exact hmiss.symm
    -- no report: what the stop demands falls to the check of the line
    have hgoes : Goes start c w := h.imp_right fun hh => by
      have hd := hh.demands
      rw [Gait.demands, hway] at hd
      refine ⟨hh.toHeld, hd ?_⟩
      rw [Gait.strays, hway, hsel, heq]
      simp
    refine (tracks_bpDisable temp).bind ?_
    rintro ⟨_, rc⟩ c₂ w₂ ⟨hc₂, h0, hl₂, hdbg⟩
    have hgoes₂ : Goes start c₂ w₂ := hgoes.imp (fun hn => (hc₁.trans hc₂).stop.trans hn)
      fun hh => ⟨(hh.1.put hl.toPut hc₁).put hl₂.toPut hc₂, (hh.2.level hl fun _ _ => rfl).level hl₂
        fun _ _ => by rw [hdbg]⟩
    dsimp only
    split
    next hrc =>
      have hnone : c₁.stop = none := Gait.stop_none_of_ne h0 hrc
      exact Track.pure _ ⟨hgoes₂, fun _ => .inl (hc₂.stop.trans hnone)⟩
    next => exact Track.pure _ ⟨hgoes₂, fun hrc => absurd rfl hrc⟩

lemma tracks_stepOverCall (returnAddr : Addr) (hc : c.stop = none) :
    Tracks signal start c w (stepOverCall host returnAddr) fun rc c' w' =>
      Goes start c' w' ∧ (rc ≠ 0 → Ended c' w') := by
  have hfail : ∀ {rc : ℤ} {c' : Gait} {w' : World σ}, c'.stop = none →
      Tracks signal start c' w' (pure rc) fun rc c' w' =>
        Goes start c' w' ∧ (rc ≠ 0 → Ended c' w') :=
    fun h => Track.pure _ ⟨.inl h, fun _ => .inl h⟩
  refine Track.get_bind (Track.bind (Q := fun r c' _ => c'.stop = none ∧ (r.2 = 0 →
    c'.temp = returnAddr ∧ r.1.addr = returnAddr ∧ r.1.enabled = true)) ?_ ?_)
  · rcases bpEnable_cases .temp .zero w.dbg.pid returnAddr w with ⟨_, h⟩ | ⟨p, _, _, h⟩
    · exact Track.of_eq h fun _ => ⟨⟨fun _ => hc, trivial⟩, hc, fun h0 => absurd h0 (by norm_num)⟩
    · exact Track.of_eq h fun _ => ⟨⟨fun _ => hc, trivial⟩, hc, fun _ => ⟨rfl, rfl, rfl⟩⟩
  -- the temporary breakpoint stands at the return address
  rintro ⟨temp, rc⟩ c₁ w₁ ⟨hc₁, htemp⟩
  dsimp only at htemp ⊢
  split
  next => exact hfail hc₁
  next hrc =>
  obtain ⟨hct, haddr, hen⟩ := htemp (not_not.mp hrc)
  refine Track.bind_rc (tracks_cdbgContinue hc₁) ?_ ?_
  · intro rc c₂ w₂ _ h₂
    exact (tracks_dropTemp temp).bind fun _ c₃ w₃ h₃ => hfail (h₃.1.stop.trans h₂.1)
  rintro c₂ w₂ ⟨hc₂, hct₂, hgone⟩
  refine Track.get_bind ?_
  split
  next => exact (tracks_dropTemp temp).bind fun _ c₃ w₃ h₃ => hfail (h₃.1.stop.trans hc₂)
  next hidle =>
  -- the continue is told to be that of a call, so its stop may go unreported
  have hcall : c₂.way = .call := (hgone rfl).resolve_left hidle
  refine Track.bind_rc (tracks_cdbgWait hc₂) ?_ ?_
  · intro rc c₃ w₃ hrc hw
    refine (tracks_dropTemp temp).bind fun _ c₄ w₄ h₄ => ?_
    exact Track.get_bind (hfail (h₄.1.stop.trans (hw.none_of_ne hrc)))
  intro c₃ w₃ hw
  refine Track.get_bind ?_
  split
  next hst =>
    have hnone : c₃.stop = none := hw.caught_of_ok.resolve_right fun h => hst h.state
    exact (tracks_dropTemp temp).bind fun _ c₄ w₄ h₄ => hfail (h₄.1.stop.trans hnone)
  -- the wait has returned at a stop
  next hst =>
    refine tracks_finishTempBreakpoint hen ?_ (hw.way.trans hcall) ?_ hw.caught_of_ok
    · rw [hw.temp, hct₂, hct, haddr]
    · rw [hw.astray rfl (not_not.mp hst), Gait.strays, Gait.strays, hw.way, hw.temp, hcall]

lemma tracks_callReturnAddress (pc : Addr) (hc : c.stop = none) (hn : c.next = .own) :
    Tracks signal start c w (callReturnAddress pc) fun _ c' _ =>
      c'.stop = none ∧ c'.next = .own := by
  refine Track.get_bind (Track.bind (Q := fun _ c' _ => c'.stop = none ∧ c'.next = .own) ?_ ?_)
  · cases hr : w.readMem w.dbg.pid pc 4 with
    | none => exact Track.of_eq (memRead_of_none hr) fun _ => ⟨⟨fun _ => hc, trivial⟩, hc, rfl⟩
    | some v => exact Track.of_eq (memRead_of_some hr) fun _ => ⟨trivial, hc, hn⟩
  · intro r c₁ w₁ h₁
    cases r <;> exact Track.pure _ h₁

/-- A round of `next`. -/
lemma tracks_nextOnce (pc : Addr) (hc : c.stop = none) (hn : c.next = .own) :
    Tracks signal start c w (nextOnce host pc) fun r c' w' =>
      (r.isSome → Ended c' w') ∧ Goes start c' w' := by
  refine (tracks_callReturnAddress pc hc hn).bind fun r c₁ w₁ ⟨hc₁, hn₁⟩ => ?_
  cases r with
  | none =>
      exact (tracks_stepOnce hc₁ hn₁).post fun r c₂ w₂ ⟨hsome, hgoes⟩ =>
        ⟨fun hr => .inl (hsome hr), hgoes⟩
  | some returnAddr =>
      refine Track.bind_rc (tracks_stepOverCall returnAddr hc₁)
        (fun rc c₂ w₂ hrc ⟨hgoes, hend⟩ => Track.pure _ ⟨fun _ => hend hrc, hgoes⟩) ?_
      rintro c₂ w₂ ⟨hgoes, _⟩
      refine Track.get_bind ?_
      split
      next hst =>
        have hnone : c₂.stop = none := hgoes.resolve_right fun h => hst h.1.state
        exact Track.pure _ ⟨fun _ => .inl hnone, hgoes⟩
      next => exact Track.pure _ ⟨fun hr => (by cases hr), hgoes⟩

end Call

/-- The loop of `next`, by induction on the number of rounds left. -/
lemma tracks_nextLoop {file : Str} {line : BitVec 32} : ∀ (rounds : ℕ) (pc : Addr) (c : Gait)
    (w : World σ), c.stop = none → c.next = .own →
    Tracks signal (some (file, line)) c w (nextLoop host file line pc rounds)
      fun _ c' w' => Ended c' w'
  | 0, pc, c, w, hc, _ =>
      (tracks_emit rfl).bind fun _ c' w' h => Track.pure _ (.inl (h.1.stop.trans hc))
  | rounds + 1, pc, c, w, hc, hn => by
      refine (tracks_nextOnce pc hc hn).bind fun r c₁ w₁ ⟨hsome, h₁⟩ => ?_
      cases r with
      | some rc => exact Track.pure rc (hsome rfl)
      | none =>
      refine (tracks_checkLine h₁).bind fun r c₂ w₂ ⟨hend, hgo⟩ => ?_
      cases r with
      | some rc => exact Track.pure rc hend
      | none => exact Track.get_bind (tracks_nextLoop rounds _ c₂ w₂ (hgo rfl).1 (hgo rfl).2)

/-! ### The commands -/

/-- Both commands refresh the registers and look for the line of the program counter. -/
lemma tracks_fromLine {m : Debugger σ ℤ} {f : Str → BitVec 32 → Addr → Debugger σ ℤ}
    (hm : m = do
      if (← refreshRegs) ≠ 0 then
        return -1
      let w ← Prog.get
      match w.dbg.lineno.lineAtPc w.dbg.regs.pc with
      | none => stepWithoutLine host
      | some (file, line) => f file line w.dbg.regs.pc)
    (hf : ∀ file line pc (c : Gait) (w : World σ), c.stop = none → c.next = .own →
      Tracks signal (some (file, line)) c w (f file line pc) fun _ c' w' => Ended c' w')
    (hc : c.stop = none) :
    Tracks signal w.startLine c w m fun _ c' w' => Ended c' w' := by
  rw [hm]
  refine Track.bind_rc tracks_refreshRegs
    (fun rc c₁ w₁ _ h => Track.pure _ (.inl (h.1.stop.trans hc))) ?_
  rintro c₁ _ ⟨hc₁, hn₁, _, regs, rfl, hregs⟩
  have hsel : w.selectedPc = some regs.pc := hregs rfl
  have hstart : w.startLine = w.dbg.lineno.lineAtPc regs.pc := by rw [World.startLine, hsel]; rfl
  have hnone : c₁.stop = none := hc₁.stop.trans hc
  refine Track.get_bind ?_
  rw [hstart]
  simp only [World.setDbg_dbg]
  cases hl : w.dbg.lineno.lineAtPc regs.pc with
  | none => exact tracks_stepWithoutLine hnone
  | some l => exact hf l.1 l.2 _ c₁ _ hnone hn₁

lemma tracks_execStep {m : Debugger σ ℤ} {start : Option (Str × BitVec 32)} (hc : c.stop = none)
    (hm : Tracks signal start c w m fun _ c' w' => Ended c' w') :
    Tracks signal start c w (execStep m) fun _ c' w' => Ended c' w' := by
  refine Track.get_bind ?_
  split
  next => exact Track.pure _ (.inl hc)
  next =>
  refine hm.bind fun rc c₁ w₁ h₁ => Track.get_bind ?_
  split
  next => exact Track.pure _ h₁
  next =>
  rcases h₁ with hnone | h₁
  · exact (tracks_free hnone (reportProcessExit_not_stop w₁)).bind fun _ c₂ w₂ h =>
      Track.pure _ (.inl h)
  · rcases reportProcessExit_cases w₁ with ⟨_, h⟩ | ⟨hidle, _⟩
    · refine Track.bind (Q := fun _ c' w' => Ended c' w')
        (Track.of_eq h fun _ => ⟨trivial, .inr h₁⟩) fun _ c₂ w₂ h₂ => Track.pure _ h₂
    · rw [h₁.1.state] at hidle
      cases hidle

/-- After every stop by a signal a run resumes the debuggee no more, prints the place of the
stop and returns with the debuggee there. -/
def Interrupts (signal : Event σ → Bool) (m : Debugger σ (Option ℤ)) (w : World σ) : Prop :=
  Along (Gait.note signal) (fun c e => e.obeys c) .start (m w).trace ∧
    ∀ pcs ∈ ((m w).trace.foldl (Gait.note signal) .start).stop,
      ((m w).trace.foldl (Gait.note signal) .start).reported = true ∧
        (m w).value.isSome ∧ (m w).final.pcs = some pcs

/-- **Signals interrupt stepping**, under the demands of `Event.heeded`: of the stops by
signals, `step` and `next` notice those at which the selected thread is at an enabled
breakpoint or at another line than at the start. -/
theorem signals_interrupt (host : Host σ) (signal : Event σ → Bool) {cmd : Command}
    (hcmd : cmd = .step ∨ cmd = .next) (w : World σ)
    (h : Along (Gait.note signal) (Event.heeded signal w.startLine) .start
      (execCommand host cmd w).trace) :
    Interrupts signal (execCommand host cmd) w := by
  have htrack : Tracks signal w.startLine .start w (execCommand host cmd)
      fun _ c' w' => Ended c' w' := by
    rcases hcmd with rfl | rfl
    · exact tracks_execStep rfl (tracks_fromLine rfl
        (fun file line _ c w hc hn => tracks_stepLoop maxStepIterations c w hc hn) rfl)
    · exact tracks_execStep rfl (tracks_fromLine rfl
        (fun file line pc c w hc hn => tracks_nextLoop maxStepIterations pc c w hc hn) rfl)
  obtain ⟨hobeys, hidle, hend⟩ := htrack h
  refine ⟨hobeys, fun pcs hpcs => ?_⟩
  cases hv : (execCommand host cmd w).value with
  | none =>
      rw [hidle hv] at hpcs
      cases hpcs
  | some v =>
      obtain ⟨hheld, hrep⟩ := (hend v hv).resolve_left fun hnone => by
        rw [hnone] at hpcs
        cases hpcs
      obtain ⟨pcs', hs, hw⟩ := hheld.stop
      obtain rfl : pcs = pcs' := Option.some.inj (hpcs.symm.trans hs)
      exact ⟨hrep, rfl, hw⟩

/-- A debuggee with one thread, as it stops at a program counter. -/
def stopsAt (pc : Addr) : StopState := .at pc fun _ => 0

/-- A debuggee stopped at the first of two lines, and its next two stops. -/
def onFirstLine (second third : Addr) : World Script where
  dbg := { Dbg.init with
    pid := 7
    state := .stopped
    lineno := ⟨[⟨0x1000, 1, 0, "a.c".toList⟩, ⟨0x1008, 2, 0, "a.c".toList⟩], 0, 0⟩ }
  proc := some { Birth.proc (.of (stopsAt 0x1000)) with running := none }
  host := ⟨[], [.stopped (stopsAt second), .stopped (stopsAt third)]⟩

/-- The first of the two stops is by a signal. -/
def firstOfTwo (e : Event Script) : Bool := e.world.host.outcomes.length = 2

/-- A signal at the first instruction of the next line ends a `step`. -/
theorem signals_interrupt_script :
    Interrupts firstOfTwo (execCommand (Script.host .stripped) .step)
      (onFirstLine 0x1008 0x100c) :=
  signals_interrupt _ _ (.inl rfl) _ (by decide +kernel)

/-- A signal on the line of the start is taken for a step: the debuggee is stepped on. -/
theorem signal_steps_on :
    ¬ Interrupts firstOfTwo (execCommand (Script.host .stripped) .step)
      (onFirstLine 0x1004 0x1008) := by
  refine fun h => absurd h.1 ?_
  decide +kernel

end Cdbg
