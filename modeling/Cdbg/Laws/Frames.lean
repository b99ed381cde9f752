import Cdbg.Control.DebugPort
import Cdbg.Control.Inversion
import Cdbg.Machine.Script
import Cdbg.Repl.Commands

/-!
`up` and `tb`.

Both follow the frame records from the frame pointer on. Where there is no further record `tb`
ends, and `up` takes the link register for a return address if it can be one.
-/

namespace Cdbg

variable {σ : Type}

/-- The registers that up to so many `up` in a row lead to, until one fails. -/
def World.ups : ℕ → World σ → List Regs
  | 0, _ => []
  | n + 1, w =>
      if (frameUp w).value = some 0 then (frameUp w).final.dbg.regs :: ups n (frameUp w).final
      else []

/-- The record at a frame pointer, if `tb` goes on there. -/
def World.recordAt (w : World σ) (fp : Addr) : Option (Addr × Addr) :=
  if fp = 0 then none else w.frameRecordNext fp

lemma World.callers_succ (w : World σ) (n : ℕ) (fp : Addr) : w.callers (n + 1) fp =
    match w.recordAt fp with
    | none => []
    | some (nextFp, retAddr) => retAddr :: w.callers n nextFp := by
  rw [callers, recordAt]
  split <;> rfl

/-- The registers of the caller, by the record of the frame. -/
def Regs.called (r : Regs) (nextFp retAddr : Addr) : Regs :=
  { r with native := { r.native with pc := retAddr, fp := nextFp, sp := r.fp + 16 } }

/-- A record is one that both `tb` and `up` accept. -/
lemma World.recordAt_eq_some {w : World σ} {fp nextFp retAddr : Addr} :
    w.recordAt fp = some (nextFp, retAddr) ↔ fp ≠ 0 ∧ w.readU64 w.dbg.pid fp = some nextFp ∧
      w.readU64 w.dbg.pid (fp + 8) = some retAddr ∧ fp < nextFp ∧ retAddrValid retAddr = true := by
  have hvalid : ∀ a b : Addr, (b = 0 ∨ a < 0x1000 ∨ b ≤ fp) ↔
      ¬ (fp < b ∧ retAddrValid a = true) := by
    intro a b
    simp only [retAddrValid, decide_eq_true_eq]
    bv_omega
  rw [recordAt, frameRecordNext]
  by_cases h0 : fp = 0
  · simp [h0]
  rw [if_neg h0]
  cases w.readU64 w.dbg.pid fp with
  | none => simp
  | some savedFp =>
  cases w.readU64 w.dbg.pid (fp + 8) with
  | none => simp
  | some savedPc =>
      simp only [hvalid, ite_eq_iff, Option.some.injEq, Prod.mk.injEq]
      constructor
      · rintro (⟨_, h⟩ | ⟨hok, rfl, rfl⟩)
        · cases h
        · exact ⟨h0, rfl, rfl, not_not.mp hok⟩
      · rintro ⟨_, rfl, rfl, hok⟩
        exact Or.inr ⟨not_not.mpr hok, rfl, rfl⟩

/-- `up` takes the record of the frame if there is one, and else the link register. -/
lemma World.regsFrameUp_eq (w : World σ) (r : Regs) : w.regsFrameUp r =
    match w.recordAt r.fp with
    | some (nextFp, retAddr) => some (r.called nextFp retAddr)
    | none => w.unwindFromStackTop r := by
  cases h : w.recordAt r.fp with
  | some record =>
      obtain ⟨nextFp, retAddr⟩ := record
      obtain ⟨h0, hfp, hpc, hok⟩ := recordAt_eq_some.mp h
      simp only [regsFrameUp, if_neg h0, hfp, hpc, if_pos hok]
      rfl
  | none =>
      rw [regsFrameUp]
      dsimp only
      split
      next savedFp retAddr hfp hpc =>
        have h0 : r.fp ≠ 0 := fun h0 => by simp [h0] at hfp
        rw [if_neg h0] at hfp hpc
        split
        next hok =>
          rw [recordAt_eq_some.mpr ⟨h0, hfp, hpc, hok⟩] at h
          cases h
        · rfl
      · rfl

/-- The fallback fails exactly without a return address in the link register, and leads to
it. -/
lemma World.unwindFromStackTop_eq_none {w : World σ} {r : Regs} :
    w.unwindFromStackTop r = none ↔ retAddrValid r.native.lr = false := by
  rw [unwindFromStackTop]
  cases retAddrValid r.native.lr with
  | false => simp
  | true =>
      simp only [Bool.true_eq_false, if_false, iff_false]
      split <;> simp

lemma World.unwindFromStackTop_pc {w : World σ} {r r' : Regs}
    (h : w.unwindFromStackTop r = some r') : r'.pc = r.native.lr := by
  rw [unwindFromStackTop] at h
  dsimp only at h
  split at h
  · cases h
  split at h
  · obtain rfl := Option.some.inj h
    rw [Regs.pc]
    dsimp only
    split <;> rfl
  · obtain rfl := Option.some.inj h
    rfl

/-- `up` leaves the link register and the floating-point registers alone. -/
lemma World.regsFrameUp_keeps {w : World σ} {r r' : Regs} (h : w.regsFrameUp r = some r') :
    r'.neon = r.neon ∧ r'.native.lr = r.native.lr := by
  rw [regsFrameUp_eq] at h
  split at h
  · obtain rfl := Option.some.inj h
    exact ⟨rfl, rfl⟩
  · rw [unwindFromStackTop] at h
    dsimp only at h
    split at h
    · cases h
    split at h
    · obtain rfl := Option.some.inj h
      refine ⟨rfl, ?_⟩
      dsimp only
      split <;> rfl
    · obtain rfl := Option.some.inj h
      exact ⟨rfl, rfl⟩

/-! ### `up` in a world -/

/-- The selected thread of a process has these registers. -/
def World.Selected (w : World σ) (r : Regs) : Prop :=
  ∃ t, w.resolvePort w.dbg.pid w.dbg.currentTid = some t ∧ t.regs = r

/-- Where `up` fails. -/
lemma frameUp_of_none {w : World σ} {r : Regs} (hs : w.Selected r) (h : w.regsFrameUp r = none) :
    (frameUp w).value = some (-1) := by
  obtain ⟨t, ht, rfl⟩ := hs
  rcases refreshRegs_cases w with ⟨hn, _⟩ | ⟨u, hu, hrun⟩
  · rw [ht] at hn
    cases hn
  obtain rfl : t = u := Option.some.inj (ht.symm.trans hu)
  rw [frameUp, Prog.bind_of_eq hrun, if_neg (by simp), Prog.get_bind]
  have h' : (w.setDbg { w.dbg with regs := t.regs }).regsFrameUp t.regs = none := h
  simp only [World.setDbg_dbg, h', Prog.pure_apply]

/-- Where `up` leads: the registers are written back, and the memory stays as it is. -/
lemma frameUp_of_some {w : World σ} {r r' : Regs} (hs : w.Selected r)
    (h : w.regsFrameUp r = some r') :
    ∃ w' t, frameUp w = ⟨some 0, w', t⟩ ∧ w'.dbg.regs = r' ∧ w'.Selected r' ∧
      ∀ a, w'.readU64 w'.dbg.pid a = w.readU64 w.dbg.pid a := by
  obtain ⟨t, ht, rfl⟩ := hs
  obtain ⟨p, hp, hpt⟩ := Option.bind_eq_some_iff.mp ht
  rcases refreshRegs_cases w with ⟨hn, _⟩ | ⟨u, hu, hrun⟩
  · rw [ht] at hn
    cases hn
  obtain rfl : t = u := Option.some.inj (ht.symm.trans hu)
  have h' : (w.setDbg { w.dbg with regs := t.regs }).regsFrameUp t.regs = some r' := h
  have hstore := storeRegs_run (w := w.setDbg { w.dbg with regs := r' }) hp hpt
  have htask : ((w.setDbg { w.dbg with regs := r' }).setProc
      (p.stored w.dbg.currentTid r')).taskForPid w.dbg.pid = some (p.stored w.dbg.currentTid r') :=
    World.taskForPid_setProc hp rfl
  refine ⟨(w.setDbg { w.dbg with regs := r' }).setProc (p.stored w.dbg.currentTid r'),
    ⟨.refreshRegs, w⟩ :: [⟨.location r'.pc, (w.setDbg { w.dbg with regs := r' }).setProc
      (p.stored w.dbg.currentTid r')⟩], ?_, rfl, ?_, fun a => ?_⟩
  · rw [frameUp, Prog.bind_of_eq hrun, if_neg (by simp), Prog.get_bind]
    simp only [World.setDbg_dbg, h', modifyDbg_bind, World.setDbg_setDbg]
    rw [Prog.bind_of_eq hstore, if_neg (by simp), Prog.get_bind]
    rfl
  · have hneon : ({ t.regs with native := r'.native } : Regs) = r' := by
      cases r'
      exact congrArg (Regs.mk _) (World.regsFrameUp_keeps h).1.symm
    refine ⟨{ t with regs := { t.regs with native := r'.native } }, ?_, hneon⟩
    rw [World.resolvePort, World.setProc_dbg, World.setDbg_dbg, htask, Option.bind_some]
    exact Threads.resolve_update hpt
      (fun t => { t with regs := { t.regs with native := r'.native } }) fun _ => rfl
  · rw [World.readU64, World.readMem, World.setProc_dbg, World.setDbg_dbg, htask, World.readU64,
      World.readMem, hp]
    rfl

/-! ### The two walks -/

lemma World.recordAt_congr {w w' : World σ}
    (h : ∀ a, w'.readU64 w'.dbg.pid a = w.readU64 w.dbg.pid a) (fp : Addr) :
    w'.recordAt fp = w.recordAt fp := by
  rw [recordAt, recordAt, frameRecordNext, frameRecordNext, h, h]

lemma World.callers_congr {w w' : World σ}
    (h : ∀ a, w'.readU64 w'.dbg.pid a = w.readU64 w.dbg.pid a) (n : ℕ) :
    ∀ fp, w'.callers n fp = w.callers n fp := by
  induction n with
  | zero => exact fun _ => rfl
  | succ n ih =>
      intro fp
      rw [callers_succ, callers_succ, recordAt_congr h]
      split
      · rfl
      · rw [ih]

/-- One `up` along a record. -/
lemma World.ups_of_record {w : World σ} {r : Regs} (hs : w.Selected r) {nextFp retAddr : Addr}
    (h : w.recordAt r.fp = some (nextFp, retAddr)) (n : ℕ) :
    ∃ w' : World σ, w'.Selected (r.called nextFp retAddr) ∧
      (∀ a, w'.readU64 w'.dbg.pid a = w.readU64 w.dbg.pid a) ∧
      ups (n + 1) w = r.called nextFp retAddr :: ups n w' := by
  have hup : w.regsFrameUp r = some (r.called nextFp retAddr) := by rw [regsFrameUp_eq, h]
  obtain ⟨w', t, hrun, hregs, hsel, hread⟩ := frameUp_of_some hs hup
  refine ⟨w', hsel, hread, ?_⟩
  rw [ups, hrun, if_pos rfl, ← hregs]

/-- Along the records `up` reaches the callers that `tb` lists, one after the other, and the
frame pointer grows. -/
lemma World.ups_callers (n : ℕ) : ∀ (w : World σ) (r : Regs), w.Selected r →
    w.callers n r.fp <+: (ups n w).map Regs.pc ∧
      (r.fp :: ((ups n w).take (w.callers n r.fp).length).map Regs.fp).Pairwise (· < ·) ∧
      (retAddrValid r.native.lr = false → (ups n w).map Regs.pc = w.callers n r.fp) := by
  induction n with
  | zero => exact fun w r _ => ⟨List.prefix_rfl, by simp [ups], fun _ => rfl⟩
  | succ n ih =>
      intro w r hs
      rw [callers_succ]
      cases hrec : w.recordAt r.fp with
      | none =>
          refine ⟨List.nil_prefix, by simp, fun hlr => ?_⟩
          have hup : w.regsFrameUp r = none := by
            rw [regsFrameUp_eq, hrec]
            exact unwindFromStackTop_eq_none.mpr hlr
          rw [ups, frameUp_of_none hs hup, if_neg (by simp)]
          rfl
      | some record =>
          obtain ⟨nextFp, retAddr⟩ := record
          obtain ⟨w', hsel, hread, hups⟩ := ups_of_record hs hrec n
          obtain ⟨hpre, hfp, hall⟩ := ih w' _ hsel
          rw [callers_congr hread] at hpre hfp hall
          dsimp only
          rw [hups, List.map_cons]
          refine ⟨(List.prefix_cons_inj retAddr).mpr hpre, ?_, fun hlr => ?_⟩
          · rw [List.length_cons, List.take_succ_cons, List.map_cons, List.pairwise_cons]
            have hlt : r.fp < nextFp := (recordAt_eq_some.mp hrec).2.2.2.1
            refine ⟨fun a ha => ?_, hfp⟩
            rcases List.mem_cons.mp ha with rfl | ha
            · exact hlt
            · exact BitVec.lt_trans hlt ((List.pairwise_cons.mp hfp).1 a ha)
          · rw [hall hlr]
            rfl

/-- The frame pointer grows along the callers, so there are no more than addresses. -/
lemma World.callers_stable (w : World σ) (N : ℕ) : ∀ fp : Addr, 2 ^ 64 ≤ fp.toNat + N →
    ∀ n, N ≤ n → w.callers n fp = w.callers N fp := by
  induction N with
  | zero => exact fun fp h => absurd fp.isLt (by omega)
  | succ N ih =>
      intro fp h n hn
      obtain ⟨m, rfl⟩ : ∃ m, n = m + 1 := ⟨n - 1, by omega⟩
      rw [callers_succ, callers_succ]
      cases hrec : w.recordAt fp with
      | none => rfl
      | some record =>
          obtain ⟨nextFp, retAddr⟩ := record
          have hlt : fp.toNat < nextFp.toNat := (recordAt_eq_some.mp hrec).2.2.2.1
          exact congrArg (retAddr :: ·) (ih nextFp (by omega) m (by omega))

/-- **`up` follows `tb`**: there are finitely many callers; `up` reaches them one after the other
with a growing frame pointer; without a return address in the link register it then fails, and
where there is no record to begin with it leads to a return address in the link register. -/
theorem up_follows_tb (w : World σ) (r : Regs) (hs : w.Selected r) :
    (∀ n, 2 ^ 64 ≤ n → w.callers n r.fp = w.callers (2 ^ 64) r.fp) ∧
    (∀ n, w.callers n r.fp <+: (w.ups n).map Regs.pc) ∧
    (∀ n, (r.fp :: ((w.ups n).take (w.callers n r.fp).length).map Regs.fp).Pairwise (· < ·)) ∧
    (retAddrValid r.native.lr = false → ∀ n, (w.ups n).map Regs.pc = w.callers n r.fp) ∧
    (w.recordAt r.fp = none → retAddrValid r.native.lr = true →
      (w.ups 1).map Regs.pc = [r.native.lr]) := by
  refine ⟨fun n hn => w.callers_stable _ _ (Nat.le_add_left _ _) n hn,
    fun n => (World.ups_callers n w r hs).1, fun n => (World.ups_callers n w r hs).2.1,
    fun hlr n => (World.ups_callers n w r hs).2.2 hlr, fun hrec hlr => ?_⟩
  cases hup : w.unwindFromStackTop r with
  | none =>
      rw [World.unwindFromStackTop_eq_none.mp hup] at hlr
      cases hlr
  | some r' =>
      have hframe : w.regsFrameUp r = some r' := by rw [World.regsFrameUp_eq, hrec, hup]
      obtain ⟨w', t, hrun, hregs, -⟩ := frameUp_of_some hs hframe
      rw [World.ups, hrun, if_pos rfl]
      simp only [hregs, World.ups, List.map_cons, List.map_nil,
        World.unwindFromStackTop_pc hup]

lemma World.length_callers_le (w : World σ) : ∀ n fp, (w.callers n fp).length ≤ n
  | 0, _ => le_rfl
  | n + 1, fp => by
      rw [callers_succ]
      cases w.recordAt fp with
      | none => exact Nat.zero_le _
      | some record => exact Nat.succ_le_succ (w.length_callers_le n record.1)

/-- **`tb` prints what `up` reaches**: the selected frame and then the frames that `up` leads
to, 64 in all at most. -/
theorem backtrace_ups {w : World σ} (hs : w.Selected w.dbg.regs) :
    w.backtrace <+: (w.dbg.regs :: w.ups (maxBacktraceFrames - 1)).map Regs.pc ∧
      w.backtrace.length ≤ maxBacktraceFrames :=
  ⟨(List.prefix_cons_inj _).mpr (World.ups_callers (maxBacktraceFrames - 1) w _ hs).1,
    Nat.succ_le_succ (w.length_callers_le (maxBacktraceFrames - 1) w.dbg.regs.fp)⟩

/-! ### A stack with one caller -/

/-- A child stopped with a frame record at `0x100` for the return address `0x1500`, and none
behind it. -/
def oneCaller (lr : Addr) : World Unit where
  dbg := { Dbg.init with pid := 7, state := .stopped, currentTid := 1 }
  proc :=
    let native := { Regs.zero.native with pc := 0x1000, fp := 0x100, lr := lr }
    some (.resting (.numbered { Thread.at 1 0x1000 with regs := ⟨native, Regs.zero.neon⟩ } [])
      ((Memory.write (fun _ => 0) 0x100 8 0x200).write 0x108 8 0x1500))
  host := ()

/-- Without a return address in the link register there is one `up`. -/
theorem up_follows_tb_one : ((oneCaller 0).ups 3).map Regs.pc = [0x1500] := by
  have h := (up_follows_tb (oneCaller 0) _ ⟨_, rfl, rfl⟩).2.2.2.1 (by decide) 3
  rw [h]
  decide +kernel

/-- With one `up` goes on for ever, to the link register again and again. -/
theorem up_repeats : (oneCaller 0x1600).callers 64 0x100 = [0x1500] ∧
    ((oneCaller 0x1600).ups 4).map Regs.pc = [0x1500, 0x1600, 0x1600, 0x1600] := by
  decide +kernel

end Cdbg
