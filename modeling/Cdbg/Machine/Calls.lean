import Cdbg.Machine.World

/-!
What the system calls of `World` do, as equations of their runs.
-/

namespace Cdbg

variable {σ α : Type}

namespace World

lemma taskForPid_eq_some {w : World σ} {pid : ℕ} {p : Proc} :
    w.taskForPid pid = some p ↔ w.proc = some p ∧ p.pid = pid := by
  simp [taskForPid, Option.filter_eq_some_iff]

/-- The child process is replaced. -/
def setProc (w : World σ) (p : Proc) : World σ := { w with proc := some p }

/-- The debugger's own state is replaced. -/
def setDbg (w : World σ) (d : Dbg) : World σ := { w with dbg := d }

@[simp] lemma setProc_dbg (w : World σ) (p : Proc) : (w.setProc p).dbg = w.dbg := rfl

@[simp] lemma setProc_proc (w : World σ) (p : Proc) : (w.setProc p).proc = some p := rfl

@[simp] lemma setProc_host (w : World σ) (p : Proc) : (w.setProc p).host = w.host := rfl

@[simp] lemma setDbg_dbg (w : World σ) (d : Dbg) : (w.setDbg d).dbg = d := rfl

@[simp] lemma setDbg_proc (w : World σ) (d : Dbg) : (w.setDbg d).proc = w.proc := rfl

@[simp] lemma setDbg_host (w : World σ) (d : Dbg) : (w.setDbg d).host = w.host := rfl

@[simp] lemma setDbg_setDbg (w : World σ) (d d' : Dbg) :
    (w.setDbg d).setDbg d' = w.setDbg d' := rfl

@[simp] lemma setDbg_self (w : World σ) : w.setDbg w.dbg = w := rfl

@[simp] lemma taskForPid_setDbg (w : World σ) (d : Dbg) (pid : ℕ) :
    (w.setDbg d).taskForPid pid = w.taskForPid pid := rfl

lemma readMem_eq_some {w : World σ} {pid n v : ℕ} {a : Addr} :
    w.readMem pid a n = some v ↔
      ∃ p, w.taskForPid pid = some p ∧ p.mappedSpan a n = true ∧ p.mem.read a n = v := by
  simp [readMem, Option.bind_eq_some_iff]

end World

lemma emit_bind (k : EventKind) (f : Unit → Debugger σ α) (w : World σ) :
    (emit k >>= f) w = ⟨(f () w).value, (f () w).final, ⟨k, w⟩ :: (f () w).trace⟩ :=
  Prog.emit_bind _ f w

@[simp] lemma emit_run (k : EventKind) (w : World σ) :
    (emit k : Debugger σ Unit) w = ⟨some (), w, [⟨k, w⟩]⟩ := rfl

@[simp] lemma modifyDbg_run (g : Dbg → Dbg) (w : World σ) :
    (modifyDbg g : Debugger σ Unit) w = ⟨some (), w.setDbg (g w.dbg), []⟩ := rfl

@[simp] lemma modifyDbg_bind (g : Dbg → Dbg) (f : Unit → Debugger σ α) (w : World σ) :
    (modifyDbg g >>= f) w = f () (w.setDbg (g w.dbg)) :=
  Prog.modify_bind _ f w

lemma modifyProc_bind {g : Proc → Proc} {f : Unit → Debugger σ α} {w : World σ} {p : Proc}
    (hp : w.proc = some p) : (modifyProc g >>= f) w = f () (w.setProc (g p)) := by
  rw [modifyProc, Prog.modify_bind, hp]
  rfl

lemma modifyProc_run {g : Proc → Proc} {w : World σ} {p : Proc} (hp : w.proc = some p) :
    (modifyProc g : Debugger σ Unit) w = ⟨some (), w.setProc (g p), []⟩ := by
  rw [modifyProc, Prog.modify_apply, hp]
  rfl

lemma memRead_of_some {w : World σ} {pid n v : ℕ} {a : Addr} (h : w.readMem pid a n = some v) :
    memRead pid a n w = ⟨some (some v), w, []⟩ := by
  simp [memRead, h]

lemma memRead_of_none {w : World σ} {pid n : ℕ} {a : Addr} (h : w.readMem pid a n = none) :
    memRead pid a n w = ⟨some none, w, [⟨.memFailed a n, w⟩]⟩ := by
  simp [memRead, h]

@[simp] lemma regsGet_bind (pid : ℕ) (tid : Tid) (f : Option Regs → Debugger σ α)
    (w : World σ) :
    (regsGet pid tid >>= f) w = f ((w.resolvePort pid tid).map Thread.regs) w := by
  simp [regsGet]

/-- A write to mapped memory. -/
lemma memWrite_of_mapped {w : World σ} {pid n v : ℕ} {p : Proc} {a : Addr}
    (hp : w.taskForPid pid = some p) (hm : p.mappedSpan a n = true) :
    memWrite pid a n v w = ⟨some 0, w.setProc { p with mem := p.mem.write a n v }, []⟩ := by
  have hproc := (World.taskForPid_eq_some.mp hp).1
  simp only [memWrite, Prog.get_bind, hp, hm, if_true, modifyProc_bind hproc, Prog.pure_apply]

/-- A write to memory that is not wholly mapped. -/
lemma memWrite_of_unmapped {w : World σ} {pid n v : ℕ} {p : Proc} {a : Addr}
    (hp : w.taskForPid pid = some p) (hm : p.mappedSpan a n = false) :
    memWrite pid a n v w =
      ⟨some (-1), w.setProc { p with mem := p.mem.write a (p.mappedPrefix a n) v },
        [⟨.memFailed a n, w⟩]⟩ := by
  have hproc := (World.taskForPid_eq_some.mp hp).1
  simp [memWrite, hp, hm, emit_bind, modifyProc_run hproc]

/-- A write to a process that does not exist. -/
lemma memWrite_of_dead {w : World σ} {pid n v : ℕ} {a : Addr}
    (hp : w.taskForPid pid = none) :
    memWrite pid a n v w = ⟨some (-1), w, [⟨.memFailed a n, w⟩]⟩ := by
  simp [memWrite, hp]

/-- A `ptrace` request is accepted exactly for a stopped child. -/
lemma ptResume_cases (k : EventKind) (r : Resume) (pid : ℕ) (w : World σ) :
    (ptResume k r pid w = ⟨some (-1), w, []⟩ ∧
      ∀ p, w.taskForPid pid = some p → p.running ≠ none) ∨
    ∃ p, w.taskForPid pid = some p ∧ p.running = none ∧
      ptResume k r pid w = ⟨some 0, w.setProc { p with running := some r }, [⟨k, w⟩]⟩ := by
  cases hp : w.taskForPid pid with
  | none => simp [ptResume, hp]
  | some p =>
      have hproc := (World.taskForPid_eq_some.mp hp).1
      by_cases hr : p.running = none
      · right
        refine ⟨p, rfl, hr, ?_⟩
        simp [ptResume, hp, hr, emit_bind, modifyProc_run hproc]
      · left
        refine ⟨by simp [ptResume, hp, hr], fun q hq => ?_⟩
        rwa [← Option.some.inj hq]

/-- The ways `cdbg_process_wait` runs. -/
lemma processWait_cases (host : Host σ) (pid : ℕ) (w : World σ) :
    (w.taskForPid pid = none ∧ processWait host pid w = ⟨some (-1), w, []⟩) ∨
    (∃ h, processWait host pid w = ⟨none, { w with host := h }, []⟩) ∨
    ∃ p r o h, w.taskForPid pid = some p ∧ p.running = some r ∧
      (r = .sigkill ∧ o = .signaled 9 ∧ h = w.host ∨
        r ≠ .sigkill ∧ host.resume r p w.host = (some o, h)) ∧
      processWait host pid w = ⟨some 0, { w with host := h }.deliver p o, [⟨.waited o, w⟩]⟩ := by
  cases hp : w.taskForPid pid with
  | none => left; simp [processWait, hp]
  | some p =>
  right
  cases hr : p.running with
  | none => left; exact ⟨w.host, by simp [processWait, hp, hr]⟩
  | some r =>
  by_cases hk : r = .sigkill
  · subst hk
    exact Or.inr ⟨p, _, .signaled 9, w.host, rfl, hr, by simp,
      by simp [processWait, hp, hr]⟩
  · rcases hres : host.resume r p w.host with ⟨_ | o, h⟩
    · refine Or.inl ⟨h, ?_⟩
      cases r <;> simp_all [processWait]
    · refine Or.inr ⟨p, r, o, h, rfl, hr, Or.inr ⟨hk, hres⟩, ?_⟩
      cases r <;> simp_all [processWait]

end Cdbg
