import Cdbg.Machine.Process

/-!
The execution of a program, as it would be without a debugger, and hosts that follow it.

A debuggee in whose code breakpoints are planted executes its program like one without
them, as long as it is not stepped at a breakpoint: its data is the program's, and its
code is whatever the debugger has made of it (`Host.Follows`).
-/

namespace Cdbg

/-- The program at some moment: the registers of its thread and its memory. -/
structure Moment where
  regs : Regs
  mem : Memory

/-- An address of an instruction of the code. -/
def IsWord (code : Set Addr) (a : Addr) : Prop := a.toNat % 4 = 0 ∧ Memory.span a 4 ⊆ code

/-- An execution of a program with a single thread: where it is after each number of
instructions, `none` when it has exited. It runs its code and does not change it. -/
structure Execution where
  code : Set Addr
  moment : ℕ → Option Moment
  runs : ∀ n, ∀ m ∈ moment n, IsWord code m.regs.pc
  steady : ∀ n, ∀ m ∈ moment n, ∀ m' ∈ moment (n + 1), ∀ a ∈ code, m'.mem a = m.mem a

/-- The debuggee is at a moment of the execution: its one thread and its data are those of
the program. -/
structure Proc.Shows (x : Execution) (m : Moment) (p : Proc) (t : Thread) : Prop where
  single : p.threads.list = [t]
  regs : t.regs = m.regs
  data : ∀ a, a ∉ x.code → p.mem a = m.mem a

/-- A stop of a debuggee at a moment of the execution, with its code as it was. -/
structure StopState.Shows (x : Execution) (m : Moment) (s : StopState) (p : Proc) (t : Thread) :
    Prop where
  single : s.threads.list = [t]
  tid : ∀ u ∈ p.threads.list, u.tid = t.tid
  regs : t.regs = m.regs
  data : ∀ a, a ∉ x.code → s.mem a = m.mem a
  code : ∀ a ∈ x.code, s.mem a = p.mem a ∧ s.mapped a = p.mapped a

/-- What `waitpid` reports where the execution has come to. -/
def Outcome.Shows (x : Execution) (p : Proc) : Outcome → Option Moment → Prop
  | .stopped s, some m => ∃ t, s.Shows x m p t
  | .stopped _, none => False
  | _, some _ => False
  | _, none => True

/-- A host on which the debuggee follows an execution: stepped at an instruction of the
program, it executes that instruction, and stops or has exited. -/
structure Host.Follows {σ : Type} (host : Host σ) (executed : σ → ℕ) (x : Execution) : Prop where
  step : ∀ p h m t, x.moment (executed h) = some m → p.Shows x m t →
    p.mem.read m.regs.pc 4 = m.mem.read m.regs.pc 4 →
    ∃ o h', host.resume .step p h = (some o, h') ∧ executed h' = executed h + 1 ∧
      o.Shows x p (x.moment (executed h + 1))

end Cdbg
