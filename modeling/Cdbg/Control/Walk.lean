import Cdbg.Control.Breakpoint
import Cdbg.Machine.Execution

/-!
A host that executes a program: instructions one after the other from `Walk.first` to
`Walk.last`, where the program exits.

An instruction changes the program counter only, and the host's state counts the
instructions executed. At a `BRK` the program stops and stays where it is. Runs in which
it matters what the debuggee executes use this host.
-/

namespace Cdbg

namespace Walk

/-- Where the program starts. -/
def first : Addr := 0x1000

/-- The last instruction of the program. -/
def last : Addr := 0x1040

/-- The primary thread one instruction on. -/
def advance (ts : Threads) : Threads :=
  ts.update 0 (fun t => { t with regs := t.regs.setPc (t.regs.pc + 4) }) fun _ => rfl

/-- Whether the primary thread is at a `BRK`. -/
def atBrk (p : Proc) (ts : Threads) : Bool :=
  BitVec.ofNat 32 (p.mem.read ts.primary.regs.pc 4) = trapInst

/-- A stop with these threads. -/
def halt (p : Proc) (ts : Threads) : Outcome := .stopped ⟨ts, p.mem, p.mapped⟩

/-- A single step. -/
def step (p : Proc) (ts : Threads) (n : ℕ) : Outcome × ℕ :=
  if atBrk p ts then (halt p ts, n)
  else if ts.primary.regs.pc = last then (.exited 0, n + 1)
  else (halt p (advance ts), n + 1)

/-- Execution up to a `BRK` or the end, with the number of instructions it may take. -/
def run (p : Proc) : ℕ → Threads → ℕ → Option Outcome × ℕ
  | 0, _, n => (none, n)
  | fuel + 1, ts, n =>
      if atBrk p ts then (some (halt p ts), n)
      else if ts.primary.regs.pc = last then (some (.exited 0), n + 1)
      else run p fuel (advance ts) (n + 1)

/-- The child with its one thread at the start. -/
def birth : Birth where
  pid := 7
  pid_pos := by simp
  textBase := first
  start := ⟨⟨[⟨1, Regs.zero.setPc first, 0, 0, 0, .zero⟩], by simp, by simp, by simp⟩,
    fun _ => 0, fun _ => true⟩

/-- The host, for a program with this image. -/
def host (image : Image) : Host ℕ where
  fork n := some (birth, n)
  resume r p n :=
    match r with
    | .step => let (o, n') := step p p.threads n; (some o, n')
    | .cont => run p 100 p.threads n
    | _ => (some (halt p p.threads), n)
  image _ := image
  executable _ := false

/-- An execution that stops has executed something or has left the threads alone. -/
lemma run_stopped {p : Proc} {fuel : ℕ} {ts : Threads} {n n' : ℕ} {o : Option Outcome}
    (h : run p fuel ts n = (o, n')) :
    n ≤ n' ∧ (n' = n → ∀ s, o = some (.stopped s) → s.threads = ts) := by
  induction fuel generalizing ts n with
  | zero =>
      obtain ⟨rfl, rfl⟩ := Prod.mk.inj h
      exact ⟨le_refl _, by simp⟩
  | succ fuel ih =>
      rw [run] at h
      split_ifs at h
      · obtain ⟨rfl, rfl⟩ := Prod.mk.inj h
        refine ⟨le_refl _, fun _ s hs => ?_⟩
        rw [← Outcome.stopped.inj (Option.some.inj hs)]
      · obtain ⟨rfl, rfl⟩ := Prod.mk.inj h
        exact ⟨Nat.le_succ _, by simp⟩
      · obtain ⟨hle, _⟩ := ih h
        exact ⟨by omega, by omega⟩

lemma step_stopped {p : Proc} {ts : Threads} {n n' : ℕ} {o : Outcome}
    (h : step p ts n = (o, n')) :
    n ≤ n' ∧ (n' = n → ∀ s, o = .stopped s → s.threads = ts) := by
  rw [step] at h
  split_ifs at h
  · obtain ⟨rfl, rfl⟩ := Prod.mk.inj h
    refine ⟨le_refl _, fun _ s hs => ?_⟩
    rw [← Outcome.stopped.inj hs]
  · obtain ⟨rfl, rfl⟩ := Prod.mk.inj h
    exact ⟨Nat.le_succ _, by omega⟩
  · obtain ⟨rfl, rfl⟩ := Prod.mk.inj h
    exact ⟨Nat.le_succ _, by omega⟩

/-! ### Its execution -/

/-- The program after `n` of its instructions. -/
def momentAt (n : ℕ) : Moment :=
  ⟨Regs.zero.setPc (first + BitVec.ofNat 64 (4 * n)), fun _ => 0⟩

lemma toNat_pc {n : ℕ} (hn : n ≤ 16) : (momentAt n).regs.pc.toNat = 0x1000 + 4 * n := by
  have hfirst : first.toNat = 0x1000 := rfl
  simp only [momentAt, Regs.pc_setPc, BitVec.toNat_add, BitVec.toNat_ofNat, hfirst]
  omega

lemma read_zero (a : Addr) : ∀ n, Memory.read (fun _ => 0) a n = 0
  | 0 => rfl
  | n + 1 => by rw [Memory.read, read_zero (a + 1) n]; rfl

/-- The execution from the first instruction on. -/
def execution : Execution where
  code := {a | 0x1000 ≤ a.toNat ∧ a.toNat < 0x1044}
  moment n := if n ≤ 16 then some (momentAt n) else none
  runs n m hm := by
    obtain ⟨hn, h⟩ := Option.ite_none_right_eq_some.mp hm
    obtain rfl := Option.some.inj h
    have hpc := toNat_pc hn
    refine ⟨by omega, fun a ha => ?_⟩
    rw [Memory.mem_span, BitVec.toNat_sub, hpc] at ha
    have hlt := a.isLt
    constructor <;> omega
  steady n m hm m' hm' a _ := by
    obtain ⟨-, h⟩ := Option.ite_none_right_eq_some.mp hm
    obtain ⟨-, h'⟩ := Option.ite_none_right_eq_some.mp hm'
    obtain rfl := Option.some.inj h
    obtain rfl := Option.some.inj h'
    rfl

lemma execution_moment {n : ℕ} {m : Moment} (hm : execution.moment n = some m) :
    n ≤ 16 ∧ m = momentAt n := by
  obtain ⟨hn, h⟩ := Option.ite_none_right_eq_some.mp hm
  exact ⟨hn, (Option.some.inj h).symm⟩

/-- The host executes the program. -/
lemma follows (image : Image) : (host image).Follows id execution where
  step p h m t hm hp hread := by
    change execution.moment h = some m at hm
    obtain ⟨hn, rfl⟩ := execution_moment hm
    have hprim : p.threads.primary = t := by simp [Threads.primary, hp.single]
    have hbrk : atBrk p p.threads = false := by
      have hzero : (momentAt h).mem.read (momentAt h).regs.pc 4 = 0 := read_zero _ 4
      rw [atBrk, hprim, hp.regs, hread, hzero]
      rfl
    have hpc := toNat_pc hn
    -- the last instruction ends the process, the others move the only thread on
    by_cases hlast : h = 16
    · have hend : p.threads.primary.regs.pc = last := by
        rw [hprim, hp.regs]
        subst hlast
        rfl
      refine ⟨.exited 0, h + 1, ?_, rfl, ?_⟩
      · simp only [host, step, hbrk, hend, Bool.false_eq_true, if_false, if_true]
      · have : execution.moment (id h + 1) = none := if_neg (by simp [hlast])
        rw [this]
        trivial
    · have hne : p.threads.primary.regs.pc ≠ last := by
        intro he
        rw [hprim, hp.regs] at he
        rw [he] at hpc
        change 0x1040 = _ at hpc
        omega
      refine ⟨halt p (advance p.threads), h + 1, ?_, rfl, ?_⟩
      · simp only [host, step, hbrk, hne, Bool.false_eq_true, if_false]
      · have : execution.moment (id h + 1) = some (momentAt (h + 1)) :=
          if_pos (by simp only [id]; omega)
        rw [this]
        refine ⟨{ t with regs := t.regs.setPc (t.regs.pc + 4) }, ?_, ?_, ?_, hp.data,
          fun a _ => ⟨rfl, rfl⟩⟩
        · have hid : p.threads.idOf 0 = t.tid := by rw [Threads.idOf, if_pos rfl, hprim]
          simp [advance, Threads.update, hp.single, hid]
        · intro u hu
          rw [hp.single, List.mem_singleton] at hu
          rw [hu]
        · rw [hp.regs]
          simp only [momentAt, Regs.setPc, Regs.pc]
          congr 2
          rw [BitVec.add_assoc]
          congr 1
          apply BitVec.eq_of_toNat_eq
          have h4 : (4 : BitVec 64).toNat = 4 := rfl
          simp only [BitVec.toNat_add, BitVec.toNat_ofNat, h4]
          omega

end Walk

end Cdbg
