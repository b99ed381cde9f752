import Cdbg.Lib.Memory
import Cdbg.Lib.CString
import Cdbg.Machine.Registers
import Cdbg.Source.LineTable
import Cdbg.Source.Symbols

/-!
The debuggee as the kernel shows it to the debugger, and the host that decides
what the debuggee does.

A process has a memory and a nonempty list of threads with distinct nonzero ids,
in the order of `task_threads`. A thread carries its registers, the fault address
and syndrome of its last exception, its Mach suspend count and its debug
registers; the last two belong to the kernel and survive a stop.

Nothing is assumed of the debuggee: a `Host` is any function that says, each time
the debuggee is resumed, whether and how it next reports to `waitpid`.
-/

namespace Cdbg

/-- `THREAD_IDENTIFIER_INFO.thread_id`. -/
abbrev Tid := ℕ

/-- A thread of the debuggee. -/
structure Thread where
  tid : Tid
  regs : Regs
  far : Addr
  esr : BitVec 32
  suspendCount : ℕ
  debug : DebugState

/-- The threads of a live process, in the order of `task_threads`. -/
structure Threads where
  list : List Thread
  ne_nil : list ≠ []
  nodup : (list.map Thread.tid).Nodup
  tid_ne_zero : ∀ t ∈ list, t.tid ≠ 0

namespace Threads

/-- Change every thread without changing its id. -/
def map (ts : Threads) (f : Thread → Thread) (hf : ∀ t, (f t).tid = t.tid) : Threads where
  list := ts.list.map f
  ne_nil := by simpa using ts.ne_nil
  nodup := by
    have h : (ts.list.map f).map Thread.tid = ts.list.map Thread.tid := by
      simp [List.map_map, Function.comp_def, hf]
    rw [h]
    exact ts.nodup
  tid_ne_zero t ht := by
    obtain ⟨u, hu, rfl⟩ := List.mem_map.mp ht
    rw [hf]
    exact ts.tid_ne_zero u hu

@[simp] lemma list_map (ts : Threads) (f : Thread → Thread) (hf) :
    (ts.map f hf).list = ts.list.map f := rfl

/-- The primary thread, `task_threads()[0]`. -/
def primary (ts : Threads) : Thread := ts.list.head ts.ne_nil

lemma primary_mem (ts : Threads) : ts.primary ∈ ts.list := List.head_mem _

/-- `cdbg_threads_resolve_port`: `0` stands for the primary thread. -/
def resolve (ts : Threads) (tid : Tid) : Option Thread :=
  if tid = 0 then some ts.primary else ts.list.find? fun t => t.tid = tid

/-- Whether a thread of this id exists. -/
def has (ts : Threads) (tid : Tid) : Prop := ∃ t ∈ ts.list, t.tid = tid

instance (ts : Threads) (tid : Tid) : Decidable (ts.has tid) :=
  inferInstanceAs (Decidable (∃ t ∈ ts.list, t.tid = tid))

/-- The id that `tid` stands for. -/
def idOf (ts : Threads) (tid : Tid) : Tid := if tid = 0 then ts.primary.tid else tid

/-- Change the thread that `tid` stands for. -/
def update (ts : Threads) (tid : Tid) (f : Thread → Thread)
    (hf : ∀ t, (f t).tid = t.tid) : Threads :=
  ts.map (fun t => if t.tid = ts.idOf tid then f t else t) fun t => by
    split
    · exact hf t
    · rfl

/-- A thread id resolves exactly if it is `0` or the id of a thread. -/
lemma resolve_isSome_iff (ts : Threads) (tid : Tid) :
    (ts.resolve tid).isSome ↔ tid = 0 ∨ ts.has tid := by
  rw [resolve]
  split
  · simp [*]
  · rw [List.find?_isSome]
    simp [has, *]

lemma resolve_mem {ts : Threads} {tid : Tid} {t : Thread} (h : ts.resolve tid = some t) :
    t ∈ ts.list := by
  rw [resolve] at h
  split at h
  · exact Option.some.inj h ▸ ts.primary_mem
  · exact List.mem_of_find?_eq_some h

/-- The id that stands for a thread is its own. -/
lemma idOf_of_resolve {ts : Threads} {tid : Tid} {t : Thread} (h : ts.resolve tid = some t) :
    ts.idOf tid = t.tid := by
  rw [resolve] at h
  rw [idOf]
  split at h
  next h0 => rw [if_pos h0, Option.some.inj h]
  next h0 =>
    have htid : t.tid = tid := by simpa using List.find?_some h
    rw [if_neg h0, htid]

lemma resolve_map (ts : Threads) (f : Thread → Thread) (hf) (tid : Tid) :
    (ts.map f hf).resolve tid = (ts.resolve tid).map f := by
  rw [resolve, resolve]
  split
  · simp only [primary, list_map, List.head_map, Option.map_some]
  · simp only [list_map, List.find?_map, Function.comp_def, hf]

lemma has_map (ts : Threads) (f : Thread → Thread) (hf) (tid : Tid) :
    (ts.map f hf).has tid ↔ ts.has tid := by
  simp [has, hf]

end Threads

/-- How a process was last set running. -/
inductive Resume
  | exec
  | step
  | cont
  | sigkill
  deriving DecidableEq, Repr

/-- What the debuggee looks like when it stops. The suspend counts and debug
registers given here are ignored: the kernel keeps those (`Proc.stopWith`). -/
structure StopState where
  threads : Threads
  mem : Memory
  mapped : Addr → Bool

/-- What `waitpid` reports of the debuggee. -/
inductive Outcome
  | exited (code : ℕ)
  | signaled (sig : ℕ)
  | stopped (s : StopState)

/-- A child process that `waitpid` has not reaped. -/
structure Proc where
  pid : ℕ
  pid_pos : 0 < pid
  threads : Threads
  mem : Memory
  mapped : Addr → Bool
  /-- start of the first executable region, from which the slide is computed -/
  textBase : Addr
  /-- how it was set running; `none` while it is stopped for the debugger -/
  running : Option Resume

namespace Proc

/-- A thread as the kernel shows it at a stop: its suspend count and debug registers
are the ones it had; a new thread has none. -/
def keepKernelState (p : Proc) (t : Thread) : Thread :=
  match p.threads.list.find? (fun u => u.tid = t.tid) with
  | some u => { t with suspendCount := u.suspendCount, debug := u.debug }
  | none => { t with suspendCount := 0, debug := .zero }

lemma keepKernelState_tid (p : Proc) (t : Thread) : (p.keepKernelState t).tid = t.tid := by
  rw [keepKernelState]
  split <;> rfl

/-- The process as it stops. -/
def stopWith (p : Proc) (s : StopState) : Proc :=
  { p with
    threads := s.threads.map p.keepKernelState p.keepKernelState_tid
    mem := s.mem
    mapped := s.mapped
    running := none }

/-- Whether `n` bytes from `a` on are mapped. -/
def mappedSpan (p : Proc) (a : Addr) (n : ℕ) : Bool :=
  (List.range n).all fun i => p.mapped (a + BitVec.ofNat 64 i)

lemma stopWith_has (p : Proc) (s : StopState) (tid : Tid) :
    (p.stopWith s).threads.has tid ↔ s.threads.has tid := 
  Threads.has_map s.threads p.keepKernelState p.keepKernelState_tid tid

end Proc

/-- What a program file contributes: its line table, symbols and the lines that
`dwarfdump --debug-info` prints for it. -/
structure Image where
  lineno : Option LineTable
  syms : Option SymTable
  debugInfo : List Str

/-- A new child: its id, where its text lies, and its first threads and memory. -/
structure Birth where
  pid : ℕ
  pid_pos : 0 < pid
  textBase : Addr
  start : StopState

/-- The child right after `fork`, on its way to the first stop after `exec`. -/
def Birth.proc (b : Birth) : Proc where
  pid := b.pid
  pid_pos := b.pid_pos
  threads := b.start.threads.map (fun t => { t with suspendCount := 0, debug := .zero })
    fun _ => rfl
  mem := b.start.mem
  mapped := b.start.mapped
  textBase := b.textBase
  running := some .exec

/-- Everything outside of the debugger: the kernel's scheduling, the program and
its files. `σ` is whatever state it keeps. A `resume` without outcome means that
the debuggee never stops and `waitpid` blocks for good. -/
structure Host (σ : Type) where
  fork : σ → Option (Birth × σ)
  resume : Resume → Proc → σ → Option Outcome × σ
  image : Str → Image
  /-- whether a path names a file that may be executed -/
  executable : Str → Bool

end Cdbg
