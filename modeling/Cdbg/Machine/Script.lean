import Cdbg.Machine.World

/-!
A host that plays a script: the children it forks and the outcomes `waitpid` reports,
one after the other, whatever the debugger does. Concrete runs of the debugger use it.
-/

namespace Cdbg

/-- What is left of a script. -/
structure Script where
  births : List Birth
  outcomes : List Outcome

/-- The host that plays a script for a program with this image. When the outcomes are
used up the debuggee never stops again. -/
def Script.host (image : Image) : Host Script where
  fork s := match s.births with
    | [] => none
    | b :: bs => some (b, { s with births := bs })
  resume _ _ s := match s.outcomes with
    | [] => (none, s)
    | o :: os => (some o, { s with outcomes := os })
  image _ := image
  executable _ := false

/-- A program file without debugging information. -/
def Image.stripped : Image := ⟨none, none, []⟩

/-- A thread with this id and program counter. -/
def Thread.at (tid : Tid) (pc : Addr) : Thread :=
  ⟨tid, Regs.zero.setPc pc, 0, 0, 0, .zero⟩

/-- Threads whose ids are `1`, `2` and so on. -/
def Threads.numbered (t : Thread) (ts : List Thread) : Threads where
  list := (t :: ts).mapIdx fun k t => { t with tid := k + 1 }
  ne_nil := by simp
  nodup := by
    rw [List.Nodup, List.pairwise_iff_getElem]
    intro i j hi hj hij
    simp only [List.getElem_map, List.getElem_mapIdx]
    exact (Nat.succ_lt_succ hij).ne
  tid_ne_zero t ht := by
    obtain ⟨k, _, rfl⟩ := List.mem_mapIdx.mp ht
    exact Nat.succ_ne_zero k

/-- A child with process id `7` whose text lies at `0x1000`. -/
def Birth.of (start : StopState) : Birth := ⟨7, by decide, 0x1000, start⟩

/-- A child with process id `7` that is stopped for the debugger, with all memory mapped. -/
def Proc.resting (threads : Threads) (mem : Memory) : Proc where
  pid := 7
  pid_pos := by decide
  threads := threads
  mem := mem
  mapped _ := true
  textBase := 0
  running := none

/-- A stop of one thread, with all memory mapped. -/
def StopState.at (pc : Addr) (mem : Memory) : StopState :=
  ⟨.numbered (.at 1 pc) [], mem, fun _ => true⟩

end Cdbg
