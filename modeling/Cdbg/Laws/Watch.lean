import Cdbg.Laws.Armed
import Cdbg.Machine.Script

/-!
Watchpoints at a prompt: whether they are armed on every thread, and whether the debug
registers hold the table and nothing else.

A thread that appears at a stop is armed only if the stop is the hit of a watchpoint. As
long as every stop that brings a thread is followed by such a hit before the next prompt,
the watchpoints cover the threads (`watches_cover_threads`). If no thread appears at all,
the slots of the table and the registers of the threads match (`watch_slots_match`).
-/

namespace Cdbg

open Prog

variable {σ : Type}

/-! ### Threads that appear later -/

/-- Every enabled watchpoint is programmed on every thread. -/
def World.covered (w : World σ) : Prop :=
  ∀ p ∈ w.taskForPid w.dbg.pid, ∀ t ∈ p.threads.list, ∀ wp ∈ w.dbg.watchpoints.toList,
    wp.enabled = true → wp.arming.programmed t.debug

instance (w : World σ) : Decidable w.covered :=
  inferInstanceAs (Decidable (∀ p ∈ w.taskForPid w.dbg.pid, _))

namespace Event

/-- At a prompt with the debuggee stopped the watchpoints cover its threads. -/
def covers (e : Event σ) : Prop :=
  e.kind.commandRead.isSome → e.world.dbg.state = .stopped → e.world.covered

/-- At a prompt with a watchpoint no thread is fresh. -/
def caughtUp (c : Census) (e : Event σ) : Prop :=
  e.kind.commandRead.isSome → e.world.watching → c.fresh = []

instance (e : Event σ) : Decidable e.covers := inferInstanceAs (Decidable (_ → _))

instance (c : Census) (e : Event σ) : Decidable (e.caughtUp c) :=
  inferInstanceAs (Decidable (_ → _))

instance (host : Host σ) (e : Event σ) : Decidable (e.crewed host) :=
  decidable_of_iff ((e.kind.isMemFailed = true → e.world.taskForPid e.world.dbg.pid = none) ∧
      e.findsThread ∧ (∀ s ∈ e.kind.stop, s.threads.list.length ≤ maxThreads) ∧
      (e.kind.isFork = true → ∀ b ∈ host.fork e.world.host,
        b.1.start.threads.list.length ≤ maxThreads))
    ⟨fun ⟨h1, h2, h3, h4⟩ => ⟨⟨h1, h2⟩, h3, h4⟩, fun h => ⟨h.mem, h.thread, h.stop, h.birth⟩⟩

end Event

/-- **Watchpoints cover the threads**: in a session in which at every prompt with a watchpoint
no live thread has appeared since the last watchpoint hit, every enabled watchpoint is
programmed on every thread at every prompt. -/
theorem watches_cover_threads (host : Host σ) (s : σ) (argv input : List Str)
    (hok : ∀ e ∈ (cdbgMain host argv input (World.start s)).trace, e.crewed host)
    (h : Along Census.count (fun c e => e.caughtUp c) .zero
      (cdbgMain host argv input (World.start s)).trace) :
    ∀ e ∈ (cdbgMain host argv input (World.start s)).trace, e.covers := by
  refine (rigged_cdbgMain hok).forall_of_imp (fun c e hr hc hcmd _ => ?_) h
  have hw := hr hcmd
  intro p hp t ht wp hwp he
  have hrig := hw.rigged p (World.taskForPid_eq_some.mp hp).1
  have hfresh : c.fresh = [] := hc hcmd ⟨wp, hwp, he⟩
  refine hrig.programmed (t.tid, t.debug) (List.mem_map_of_mem ht) ?_ wp.arming
    (List.mem_map_of_mem hwp)
  rw [hfresh]
  exact List.not_mem_nil

/-- A stop at which thread `1` reports a store to `far` that a watchpoint has trapped. -/
def StopState.trapped (far : Addr) (others : List Thread) : StopState where
  threads := .numbered { Thread.at 1 0x1004 with far := far, esr := 0xd0000040 } others
  mem := fun _ => 0
  mapped := fun _ => true

/-- A stop of thread `1`, perhaps with others. -/
def StopState.plain (others : List Thread) : StopState where
  threads := .numbered (.at 1 0x1000) others
  mem := fun _ => 0
  mapped := fun _ => true

/-- A child whose thread `2` is there for the first time when a watchpoint at `0x2000` is hit. -/
def hitScript : Script :=
  ⟨[.of (.plain [])], [.stopped (.plain []), .stopped (.trapped 0x2000 [.at 2 0x1100]),
    .stopped (.plain [.at 2 0x1100])]⟩

/-- A thread that appears with a watchpoint hit is armed. -/
theorem watches_cover_threads_hit :
    List.Forall Event.covers (cdbgMain (Script.host .stripped) ["a".toList]
      ["watch *0x2000".toList, "continue".toList, "quit".toList] (World.start hitScript)).trace :=
  List.forall_iff_forall_mem.mpr
    (watches_cover_threads _ _ _ _ (by decide +kernel) (by decide +kernel))

/-- A child whose thread `2` is there for the first time after a single step. -/
def lateScript : Script :=
  ⟨[.of (.plain [])], [.stopped (.plain []), .stopped (.plain [.at 2 0x1100])]⟩

/-- A thread that appears at the stop of a single step is not armed, although all calls
succeed. -/
theorem watches_miss_thread :
    (∀ e ∈ (cdbgMain (Script.host .stripped) ["a".toList]
        ["watch *0x2000".toList, "si".toList, "quit".toList] (World.start lateScript)).trace,
        e.crewed (Script.host .stripped)) ∧
      ¬ ∀ e ∈ (cdbgMain (Script.host .stripped) ["a".toList]
        ["watch *0x2000".toList, "si".toList, "quit".toList] (World.start lateScript)).trace,
        e.covers := by
  decide +kernel

/-! ### A fixed set of threads -/

/-- The enabled entries have slots of their own among those in use, and on every thread the
enable bits that are set are those of these slots, whose registers encode the entry. -/
structure World.SlotsMatch (w : World σ) : Prop where
  bound : ∀ wp ∈ w.dbg.watchpoints.toList, wp.enabled = true → wp.slot < maxWatchpoints
  distinct : w.dbg.watchpoints.toList.Pairwise fun a b =>
    a.enabled = true → b.enabled = true → a.slot ≠ b.slot
  bits : ∀ p ∈ w.proc, ∀ t ∈ p.threads.list, ∀ i : Fin 16,
    t.debug.on i = true ↔ ∃ wp ∈ w.dbg.watchpoints.toList, wp.enabled = true ∧ wp.slot = i.val
  encoded : ∀ p ∈ w.proc, ∀ t ∈ p.threads.list, ∀ wp ∈ w.dbg.watchpoints.toList,
    wp.enabled = true → ∀ i : Fin 16, i.val = wp.slot →
      wp.arming.EncodedBy (t.debug.wvr i) (t.debug.wcr i)

/-- No thread appears at a stop with a watchpoint set. -/
def Event.steady (e : Event σ) : Prop :=
  ∀ s ∈ e.kind.stop, e.world.watching → ∀ p ∈ e.world.proc, ∀ t ∈ s.threads.list,
    p.threads.has t.tid

instance (e : Event σ) : Decidable e.steady :=
  inferInstanceAs (Decidable (∀ s ∈ e.kind.stop, _))

/-- While no thread appears, none is fresh. -/
lemma Census.count_steady {c : Census} {e : Event σ} (hc : c.fresh = []) (he : e.steady) :
    (c.count e).fresh = [] := by
  obtain ⟨k, w⟩ := e
  cases k with
  | waited o =>
      cases o with
      | exited _ => rfl
      | signaled _ => rfl
      | stopped s =>
          rw [count]
          dsimp only
          split
          · rfl
          next hn =>
          have hwatch : w.watching := not_not.mp (not_or.mp hn).2
          cases hp : w.proc with
          | none => simp
          | some p =>
              have hold := he s rfl hwatch p hp
              simp only [Option.map_some, Option.getD_some, Proc.freshAt, List.filter_eq_nil_iff,
                decide_eq_true_eq, not_or, not_not]
              refine List.forall_mem_map.mpr fun t ht => ⟨?_, hold t ht⟩
              rw [hc]
              exact List.not_mem_nil
  | fork => rfl
  | watchpointHit _ _ => exact hc
  | watchpointNear _ => exact hc
  | _ => exact hc

/-- Without fresh threads the registers hold the table. -/
lemma World.Watched.slotsMatch {c : Census} {w : World σ} (h : w.Watched c)
    (hc : c.fresh = []) : w.SlotsMatch := by
  have hprog : ∀ p ∈ w.proc, ∀ t ∈ p.threads.list, ∀ wp ∈ w.dbg.watchpoints.toList,
      wp.arming.programmed t.debug := by
    intro p hp t ht wp hwp
    refine (h.rigged p hp).programmed (t.tid, t.debug) (List.mem_map_of_mem ht) ?_ wp.arming
      (List.mem_map_of_mem hwp)
    rw [hc]
    exact List.not_mem_nil
  refine ⟨fun wp hwp _ => (h.slots.fits _ (List.mem_map_of_mem hwp)).1, ?_, ?_, ?_⟩
  · have hnd := h.slots.nodup
    rw [armings, List.map_map, List.Nodup, List.pairwise_map] at hnd
    exact hnd.imp fun hne _ _ => hne
  · intro p hp t ht i
    constructor
    · intro hi
      obtain ⟨a, ha, hai⟩ := (h.rigged p hp).only (t.tid, t.debug) (List.mem_map_of_mem ht) i hi
      obtain ⟨wp, hwp, rfl⟩ := List.mem_map.mp ha
      exact ⟨wp, hwp, h.live p hp _ ha, hai⟩
    · rintro ⟨wp, hwp, _, hs⟩
      exact (hprog p hp t ht wp hwp).on hs.symm
  · exact fun p hp t ht wp hwp _ i hi => (hprog p hp t ht wp hwp).encodedBy hi

/-- **Watchpoint slots match the registers**: in a session in which no thread appears while a
watchpoint is set, the registers of all threads hold the table at every prompt. -/
theorem watch_slots_match (host : Host σ) (s : σ) (argv input : List Str)
    (hok : ∀ e ∈ (cdbgMain host argv input (World.start s)).trace, e.crewed host)
    (h : ∀ e ∈ (cdbgMain host argv input (World.start s)).trace, e.steady) :
    ∀ e ∈ (cdbgMain host argv input (World.start s)).trace,
      e.kind.commandRead.isSome → e.world.SlotsMatch := by
  have hcount : ∀ (c : Census) (e : Event σ), c.fresh = [] → e.steady →
      c.fresh = [] ∧ (c.count e).fresh = [] := fun _ _ hc he => ⟨hc, Census.count_steady hc he⟩
  have hnone : Along Census.count (fun c _ => c.fresh = []) .zero
      (cdbgMain host argv input (World.start s)).trace := along_of_invariant hcount rfl h
  exact (rigged_cdbgMain hok).forall_of_imp
    (fun c e hr hc hcmd => (hr hcmd).slotsMatch hc) hnone

/-- A child with two threads that hits a watchpoint at `0x2000`. -/
def pairScript : Script :=
  ⟨[.of (.plain [.at 2 0x1100])], [.stopped (.plain [.at 2 0x1100]),
    .stopped (.trapped 0x2000 [.at 2 0x1100]), .stopped (.plain [.at 2 0x1100])]⟩

/-- Two watchpoints, a hit, and one of them deleted. -/
theorem watch_slots_match_hit :
    List.Forall (fun e => e.kind.commandRead.isSome → e.world.SlotsMatch)
      (cdbgMain (Script.host .stripped) ["a".toList]
        ["watch *0x2000".toList, "awatch *0x3000".toList, "continue".toList,
          "delwatch 0".toList, "rwatch *0x4000".toList, "quit".toList]
        (World.start pairScript)).trace :=
  List.forall_iff_forall_mem.mpr
    (watch_slots_match _ _ _ _ (by decide +kernel) (by decide +kernel))

end Cdbg
