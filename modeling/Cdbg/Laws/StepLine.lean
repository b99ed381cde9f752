import Cdbg.Control.Walk
import Cdbg.Laws.Frozen
import Cdbg.Laws.Progress
import Cdbg.Laws.Resume
import Cdbg.Machine.Execution

/-!
`step` over an execution of the program: where it ends.

The stepping loop executes one instruction of the program a round. After every stop the
disabled breakpoints are enabled again, except one at the program counter; so the word of
the instruction that is stepped next is never a `BRK`, and the breakpoint just left is hit
again as soon as the program comes back to it (`Breakpoint.LiveAt`). The loop ends at the
first stop at an enabled breakpoint or another line (`step_stops_first`).
-/

namespace Cdbg

open Prog

variable {σ α : Type} {host : Host σ} {executed : σ → ℕ} {x : Execution}

/-! ### Where a `step` is to end -/

/-- Whether an entry of the table is enabled after `k` instructions, when it is as given
after `n`: it is enabled again at the first stop elsewhere. -/
def Breakpoint.LiveAt (x : Execution) (n k : ℕ) (bp : Breakpoint) : Prop :=
  bp.enabled = true ∨ ∃ j, n < j ∧ j ≤ k ∧ ∀ m ∈ x.moment j, m.regs.pc ≠ bp.addr

namespace Execution

/-- The program comes to an enabled breakpoint. -/
def Hits (x : Execution) (bps : Table Breakpoint maxBreakpoints) (n k : ℕ) : Prop :=
  ∃ m ∈ x.moment k, ∃ bp ∈ bps.toList, bp.LiveAt x n k ∧ bp.addr = m.regs.pc

/-- The program comes to another line than the given one. -/
def Leaves (x : Execution) (ln : LineTable) (start : Str × BitVec 32) (k : ℕ) : Prop :=
  ∃ m ∈ x.moment k, ∃ line ∈ ln.lineAtPc m.regs.pc, line ≠ start

/-- What ends a `step` from a line after `n` instructions: the exit, a breakpoint or
another line. -/
def Stops (x : Execution) (d : Dbg) (start : Str × BitVec 32) (n k : ℕ) : Prop :=
  x.moment k = none ∨ x.Hits d.breakpoints n k ∨ x.Leaves d.lineno start k

end Execution

/-- A thread of the debuggee is at a `BRK`. -/
def World.AtTrap (w : World σ) : Prop :=
  ∃ p ∈ w.proc, ∃ t ∈ p.threads.list, p.hasTrap t.regs.pc

/-- No `BRK` is stepped. -/
def Event.clear (e : Event σ) : Prop := e.kind.isStep = true → ¬ e.world.AtTrap

/-- A `step` has come to its end after `k` instructions, reporting a hit if there is one. -/
structure EndsAt (x : Execution) (bps : Table Breakpoint maxBreakpoints) (n k : ℕ)
    (executed : σ → ℕ) (w : World σ) (t : List (Event σ)) : Prop where
  count : executed w.host = k
  exited : x.moment k = none → w.dbg.state = .idle
  stopped : ∀ m ∈ x.moment k, w.dbg.state = .stopped ∧ ∃ p ∈ w.proc, p.pcs = [m.regs.pc]
  hit : x.Hits bps n k → ∃ m ∈ x.moment k, ∃ e ∈ t, e.kind = .breakpointHit m.regs.pc
  missed : ¬ x.Hits bps n k → ∀ e ∈ t, e.kind.isBreakpointHit = false

/-! ### The breakpoints in the code -/

/-- The entries of a table are at mapped words of the code, and where no `BRK` of an enabled
one is, the code is that of the program. -/
structure Proc.Bears (x : Execution) (m : Moment) (bps : Table Breakpoint maxBreakpoints)
    (p : Proc) : Prop where
  sites : ∀ bp ∈ bps.toList, IsWord x.code bp.addr ∧ p.mappedSpan bp.addr 4 = true
  exact : ∀ a, IsWord x.code a → (p.hasTrap a ↔ bpIsTrap a bps = true)
  original : ∀ a, IsWord x.code a → ¬ p.hasTrap a → p.mem.read a 4 = m.mem.read a 4

lemma bpIsTrap_iff {a : Addr} {bps : Table Breakpoint maxBreakpoints} :
    bpIsTrap a bps = true ↔ ∃ bp ∈ bps.toList, bp.enabled = true ∧ bp.addr = a := by
  simp [bpIsTrap, Breakpoint.matchesPc]

/-- Enabling an entry adds its address to those of the enabled ones. -/
lemma bpIsTrap_set {a : Addr} {bps : Table Breakpoint maxBreakpoints} {i : ℕ}
    {bp bp' : Breakpoint} (hi : bps.entry i = some bp) (ha : bp'.addr = bp.addr)
    (he : bp'.enabled = true) :
    bpIsTrap a (bps.set i bp') = true ↔ bpIsTrap a bps = true ∨ bp.addr = a := by
  rw [bpIsTrap_iff, bpIsTrap_iff]
  have hnew : bp' ∈ (bps.set i bp').toList := Table.mem_of_entry (Table.entry_set_self hi)
  constructor
  · rintro ⟨b, hb, hen, rfl⟩
    rcases Table.mem_set hb with rfl | ⟨j, _, hj⟩
    · exact .inr ha.symm
    · exact .inl ⟨b, Table.mem_of_entry hj, hen, rfl⟩
  · rintro (⟨b, hb, hen, rfl⟩ | rfl)
    · obtain ⟨j, hj⟩ := List.mem_iff_getElem?.mp hb
      by_cases hij : i = j
      · obtain rfl : bp = b := by
          subst hij
          exact Option.some.inj (hi.symm.trans hj)
        exact ⟨bp', hnew, he, ha⟩
      · exact ⟨b, Table.mem_of_entry ((Table.entry_set_ne hij bp').trans hj), hen, rfl⟩
    · exact ⟨bp', hnew, he, ha⟩

/-- Two words are the same or apart. -/
lemma IsWord.apart {code : Set Addr} {a b : Addr} (ha : IsWord code a) (hb : IsWord code b)
    (hne : a ≠ b) : Memory.Apart a 4 b 4 := by
  have h1 := ha.1
  have h2 := hb.1
  have h3 : a.toNat ≠ b.toNat := fun h => hne (BitVec.eq_of_toNat_eq h)
  have h4 := a.isLt
  have h5 := b.isLt
  constructor
  · rw [BitVec.toNat_sub]
    omega
  · rw [BitVec.toNat_sub]
    omega

namespace Proc

variable {m m' : Moment} {bps : Table Breakpoint maxBreakpoints} {p : Proc}

lemma planted_hasTrap (p : Proc) (a : Addr) : (p.planted a).hasTrap a := by
  rw [hasTrap, planted, Memory.read_write_self _ _ (by norm_num)]
  rfl

/-- Enabling an entry. -/
lemma Bears.planted {i : ℕ} {bp : Breakpoint} (h : p.Bears x m bps)
    (hi : bps.entry i = some bp) :
    (p.planted bp.addr).Bears x m (bps.set i (p.breakpointAt bp.addr)) := by
  have hbp := h.sites bp (Table.mem_of_entry hi)
  have hread : ∀ a, IsWord x.code a → a ≠ bp.addr →
      (p.planted bp.addr).mem.read a 4 = p.mem.read a 4 := fun a ha hne =>
    Memory.read_write_of_apart (ha.apart hbp.1 hne) _
  refine ⟨fun b hb => ?_, fun a ha => ?_, fun a ha hn => ?_⟩
  · rcases Table.mem_set hb with rfl | ⟨j, _, hj⟩
    · exact hbp
    · exact h.sites b (Table.mem_of_entry hj)
  · have haddr : (p.breakpointAt bp.addr).addr = bp.addr := rfl
    rw [bpIsTrap_set hi haddr rfl]
    by_cases hne : a = bp.addr
    · subst hne
      exact iff_of_true (planted_hasTrap p _) (.inr rfl)
    · rw [hasTrap, hread a ha hne, ← h.exact a ha, hasTrap]
      exact ⟨.inl, fun h => h.resolve_right fun he => hne he.symm⟩
  · have hne : a ≠ bp.addr := by
      rintro rfl
      exact hn (planted_hasTrap p _)
    rw [hread a ha hne]
    rw [hasTrap, hread a ha hne] at hn
    exact h.original a ha hn

/-- An instruction leaves the code as it is. -/
lemma Bears.stopWith {n : ℕ} {s : StopState} {t : Thread} (h : p.Bears x m bps)
    (hm : x.moment n = some m) (hm' : x.moment (n + 1) = some m') {q : Proc}
    (hmem : q.mem = p.mem) (hmap : q.mapped = p.mapped) (hs : s.Shows x m' q t) :
    (q.stopWith s).Bears x m' bps := by
  have hread : ∀ a, IsWord x.code a → (q.stopWith s).mem.read a 4 = p.mem.read a 4 :=
    fun a ha => Memory.read_congr fun b hb => ((hs.code b (ha.2 hb)).1).trans (congrFun hmem b)
  refine ⟨fun bp hbp => ⟨(h.sites bp hbp).1, ?_⟩, fun a ha => ?_, fun a ha hn => ?_⟩
  · obtain ⟨hw, hspan⟩ := h.sites bp hbp
    rw [mappedSpan, List.all_eq_true] at hspan ⊢
    intro i hi
    rw [← hspan i hi, ← hmap]
    exact (hs.code _ (hw.2 (Memory.add_mem_span (List.mem_range.mp hi)))).2
  · rw [hasTrap, hread a ha]
    exact h.exact a ha
  · rw [hasTrap, hread a ha] at hn
    rw [hread a ha, h.original a ha hn]
    exact Memory.read_congr fun b hb => (x.steady n m hm m' hm' b (ha.2 hb)).symm

end Proc

/-! ### A round of the loop -/

/-- The debuggee is stopped at a moment of the execution, with its breakpoints in its code. -/
structure World.At (x : Execution) (executed : σ → ℕ) (n : ℕ) (m : Moment) (w : World σ) :
    Prop where
  moment : x.moment n = some m
  count : executed w.host = n
  unwatched : w.dbg.watchpoints.count = 0
  state : w.dbg.state = .stopped
  proc : ∃ p t, w.taskForPid w.dbg.pid = some p ∧ p.running = none ∧ p.Shows x m t ∧
    p.Bears x m w.dbg.breakpoints ∧ (w.dbg.currentTid = 0 ∨ w.dbg.currentTid = t.tid)

/-- What the loop leaves alone. -/
structure World.Keeping (w w' : World σ) : Prop where
  lineno : w'.dbg.lineno = w.dbg.lineno
  sites : w'.sites = w.sites

/-- An event that neither steps at a `BRK` nor reports the hit of a breakpoint. -/
def Event.quiet (e : Event σ) : Prop := e.clear ∧ e.kind.isBreakpointHit = false

lemma World.Keeping.refl (w : World σ) : w.Keeping w := ⟨rfl, rfl⟩

lemma World.Keeping.trans {w w' w'' : World σ} (h : w.Keeping w') (h' : w'.Keeping w'') :
    w.Keeping w'' := ⟨h'.lineno.trans h.lineno, h'.sites.trans h.sites⟩

lemma Event.quiet_of_kind {e : Event σ} (hs : e.kind.isStep = false)
    (hb : e.kind.isBreakpointHit = false) : e.quiet := by
  refine ⟨fun h => ?_, hb⟩
  rw [hs] at h
  cases h

/-- The only thread is the one that the selection stands for. -/
lemma Threads.resolve_single {ts : Threads} {t : Thread} {tid : Tid} (h : ts.list = [t])
    (ht : tid = 0 ∨ tid = t.tid) : ts.resolve tid = some t := by
  have hp : ts.primary = t := by simp [primary, h]
  rw [resolve]
  split
  next => rw [hp]
  next hne =>
    obtain rfl := ht.resolve_left hne
    simp [h]

namespace World

variable {n : ℕ} {m : Moment} {w : World σ}

lemma At.resolvePort (h : w.At x executed n m) :
    ∃ t, w.resolvePort w.dbg.pid w.dbg.currentTid = some t ∧ t.regs = m.regs := by
  obtain ⟨p, t, hp, -, hs, -, hsel⟩ := h.proc
  refine ⟨t, ?_, hs.regs⟩
  rw [World.resolvePort, hp]
  exact Threads.resolve_single hs.single hsel

/-- The registers refreshed are those of the program. -/
lemma At.refreshRegs (h : w.At x executed n m) :
    Cdbg.refreshRegs w =
      ⟨some 0, w.setDbg { w.dbg with regs := m.regs }, [⟨.refreshRegs, w⟩]⟩ := by
  obtain ⟨t, ht, hregs⟩ := h.resolvePort
  rcases refreshRegs_cases w with ⟨hn, _⟩ | ⟨u, hu, hr⟩
  · rw [ht] at hn
    cases hn
  · obtain rfl : t = u := Option.some.inj (ht.symm.trans hu)
    rw [hr, hregs]

lemma At.setRegs (h : w.At x executed n m) (regs : Regs) :
    (w.setDbg { w.dbg with regs := regs }).At x executed n m :=
  ⟨h.moment, h.count, h.unwatched, h.state, h.proc⟩

/-- Enabling an entry of the table. -/
lemma At.enable {i : ℕ} {bp : Breakpoint} (h : w.At x executed n m)
    (hi : w.dbg.breakpoints.entry i = some bp) :
    Total w (enableEntry i bp) fun rc w' t => rc = 0 ∧ w'.At x executed n m ∧ w.Keeping w' ∧
      (∀ e ∈ t, e.quiet) ∧ ∀ a, bpIsTrap a w'.dbg.breakpoints = true ↔
        bpIsTrap a w.dbg.breakpoints = true ∨ bp.addr = a := by
  obtain ⟨p, t, hp, hrun, hs, hb, hsel⟩ := h.proc
  obtain ⟨hword, hmap⟩ := hb.sites bp (Table.mem_of_entry hi)
  rcases enableEntry_cases hi with ⟨hn, _⟩ | ⟨q, hq, _, he⟩
  · rw [readMem_eq_some.mpr ⟨p, hp, hmap, rfl⟩] at hn
    cases hn
  obtain rfl : p = q := Option.some.inj (hp.symm.trans hq)
  have haddr : (p.breakpointAt bp.addr).addr = bp.addr := rfl
  refine Total.of_eq he ⟨rfl, ⟨h.moment, h.count, h.unwatched, h.state, ?_⟩, ⟨rfl, ?_⟩, ?_, ?_⟩
  · refine ⟨p.planted bp.addr, t, taskForPid_eq_some.mpr ⟨rfl, (taskForPid_eq_some.mp hp).2⟩, hrun,
      ⟨hs.single, hs.regs, fun a ha => ?_⟩, hb.planted hi, hsel⟩
    have hout : a ∉ Memory.span bp.addr 4 := fun hmem => ha (hword.2 hmem)
    exact (Memory.write_of_notMem hout).trans (hs.data a ha)
  · exact Table.map_set_of_eq Breakpoint.addr hi haddr
  · simp [Event.quiet, Event.clear, EventKind.isStep, EventKind.isBreakpointHit]
  · exact fun a => bpIsTrap_set hi haddr rfl

end World

/-- The loop enables the disabled entries at the indices left, but for one at the program
counter: by induction on them. -/
lemma total_reenableLoop {n : ℕ} {m : Moment} (pc : Addr) : ∀ (is : List ℕ) (w : World σ),
    w.At x executed n m →
    Total w (reenableLoop pc is) fun rc w' t => rc = 0 ∧ w'.At x executed n m ∧ w.Keeping w' ∧
      (∀ e ∈ t, e.quiet) ∧ ∀ a, bpIsTrap a w'.dbg.breakpoints = true ↔
        bpIsTrap a w.dbg.breakpoints = true ∨ (∃ i ∈ is, w.sites[i]? = some a) ∧ a ≠ pc
  | [], w, h => Total.pure 0 ⟨rfl, h, .refl w, by simp, by simp⟩
  | i :: is, w, h => by
      refine Total.get_bind ?_
      have hsite : w.sites[i]? = (w.dbg.breakpoints.entry i).map Breakpoint.addr := by
        rw [World.sites, List.getElem?_map]
        rfl
      cases hi : w.dbg.breakpoints.entry i with
      -- an index behind the table, which the count does not reach
      | none =>
          rw [hi] at hsite
          refine (total_reenableLoop pc is w h).post ?_
          rintro rc w' t ⟨h0, hat, hk, hq, hset⟩
          refine ⟨h0, hat, hk, hq, fun a => ?_⟩
          simp [hset, hsite]
      | some bp =>
          rw [hi] at hsite
          dsimp only
          split
          -- a disabled entry elsewhere: its `BRK` comes back
          next hdis =>
            refine (h.enable hi).bind ?_
            rintro rc w₁ t₁ ⟨h0, hat, hk, hq, hset⟩
            rw [if_neg (not_not.mpr h0)]
            refine (total_reenableLoop pc is w₁ hat).post ?_
            rintro rc w' t ⟨h0, hat', hk', hq', hset'⟩
            refine ⟨h0, hat', hk.trans hk', fun e he => ?_, fun a => ?_⟩
            · exact (List.mem_append.mp he).elim (hq e) (hq' e)
            · rw [hset', hset, hk.sites]
              have := hdis.2
              simp only [List.mem_cons, exists_eq_or_imp, hsite, Option.map_some, Option.some.injEq]
              constructor
              · rintro ((ht | rfl) | ⟨hin, hne⟩)
                · exact .inl ht
                · exact .inr ⟨.inl rfl, this⟩
                · exact .inr ⟨.inr hin, hne⟩
              · rintro (ht | ⟨rfl | hin, hne⟩)
                · exact .inl (.inl ht)
                · exact .inl (.inr rfl)
                · exact .inr ⟨hin, hne⟩
          -- the entry is enabled, or the program stands at it: nothing is written
          next hen =>
            refine (total_reenableLoop pc is w h).post ?_
            rintro rc w' t ⟨h0, hat, hk, hq, hset⟩
            refine ⟨h0, hat, hk, hq, fun a => ?_⟩
            rw [hset]
            simp only [List.mem_cons, exists_eq_or_imp, hsite, Option.map_some, Option.some.injEq]
            constructor
            · rintro (ht | ⟨hin, hne⟩)
              · exact .inl ht
              · exact .inr ⟨.inr hin, hne⟩
            · rintro (ht | ⟨rfl | hin, hne⟩)
              · exact .inl ht
              -- an entry that is enabled already
              · have henabled : bp.enabled = true := by
                  by_contra hoff
                  exact hen ⟨by simpa using hoff, hne⟩
                exact .inl (bpIsTrap_iff.mpr ⟨bp, Table.mem_of_entry hi, henabled, rfl⟩)
              · exact .inr ⟨hin, hne⟩

lemma total_reenableBreakpointsAfterStep {n : ℕ} {m : Moment} {w : World σ}
    (h : w.At x executed n m) :
    Total w reenableBreakpointsAfterStep fun rc w' t => rc = 0 ∧ w'.At x executed n m ∧
      w.Keeping w' ∧ (∀ e ∈ t, e.quiet) ∧ ∀ a, bpIsTrap a w'.dbg.breakpoints = true ↔
        bpIsTrap a w.dbg.breakpoints = true ∨ a ∈ w.sites ∧ a ≠ m.regs.pc := by
  refine Total.get_bind ?_
  split
  next hzero =>
    have hnil : w.sites = [] := by
      have hcount := hzero.resolve_right fun hs => hs h.state
      rw [World.sites, List.map_eq_nil_iff]
      exact List.length_eq_zero_iff.mp hcount
    exact Total.pure 0 ⟨rfl, h, .refl w, by simp, by simp [hnil]⟩
  next =>
    refine (Total.of_eq h.refreshRegs (Q := fun rc w' t => rc = 0 ∧
      w' = w.setDbg { w.dbg with regs := m.regs } ∧ ∀ e ∈ t, e.quiet)
      ⟨rfl, rfl, by simp [Event.quiet, Event.clear, EventKind.isStep,
        EventKind.isBreakpointHit]⟩).bind_ok ?_
    rintro _ t ⟨rfl, ht⟩
    refine Total.get_bind ((total_reenableLoop _ _ _ (h.setRegs _)).post ?_)
    rintro rc w' t' ⟨h0, hat, hk, hq, hset⟩
    refine ⟨h0, hat, ⟨hk.lineno, hk.sites⟩, fun e he => ?_, fun a => ?_⟩
    · exact (List.mem_append.mp he).elim (ht e) (hq e)
    · rw [hset]
      change _ ∨ (∃ i ∈ List.range w.dbg.breakpoints.count, w.sites[i]? = some a) ∧ _ ↔ _
      have hmem : (∃ i ∈ List.range w.dbg.breakpoints.count, w.sites[i]? = some a)
          ↔ a ∈ w.sites := by
        rw [List.mem_iff_getElem?]
        refine exists_congr fun i => and_iff_right_of_imp fun hi => ?_
        have hlt := (List.getElem?_eq_some_iff.mp hi).1
        rw [List.mem_range]
        simpa [World.sites, Table.count] using hlt
      rw [hmem]
      rfl

/-- `waitpid` where the host says what it reports. -/
lemma waitForStop_of_resume {w : World σ} {p : Proc} {o : Outcome} {h : σ}
    (hp : w.taskForPid w.dbg.pid = some p) (hr : p.running = some .step)
    (ho : host.resume .step p w.host = (some o, h)) :
    waitForStop host w = ⟨some 0, w.afterWait h p o, [⟨.waited o, w⟩]⟩ := by
  have hwait : processWait host w.dbg.pid w
      = ⟨some 0, { w with host := h }.deliver p o, [⟨.waited o, w⟩]⟩ := by
    simp [processWait, hp, hr, ho]
  simp only [waitForStop, Prog.get_bind, Prog.bind_of_eq hwait]
  rfl

/-- What a round has come to: the exit, or the next moment with the breakpoints enabled that
are elsewhere. -/
def Advanced (x : Execution) (executed : σ → ℕ) (n : ℕ) (w w' : World σ) : Prop :=
  executed w'.host = n + 1 ∧
    (x.moment (n + 1) = none ∧ w'.dbg.state = .idle ∨
      ∃ m, w'.At x executed (n + 1) m ∧ w.Keeping w' ∧
        ∀ a, bpIsTrap a w'.dbg.breakpoints = true ↔
          bpIsTrap a w.dbg.breakpoints = true ∨ a ∈ w.sites ∧ a ≠ m.regs.pc)

/-- The world after `PT_STEP`. -/
def World.stepping (w : World σ) (p : Proc) : World σ :=
  (w.setProc { p with running := some .step }).setDbg w.dbg.resumed

/-- Waiting for the instruction that is stepped. -/
lemma total_cdbgWait (hf : host.Follows executed x) {n : ℕ} {m : Moment} {w : World σ}
    (h : w.At x executed n m) {p : Proc} (hp : w.taskForPid w.dbg.pid = some p)
    (hoff : ¬ p.hasTrap m.regs.pc) :
    Total (w.stepping p) (cdbgWait host) fun rc w' t => (∀ e ∈ t, e.quiet) ∧
      Advanced x executed n w w' ∧ (rc = 0 ↔ x.moment (n + 1) ≠ none) := by
  obtain ⟨q, t, hq, _, hs, hb, hsel⟩ := h.proc
  obtain rfl : p = q := Option.some.inj (hp.symm.trans hq)
  have hpid := (World.taskForPid_eq_some.mp hp).2
  obtain ⟨o, h', hres, hcount, hshow⟩ := hf.step { p with running := some .step } w.host m t
    (by rw [h.count]; exact h.moment) ⟨hs.single, hs.regs, hs.data⟩
    (hb.original _ (x.runs n m h.moment) hoff)
  rw [h.count] at hcount hshow
  have htask : (w.stepping p).taskForPid (w.stepping p).dbg.pid
      = some { p with running := some .step } := World.taskForPid_eq_some.mpr ⟨rfl, hpid⟩
  refine (Total.of_eq (waitForStop_of_resume htask rfl hres) (Q := fun rc w' t => rc = 0 ∧
    w' = (w.stepping p).afterWait h' { p with running := some .step } o ∧ ∀ e ∈ t, e.quiet)
    ⟨rfl, rfl, by simp [Event.quiet, Event.clear, EventKind.isStep,
      EventKind.isBreakpointHit]⟩).bind_ok ?_
  rintro _ t₁ ⟨rfl, ht₁⟩
  refine Total.get_bind ?_
  cases hm : x.moment (n + 1) with
  -- there is no next moment: the wait tells the end of the process
  | none =>
      rw [hm] at hshow
      have hidle : ((w.stepping p).afterWait h' { p with running := some .step } o).dbg.state
          = .idle := by
        cases o with
        | exited _ => rfl
        | signaled _ => rfl
        | stopped _ => exact hshow.elim
      rw [if_pos hidle]
      refine Total.pure 1 ⟨by simpa using ht₁, ⟨?_, .inl ⟨hm, hidle⟩⟩, by simp⟩
      cases o <;> exact hcount
  -- the thread stops at the next moment, and the entries elsewhere are enabled again
  | some m' =>
      rw [hm] at hshow
      obtain ⟨s, rfl⟩ : ∃ s, o = .stopped s := by
        cases o with
        | stopped s => exact ⟨s, rfl⟩
        | exited _ => exact hshow.elim
        | signaled _ => exact hshow.elim
      obtain ⟨u, hu⟩ := hshow
      let q : Proc := { p with running := some .step }
      -- the stop shows that moment, and keeps code and selection
      have hat : ((w.stepping p).afterWait h' q (.stopped s)).At x executed (n + 1) m' := by
        refine ⟨hm, hcount, h.unwatched, rfl, q.stopWith s, q.keepKernelState u,
          World.taskForPid_eq_some.mpr ⟨rfl, hpid⟩, rfl, ⟨?_, ?_, hu.data⟩,
          hb.stopWith h.moment hm rfl rfl hu, ?_⟩
        · rw [Proc.stopWith, Threads.list_map, hu.single]
          rfl
        · rw [Proc.keepKernelState]
          split <;> exact hu.regs
        · rw [Proc.keepKernelState_tid]
          have htid : t.tid = u.tid := hu.tid t (by
            change t ∈ p.threads.list
            rw [hs.single]
            exact List.mem_singleton_self t)
          rw [← htid]
          exact hsel
      rw [if_neg (by rw [hat.state]; simp)]
      refine (total_reenableBreakpointsAfterStep hat).bind ?_
      rintro rc w' t₂ ⟨h0, hat', hk, hq, hset⟩
      rw [if_neg (not_not.mpr h0)]
      refine Total.pure 0 ⟨fun e he => ?_,
        ⟨hat'.count, .inr ⟨m', hat', ⟨hk.lineno, hk.sites⟩, hset⟩⟩, by simp⟩
      rw [List.append_nil] at he
      exact (List.mem_append.mp he).elim (ht₁ e) (hq e)

/-- One instruction is executed, and it is not a `BRK`. -/
lemma total_stepOnce (hf : host.Follows executed x) {n : ℕ} {m : Moment} {w : World σ}
    (h : w.At x executed n m) (hoff : bpIsTrap m.regs.pc w.dbg.breakpoints = false) :
    Total w (stepOnce host) fun r w' t => (∀ e ∈ t, e.quiet) ∧ Advanced x executed n w w' ∧
      r = if x.moment (n + 1) = none then some 0 else none := by
  obtain ⟨p, t, hp, hrun, hs, hb, hsel⟩ := h.proc
  have hproc := (World.taskForPid_eq_some.mp hp).1
  have htrap : ¬ p.hasTrap m.regs.pc := by
    rw [hb.exact _ (x.runs n m h.moment), hoff]
    exact Bool.false_ne_true
  -- the only thread is at `pc`, where there is no `BRK`
  have hclear : ¬ w.AtTrap := by
    rintro ⟨q, hq, u, hu, hut⟩
    obtain rfl : p = q := Option.some.inj (hproc.symm.trans hq)
    rw [hs.single, List.mem_singleton] at hu
    rw [hu, hs.regs] at hut
    exact htrap hut
  have hstep : cdbgSingleStep w = ⟨some 0, w.stepping p, [⟨.ptStep, w⟩]⟩ := by
    rcases cdbgSingleStep_cases w with ⟨_, hne⟩ | ⟨q, hq, _, he⟩
    · exact absurd hrun (hne p hp)
    · obtain rfl : p = q := Option.some.inj (hp.symm.trans hq)
      exact he
  refine (Total.of_eq hstep (Q := fun rc w' t => rc = 0 ∧ w' = w.stepping p ∧ ∀ e ∈ t, e.quiet)
    ⟨rfl, rfl, ?_⟩).bind_ok ?_
  · intro e he
    obtain rfl := List.mem_singleton.mp he
    exact ⟨fun _ => hclear, rfl⟩
  rintro _ t₁ ⟨rfl, ht₁⟩
  refine (total_cdbgWait hf h hp htrap).bind fun rc w' t₂ ⟨hq, hadv, hrc⟩ => ?_
  have hquiet : ∀ e ∈ t₁ ++ (t₂ ++ []), e.quiet := by
    intro e he
    rw [List.append_nil] at he
    exact (List.mem_append.mp he).elim (ht₁ e) (hq e)
  by_cases hend : x.moment (n + 1) = none
  -- the program has exited, which `step_once` reports as the end of the step
  · have hne : rc ≠ 0 := fun h0 => hrc.mp h0 hend
    rw [if_pos hne]
    refine Total.get_bind (Total.pure _ ⟨hquiet, hadv, ?_⟩)
    rcases hadv.2 with ⟨_, hidle⟩ | ⟨m', hat, _⟩
    · rw [if_pos hidle, if_pos hend]
    · rw [hat.moment] at hend
      cases hend
  · have h0 : rc = 0 := hrc.mpr hend
    rw [if_neg (not_not.mpr h0)]
    refine Total.get_bind ?_
    rcases hadv.2 with ⟨hnone, _⟩ | ⟨m', hat, _⟩
    · exact absurd hnone hend
    · rw [if_neg (not_not.mpr hat.state)]
      exact Total.pure _ ⟨hquiet, hadv, by rw [if_neg hend]⟩

/-! ### The report of a hit -/

/-- The debugger is stopped with its one thread selected, which is at this address. -/
def World.Poised (pc : Addr) (w : World σ) : Prop :=
  w.dbg.state = .stopped ∧ ∃ p t, w.taskForPid w.dbg.pid = some p ∧ p.threads.list = [t] ∧
    (w.dbg.currentTid = 0 ∨ w.dbg.currentTid = t.tid) ∧ t.regs.pc = pc

namespace World

variable {pc : Addr} {w : World σ}

lemma At.poised {n : ℕ} {m : Moment} (h : w.At x executed n m) : w.Poised m.regs.pc := by
  obtain ⟨p, t, hp, _, hs, _, hsel⟩ := h.proc
  exact ⟨h.state, p, t, hp, hs.single, hsel, by rw [hs.regs]⟩

lemma Poised.pcs (h : w.Poised pc) : ∃ p ∈ w.proc, p.pcs = [pc] := by
  obtain ⟨_, p, t, hp, hs, _, hpc⟩ := h
  exact ⟨p, (taskForPid_eq_some.mp hp).1, by rw [Proc.pcs, hs, ← hpc]; rfl⟩

/-- A change of the debugger's registers only. -/
lemma Poised.setRegs (h : w.Poised pc) (regs : Regs) :
    (w.setDbg { w.dbg with regs := regs }).Poised pc := h

lemma Poised.refreshRegs (h : w.Poised pc) : Total w (refreshRegs (σ := σ)) fun rc w' t =>
    rc = 0 ∧ (∃ regs : Regs, regs.pc = pc ∧ w' = w.setDbg { w.dbg with regs := regs }) ∧
      ∀ e ∈ t, e.quiet := by
  obtain ⟨_, p, t, hp, hs, hsel, hpc⟩ := h
  have ht : w.resolvePort w.dbg.pid w.dbg.currentTid = some t := by
    rw [World.resolvePort, hp]
    exact Threads.resolve_single hs hsel
  rcases refreshRegs_cases w with ⟨hn, _⟩ | ⟨u, hu, hr⟩
  · rw [ht] at hn
    cases hn
  · obtain rfl : t = u := Option.some.inj (ht.symm.trans hu)
    exact Total.of_eq hr ⟨rfl, ⟨t.regs, hpc, rfl⟩, by simp [Event.quiet, Event.clear,
      EventKind.isStep, EventKind.isBreakpointHit]⟩

/-- Storing registers moves the thread to the address that they hold. -/
lemma Poised.storeRegs (h : w.Poised pc) : Total w (storeRegs (σ := σ)) fun rc w' t =>
    rc = 0 ∧ w'.Poised w.dbg.regs.pc ∧ w'.host = w.host ∧ t = [] := by
  obtain ⟨hst, p, t, hp, hs, hsel, _⟩ := h
  have hpid := (taskForPid_eq_some.mp hp).2
  have ht := Threads.resolve_single hs hsel
  let t' : Thread := { t with regs := { t.regs with native := w.dbg.regs.native } }
  refine Total.of_eq (storeRegs_run hp ht) ⟨rfl, ⟨hst, p.stored w.dbg.currentTid w.dbg.regs, t',
    taskForPid_eq_some.mpr ⟨rfl, hpid⟩, ?_, hsel, rfl⟩, rfl, rfl⟩
  simp only [Proc.stored, Threads.update, Threads.list_map, hs, List.map_cons, List.map_nil,
    Threads.idOf_of_resolve ht, if_true]
  rfl

end World

/-- The lines that announce a hit. -/
lemma total_announceHit (a : Addr) (w : World σ) :
    Total w (do emit (.breakpointHit a); printStopLocation a; return (0 : ℤ)) fun rc w' t =>
      rc = 0 ∧ w' = w ∧ t = [⟨.breakpointHit a, w⟩, ⟨.location a, w⟩] :=
  Total.of_eq rfl ⟨rfl, rfl, rfl⟩

/-- A hit is handled: its entry is disabled, and the thread stays at it. -/
lemma total_handleBreakpointHit {w : World σ} {i : ℕ} {bp : Breakpoint} (h : w.Poised bp.addr)
    (hi : w.dbg.breakpoints.entry i = some bp)
    (hmap : ∀ p ∈ w.proc, p.mappedSpan bp.addr 4 = true) :
    Total w (handleBreakpointHit i bp) fun rc w' t => rc = 0 ∧ w'.host = w.host ∧
      w'.Poised bp.addr ∧ (∀ e ∈ t, e.clear) ∧ ∃ e ∈ t, e.kind = .breakpointHit bp.addr := by
  have hdisable : Total w (disableEntry i bp) fun rc w' t =>
      rc = 0 ∧ w'.host = w.host ∧ w'.Poised bp.addr ∧ t = [] := by
    obtain ⟨hst, p, t, hp, hs, hsel, hpc⟩ := h
    obtain ⟨hproc, hpid⟩ := World.taskForPid_eq_some.mp hp
    rcases disableEntry_cases hi with ⟨_, he⟩ | ⟨_, q, hq, _, he⟩ | ⟨_, hn, _⟩ | ⟨_, q, hq, hm, _⟩
    · exact Total.of_eq he ⟨rfl, rfl, ⟨hst, p, t, hp, hs, hsel, hpc⟩, rfl⟩
    · obtain rfl : p = q := Option.some.inj (hp.symm.trans hq)
      exact Total.of_eq he ⟨rfl, rfl, ⟨hst, p.restored bp, t,
        World.taskForPid_eq_some.mpr ⟨rfl, hpid⟩, hs, hsel, hpc⟩, rfl⟩
    · rw [hp] at hn
      cases hn
    · rw [hmap q (World.taskForPid_eq_some.mp hq).1] at hm
      cases hm
  refine (hdisable.post fun rc w' t h => ⟨h.1, h.2⟩).bind_ok fun w₁ t₁ ⟨hh₁, hp₁, ht₁⟩ => ?_
  refine (hp₁.refreshRegs.post fun rc w' t h => ⟨h.1, h.2⟩).bind_ok ?_
  rintro _ t₂ ⟨⟨regs, hregs, rfl⟩, ht₂⟩
  have hp₂ := hp₁.setRegs regs
  have hclear : ∀ e ∈ t₁ ++ t₂, e.clear := by
    rw [ht₁]
    exact fun e he => (ht₂ e he).1
  -- the events of the announcement, after others that are no steps
  have hend : ∀ (w₄ : World σ) (t : List (Event σ)), (∀ e ∈ t, e.clear) →
      (∀ e ∈ t ++ [⟨.breakpointHit bp.addr, w₄⟩, ⟨.location bp.addr, w₄⟩], e.clear) ∧
      ∃ e ∈ t ++ [⟨.breakpointHit bp.addr, w₄⟩, ⟨.location bp.addr, w₄⟩],
        e.kind = .breakpointHit bp.addr := by
    intro w₄ t ht
    refine ⟨fun e he => ?_, ⟨_, List.mem_append_right t List.mem_cons_self, rfl⟩⟩
    rcases List.mem_append.mp he with he | he
    · exact ht e he
    · simp only [List.mem_cons, List.not_mem_nil, or_false] at he
      rcases he with rfl | rfl <;> exact fun hk => by cases hk
  split
  next hne =>
    refine Total.bind (Q := fun _ w' t => t = [] ∧
      w' = w₁.setDbg { w₁.dbg with regs := regs.setPc bp.addr }) (Total.of_eq rfl ⟨rfl, rfl⟩) ?_
    rintro _ _ _ ⟨rfl, rfl⟩
    refine ((hp₁.setRegs (regs.setPc bp.addr)).storeRegs.post fun rc w' t h => ⟨h.1, h.2⟩).bind_ok
      fun w₃ t₃ ⟨hp₃, hh₃, ht₃⟩ => ?_
    refine (total_announceHit bp.addr w₃).post ?_
    rintro rc _ _ ⟨rfl, rfl, rfl⟩
    refine ⟨rfl, hh₃.trans hh₁, hp₃, ?_⟩
    rw [ht₃]
    simpa using hend _ _ hclear
  next =>
    refine (total_announceHit bp.addr _).post ?_
    rintro rc _ _ ⟨rfl, rfl, rfl⟩
    refine ⟨rfl, hh₁, hp₂, ?_⟩
    simpa using hend _ _ hclear

/-- The index found is that of an entry at the program counter. -/
lemma entry_of_bpMatchIndex {pc : Addr} {bps : Table Breakpoint maxBreakpoints} {i : ℕ}
    (h : bpMatchIndex pc bps = some i) : ∃ bp, bps.entry i = some bp ∧ bp.addr = pc := by
  obtain ⟨hlt, hmatch, _⟩ := List.findIdx?_eq_some_iff_getElem.mp h
  refine ⟨bps.toList[i], List.getElem?_eq_getElem hlt, ?_⟩
  simp only [Breakpoint.matchesPc, Bool.and_eq_true, decide_eq_true_eq] at hmatch
  exact hmatch.2

lemma bpMatchIndex_of_trap {pc : Addr} {bps : Table Breakpoint maxBreakpoints}
    (h : bpIsTrap pc bps = true) :
    ∃ i bp, bpMatchIndex pc bps = some i ∧ bps.entry i = some bp ∧ bp.addr = pc := by
  obtain ⟨i, hi⟩ := Option.isSome_iff_exists.mp ((bpMatchIndex_isSome pc bps).trans h)
  obtain ⟨bp, hbp⟩ := entry_of_bpMatchIndex hi
  exact ⟨i, bp, hi, hbp⟩

/-- The one thread at an enabled breakpoint is selected. -/
lemma World.Poised.selectHitThread {pc : Addr} {w : World σ} (h : w.Poised pc)
    (htrap : bpIsTrap pc w.dbg.breakpoints = true) :
    Total w selectHitThread fun _ w' t => t = [] ∧ w'.Poised pc ∧
      ∃ tid, w' = w.setDbg { w.dbg with currentTid := tid } := by
  obtain ⟨hst, p, t, hp, hs, hsel, hpc⟩ := h
  have hlisted : w.listed = [t] := by
    rw [World.listed, hp]
    simp [hs, maxThreads]
  have hfind : w.findBreakpointHitThread = t.tid := by
    simp [World.findBreakpointHitThread, hlisted, hpc, htrap]
  have hne : t.tid ≠ 0 := p.threads.tid_ne_zero t (by rw [hs]; exact List.mem_singleton_self t)
  have hhit : w.hitTid = t.tid := by rw [World.hitTid, hfind, if_neg hne]
  have hrun : Cdbg.selectHitThread w
      = ⟨some (), w.setDbg { w.dbg with currentTid := t.tid }, []⟩ := by
    simp [Cdbg.selectHitThread, hhit, hne]
  exact Total.of_eq hrun ⟨rfl, ⟨hst, p, t, hp, hs, .inr rfl, hpc⟩, t.tid, rfl⟩

/-- Freezing the other threads moves none. -/
lemma World.Poised.suspendOthers {pc : Addr} {w : World σ} (h : w.Poised pc) (keep : Tid) :
    Total w (threadsSuspendOthers w.dbg.pid keep) fun _ w' t => (∀ e ∈ t, e.clear) ∧
      w'.Poised pc ∧ w'.host = w.host ∧ w'.dbg = w.dbg ∧
      ∀ q ∈ w'.proc, ∃ p ∈ w.proc, q.mapped = p.mapped := by
  obtain ⟨hst, p, t, hp, hs, hsel, hpc⟩ := h
  obtain ⟨hproc, hpid⟩ := taskForPid_eq_some.mp hp
  rcases threadsSuspendOthers_cases w.dbg.pid keep w with he | ⟨q, hq, he⟩
  · exact Total.of_eq he ⟨by simp, ⟨hst, p, t, hp, hs, hsel, hpc⟩, rfl, rfl,
      fun q hq => ⟨q, hq, rfl⟩⟩
  · obtain rfl : p = q := Option.some.inj (hp.symm.trans hq)
    obtain ⟨t', ht', htid, hregs⟩ : ∃ t', (p.frozen keep).threads.list = [t'] ∧ t'.tid = t.tid ∧
        t'.regs = t.regs := by
      rw [Proc.frozen, Threads.suspendOthers, Threads.list_map, hs]
      exact ⟨_, rfl, rfl, rfl⟩
    refine Total.of_eq he ⟨by simp [Event.clear, EventKind.isStep], ⟨hst, p.frozen keep, t',
      taskForPid_eq_some.mpr ⟨rfl, hpid⟩, ht', htid ▸ hsel, hregs ▸ hpc⟩, rfl, rfl,
      fun q hq => ⟨p, hproc, ?_⟩⟩
    rw [← Option.some.inj hq]
    rfl

/-- At an enabled breakpoint the stop is reported as its hit. -/
lemma total_reportStop {pc : Addr} {w : World σ} (h : w.Poised pc)
    (htrap : bpIsTrap pc w.dbg.breakpoints = true)
    (hmap : ∀ p ∈ w.proc, ∀ bp ∈ w.dbg.breakpoints.toList, p.mappedSpan bp.addr 4 = true) :
    Total w (reportStop host) fun rc w' t => rc = 0 ∧ w'.host = w.host ∧ w'.Poised pc ∧
      (∀ e ∈ t, e.clear) ∧ ∃ e ∈ t, e.kind = .breakpointHit pc := by
  have hannounce : Total w (announceStop host) fun rc w' t => rc = 0 ∧ w'.host = w.host ∧
      w'.Poised pc ∧ (∀ e ∈ t, e.clear) ∧ ∃ e ∈ t, e.kind = .breakpointHit pc := by
    refine (h.selectHitThread htrap).bind ?_
    -- the thread of the hit is selected, and the others are frozen
    rintro _ _ t₁ ⟨rfl, hp₁, tid, rfl⟩
    refine Total.get_bind ((hp₁.suspendOthers _).bind ?_)
    rintro _ w₂ t₂ ⟨ht₂, hp₂, hh₂, hd₂, hm₂⟩
    refine (hp₂.refreshRegs.post fun rc w' t h => ⟨h.1, h.2⟩).bind_ok ?_
    rintro _ t₃ ⟨⟨regs, hregs, rfl⟩, ht₃⟩
    refine Total.bind (Q := fun _ w' t => w' = w₂.setDbg { w₂.dbg with regs := regs } ∧
      ∀ e ∈ t, e.clear) (Total.of_eq rfl ⟨rfl, by simp [Event.clear, EventKind.isStep]⟩) ?_
    rintro _ _ t₄ ⟨rfl, ht₄⟩
    refine Total.get_bind ?_
    -- the table is still that of the stop, so the entry that was hit is found
    have hbps : w₂.dbg.breakpoints = w.dbg.breakpoints := by rw [hd₂]; rfl
    obtain ⟨i, bp, hi, hbp, haddr⟩ := bpMatchIndex_of_trap (hbps ▸ htrap)
    have hmap₂ : ∀ q ∈ w₂.proc, q.mappedSpan bp.addr 4 = true := by
      intro q hq
      obtain ⟨p, hp, hm⟩ := hm₂ q hq
      have hspan := hmap p hp bp (Table.mem_of_entry (hbps ▸ hbp))
      rw [Proc.mappedSpan] at hspan ⊢
      rw [hm]
      exact hspan
    simp only [World.setDbg_dbg, hregs, hi, hbp]
    have hp₄ : (w₂.setDbg { w₂.dbg with regs := regs }).Poised bp.addr := by
      rw [haddr]
      exact hp₂.setRegs regs
    refine (total_handleBreakpointHit hp₄ hbp hmap₂).post ?_
    rintro rc w₅ t₅ ⟨h0, hh₅, hp₅, ht₅, e, he, hk⟩
    rw [haddr] at hp₅ hk
    refine ⟨h0, hh₅.trans hh₂, hp₅, fun e' he' => ?_, e, by simp [he], hk⟩
    simp only [List.nil_append, List.mem_append] at he'
    rcases he' with he' | he' | he' | he'
    · exact ht₂ e' he'
    · exact (ht₃ e' he').1
    · exact ht₄ e' he'
    · exact ht₅ e' he'
  refine hannounce.bind ?_
  rintro rc w' t ⟨h0, hh, hp, ht, e, he, hk⟩
  refine Total.of_eq rfl ⟨h0, hh, hp, fun e' he' => ?_, e, List.mem_append_left _ he, hk⟩
  rcases List.mem_append.mp he' with he' | he'
  · exact ht e' he'
  · obtain rfl := List.mem_singleton.mp he'
    exact fun hk => by cases hk

/-! ### The loop -/

section Loop

variable {n : ℕ} {m : Moment} {w : World σ} {start : Str × BitVec 32}

/-- A round that has come to an enabled breakpoint. -/
lemma total_checkLine_hit (h : w.At x executed n m)
    (htrap : bpIsTrap m.regs.pc w.dbg.breakpoints = true) :
    Total w (checkLine host start.1 start.2) fun r w' t => r = some 0 ∧ executed w'.host = n ∧
      w'.Poised m.regs.pc ∧ (∀ e ∈ t, e.clear) ∧ ∃ e ∈ t, e.kind = .breakpointHit m.regs.pc := by
  refine (h.poised.refreshRegs.post fun rc w' t h => ⟨h.1, h.2⟩).bind_ok ?_
  rintro _ t₁ ⟨⟨regs, hregs, rfl⟩, ht₁⟩
  refine Total.get_bind ?_
  simp only [World.setDbg_dbg, hregs, htrap, if_true]
  have hmap : ∀ p ∈ w.proc, ∀ bp ∈ w.dbg.breakpoints.toList, p.mappedSpan bp.addr 4 = true := by
    obtain ⟨p, _, hp, _, _, hb, _⟩ := h.proc
    intro q hq bp hbp
    obtain rfl : p = q := Option.some.inj ((World.taskForPid_eq_some.mp hp).1.symm.trans hq)
    exact (hb.sites bp hbp).2
  refine (total_reportStop (h.poised.setRegs regs) htrap hmap).bind ?_
  rintro rc w₂ t₂ ⟨rfl, hh, hp, ht₂, e, he, hk⟩
  refine Total.pure _ ⟨rfl, by rw [hh]; exact h.count, hp, fun e' he' => ?_, e, by simp [he], hk⟩
  simp only [List.append_nil, List.mem_append] at he'
  exact he'.elim (fun h => (ht₁ e' h).1) (ht₂ e')

/-- The lines that announce a stop at another line. -/
lemma total_announceLine (pc : Addr) (w : World σ) :
    Total w (do printStopHeader; emit (.stoppedAt pc); printStopLocation pc; return some (0 : ℤ))
      fun r w' t => r = some 0 ∧ w' = w ∧ ∀ e ∈ t, e.quiet := by
  refine Total.of_eq (t := [⟨.stopHeader, w⟩, ⟨.stoppedAt pc, w⟩, ⟨.location pc, w⟩]) rfl
    ⟨rfl, rfl, fun e he => ?_⟩
  simp only [List.mem_cons, List.not_mem_nil, or_false] at he
  rcases he with rfl | rfl | rfl <;> exact Event.quiet_of_kind rfl rfl

/-- A round that has come to no enabled breakpoint. -/
lemma total_checkLine_line (h : w.At x executed n m)
    (hoff : bpIsTrap m.regs.pc w.dbg.breakpoints = false) :
    Total w (checkLine host start.1 start.2) fun r w' t => (∀ e ∈ t, e.quiet) ∧
      w' = w.setDbg { w.dbg with regs := m.regs } ∧
      (r = some 0 ∧ x.Leaves w.dbg.lineno start n ∨
        r = none ∧ ¬ x.Leaves w.dbg.lineno start n) := by
  have hleaves : x.Leaves w.dbg.lineno start n ↔
      ∃ line ∈ w.dbg.lineno.lineAtPc m.regs.pc, line ≠ start := by
    refine ⟨fun ⟨m', hm', hl⟩ => ?_, fun hl => ⟨m, h.moment, hl⟩⟩
    obtain rfl : m = m' := Option.some.inj (h.moment.symm.trans hm')
    exact hl
  rw [hleaves]
  -- neither a breakpoint nor a watchpoint stands in the way
  refine (Total.of_eq h.refreshRegs (Q := fun rc w' t => rc = 0 ∧
    w' = w.setDbg { w.dbg with regs := m.regs } ∧ ∀ e ∈ t, e.quiet)
    ⟨rfl, rfl, by simp [Event.quiet, Event.clear, EventKind.isStep,
      EventKind.isBreakpointHit]⟩).bind_ok ?_
  rintro _ t₁ ⟨rfl, ht₁⟩
  refine Total.get_bind ?_
  simp only [World.setDbg_dbg, hoff, Bool.false_eq_true, if_false]
  refine Total.bind (Q := fun b w' t => b = false ∧ t = [] ∧
    w' = w.setDbg { w.dbg with regs := m.regs })
    (Total.of_eq (tryReportWatchpointHit_unwatched h.unwatched) ⟨rfl, rfl, rfl⟩) ?_
  rintro _ _ _ ⟨rfl, rfl, rfl⟩
  rw [if_neg Bool.false_ne_true]
  refine Total.get_bind ?_
  simp only [World.setDbg_dbg, List.nil_append]
  -- the round ends the step where the table has another line for the program counter
  cases hl : w.dbg.lineno.lineAtPc m.regs.pc with
  | none => exact Total.pure _ ⟨by simpa using ht₁, rfl, .inr ⟨rfl, by simp⟩⟩
  | some line =>
      dsimp only
      split
      next hne =>
        refine (total_announceLine m.regs.pc _).post ?_
        rintro r _ t₂ ⟨rfl, rfl, ht₂⟩
        refine ⟨fun e he => ?_, rfl, .inl ⟨rfl, line, rfl, fun heq => ?_⟩⟩
        · exact (List.mem_append.mp he).elim (ht₁ e) (ht₂ e)
        · rw [heq] at hne
          simp at hne
      next heq =>
        have hline : line = start := by
          rw [not_or, not_not, not_not] at heq
          exact Prod.ext heq.1 heq.2
        exact Total.pure _ ⟨by simpa using ht₁, rfl, .inr ⟨rfl, by simp [hline]⟩⟩

end Loop

/-- The head of the loop after `k` instructions, of a `step` that began in `w₀` after `n`. -/
structure Looping (x : Execution) (executed : σ → ℕ) (w₀ : World σ) (start : Str × BitVec 32)
    (n k : ℕ) (w : World σ) : Prop where
  le : n ≤ k
  at_moment : ∃ m, w.At x executed k m ∧ bpIsTrap m.regs.pc w.dbg.breakpoints = false
  keeping : w₀.Keeping w
  early : ∀ j, n < j → j ≤ k → ¬ x.Stops w₀.dbg start n j
  traps : ∀ a, bpIsTrap a w.dbg.breakpoints = true ↔
    ∃ bp ∈ w₀.dbg.breakpoints.toList, bp.LiveAt x n k ∧ bp.addr = a

/-- How the loop ends: at the first stop there is, or at the limit. -/
def LoopEnd (x : Execution) (executed : σ → ℕ) (w₀ : World σ) (start : Str × BitVec 32)
    (n limit : ℕ) (rc : ℤ) (w : World σ) (t : List (Event σ)) : Prop :=
  (∃ k, IsLeast {k | n < k ∧ x.Stops w₀.dbg start n k} k ∧ k ≤ limit ∧ rc = 0 ∧
      EndsAt x w₀.dbg.breakpoints n k executed w t) ∨
    (∀ k, n < k → k ≤ limit → ¬ x.Stops w₀.dbg start n k) ∧ rc = -1 ∧
      executed w.host = limit ∧ ∃ e ∈ t, e.kind = .stepLimit

/-- Events before that announce no hit. -/
lemma LoopEnd.after {w₀ w : World σ} {start : Str × BitVec 32} {n limit : ℕ} {rc : ℤ}
    {t t' : List (Event σ)} (h : LoopEnd x executed w₀ start n limit rc w t)
    (ht' : ∀ e ∈ t', e.quiet) : LoopEnd x executed w₀ start n limit rc w (t' ++ t) := by
  rcases h with ⟨k, hleast, hle, hrc, hend⟩ | ⟨hno, hrc, hcount, e, he, hk⟩
  · refine .inl ⟨k, hleast, hle, hrc, hend.count, hend.exited, hend.stopped, fun hb => ?_,
      fun hb e he => ?_⟩
    · obtain ⟨m, hm, e, he, hk⟩ := hend.hit hb
      exact ⟨m, hm, e, List.mem_append_right t' he, hk⟩
    · exact (List.mem_append.mp he).elim (fun h => (ht' e h).2) (hend.missed hb e)
  · exact .inr ⟨hno, hrc, hcount, e, List.mem_append_right t' he, hk⟩

/-- An entry is enabled one instruction later if it was, or if the program is elsewhere. -/
lemma Breakpoint.liveAt_succ {n k : ℕ} (hle : n ≤ k) {m : Moment} (hm : x.moment (k + 1) = some m)
    (bp : Breakpoint) : bp.LiveAt x n (k + 1) ↔ bp.LiveAt x n k ∨ m.regs.pc ≠ bp.addr := by
  constructor
  · rintro (he | ⟨j, hj, hjk, hpc⟩)
    · exact .inl (.inl he)
    · rcases Nat.lt_or_ge k j with hlt | hge
      · obtain rfl : j = k + 1 := by omega
        exact .inr (hpc m hm)
      · exact .inl (.inr ⟨j, hj, hge, hpc⟩)
  · rintro ((he | ⟨j, hj, hjk, hpc⟩) | hne)
    · exact .inl he
    · exact .inr ⟨j, hj, by omega, hpc⟩
    · refine .inr ⟨k + 1, by omega, le_refl _, fun m' hm' => ?_⟩
      obtain rfl : m = m' := Option.some.inj (hm.symm.trans hm')
      exact hne

/-- The head of the loop after one more instruction. -/
lemma Looping.next {w₀ w w₁ : World σ} {start : Str × BitVec 32} {n k : ℕ}
    (h : Looping x executed w₀ start n k w) {m : Moment} (hat : w₁.At x executed (k + 1) m)
    (hk : w.Keeping w₁) (hset : ∀ a, bpIsTrap a w₁.dbg.breakpoints = true ↔
      bpIsTrap a w.dbg.breakpoints = true ∨ a ∈ w.sites ∧ a ≠ m.regs.pc) :
    w₀.Keeping w₁ ∧ ∀ a, bpIsTrap a w₁.dbg.breakpoints = true ↔
      ∃ bp ∈ w₀.dbg.breakpoints.toList, bp.LiveAt x n (k + 1) ∧ bp.addr = a := by
  refine ⟨h.keeping.trans hk, fun a => ?_⟩
  rw [hset, h.traps, h.keeping.sites, World.sites]
  constructor
  · rintro (⟨bp, hbp, hlive, rfl⟩ | ⟨hmem, hne⟩)
    · exact ⟨bp, hbp, (bp.liveAt_succ h.le hat.moment).mpr (.inl hlive), rfl⟩
    · obtain ⟨bp, hbp, rfl⟩ := List.mem_map.mp hmem
      exact ⟨bp, hbp, (bp.liveAt_succ h.le hat.moment).mpr (.inr hne.symm), rfl⟩
  · rintro ⟨bp, hbp, hlive, rfl⟩
    rcases (bp.liveAt_succ h.le hat.moment).mp hlive with hl | hne
    · exact .inl ⟨bp, hbp, hl, rfl⟩
    · exact .inr ⟨List.mem_map_of_mem hbp, hne.symm⟩

/-! ### The ends of a round -/

section Ends

variable {w₀ w w' : World σ} {start : Str × BitVec 32} {n k limit : ℕ} {m : Moment}
  {t : List (Event σ)}

/-- The first stop is the least of those after the start. -/
lemma Looping.isLeast (h : Looping x executed w₀ start n k w)
    (hs : x.Stops w₀.dbg start n (k + 1)) :
    IsLeast {k | n < k ∧ x.Stops w₀.dbg start n k} (k + 1) := by
  refine ⟨⟨Nat.lt_succ_of_le h.le, hs⟩, fun j ⟨hj, hstop⟩ => ?_⟩
  by_contra hlt
  exact h.early j hj (by omega) hstop

/-- A round in which the program exits. -/
lemma Looping.loopEnd_exit (h : Looping x executed w₀ start n k w) (hk : k + 1 ≤ limit)
    (hnone : x.moment (k + 1) = none) (hcount : executed w'.host = k + 1)
    (hidle : w'.dbg.state = .idle) (hmissed : ∀ e ∈ t, e.kind.isBreakpointHit = false) :
    LoopEnd x executed w₀ start n limit 0 w' t := by
  refine .inl ⟨k + 1, h.isLeast (.inl hnone), hk, rfl, hcount, fun _ => hidle, ?_, ?_,
    fun _ => hmissed⟩
  · simp [hnone]
  · rintro ⟨m, hm, _⟩
    rw [hnone] at hm
    cases hm

/-- A round after which the program stands where the `step` is to end. -/
lemma Looping.loopEnd_stop (h : Looping x executed w₀ start n k w) (hk : k + 1 ≤ limit)
    (hm : x.moment (k + 1) = some m) (hs : x.Stops w₀.dbg start n (k + 1))
    (hcount : executed w'.host = k + 1) (hp : w'.Poised m.regs.pc)
    (hhit : x.Hits w₀.dbg.breakpoints n (k + 1) → ∃ e ∈ t, e.kind = .breakpointHit m.regs.pc)
    (hmissed : ¬ x.Hits w₀.dbg.breakpoints n (k + 1) →
      ∀ e ∈ t, e.kind.isBreakpointHit = false) :
    LoopEnd x executed w₀ start n limit 0 w' t := by
  refine .inl ⟨k + 1, h.isLeast hs, hk, rfl, hcount, fun hn => ?_, fun m' hm' => ?_,
    fun hb => ⟨m, hm, hhit hb⟩, hmissed⟩
  · rw [hm] at hn
    cases hn
  · obtain rfl : m = m' := Option.some.inj (hm.symm.trans hm')
    exact ⟨hp.1, hp.pcs⟩

/-- A breakpoint in the code is one that is enabled by now. -/
lemma hits_iff {bps bps₀ : Table Breakpoint maxBreakpoints} (hm : x.moment k = some m)
    (htraps : ∀ a, bpIsTrap a bps = true ↔ ∃ bp ∈ bps₀.toList, bp.LiveAt x n k ∧ bp.addr = a) :
    bpIsTrap m.regs.pc bps = true ↔ x.Hits bps₀ n k := by
  rw [htraps]
  refine ⟨fun hb => ⟨m, hm, hb⟩, ?_⟩
  rintro ⟨m', hm', hb⟩
  obtain rfl : m = m' := Option.some.inj (hm.symm.trans hm')
  exact hb

/-- A round after which the loop goes on. -/
lemma Looping.again (h : Looping x executed w₀ start n k w) (hat : w'.At x executed (k + 1) m)
    (hkeep : w₀.Keeping w') (htraps : ∀ a, bpIsTrap a w'.dbg.breakpoints = true ↔
      ∃ bp ∈ w₀.dbg.breakpoints.toList, bp.LiveAt x n (k + 1) ∧ bp.addr = a)
    (hoff : bpIsTrap m.regs.pc w'.dbg.breakpoints = false)
    (hstays : ¬ x.Leaves w₀.dbg.lineno start (k + 1)) :
    Looping x executed w₀ start n (k + 1) (w'.setDbg { w'.dbg with regs := m.regs }) := by
  refine ⟨Nat.le_succ_of_le h.le, ⟨m, hat.setRegs _, hoff⟩, ⟨hkeep.lineno, hkeep.sites⟩,
    fun j hj hjk => ?_, htraps⟩
  rcases Nat.lt_or_ge k j with hlt | hge
  · obtain rfl : j = k + 1 := by omega
    rintro (hn | hb | hl)
    · rw [hat.moment] at hn
      cases hn
    · rw [← hits_iff hat.moment htraps, hoff] at hb
      cases hb
    · exact hstays hl
  · exact h.early j hj hge

end Ends

/-- The loop, by induction on the number of rounds left. -/
lemma total_stepLoop (hf : host.Follows executed x) {w₀ : World σ} {start : Str × BitVec 32}
    {n : ℕ} : ∀ (rounds k : ℕ) (w : World σ), Looping x executed w₀ start n k w →
    Total w (stepLoop host start.1 start.2 rounds) fun rc w' t => (∀ e ∈ t, e.clear) ∧
      LoopEnd x executed w₀ start n (k + rounds) rc w' t
  | 0, k, w, h => by
      obtain ⟨m, hat, _⟩ := h.at_moment
      refine Total.of_eq (t := [⟨.stepLimit, w⟩]) rfl ⟨?_, .inr ⟨fun j hj hjk => h.early j hj hjk,
        rfl, hat.count, _, List.mem_singleton_self _, rfl⟩⟩
      simp [Event.clear, EventKind.isStep]
  | rounds + 1, k, w, h => by
      obtain ⟨m, hat, hoff⟩ := h.at_moment
      have hk : k + 1 ≤ k + (rounds + 1) := by omega
      refine (total_stepOnce hf hat hoff).bind ?_
      rintro r w₁ t₁ ⟨ht₁, ⟨hcount, hadv⟩, hr⟩
      rcases hadv with ⟨hnone, hidle⟩ | ⟨m', hat₁, hkeep, hset⟩
      -- the program has exited
      · rw [if_pos hnone] at hr
        subst hr
        refine Total.pure 0 ?_
        rw [List.append_nil]
        exact ⟨fun e he => (ht₁ e he).1,
          h.loopEnd_exit hk hnone hcount hidle fun e he => (ht₁ e he).2⟩
      rw [if_neg (by rw [hat₁.moment]; simp)] at hr
      subst hr
      obtain ⟨hkeep, htraps⟩ := h.next hat₁ hkeep hset
      have hhits := hits_iff hat₁.moment htraps
      by_cases htrap : bpIsTrap m'.regs.pc w₁.dbg.breakpoints = true
      -- a breakpoint is hit
      · refine (total_checkLine_hit hat₁ htrap).bind ?_
        rintro _ w₂ t₂ ⟨rfl, hcount₂, hp₂, ht₂, e, he, hkind⟩
        refine Total.pure 0 ?_
        rw [List.append_nil]
        refine ⟨fun e he => (List.mem_append.mp he).elim (fun h => (ht₁ e h).1) (ht₂ e),
          h.loopEnd_stop hk hat₁.moment (.inr (.inl (hhits.mp htrap))) hcount₂ hp₂
            (fun _ => ⟨e, List.mem_append_right t₁ he, hkind⟩)
            fun hno => absurd (hhits.mp htrap) hno⟩
      have hoff₁ : bpIsTrap m'.regs.pc w₁.dbg.breakpoints = false := by simpa using htrap
      have hline : w₁.dbg.lineno = w₀.dbg.lineno := hkeep.lineno
      refine (total_checkLine_line hat₁ hoff₁).bind ?_
      rintro r _ t₂ ⟨ht₂, rfl, hr⟩
      rw [hline] at hr
      have hquiet : ∀ e ∈ t₁ ++ t₂, e.quiet := fun e he =>
        (List.mem_append.mp he).elim (ht₁ e) (ht₂ e)
      rcases hr with ⟨rfl, hleaves⟩ | ⟨rfl, hstays⟩
      -- another line
      · refine Total.pure 0 ?_
        rw [List.append_nil]
        exact ⟨fun e he => (hquiet e he).1,
          h.loopEnd_stop hk hat₁.moment (.inr (.inr hleaves)) hat₁.count hat₁.poised
            (fun hb => absurd (hhits.mpr hb) htrap) fun _ e he => (hquiet e he).2⟩
      -- the same line, or none: another round
      · have hloop := h.again hat₁ hkeep htraps hoff₁ hstays
        refine (total_stepLoop hf rounds (k + 1) _ hloop).post ?_
        rintro rc w' t ⟨ht, hend⟩
        rw [← List.append_assoc]
        refine ⟨fun e he => (List.mem_append.mp he).elim (fun h => (hquiet e h).1) (ht e), ?_⟩
        rw [Nat.add_assoc, Nat.add_comm 1] at hend
        exact hend.after hquiet

/-- `step` ends as its loop does. -/
lemma total_stepNextLine (hf : host.Follows executed x) {w : World σ} {n : ℕ} {m : Moment}
    {start : Str × BitVec 32} (hw : w.At x executed n m)
    (hline : w.dbg.lineno.lineAtPc m.regs.pc = some start)
    (hoff : bpIsTrap m.regs.pc w.dbg.breakpoints = false) :
    Total w (stepNextLine host) fun rc w' t => (∀ e ∈ t, e.clear) ∧
      LoopEnd x executed w start n (n + maxStepIterations) rc w' t := by
  refine (Total.of_eq hw.refreshRegs (Q := fun rc w' t => rc = 0 ∧
    w' = w.setDbg { w.dbg with regs := m.regs } ∧ ∀ e ∈ t, e.quiet)
    ⟨rfl, rfl, by simp [Event.quiet, Event.clear, EventKind.isStep,
      EventKind.isBreakpointHit]⟩).bind_ok ?_
  rintro _ t₁ ⟨rfl, ht₁⟩
  refine Total.get_bind ?_
  simp only [World.setDbg_dbg, hline]
  have hlive : ∀ bp : Breakpoint, bp.LiveAt x n n ↔ bp.enabled = true := by
    refine fun bp => ⟨fun h => h.resolve_right ?_, .inl⟩
    rintro ⟨j, hj, hjn, _⟩
    exact absurd hj (not_lt.mpr hjn)
  have hloop : Looping x executed w start n n (w.setDbg { w.dbg with regs := m.regs }) := by
    refine ⟨le_refl n, ⟨m, hw.setRegs _, hoff⟩, ⟨rfl, rfl⟩,
      fun j hj hjn => absurd hj (not_lt.mpr hjn), fun a => ?_⟩
    simp only [hlive]
    exact bpIsTrap_iff
  refine (total_stepLoop hf _ n _ hloop).post ?_
  rintro rc w' t ⟨ht, hend⟩
  refine ⟨fun e he => ?_, ?_⟩
  · exact (List.mem_append.mp he).elim (fun h => (ht₁ e h).1) (ht e)
  · exact hend.after ht₁

/-- **`step` stops at the first line change**: from a line, with no breakpoint enabled at the
program counter, it ends after the fewest instructions with which the program exits, comes
to an enabled breakpoint or comes to another line, and reports the breakpoint as hit; or it
fails at the limit of rounds if there are none within it. No `BRK` is stepped. -/
theorem step_stops_first (hf : host.Follows executed x) {w : World σ} {n : ℕ} {m : Moment}
    {start : Str × BitVec 32} (hw : w.At x executed n m)
    (hline : w.dbg.lineno.lineAtPc m.regs.pc = some start)
    (hoff : bpIsTrap m.regs.pc w.dbg.breakpoints = false) :
    (∀ e ∈ (stepNextLine host w).trace, e.clear) ∧
    (∀ k, IsLeast {k | n < k ∧ x.Stops w.dbg start n k} k → k ≤ n + maxStepIterations →
      (stepNextLine host w).value = some 0 ∧
        EndsAt x w.dbg.breakpoints n k executed (stepNextLine host w).final
          (stepNextLine host w).trace) ∧
    ((∀ k, n < k → k ≤ n + maxStepIterations → ¬ x.Stops w.dbg start n k) →
      (stepNextLine host w).value = some (-1) ∧
        executed (stepNextLine host w).final.host = n + maxStepIterations ∧
        ∃ e ∈ (stepNextLine host w).trace, e.kind = .stepLimit) := by
  obtain ⟨rc, hrc, hclear, hend⟩ := total_stepNextLine hf hw hline hoff
  refine ⟨hclear, fun k hk hle => ?_, fun hno => ?_⟩
  · rcases hend with ⟨k', hk', _, rfl, hends⟩ | ⟨hno, _⟩
    · obtain rfl : k = k' := hk.unique hk'
      exact ⟨hrc, hends⟩
    · exact absurd hk.1.2 (hno k hk.1.1 hle)
  · rcases hend with ⟨k', hk', hle, _⟩ | ⟨_, rfl, hcount, hlimit⟩
    · exact absurd hk'.1.2 (hno k' hk'.1.1 hle)
    · exact ⟨hrc, hcount, hlimit⟩

/-! ### A program -/

namespace Walk

/-- The program stopped where it starts, at a breakpoint just hit: lines change at the third
instruction. -/
def stoppedAtStart : World ℕ where
  dbg := { Dbg.init with
    pid := 7
    state := .stopped
    breakpoints := ⟨[⟨first, 0, false⟩], by simp [maxBreakpoints]⟩
    lineno := ⟨[⟨0x1000, 1, 0, "a.c".toList⟩, ⟨0x1008, 2, 0, "a.c".toList⟩], 0, 0⟩ }
  proc := some { birth.proc with running := none }
  host := 0

lemma stoppedAtStart_at : stoppedAtStart.At execution id 0 (momentAt 0) := by
  refine ⟨rfl, rfl, rfl, rfl, _, _, rfl, rfl, ⟨rfl, ?_, fun _ _ => rfl⟩,
    ⟨?_, fun a _ => ?_, fun a _ _ => rfl⟩, .inl rfl⟩
  · rfl
  · intro bp hbp
    obtain rfl := List.mem_singleton.mp hbp
    refine ⟨⟨rfl, fun a ha => ?_⟩, rfl⟩
    rw [Memory.mem_span, BitVec.toNat_sub] at ha
    have hlt := a.isLt
    change 0x1000 ≤ a.toNat ∧ a.toNat < 0x1044
    change (2 ^ 64 - 0x1000 + a.toNat) % 2 ^ 64 < 4 at ha
    constructor <;> omega
  · rw [Proc.hasTrap]
    change Memory.read (fun _ => 0) a 4 = _ ↔ _
    rw [read_zero]
    refine iff_of_false (by decide) ?_
    simp [bpIsTrap, stoppedAtStart, Breakpoint.matchesPc]

end Walk

/-- A `step` from the breakpoint just hit to the next line, two instructions on. -/
theorem step_stops_first_walk :
    (stepNextLine (Walk.host .stripped) Walk.stoppedAtStart).value = some 0 ∧
      EndsAt Walk.execution Walk.stoppedAtStart.dbg.breakpoints 0 2 id
        (stepNextLine (Walk.host .stripped) Walk.stoppedAtStart).final
        (stepNextLine (Walk.host .stripped) Walk.stoppedAtStart).trace := by
  have hsecond : Walk.execution.moment 1 = some (Walk.momentAt 1) := rfl
  have hthird : Walk.execution.moment 2 = some (Walk.momentAt 2) := rfl
  have hleast : IsLeast {k | 0 < k ∧ Walk.execution.Stops Walk.stoppedAtStart.dbg
      ("a.c".toList, 1) 0 k} 2 := by
    refine ⟨⟨by decide, .inr (.inr ⟨_, hthird, ("a.c".toList, 2), rfl, by decide⟩)⟩,
      fun k ⟨hk, hstop⟩ => ?_⟩
    by_contra hlt
    obtain rfl : k = 1 := by omega
    rcases hstop with hn | ⟨m, hm, bp, hbp, -, haddr⟩ | ⟨m, hm, line, hl, hne⟩
    · rw [hsecond] at hn
      cases hn
    · obtain rfl := Option.some.inj (hsecond.symm.trans hm)
      obtain rfl := List.mem_singleton.mp hbp
      exact absurd haddr (by decide)
    · obtain rfl := Option.some.inj (hsecond.symm.trans hm)
      exact hne (Option.some.inj hl).symm
  exact (step_stops_first (Walk.follows _) Walk.stoppedAtStart_at rfl rfl).2.1 2 hleast
    (by decide)

end Cdbg
