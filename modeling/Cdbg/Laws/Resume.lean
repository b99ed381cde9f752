import Cdbg.Control.Coherent
import Cdbg.Machine.Script

/-!
Breakpoints at a resume: whether every entry of the table is enabled and has its
`BRK` in memory when `cdbg_continue` issues `PT_CONTINUE`.

That enabled entries have their `BRK` in memory is an invariant (`World.Guarded`), as
long as the words of the entries are apart and nobody else writes to them. It is kept by
temporary breakpoints too, which come and go inside one function, because the word a
temporary breakpoint puts back is either apart from the entries or the `BRK` of one
(`Guards`). That no entry is left disabled rests on the single step with which
`cdbg_continue` begins: it has to start at a disabled entry, if there is one, and must not
end at one (`World.rearms`).
-/

namespace Cdbg

open Prog

variable {σ α : Type} {host : Host σ}

/-- `BRK #0` is in memory at an address. -/
def Proc.hasTrap (p : Proc) (a : Addr) : Prop := p.mem.read a 4 = trapInst.toNat

instance (p : Proc) (a : Addr) : Decidable (p.hasTrap a) :=
  inferInstanceAs (Decidable (_ = _))

/-- The addresses of the entries of the table. -/
def World.sites (w : World σ) : List Addr := w.dbg.breakpoints.toList.map Breakpoint.addr

/-- Every entry of the table is enabled. -/
def World.allEnabled (w : World σ) : Prop :=
  ∀ bp ∈ w.dbg.breakpoints.toList, bp.enabled = true

instance (w : World σ) : Decidable w.allEnabled :=
  inferInstanceAs (Decidable (∀ bp ∈ w.dbg.breakpoints.toList, bp.enabled = true))

/-- Every enabled entry has its `BRK` in the memory of the debuggee. -/
def World.trapsIn (w : World σ) : Prop :=
  ∀ p ∈ w.taskForPid w.dbg.pid, ∀ bp ∈ w.dbg.breakpoints.toList, bp.enabled = true →
    p.hasTrap bp.addr

instance (w : World σ) : Decidable w.trapsIn := inferInstanceAs (Decidable (∀ p ∈ _, _))

/-- After a single step the selected thread is at no disabled entry, if it stops. -/
def World.stepsOff (host : Host σ) (w : World σ) : Bool :=
  match w.taskForPid w.dbg.pid with
  | none => true
  | some p =>
  match (host.resume .step { p with running := some .step } w.host).1 with
  | some (.stopped s) =>
      ((p.stopWith s).threads.resolve w.dbg.currentTid).all fun t =>
        ! disabledBreakpointAtPc t.regs.pc w.dbg.breakpoints
  | _ => true

/-- The single step with which `cdbg_continue` begins leaves no entry disabled: if one is
disabled, the selected thread is at a disabled one and steps to no disabled one. -/
def World.rearms (host : Host σ) (w : World σ) : Prop :=
  w.allEnabled ∨
    disabledBreakpointAtPc w.dbg.regs.pc w.dbg.breakpoints = true ∧ w.stepsOff host = true

instance (host : Host σ) (w : World σ) : Decidable (w.rearms host) :=
  inferInstanceAs (Decidable (_ ∨ _))

/-- What an event demands of the world in which it happens. -/
def EventKind.guards (host : Host σ) (w : World σ) : EventKind → Prop
  -- `break` at an address apart from the entries there are
  | .bpEnable (.entry i) addr => i = w.dbg.breakpoints.count →
      ∀ bp ∈ w.dbg.breakpoints.toList, Memory.Apart bp.addr 4 addr 4
  -- a temporary breakpoint apart from the entries, or at an enabled one
  | .bpEnable .temp addr => ∀ bp ∈ w.dbg.breakpoints.toList,
      Memory.Apart bp.addr 4 addr 4 ∨ bp.addr = addr ∧ bp.enabled = true
  -- a debuggee that leaves the `BRK`s alone
  | .waited (.stopped s) => ∀ bp ∈ w.dbg.breakpoints.toList, bp.enabled = true →
      s.mem.read bp.addr 4 = trapInst.toNat
  -- a `set` elsewhere
  | .store addr n => ∀ bp ∈ w.dbg.breakpoints.toList, bp.enabled = true →
      Memory.Apart bp.addr 4 addr n
  | .memFailed _ _ => w.taskForPid w.dbg.pid = none
  | .steppingOver => w.rearms host
  | _ => True

namespace Event

/-- The demand of an event on its world. -/
def guarded (host : Host σ) (e : Event σ) : Prop := e.kind.guards host e.world

/-- At `PT_CONTINUE` every entry is enabled and has its `BRK` in memory. -/
def allSet (e : Event σ) : Prop :=
  e.kind.isContinue = true → e.world.allEnabled ∧ e.world.trapsIn

instance (e : Event σ) : Decidable e.allSet := inferInstanceAs (Decidable (_ → _))

instance (host : Host σ) (e : Event σ) : Decidable (e.guarded host) := by
  obtain ⟨k, w⟩ := e
  unfold guarded EventKind.guards
  cases k with
  | bpEnable site addr => cases site <;> dsimp only <;> infer_instance
  | waited o => cases o <;> dsimp only <;> infer_instance
  | _ => dsimp only; infer_instance

end Event

/-! ### The invariant -/

/-- The words of the entries are apart, and every enabled entry has its `BRK` in memory. -/
structure World.Guarded (w : World σ) : Prop where
  coherent : w.Coherent
  apart : w.sites.Pairwise fun a b => Memory.Apart a 4 b 4
  traps : w.trapsIn

/-- What a temporary breakpoint puts back is apart from the entries, or is the `BRK` of
one. -/
def World.Guards (temp : Breakpoint) (w : World σ) : Prop :=
  temp.enabled = true → ∀ a ∈ w.sites,
    Memory.Apart a 4 temp.addr 4 ∨ a = temp.addr ∧ temp.savedInst = trapInst

namespace World

/-- The entries at two indices are apart. -/
lemma apart_of_ne {w : World σ} (h : w.sites.Pairwise fun a b => Memory.Apart a 4 b 4)
    {i j : ℕ} {a b : Breakpoint} (hij : i ≠ j) (hi : w.dbg.breakpoints.entry i = some a)
    (hj : w.dbg.breakpoints.entry j = some b) : Memory.Apart a.addr 4 b.addr 4 := by
  obtain ⟨hi', rfl⟩ := List.getElem?_eq_some_iff.mp hi
  obtain ⟨hj', rfl⟩ := List.getElem?_eq_some_iff.mp hj
  rw [sites, List.pairwise_map] at h
  rcases lt_or_gt_of_ne hij with hlt | hlt
  · exact List.pairwise_iff_getElem.mp h i j hi' hj' hlt
  · exact (List.pairwise_iff_getElem.mp h j i hj' hi' hlt).symm

/-- Nothing that matters has changed. -/
lemma Guarded.congr {w w' : World σ} (h : w.Guarded) (hc : w'.Coherent)
    (hb : w'.dbg.breakpoints = w.dbg.breakpoints)
    (hp : ∀ p' ∈ w'.taskForPid w'.dbg.pid, ∃ p ∈ w.taskForPid w.dbg.pid, p'.mem = p.mem) :
    w'.Guarded := by
  refine ⟨hc, ?_, fun p' hp' bp hbp he => ?_⟩
  · rw [sites, hb]
    exact h.apart
  · obtain ⟨p, hp, hm⟩ := hp p' hp'
    rw [hb] at hbp
    rw [Proc.hasTrap, hm]
    exact h.traps p hp bp hbp he

/-- Without a debuggee there is nothing in memory. -/
lemma Guarded.of_none {w : World σ} (hc : w.Coherent) (hp : w.proc = none)
    (ha : w.sites.Pairwise fun a b => Memory.Apart a 4 b 4) : w.Guarded := by
  refine ⟨hc, ha, fun p hp' => ?_⟩
  have := (taskForPid_eq_some.mp hp').1
  rw [hp] at this
  cases this

/-- A word is written and the table changed: what is enabled afterwards is an entry from
before apart from that word, or has its `BRK` there. -/
lemma Guarded.write {w : World σ} (h : w.Guarded) {p : Proc}
    (hp : w.taskForPid w.dbg.pid = some p) {a : Addr} {n v : ℕ} {d : Dbg}
    (hpid : d.pid = w.dbg.pid) (hs : d.state = w.dbg.state)
    (ha : (d.breakpoints.toList.map Breakpoint.addr).Pairwise fun a b => Memory.Apart a 4 b 4)
    (ht : ∀ bp ∈ d.breakpoints.toList, bp.enabled = true →
      bp ∈ w.dbg.breakpoints.toList ∧ Memory.Apart bp.addr 4 a n ∨
        bp.addr = a ∧ n = 4 ∧ v = trapInst.toNat) :
    ((w.setProc { p with mem := p.mem.write a n v }).setDbg d).Guarded := by
  have hc : (w.setProc { p with mem := p.mem.write a n v }).child = w.child :=
    child_setProc hp rfl rfl
  refine ⟨h.coherent.congr hs hpid hc, ha, fun p' hp' bp hbp he => ?_⟩
  obtain rfl : { p with mem := p.mem.write a n v } = p' :=
    Option.some.inj (taskForPid_eq_some.mp hp').1
  rcases ht bp hbp he with ⟨hold, hap⟩ | ⟨rfl, rfl, rfl⟩
  · rw [Proc.hasTrap, Memory.read_write_of_apart hap]
    exact h.traps p hp bp hold he
  · rw [Proc.hasTrap, Memory.read_write_self _ _ (by norm_num)]
    rfl

end World

/-! ### Steps -/

lemma Event.allSet_of_not_continue {e : Event σ} (h : e.kind.isContinue = false) : e.allSet := by
  intro hc
  rw [h] at hc
  cases hc

/-- No access to the memory of a live debuggee fails. -/
lemma Event.guarded.not_memFailed {w : World σ} {p : Proc} (hp : w.taskForPid w.dbg.pid = some p)
    {a : Addr} {n : ℕ} (h : (⟨.memFailed a n, w⟩ : Event σ).guarded host) : False := by
  change w.taskForPid w.dbg.pid = none at h
  rw [hp] at h
  cases h

namespace World

lemma Guarded.quiet {w w' : World σ} (h : w.Guarded) (hq : Quiet w w') : w'.Guarded := by
  refine h.congr (h.coherent.congr hq.state hq.pid hq.mild.child) hq.breakpoints fun p' hp' => ?_
  obtain ⟨hproc', hpid'⟩ := taskForPid_eq_some.mp hp'
  have hproc := hq.proc
  rw [hproc'] at hproc
  revert hproc
  generalize hwp : w.proc = a
  intro hproc
  cases hproc with
  | @some p _ hpp =>
      refine ⟨p, taskForPid_eq_some.mpr ⟨hwp, ?_⟩, hpp.mem⟩
      rw [← hpp.pid, hpid', hq.pid]

/-- The threads or the way of running of the debuggee have changed. -/
lemma Guarded.setProc {w : World σ} (h : w.Guarded) {p q : Proc}
    (hp : w.taskForPid w.dbg.pid = some p) (hm : q.mem = p.mem) {d : Dbg}
    (hb : d.breakpoints = w.dbg.breakpoints) (hc : ((w.setProc q).setDbg d).Coherent) :
    ((w.setProc q).setDbg d).Guarded := by
  refine h.congr hc hb fun p' hp' => ⟨p, hp, ?_⟩
  obtain rfl : q = p' := Option.some.inj (taskForPid_eq_some.mp hp').1
  exact hm

/-- An entry replaced by one at the same address. -/
lemma Guarded.apart_setEntry {w : World σ} (h : w.Guarded) {i : ℕ} {bp bp' : Breakpoint}
    (hbp : w.dbg.breakpoints.entry i = some bp) (ha : bp'.addr = bp.addr) :
    ((w.dbg.setEntry i bp').breakpoints.toList.map Breakpoint.addr).Pairwise
      fun a b => Memory.Apart a 4 b 4 := by
  have hsites := Table.map_set_of_eq Breakpoint.addr hbp ha
  rw [Dbg.setEntry, hsites]
  exact h.apart

lemma Guarded.enableEntry {w : World σ} (h : w.Guarded) {i : ℕ} {bp : Breakpoint}
    (hbp : w.dbg.breakpoints.entry i = some bp) : (enableEntry i bp w).final.Guarded := by
  rcases enableEntry_cases hbp with ⟨_, he⟩ | ⟨p, hp, _, he⟩
  · rw [he]
    exact h
  rw [he]
  refine h.write hp rfl rfl (h.apart_setEntry hbp rfl) fun bp' hmem _ => ?_
  · rcases Table.mem_set hmem with rfl | ⟨j, hj, hbp'⟩
    · exact Or.inr ⟨rfl, rfl, rfl⟩
    · exact Or.inl ⟨Table.mem_of_entry hbp', apart_of_ne h.apart hj hbp' hbp⟩

lemma Guarded.disableEntry {w : World σ} (h : w.Guarded) {i : ℕ} {bp : Breakpoint}
    (hbp : w.dbg.breakpoints.entry i = some bp)
    (hok : ∀ e ∈ (disableEntry i bp w).trace, e.guarded host) :
    (disableEntry i bp w).final.Guarded := by
  rcases disableEntry_cases hbp with ⟨_, hd⟩ | ⟨_, p, hp, _, hd⟩ | ⟨_, _, hd⟩ | ⟨_, p, hp, _, hd⟩
  · rw [hd]
    exact h
  · rw [hd]
    refine h.write hp rfl rfl (h.apart_setEntry hbp rfl) fun bp' hmem he => ?_
    · rcases Table.mem_set hmem with rfl | ⟨j, hj, hbp'⟩
      · cases he
      · exact Or.inl ⟨Table.mem_of_entry hbp', apart_of_ne h.apart hj hbp' hbp⟩
  · rw [hd]
    exact h
  · rw [hd] at hok
    exact (Event.guarded.not_memFailed hp (hok _ List.mem_cons_self)).elim

lemma Guarded.addBreakpoint {w : World σ} (h : w.Guarded) (addr : Addr)
    (hok : ∀ e ∈ (addBreakpoint addr w).trace, e.guarded host) :
    (addBreakpoint addr w).final.Guarded := by
  rcases addBreakpoint_cases addr w with ha | ⟨_, ha⟩ | ⟨p, hp, _, hc, ha⟩
  · rw [ha]
    exact h
  · rw [ha]
    exact h
  rw [ha] at hok ⊢
  have hfresh : ∀ a ∈ w.sites, Memory.Apart a 4 addr 4 :=
    List.forall_mem_map.mpr (hok _ List.mem_cons_self rfl)
  have hlist := Dbg.toList_pushEntry hc (p.breakpointAt addr)
  refine h.write hp rfl rfl ?_ fun bp' hmem _ => ?_
  · rw [hlist, List.map_append, List.pairwise_append]
    exact ⟨h.apart, by simp, by simpa [World.sites, Proc.breakpointAt] using hfresh⟩
  · rw [hlist, List.mem_append, List.mem_singleton] at hmem
    rcases hmem with hmem | rfl
    · exact Or.inl ⟨hmem, hfresh _ (List.mem_map_of_mem hmem)⟩
    · exact Or.inr ⟨rfl, rfl, rfl⟩

lemma Guarded.writeScalarValue {w : World σ} (h : w.Guarded) (addr : Addr) (size : ℕ)
    (value : BitVec 64) (hok : ∀ e ∈ (writeScalarValue addr size value w).trace, e.guarded host) :
    (writeScalarValue addr size value w).final.Guarded := by
  rcases writeScalarValue_cases addr size value w with ⟨_, hs⟩ | ⟨p, hp, ⟨_, hs⟩ | ⟨_, hs⟩⟩
  · rw [hs]
    exact h
  · rw [hs] at hok ⊢
    have hap := hok _ List.mem_cons_self
    exact h.write hp rfl rfl h.apart fun bp hbp he => Or.inl ⟨hbp, hap bp hbp he⟩
  · rw [hs] at hok
    exact (Event.guarded.not_memFailed hp
      (hok _ (List.mem_cons_of_mem _ List.mem_cons_self))).elim

/-- After a wait the entries have their `BRK`s if the debuggee has left them alone. -/
lemma Guarded.waitForStop {w : World σ} (h : w.Guarded)
    (hok : ∀ e ∈ (waitForStop host w).trace, e.guarded host) :
    (waitForStop host w).final.Guarded := by
  have hc := Fine.coherent (.prim (.wait w) : Fine host w _ _) h.coherent
  rcases waitForStop_cases host w with ⟨_, hw⟩ | ⟨h', hw⟩ | ⟨p, r, o, h', hp, _, _, hw⟩
  · rw [hw]
    exact h
  · rw [hw] at hc ⊢
    exact h.congr hc rfl fun p' hp' => ⟨p', hp', rfl⟩
  · rw [hw] at hok hc ⊢
    cases o with
    | exited _ => exact Guarded.of_none hc rfl h.apart
    | signaled _ => exact Guarded.of_none hc rfl h.apart
    | stopped s =>
        have htraps := hok _ List.mem_cons_self
        refine ⟨hc, h.apart, fun p' hp' bp hbp he => ?_⟩
        obtain rfl : p.stopWith s = p' := Option.some.inj (taskForPid_eq_some.mp hp').1
        exact htraps bp hbp he

lemma Guarded.disableAll {w w' : World σ} (h : w.Guarded) (hc : w'.Coherent)
    (hd : w'.dbg.breakpoints = w.dbg.disableAll.breakpoints) : w'.Guarded := by
  refine ⟨hc, ?_, fun p _ bp hbp he => ?_⟩
  · rw [sites, hd, Dbg.disableAll, Table.toList_map, List.map_map]
    exact h.apart
  · rw [hd, Dbg.disableAll, Table.toList_map] at hbp
    obtain ⟨_, _, rfl⟩ := List.mem_map.mp hbp
    cases he

lemma Guarded.empty {w : World σ} (hc : w.Coherent) (hb : w.dbg.breakpoints = .empty) :
    w.Guarded := by
  refine ⟨hc, ?_, fun p _ bp hbp => ?_⟩
  · rw [sites, hb]
    exact List.Pairwise.nil
  · rw [hb] at hbp
    cases hbp

end World

/-- Edits keep the entries guarded. -/
lemma Edit.guarded {w w' : World σ} {t : List (Event σ)} (h : Edit w t w') (hw : w.Guarded)
    (hok : ∀ e ∈ t, e.guarded host) : w'.Guarded := by
  have hc := Fine.coherent (.prim (.edit h) : Fine host w t w') hw.coherent
  cases h with
  | still h => exact hw.quiet h.1
  | enable _ _ _ hbp => exact hw.enableEntry hbp
  | disable _ _ _ hbp => exact hw.disableEntry hbp hok
  | add _ addr => exact hw.addBreakpoint addr hok
  | erase _ i =>
      refine ⟨hc, ?_, fun p hp bp hbp he => hw.traps p hp bp ?_ he⟩
      · refine List.Pairwise.sublist ?_ hw.apart
        exact (List.eraseIdx_sublist _ _).map _
      · exact (List.eraseIdx_sublist _ _).mem hbp
  | freeze =>
      rcases threadsSuspendOthers_cases w.dbg.pid w.dbg.currentTid w with h | ⟨p, hp, h⟩
      · rw [h]
        exact hw
      · rw [h] at hc ⊢
        exact hw.setProc (q := p.frozen w.dbg.currentTid) (d := w.dbg) hp rfl rfl hc
  | select => exact hw.congr hc rfl fun p hp => ⟨p, hp, rfl⟩
  | store _ addr size value => exact hw.writeScalarValue addr size value hok

/-- Primitive steps keep the entries guarded. -/
lemma Prim.guarded {w w' : World σ} {t : List (Event σ)} (h : Prim host w t w')
    (hw : w.Guarded) (hok : ∀ e ∈ t, e.guarded host) : w'.Guarded := by
  have hc := Fine.coherent (.prim h : Fine host w t w') hw.coherent
  cases h with
  | edit h => exact h.guarded hw hok
  | singleStep =>
      rcases cdbgSingleStep_cases w with ⟨h, _⟩ | ⟨p, hp, _, h⟩
      · rw [h]
        exact hw
      · rw [h] at hc ⊢
        exact hw.setProc (q := { p with running := some .step }) (d := w.dbg.resumed) hp rfl rfl
          hc
  | wait => exact hw.waitForStop hok
  | launch _ program _ =>
      rcases launch_cases host program w with h | ⟨b, h', lineno, syms, _, h⟩
      · rw [h] at hc ⊢
        exact World.Guarded.empty hc rfl
      · rw [h] at hc ⊢
        exact World.Guarded.empty hc rfl
  | kill =>
      rcases stopDebuggee_cases host w with ⟨_, h⟩ | ⟨_, h⟩ | ⟨_, h⟩ | ⟨p, _, _, h⟩
      · rw [h] at hc ⊢
        exact hw.congr hc rfl fun p hp => ⟨p, hp, rfl⟩
      · rw [h] at hc ⊢
        exact hw.disableAll hc rfl
      · rw [h]
        exact hw
      · rw [h] at hc ⊢
        exact hw.disableAll hc rfl
  | exit =>
      rcases reportProcessExit_cases w with ⟨_, h⟩ | ⟨_, h⟩
      · rw [h]
        exact hw
      · rw [h] at hc ⊢
        exact hw.disableAll hc rfl

/-- Only resuming for good continues the debuggee. -/
lemma Prim.not_continue {w w' : World σ} {t : List (Event σ)} (h : Prim host w t w') :
    ∀ e ∈ t, e.kind.isContinue = false := fun e he => EventKind.plain.not_continue (h.plain e he)

/-- Stepping and waiting leave the addresses of the entries alone. -/
lemma Drive.sites {w w' : World σ} {t : List (Event σ)} (h : Drive host w t w') :
    w'.sites = w.sites := by
  cases h with
  | still h => rw [World.sites, h.1.breakpoints, World.sites]
  | enable _ i bp hbp =>
      rcases enableEntry_cases hbp with ⟨_, h⟩ | ⟨p, _, _, h⟩
      · rw [h]
      · rw [h]
        exact Table.map_set_of_eq Breakpoint.addr hbp rfl
  | singleStep =>
      rcases cdbgSingleStep_cases w with ⟨h, _⟩ | ⟨p, _, _, h⟩ <;> rw [h]
      rfl
  | wait =>
      rcases waitForStop_cases host w with ⟨_, h⟩ | ⟨h', h⟩ | ⟨p, r, o, h', _, _, _, h⟩
      · rw [h]
      · rw [h]
        rfl
      · rw [h]
        cases o <;> rfl

/-! ### Temporary breakpoints -/

/-- From a world in `P`, if every event of the run of `m` finds what it demands, then
`PT_CONTINUE` finds every entry set, and the value returned and the world left satisfy
`Q`. -/
abbrev Sets (host : Host σ) (P : World σ → Prop) (m : Debugger σ α)
    (Q : α → World σ → Prop) : Prop :=
  Spec (Event.guarded host) Event.allSet P m Q

lemma sets_prim {m : Debugger σ α} (h : Moves (Prim host) m) :
    Sets host World.Guarded m fun _ => World.Guarded :=
  h.spec fun _ _ _ hp hw hok => ⟨hp.guarded hw hok,
    fun e he => Event.allSet_of_not_continue (hp.not_continue e he)⟩

/-- Disarming and arming watchpoints keeps the entries guarded. -/
lemma Rig.guarded {w w' : World σ} {t : List (Event σ)} (h : Rig w t w') (hw : w.Guarded) :
    w'.Guarded ∧ ∀ e ∈ t, e.allSet := by
  refine ⟨hw.quiet h.quiet.1, ?_⟩
  rw [h.quiet.2]
  simp

lemma EventKind.not_continue_of_isHit {k : EventKind} (h : k.isHit = true) :
    k.isContinue = false := by
  cases k <;> simp_all [isHit, isContinue]

/-- The announcement of a hit is no continue. -/
lemma World.Guarded.sight {w : World σ} (hw : w.Guarded) {k : EventKind} (hk : k.isHit = true) :
    w.Guarded ∧ ∀ e ∈ [(⟨k, w⟩ : Event σ)], e.allSet :=
  ⟨hw, fun e he => Event.allSet_of_not_continue (by
    rw [List.mem_singleton.mp he]
    exact EventKind.not_continue_of_isHit hk)⟩

lemma sets_base {m : Debugger σ α} (h : Moves (Base host) m) :
    Sets host World.Guarded m fun _ => World.Guarded := by
  refine h.spec fun w t w' hb hw hok => ?_
  cases hb with
  | prim hp => exact ⟨hp.guarded hw hok,
      fun e he => Event.allSet_of_not_continue (hp.not_continue e he)⟩
  | rig hr => exact hr.guarded hw
  | sight _ hk => exact hw.sight hk

lemma sets_drive {m : Debugger σ α} (h : Moves (Drive host) m) (temp : Breakpoint) :
    Sets host (fun w => w.Guarded ∧ w.Guards temp) m fun _ w => w.Guarded ∧ w.Guards temp := by
  refine h.spec fun w t w' hd hw hok => ⟨⟨hd.prim.guarded hw.1 hok, ?_⟩,
    fun e he => Event.allSet_of_not_continue (hd.prim.not_continue e he)⟩
  rw [World.Guards, hd.sites]
  exact hw.2

lemma World.guards_zero (w : World σ) : w.Guards .zero := fun h => nomatch h

/-- A temporary breakpoint is planted apart from the entries, or over the `BRK` of one. -/
lemma sets_plant (pid : ℕ) (addr : Addr) :
    Sets host (fun w => w.Guarded ∧ pid = w.dbg.pid) (bpEnable .temp .zero pid addr)
      fun r w => w.Guarded ∧ w.Guards r.1 := by
  rintro w ⟨hw, rfl⟩ hok
  rcases bpEnable_cases .temp .zero w.dbg.pid addr w with ⟨_, h⟩ | ⟨p, hp, _, h⟩
  · rw [h]
    refine ⟨by simp [Event.allSet, EventKind.isContinue], fun r hr => ?_⟩
    obtain rfl := Option.some.inj hr
    exact ⟨hw, w.guards_zero⟩
  rw [h] at hok ⊢
  have hfresh : ∀ bp ∈ w.dbg.breakpoints.toList,
      Memory.Apart bp.addr 4 addr 4 ∨ bp.addr = addr ∧ bp.enabled = true :=
    hok _ List.mem_cons_self
  refine ⟨by simp [Event.allSet, EventKind.isContinue], fun r hr => ?_⟩
  obtain rfl := Option.some.inj hr
  refine ⟨hw.write (d := w.dbg) hp rfl rfl hw.apart fun bp hbp _ => ?_, fun _ a ha => ?_⟩
  · exact (hfresh bp hbp).imp (fun h => ⟨hbp, h⟩) fun h => ⟨h.1, rfl, rfl⟩
  · obtain ⟨bp, hbp, rfl⟩ := List.mem_map.mp ha
    refine (hfresh bp hbp).imp_right ?_
    rintro ⟨h1, h2⟩
    refine ⟨h1, ?_⟩
    have htrap := hw.traps p hp bp hbp h2
    rw [Proc.hasTrap, h1] at htrap
    simp [Proc.breakpointAt, htrap]

/-- Lifting a temporary breakpoint puts back what is not an entry's, or a `BRK`. -/
lemma sets_lift (temp : Breakpoint) (pid : ℕ) :
    Sets host (fun w => (w.Guarded ∧ w.Guards temp) ∧ pid = w.dbg.pid) (bpDisable temp pid)
      fun _ => World.Guarded := by
  rintro w ⟨⟨hw, hg⟩, rfl⟩ hok
  rcases bpDisable_cases temp w.dbg.pid w with ⟨_, h⟩ | ⟨he, p, hp, _, h⟩ | ⟨_, _, h⟩ |
    ⟨_, p, hp, _, h⟩
  · rw [h]
    exact ⟨by simp, fun _ _ => hw⟩
  · rw [h]
    refine ⟨by simp, fun _ _ => hw.write (d := w.dbg) hp rfl rfl hw.apart fun bp hbp _ => ?_⟩
    refine (hg he bp.addr (List.mem_map_of_mem hbp)).imp (fun h => ⟨hbp, h⟩) fun h => ?_
    exact ⟨h.1, rfl, by rw [h.2]⟩
  · rw [h]
    exact ⟨by simp [Event.allSet, EventKind.isContinue], fun _ _ => hw⟩
  · rw [h] at hok
    exact (Event.guarded.not_memFailed hp (hok _ List.mem_cons_self)).elim

lemma sets_dropTemp (temp : Breakpoint) :
    Sets host (fun w => w.Guarded ∧ w.Guards temp) (dropTemp temp) fun _ => World.Guarded :=
  Spec.get_bind fun _ hw => Spec.bind ((sets_lift temp _).from ⟨hw, rfl⟩) fun _ =>
    Spec.pure _ fun _ h => h

/-- Give up a temporary breakpoint and return. -/
lemma sets_dropTemp_return (temp : Breakpoint) (rc : ℤ) {P : World σ → Prop}
    (hP : ∀ w, P w → w.Guarded ∧ w.Guards temp) :
    Sets host P (dropTemp temp >>= fun _ => pure rc) fun _ => World.Guarded :=
  Spec.bind ((sets_dropTemp temp).pre hP) fun _ => Spec.pure _ fun _ h => h

/-! ### Re-arming the entries -/

/-- No disabled entry has this address. -/
def World.noneAt (pc : Addr) (w : World σ) : Prop :=
  disabledBreakpointAtPc pc w.dbg.breakpoints = false

lemma World.noneAt_iff {pc : Addr} {w : World σ} :
    w.noneAt pc ↔ ∀ bp ∈ w.dbg.breakpoints.toList, bp.enabled = false → bp.addr ≠ pc := by
  simp [noneAt, disabledBreakpointAtPc]

lemma World.noneAt_of_allEnabled {w : World σ} (h : w.allEnabled) (pc : Addr) : w.noneAt pc :=
  noneAt_iff.mpr fun bp hbp he => absurd (h bp hbp) (by simp [he])

/-- The disabled entries are among those with these indices. -/
def World.pending (is : List ℕ) (w : World σ) : Prop :=
  ∀ j bp, w.dbg.breakpoints.entry j = some bp → bp.enabled = false → j ∈ is

/-- Enabling one of the pending entries leaves the others pending. -/
lemma rearms_enableEntry {pc : Addr} {i : ℕ} {is : List ℕ} {bp : Breakpoint} :
    Spec (Event.guarded host) (fun _ => True)
      (fun w => (w.noneAt pc ∧ w.pending (i :: is)) ∧ w.dbg.breakpoints.entry i = some bp)
      (enableEntry i bp) fun rc w => rc = 0 → w.noneAt pc ∧ w.pending is := by
  rintro w ⟨⟨hpc, hpend⟩, hbp⟩ _
  refine ⟨fun _ _ => trivial, fun rc hrc => ?_⟩
  rcases enableEntry_cases hbp with ⟨_, h⟩ | ⟨p, _, _, h⟩
  · rw [h] at hrc
    intro h0
    have := Option.some.inj hrc
    omega
  rw [h]
  refine fun _ => ⟨World.noneAt_iff.mpr fun b hb he => ?_, fun j b hj he => ?_⟩
  · rcases Table.mem_set hb with rfl | ⟨j, _, hj⟩
    · cases he
    · exact World.noneAt_iff.mp hpc b (Table.mem_of_entry hj) he
  change (w.dbg.breakpoints.set i (p.breakpointAt bp.addr)).entry j = some b at hj
  by_cases hij : i = j
  · subst hij
    rw [Table.entry_set_self hbp] at hj
    obtain rfl := Option.some.inj hj
    cases he
  · rw [Table.entry_set_ne hij] at hj
    rcases List.mem_cons.mp (hpend j b hj he) with rfl | h
    · exact absurd rfl hij
    · exact h

/-- The loop of `reenable_breakpoints_after_step`, by induction on the indices left: if the
program counter is at none of the disabled entries, all of them are enabled. -/
lemma rearms_reenableLoop (pc : Addr) : ∀ is : List ℕ,
    Spec (Event.guarded host) (fun _ => True) (fun w => w.noneAt pc ∧ w.pending is)
      (reenableLoop pc is) fun rc w => rc = 0 → w.allEnabled
  | [] => by
      refine Spec.pure _ fun w hw _ bp hbp => ?_
      obtain ⟨j, hj⟩ := List.mem_iff_getElem?.mp hbp
      by_contra he
      exact absurd (hw.2 j bp hj (Bool.not_eq_true _ ▸ he)) List.not_mem_nil
  | i :: is => by
      have hrest := rearms_reenableLoop pc is
      refine Spec.get_bind fun w hw => ?_
      split
      · next hnone =>
        refine hrest.from ⟨hw.1, fun j bp hj he => ?_⟩
        rcases List.mem_cons.mp (hw.2 j bp hj he) with rfl | h
        · rw [hnone] at hj
          cases hj
        · exact h
      next bp hbp =>
      refine Spec.ite (fun hdis => ?_) fun hdis => ?_
      · refine Spec.bind_rc (rearms_enableEntry.from ⟨hw, hbp⟩)
          (fun rc hrc => Spec.pure _ fun _ _ h => ?_) (hrest.pre fun _ h => h rfl)
        omega
      -- an entry at the program counter is enabled, so this one needs nothing
      · refine hrest.from ⟨hw.1, fun j b hj he => ?_⟩
        rcases List.mem_cons.mp (hw.2 j b hj he) with rfl | h
        · obtain rfl : bp = b := Option.some.inj (hbp.symm.trans hj)
          exact absurd ⟨he, World.noneAt_iff.mp hw.1 bp (Table.mem_of_entry hj) he⟩ hdis
        · exact h

lemma rearms_reenableBreakpointsAfterStep :
    Spec (Event.guarded host) (fun _ => True)
      (fun w => w.dbg.state = .stopped ∧
        ∀ t ∈ w.resolvePort w.dbg.pid w.dbg.currentTid, w.noneAt t.regs.pc)
      reenableBreakpointsAfterStep fun rc w => rc = 0 → w.allEnabled := by
  refine Spec.get_bind fun w hw => Spec.ite (fun h0 => Spec.pure_from _ fun _ bp hbp => ?_)
    fun _ => ?_
  · rcases h0 with h0 | h0
    · rw [Table.count, List.length_eq_zero_iff] at h0
      rw [h0] at hbp
      cases hbp
    · exact absurd hw.1 h0
  have hregs : Spec (Event.guarded host) (fun _ => True) (· = w) refreshRegs
      fun rc w' => rc = 0 → w'.noneAt w'.dbg.regs.pc := by
    rintro w rfl _
    refine ⟨fun _ _ => trivial, fun rc hrc => ?_⟩
    rcases refreshRegs_cases w with ⟨_, h⟩ | ⟨t, ht, h⟩
    · rw [h] at hrc
      intro h0
      have := Option.some.inj hrc
      omega
    · rw [h]
      exact fun _ => hw.2 t ht
  refine Spec.bind_rc hregs (fun rc hrc => Spec.pure _ fun _ _ h => absurd h (by simp)) ?_
  refine Spec.get_bind fun w' hw' => (rearms_reenableLoop _ _).from ⟨hw' rfl, ?_⟩
  intro j bp hj _
  obtain ⟨hlt, _⟩ := List.getElem?_eq_some_iff.mp hj
  exact List.mem_range.mpr hlt

/-- If the debuggee stops, its selected thread is at no disabled entry. -/
def World.landsOff (host : Host σ) (w : World σ) : Prop :=
  ∀ p ∈ w.taskForPid w.dbg.pid, ∀ r ∈ p.running, ∀ s h,
    host.resume r p w.host = (some (.stopped s), h) →
      ∀ t ∈ (p.stopWith s).threads.resolve w.dbg.currentTid, w.noneAt t.regs.pc

lemma rearms_waitForStop :
    Spec (Event.guarded host) (fun _ => True) (World.landsOff host) (waitForStop host)
      fun rc w => rc = 0 → w.dbg.state ≠ .idle → w.dbg.state = .stopped ∧
        ∀ t ∈ w.resolvePort w.dbg.pid w.dbg.currentTid, w.noneAt t.regs.pc := by
  intro w hw _
  refine ⟨fun _ _ => trivial, fun rc hrc => ?_⟩
  rcases waitForStop_cases host w with ⟨_, h⟩ | ⟨h', h⟩ | ⟨p, r, o, h', hp, hr, ho, h⟩
  · rw [h] at hrc
    intro h0
    have := Option.some.inj hrc
    omega
  · rw [h] at hrc
    cases hrc
  rw [h]
  intro _ hi
  cases o with
  | exited _ => exact absurd rfl hi
  | signaled _ => exact absurd rfl hi
  | stopped s =>
      refine ⟨rfl, fun t ht => ?_⟩
      rcases ho with ⟨_, ho, _⟩ | ⟨_, ho⟩
      · cases ho
      have htask : (w.afterWait h' p (.stopped s)).taskForPid w.dbg.pid = some (p.stopWith s) :=
        World.taskForPid_eq_some.mpr ⟨rfl, (World.taskForPid_eq_some.mp hp).2⟩
      change t ∈ ((w.afterWait h' p (.stopped s)).taskForPid w.dbg.pid).bind _ at ht
      rw [htask] at ht
      exact hw p hp r hr s h' ho t ht

lemma rearms_cdbgWait :
    Spec (Event.guarded host) (fun _ => True) (World.landsOff host) (cdbgWait host)
      fun rc w => rc = 0 → w.allEnabled := by
  refine Spec.bind_rc rearms_waitForStop
    (fun rc hrc => Spec.pure _ fun _ _ h => absurd h (by simp)) ?_
  refine Spec.get_bind fun w hw => Spec.ite (fun _ => Spec.pure _ fun _ _ h => absurd h (by simp))
    fun hi => ?_
  exact Spec.bind_rc (rearms_reenableBreakpointsAfterStep.from (hw rfl hi))
    (fun rc hrc => Spec.pure _ fun _ _ h => absurd h (by simp)) (Spec.pure _ fun _ h => h)

lemma rearms_cdbgSingleStep :
    Spec (Event.guarded host) (fun _ => True)
      (fun w => w.allEnabled ∨ w.stepsOff host = true) cdbgSingleStep
      fun rc w => rc = 0 → w.landsOff host := by
  intro w hw _
  refine ⟨fun _ _ => trivial, fun rc hrc => ?_⟩
  rcases cdbgSingleStep_cases w with ⟨h, _⟩ | ⟨p, hp, _, h⟩
  · rw [h] at hrc
    intro h0
    have := Option.some.inj hrc
    omega
  rw [h]
  intro _ q hq r hr s h' ho t ht
  obtain rfl : { p with running := some .step } = q :=
    Option.some.inj (World.taskForPid_eq_some.mp hq).1
  obtain rfl : Resume.step = r := Option.some.inj hr
  rcases hw with hw | hw
  · exact World.noneAt_of_allEnabled hw _
  · simp only [World.stepsOff, hp] at hw
    rw [show host.resume .step _ w.host = _ from ho] at hw
    have ht' : (p.stopWith s).threads.resolve w.dbg.currentTid = some t := ht
    simp only [ht', Option.all_some, Bool.not_eq_true'] at hw
    exact hw

/-- **The step past a disabled breakpoint** leaves no entry disabled. -/
lemma rearms_stepOverDisabledBreakpoint :
    Spec (Event.guarded host) (fun _ => True) (fun _ => True) (stepOverDisabledBreakpoint host)
      fun rc w => rc = 0 → w.dbg.state = .stopped → w.allEnabled := by
  refine Spec.get_bind fun w _ => Spec.ite (fun h0 => Spec.pure_from _ fun _ hs bp hbp => ?_)
    fun _ => ?_
  · rcases h0 with h0 | h0
    · exact absurd hs h0
    · rw [Table.count, List.length_eq_zero_iff] at h0
      rw [h0] at hbp
      cases hbp
  refine Spec.bind_rc (Q := fun _ _ => True) (fun _ _ _ => ⟨fun _ _ => trivial, fun _ _ => trivial⟩)
    (fun rc hrc => Spec.pure _ fun _ _ h => absurd h (by simp)) ?_
  have hemit : Spec (Event.guarded host) (fun _ => True) (fun _ : World σ => True)
      (emit .steppingOver) fun _ w => w.rearms host :=
    Spec.emit (fun _ _ _ => trivial) fun _ _ h => h
  refine Spec.bind hemit fun _ => Spec.get_bind fun w' hw' => ?_
  refine Spec.ite (fun hpc => Spec.pure_from _ fun _ _ => ?_) fun _ => ?_
  · rcases hw' with h | ⟨h, _⟩
    · exact h
    · rw [hpc] at h
      cases h
  · exact Spec.bind_rc (rearms_cdbgSingleStep.from (hw'.imp_right And.right))
      (fun rc hrc => Spec.pure _ fun _ _ h => absurd h (by simp))
      ((rearms_cdbgWait.pre fun _ h => h rfl).post fun _ _ h h0 _ => h h0)

/-! ### Continuing -/

lemma sets_thawAndContinue (temp : Breakpoint) :
    Sets host (fun w => (w.Guarded ∧ w.Guards temp) ∧ (w.dbg.state = .stopped → w.allEnabled))
      thawAndContinue fun _ w => w.Guarded ∧ w.Guards temp := by
  rintro w ⟨⟨hw, hg⟩, hall⟩ _
  have hc := Fine.coherent (.resume w : Fine host w _ _) hw.coherent
  rcases thawAndContinue_cases w with ⟨_, h⟩ | ⟨p, hp, ⟨_, h⟩ | ⟨hr, h⟩⟩
  · rw [h]
    exact ⟨by simp, fun _ _ => ⟨hw, hg⟩⟩
  · rw [h] at hc ⊢
    refine ⟨by simp [Event.allSet, EventKind.isContinue], fun _ _ => ⟨?_, hg⟩⟩
    exact hw.setProc (q := p.thawed w.dbg.currentTid) (d := w.dbg) hp rfl rfl hc
  rw [h] at hc ⊢
  have hthawed : (w.setProc (p.thawed w.dbg.currentTid)).Guarded :=
    hw.setProc (q := p.thawed w.dbg.currentTid) (d := w.dbg) hp rfl rfl
      (hw.coherent.congr rfl rfl (World.child_setProc hp rfl rfl))
  -- a debuggee that can be resumed is at a stop
  have hstopped : w.dbg.state = .stopped := by
    have hchild := World.child_of_task hp
    rw [hr] at hchild
    cases hs : w.dbg.state with
    | stopped => rfl
    | idle => exact absurd hs (hw.coherent.not_idle hp)
    | running =>
        obtain ⟨q, r, hq, hqr, _⟩ := World.inState.task_running ⟨hs, hw.coherent⟩
        rw [Option.some.inj (hp.symm.trans hq), hqr] at hr
        cases hr
  refine ⟨fun e he => ?_, fun _ _ => ⟨?_, hg⟩⟩
  · rcases List.mem_cons.mp he with rfl | he
    · exact Event.allSet_of_not_continue rfl
    · obtain rfl := List.mem_singleton.mp he
      exact fun _ => ⟨hall hstopped, hthawed.traps⟩
  · exact hw.setProc (q := { p.thawed w.dbg.currentTid with running := some .cont })
      (d := w.dbg.resumed) hp rfl rfl hc

/-- `cdbg_continue` resumes the debuggee with every entry set. -/
lemma sets_cdbgContinue (temp : Breakpoint) :
    Sets host (fun w => w.Guarded ∧ w.Guards temp) (cdbgContinue host)
      fun _ w => w.Guarded ∧ w.Guards temp := by
  have hover : Sets host (fun w => w.Guarded ∧ w.Guards temp) (stepOverDisabledBreakpoint host)
      fun rc w => (w.Guarded ∧ w.Guards temp) ∧
        (rc = 0 → w.dbg.state = .stopped → w.allEnabled) := by
    intro w hw hok
    obtain ⟨hg, h1⟩ := sets_drive drive_stepOverDisabledBreakpoint temp w hw hok
    obtain ⟨_, h2⟩ := rearms_stepOverDisabledBreakpoint w trivial hok
    exact ⟨hg, fun rc hrc => ⟨h1 rc hrc, h2 rc hrc⟩⟩
  refine Spec.bind_rc hover (fun rc _ => Spec.pure _ fun _ h => h.1) <|
    Spec.get_bind fun w hw => Spec.ite (fun _ => Spec.pure_from _ hw.1) fun _ => ?_
  exact (sets_thawAndContinue temp).from ⟨hw.1, hw.2 rfl⟩

lemma sets_finishTempBreakpoint (temp : Breakpoint) :
    Sets host (fun w => w.Guarded ∧ w.Guards temp) (finishTempBreakpoint host temp)
      fun _ => World.Guarded := by
  refine Spec.bind_rc (sets_drive (drive_of_still still_refreshRegs) temp)
    (fun _ _ => sets_dropTemp_return temp _ fun _ h => h) ?_
  refine Spec.get_bind fun w hw => Spec.ite (fun _ => ?_) fun _ => ?_
  · exact Spec.bind ((sets_dropTemp temp).from hw) fun _ =>
      sets_base (core_reportStop (Base.core host))
  · exact Spec.bind ((sets_lift temp _).from ⟨hw, rfl⟩) fun r =>
      Spec.ite (fun _ => Spec.pure _ fun _ h => h) fun _ => Spec.pure _ fun _ h => h

lemma sets_stepOverCall (returnAddr : Addr) :
    Sets host World.Guarded (stepOverCall host returnAddr) fun _ => World.Guarded := by
  refine Spec.get_bind fun w hw => Spec.bind ((sets_plant _ _).from ⟨hw, rfl⟩) fun r => ?_
  refine Spec.ite (fun _ => Spec.pure _ fun _ h => h.1) fun _ => ?_
  refine Spec.bind_rc (sets_cdbgContinue r.1)
    (fun _ _ => sets_dropTemp_return r.1 _ fun _ h => h) ?_
  refine Spec.get_bind fun w hw => Spec.ite
    (fun _ => sets_dropTemp_return r.1 _ fun _ h => h ▸ hw) fun _ => ?_
  refine Spec.bind_rc ((sets_drive drive_cdbgWait r.1).from hw) (fun _ _ => ?_) ?_
  · exact Spec.bind (sets_dropTemp r.1) fun _ => Spec.get_bind fun _ hw => Spec.pure_from _ hw
  · exact Spec.get_bind fun w hw => Spec.ite
      (fun _ => sets_dropTemp_return r.1 _ fun _ h => h ▸ hw)
      fun _ => (sets_finishTempBreakpoint r.1).from hw

lemma sets_runToEntryStop :
    Sets host World.Guarded (runToEntryStop host) fun _ => World.Guarded := by
  refine Spec.get_bind fun w hw => Spec.ite (fun _ => Spec.pure_from _ hw) fun _ => ?_
  split
  · exact Spec.pure_from _ hw
  refine Spec.bind ((sets_plant _ _).from ⟨hw, rfl⟩) fun r => ?_
  refine Spec.ite (fun _ => Spec.pure _ fun _ h => h.1) fun _ => ?_
  refine Spec.bind_rc (sets_cdbgContinue r.1)
    (fun _ _ => sets_dropTemp_return r.1 _ fun _ h => h) ?_
  refine Spec.bind_rc (sets_drive drive_cdbgWait r.1)
    (fun _ _ => sets_dropTemp_return r.1 _ fun _ h => h) ?_
  refine Spec.get_bind fun w hw => Spec.ite
    (fun _ => sets_dropTemp_return r.1 _ fun _ h => h ▸ hw) fun _ => ?_
  refine Spec.bind_rc ((sets_drive (drive_of_still still_refreshRegs) r.1).from hw)
    (fun _ _ => sets_dropTemp_return r.1 _ fun _ h => h) ?_
  refine Spec.get_bind fun w hw => Spec.ite
    (fun _ => sets_dropTemp_return r.1 _ fun _ h => h ▸ hw) fun _ => ?_
  refine Spec.bind ((sets_dropTemp r.1).from hw) fun _ => Spec.ite (fun _ => ?_) fun _ => ?_
  · refine sets_prim (prim_of_still ?_)
    exact Moves.bind (still_setRegs fun r => r.setPc _) fun _ =>
      Moves.bind still_storeRegs fun _ => Moves.ite (Moves.pure _) <|
        Moves.bind still_printStopHeader fun _ =>
          Moves.bind (still_printStopLocation _) fun _ => Moves.pure _
  · refine sets_prim (prim_of_still ?_)
    exact Moves.bind still_printStopHeader fun _ =>
      Moves.bind (still_printStopLocation _) fun _ => Moves.pure _

/-! ### Sessions -/

/-- One step keeps the entries guarded if its events find what they demand, and continues
the debuggee with every entry set. -/
lemma Act.guarded {w w' : World σ} {t : List (Event σ)} (h : Act host w t w') (hw : w.Guarded)
    (hok : ∀ e ∈ t, e.guarded host) : w'.Guarded ∧ ∀ e ∈ t, e.allSet := by
  cases h with
  | prim h =>
      exact ⟨h.guarded hw hok, fun e he => Event.allSet_of_not_continue (h.not_continue e he)⟩
  | cont =>
      have hcont : Sets host World.Guarded (cdbgContinue host) fun _ => World.Guarded :=
        (sets_cdbgContinue .zero).weaken (fun w h => ⟨h, w.guards_zero⟩) fun _ _ h => h.1
      exact hcont.landing hw hok
  | overCall _ a => exact (sets_stepOverCall a).landing hw hok
  | entryStop => exact sets_runToEntryStop.landing hw hok
  | rig h => exact h.guarded hw
  | sight _ hk => exact hw.sight hk

/-- Reading a command changes nothing. -/
lemma Turn.guarded {w w' : World σ} {t : List (Event σ)} (h : Turn (Act host) w t w')
    (hw : w.Guarded) (hok : ∀ e ∈ t, e.guarded host) : w'.Guarded ∧ ∀ e ∈ t, e.allSet := by
  cases h with
  | op h => exact h.guarded hw hok
  | read => exact ⟨hw, by simp [Event.allSet, EventKind.isContinue]⟩

/-- **No breakpoint is lost on resume**: in a session whose events find what they demand,
every entry of the table is enabled and in memory at every `PT_CONTINUE`. -/
theorem continue_allSet (host : Host σ) (s : σ) (argv input : List Str)
    (h : ∀ e ∈ (cdbgMain host argv input (World.start s)).trace, e.guarded host) :
    ∀ e ∈ (cdbgMain host argv input (World.start s)).trace, e.allSet :=
  have hstart : (World.start s).Guarded := World.Guarded.empty rfl rfl
  ((grain_cdbgMain (Act.grain host) argv input).spec (fun _ _ _ ht => ht.guarded) _ hstart h).1

/-- A child with one thread that stops at its first instruction, twice at the breakpoint
at `0x1004`, then behind it, and exits. -/
def trapScript : Script :=
  let code : Memory := fun a => if a = 0x1006 then 0x20 else if a = 0x1007 then 0xD4 else 0
  ⟨[.of (.at 0x1000 fun _ => 0)], [.stopped (.at 0x1000 fun _ => 0), .stopped (.at 0x1004 code),
    .stopped (.at 0x1008 fun _ => 0), .exited 0]⟩

/-- A breakpoint that is hit is set again when the debuggee is continued. -/
theorem continue_allSet_script :
    List.Forall Event.allSet (cdbgMain (Script.host .stripped) ["a".toList]
      ["break 0x1004".toList, "continue".toList, "continue".toList]
      (World.start trapScript)).trace :=
  List.forall_iff_forall_mem.mpr (continue_allSet _ _ _ _ (by decide +kernel))

/-- After a hit and `set $pc`, `continue` issues `PT_CONTINUE` with the entry disabled. -/
theorem continue_drops_breakpoint :
    ¬ ∀ e ∈ (cdbgMain (Script.host .stripped) ["a".toList]
      ["break 0x1004".toList, "continue".toList, "set $pc = 0x2000".toList, "continue".toList]
      (World.start trapScript)).trace, e.allSet := by
  decide +kernel

end Cdbg
