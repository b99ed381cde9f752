import Cdbg.Lib.Overlay
import Cdbg.Laws.Resume
import Cdbg.Laws.Survival

/-!
The debugger and the code of the debuggee.

Breakpoints are written over the code. At every prompt the code in memory is that of the
program, overlaid with the `BRK` of exactly the enabled entries of the table, each of which
keeps what it covers (`prompt_shows`). So nothing is left behind by entries that have been
hit, deleted or set again, by temporary breakpoints, and by stepping.

Temporary breakpoints come and go between two prompts. While one is set, it is one more
site, or it covers the `BRK` of an entry and keeps just that (`World.Bears`).
-/

namespace Cdbg

open Prog

variable {σ α : Type} {host : Host σ}

/-- What a breakpoint covers, shows there and keeps. -/
def Breakpoint.site (bp : Breakpoint) : Site Addr (BitVec 8) where
  dom := Memory.span bp.addr 4
  text := Memory.write (fun _ => 0) bp.addr 4 trapInst.toNat
  saved := Memory.write (fun _ => 0) bp.addr 4 bp.savedInst.toNat

@[simp] lemma Breakpoint.site_text (bp : Breakpoint) :
    bp.site.text = Memory.write (fun _ => 0) bp.addr 4 trapInst.toNat := rfl

@[simp] lemma Breakpoint.site_saved (bp : Breakpoint) :
    bp.site.saved = Memory.write (fun _ => 0) bp.addr 4 bp.savedInst.toNat := rfl

/-- The sites of the enabled breakpoints. -/
def trapSites (bps : List Breakpoint) : Set (Site Addr (BitVec 8)) :=
  Breakpoint.site '' {bp | bp ∈ bps ∧ bp.enabled = true}

/-- Two breakpoints that are both enabled are apart. -/
def Breakpoint.ApartFrom (a b : Breakpoint) : Prop :=
  a.enabled = true → b.enabled = true → Memory.Apart a.addr 4 b.addr 4

/-- The code of the debuggee is that of the program, overlaid with the `BRK`s of the enabled
entries and with some further sites. The code and what is in it are given for each process
id. -/
structure World.ShowsCode (code : ℕ → Set Addr) (image : ℕ → Memory)
    (extra : Set (Site Addr (BitVec 8))) (w : World σ) : Prop where
  coherent : w.Coherent
  apart : w.dbg.breakpoints.toList.Pairwise Breakpoint.ApartFrom
  clear : ∀ bp ∈ w.dbg.breakpoints.toList, ∀ s ∈ extra, ∀ x ∈ Memory.span bp.addr 4, x ∉ s.dom
  overlaid : ∀ p ∈ w.taskForPid w.dbg.pid, Overlaid (code w.dbg.pid) (image w.dbg.pid)
    (extra ∪ trapSites w.dbg.breakpoints.toList) p.mem

/-- What an event demands of the world in which it happens. -/
def EventKind.leavesCode (host : Host σ) (code : ℕ → Set Addr) (image : ℕ → Memory)
    (w : World σ) : EventKind → Prop
  -- an entry is enabled apart from the enabled ones
  | .bpEnable (.entry _) addr => ∀ bp ∈ w.dbg.breakpoints.toList, bp.enabled = true →
      Memory.Apart bp.addr 4 addr 4
  -- a temporary breakpoint is set apart from the entries, or at an enabled one
  | .bpEnable .temp addr => ∀ bp ∈ w.dbg.breakpoints.toList,
      Memory.Apart bp.addr 4 addr 4 ∨ bp.addr = addr ∧ bp.enabled = true
  -- the debuggee does not change its code
  | .waited (.stopped s) => ∀ p ∈ w.taskForPid w.dbg.pid, ∀ x ∈ code w.dbg.pid,
      s.mem x = p.mem x
  -- `set` is not used on the code, and the code can be accessed
  | .store addr n => ∀ x ∈ code w.dbg.pid, x ∉ Memory.span addr n
  | .memFailed addr n => ∀ x ∈ code w.dbg.pid, x ∉ Memory.span addr n
  -- a child starts with the code of the program
  | .fork => ∀ r ∈ host.fork w.host, ∀ x ∈ code r.1.pid, r.1.start.mem x = image r.1.pid x
  | _ => True

namespace Event

/-- The demand of an event on its world. -/
def leavesCode (host : Host σ) (code : ℕ → Set Addr) (image : ℕ → Memory) (e : Event σ) : Prop :=
  e.kind.leavesCode host code image e.world

/-- When a command is read, the code is that of the program, overlaid with the `BRK`s of the
enabled entries. -/
def showsCode (code : ℕ → Set Addr) (image : ℕ → Memory) (e : Event σ) : Prop :=
  e.kind.commandRead.isSome → ∀ p ∈ e.world.taskForPid e.world.dbg.pid,
    Overlaid (code e.world.dbg.pid) (image e.world.dbg.pid)
      (trapSites e.world.dbg.breakpoints.toList) p.mem

end Event

/-! ### Sites -/

lemma Breakpoint.ApartFrom.symm {a b : Breakpoint} (h : a.ApartFrom b) : b.ApartFrom a :=
  fun hb ha => (h ha hb).symm

/-- The sites depend on the enabled breakpoints only. -/
lemma trapSites_congr {l l' : List Breakpoint}
    (h : ∀ bp, bp.enabled = true → (bp ∈ l ↔ bp ∈ l')) : trapSites l = trapSites l' := by
  have hset : {bp | bp ∈ l ∧ bp.enabled = true} = {bp | bp ∈ l' ∧ bp.enabled = true} :=
    Set.ext fun bp => and_congr_left (h bp)
  rw [trapSites, hset, trapSites]

/-- One more enabled breakpoint is one more site. -/
lemma trapSites_cons {bp : Breakpoint} (he : bp.enabled = true) (l : List Breakpoint) :
    trapSites (bp :: l) = insert bp.site (trapSites l) := by
  rw [trapSites, trapSites, ← Set.image_insert_eq]
  refine congrArg _ (Set.ext fun b => ?_)
  constructor
  · rintro ⟨hmem, hb⟩
    rcases List.mem_cons.mp hmem with rfl | hmem
    · exact Or.inl rfl
    · exact Or.inr ⟨hmem, hb⟩
  · rintro (rfl | ⟨hmem, hb⟩)
    · exact ⟨List.mem_cons_self, he⟩
    · exact ⟨List.mem_cons_of_mem _ hmem, hb⟩

lemma trapSites_nil : trapSites [] = ∅ := by simp [trapSites]

/-- What a breakpoint keeps is what is in memory when it is enabled. -/
lemma Proc.saved_breakpointAt {p : Proc} {addr x : Addr} (h : x ∈ Memory.span addr 4) :
    (p.breakpointAt addr).site.saved x = p.mem x := by
  have hread : (BitVec.ofNat 32 (p.mem.read addr 4)).toNat = p.mem.read addr 4 := by
    rw [BitVec.toNat_ofNat]
    exact Nat.mod_eq_of_lt (Memory.read_lt p.mem 4 addr)
  rw [Breakpoint.site_saved, Proc.breakpointAt, hread, Memory.write_read_of_mem h]


/-- An enabled breakpoint shows its `BRK`. -/
lemma Proc.planted_of_mem {p : Proc} {addr x : Addr} (h : x ∈ Memory.span addr 4) :
    (p.planted addr).mem x = (p.breakpointAt addr).site.text x := by
  rw [Breakpoint.site_text]
  exact (Memory.write_of_mem h).trans (Memory.write_of_mem h).symm

/-- A disabled breakpoint has put back what it kept. -/
lemma Proc.restored_of_mem {p : Proc} {bp : Breakpoint} {x : Addr}
    (h : x ∈ Memory.span bp.addr 4) : (p.restored bp).mem x = bp.site.saved x := by
  rw [Breakpoint.site_saved]
  exact (Memory.write_of_mem h).trans (Memory.write_of_mem h).symm

/-- A quiet change leaves the memory alone. -/
lemma Quiet.exists_task {w w' : World σ} (h : Quiet w w') {p' : Proc}
    (hp' : w'.taskForPid w'.dbg.pid = some p') :
    ∃ p ∈ w.taskForPid w.dbg.pid, p'.mem = p.mem := by
  obtain ⟨hproc', hpid'⟩ := World.taskForPid_eq_some.mp hp'
  have hproc := h.proc
  rw [hproc'] at hproc
  cases hw : w.proc with
  | none =>
      rw [hw] at hproc
      cases hproc
  | some p =>
      rw [hw] at hproc
      cases hproc with
      | some hpp =>
          refine ⟨p, World.taskForPid_eq_some.mpr ⟨hw, ?_⟩, hpp.mem⟩
          rw [← hpp.pid, hpid', h.pid]

namespace World

variable {code : ℕ → Set Addr} {image : ℕ → Memory} {extra : Set (Site Addr (BitVec 8))}
  {w w' : World σ}

/-! ### What changes the code -/

/-- Neither the entries nor the code have changed. -/
lemma ShowsCode.congr (h : w.ShowsCode code image extra) (hc : w'.Coherent)
    (hb : w'.dbg.breakpoints = w.dbg.breakpoints)
    (hp : ∀ p' ∈ w'.taskForPid w'.dbg.pid, w'.dbg.pid = w.dbg.pid ∧
      ∃ p ∈ w.taskForPid w.dbg.pid, ∀ x ∈ code w.dbg.pid, p'.mem x = p.mem x) :
    w'.ShowsCode code image extra := by
  refine ⟨hc, hb ▸ h.apart, hb ▸ h.clear, fun p' hp' => ?_⟩
  obtain ⟨hpid, p, hp, hm⟩ := hp p' hp'
  rw [hb, hpid]
  exact (h.overlaid p hp).congr hm

/-- Without a debuggee there is no code. -/
lemma ShowsCode.of_none (hc : w.Coherent) (hp : w.proc = none)
    (ha : w.dbg.breakpoints.toList.Pairwise Breakpoint.ApartFrom)
    (hclear : ∀ bp ∈ w.dbg.breakpoints.toList, ∀ s ∈ extra, ∀ x ∈ Memory.span bp.addr 4,
      x ∉ s.dom) : w.ShowsCode code image extra := by
  refine ⟨hc, ha, hclear, fun p hp' => ?_⟩
  have hsome := (taskForPid_eq_some.mp hp').1
  rw [hp] at hsome
  cases hsome

/-- **A breakpoint is enabled**, apart from the enabled ones. -/
lemma ShowsCode.plant (h : w.ShowsCode code image extra) {p : Proc}
    (hp : w.taskForPid w.dbg.pid = some p) {addr : Addr} {d : Dbg} {rest : List Breakpoint}
    (hpid : d.pid = w.dbg.pid) (hs : d.state = w.dbg.state)
    (hlist : d.breakpoints.toList.Perm (p.breakpointAt addr :: rest))
    (hrest : rest.Sublist w.dbg.breakpoints.toList)
    (hkept : ∀ bp ∈ w.dbg.breakpoints.toList, bp.enabled = true → bp ∈ rest)
    (hfresh : ∀ bp ∈ w.dbg.breakpoints.toList, bp.enabled = true → Memory.Apart bp.addr 4 addr 4)
    (hextra : ∀ s ∈ extra, ∀ x ∈ Memory.span addr 4, x ∉ s.dom) :
    ((w.setProc (p.planted addr)).setDbg d).ShowsCode code image extra := by
  have hsites : trapSites d.breakpoints.toList =
      insert (p.breakpointAt addr).site (trapSites w.dbg.breakpoints.toList) := by
    have hsame : trapSites rest = trapSites w.dbg.breakpoints.toList :=
      trapSites_congr fun bp he => ⟨fun hmem => hrest.mem hmem, fun hmem => hkept bp hmem he⟩
    rw [trapSites_congr fun bp _ => hlist.mem_iff, trapSites_cons rfl, hsame]
  refine ⟨h.coherent.congr hs hpid (child_setProc hp rfl rfl), ?_, ?_, fun p' hp' => ?_⟩
  · refine (hlist.pairwise_iff Breakpoint.ApartFrom.symm).mpr (List.pairwise_cons.mpr ⟨?_, ?_⟩)
    · exact fun bp hbp _ he => (hfresh bp (hrest.mem hbp) he).symm
    · exact h.apart.sublist hrest
  · intro bp hbp
    rcases List.mem_cons.mp (hlist.mem_iff.mp hbp) with rfl | hbp
    · exact hextra
    · exact h.clear bp (hrest.mem hbp)
  · obtain rfl : p.planted addr = p' := Option.some.inj (taskForPid_eq_some.mp hp').1
    rw [setDbg_dbg, hpid, hsites, Set.union_insert]
    refine (h.overlaid p hp).plant _ (fun s hsite x hx => ?_) (fun x hx _ => ?_)
      (fun x hx _ => Proc.planted_of_mem hx) fun x hx _ => Memory.write_of_notMem hx
    · rcases hsite with hsite | ⟨bp, ⟨hbp, he⟩, rfl⟩
      · exact hextra s hsite x hx
      · exact (hfresh bp hbp he).symm.notMem hx
    · exact Proc.saved_breakpointAt hx

/-- **An enabled entry is disabled.** -/
lemma ShowsCode.lift (h : w.ShowsCode code image extra) {p : Proc}
    (hp : w.taskForPid w.dbg.pid = some p) {bp : Breakpoint} {d : Dbg} {rest : List Breakpoint}
    (he : bp.enabled = true) (hpid : d.pid = w.dbg.pid) (hs : d.state = w.dbg.state)
    (hlist : w.dbg.breakpoints.toList.Perm (bp :: rest))
    (hrest : d.breakpoints.toList.Perm ({ bp with enabled := false } :: rest)) :
    ((w.setProc (p.restored bp)).setDbg d).ShowsCode code image extra := by
  have hold : trapSites w.dbg.breakpoints.toList = insert bp.site (trapSites rest) := by
    rw [trapSites_congr fun b _ => hlist.mem_iff, trapSites_cons he]
  have hnew : trapSites d.breakpoints.toList = trapSites rest := by
    refine trapSites_congr fun b hb => ⟨fun hmem => ?_, fun hmem => ?_⟩
    · rcases List.mem_cons.mp (hrest.mem_iff.mp hmem) with rfl | hmem
      · cases hb
      · exact hmem
    · exact hrest.mem_iff.mpr (List.mem_cons_of_mem _ hmem)
  obtain ⟨hfirst, hothers⟩ :=
    List.pairwise_cons.mp ((hlist.pairwise_iff Breakpoint.ApartFrom.symm).mp h.apart)
  have hbp : bp ∈ w.dbg.breakpoints.toList := hlist.mem_iff.mpr List.mem_cons_self
  refine ⟨h.coherent.congr hs hpid (child_setProc hp rfl rfl), ?_, ?_, fun p' hp' => ?_⟩
  · refine (hrest.pairwise_iff Breakpoint.ApartFrom.symm).mpr (List.pairwise_cons.mpr ⟨?_, hothers⟩)
    intro b _ hdis
    cases hdis
  · intro b hb
    rcases List.mem_cons.mp (hrest.mem_iff.mp hb) with rfl | hb
    · exact h.clear bp hbp
    · exact h.clear b (hlist.mem_iff.mpr (List.mem_cons_of_mem _ hb))
  · obtain rfl : p.restored bp = p' := Option.some.inj (taskForPid_eq_some.mp hp').1
    have hoverlaid := h.overlaid p hp
    rw [hold, Set.union_insert] at hoverlaid
    rw [setDbg_dbg, hpid, hnew]
    refine hoverlaid.lift (fun s hsite x hx => ?_) (fun x hx _ => Proc.restored_of_mem hx)
      fun x hx _ => Memory.write_of_notMem hx
    rcases hsite with hsite | ⟨b, ⟨hb, hbe⟩, rfl⟩
    · exact h.clear bp hbp s hsite x hx
    · exact (hfirst b hb he hbe).notMem hx

/-! ### Operations on the entries -/

/-- A write outside of the code. -/
lemma ShowsCode.write (h : w.ShowsCode code image extra) {p : Proc}
    (hp : w.taskForPid w.dbg.pid = some p) {a : Addr} {n k v : ℕ} (hk : k ≤ n)
    (hout : ∀ x ∈ code w.dbg.pid, x ∉ Memory.span a n) :
    (w.setProc { p with mem := p.mem.write a k v }).ShowsCode code image extra := by
  refine h.congr (h.coherent.congr rfl rfl (child_setProc hp rfl rfl)) rfl fun p' hp' =>
    ⟨rfl, p, hp, fun x hx => ?_⟩
  obtain rfl : { p with mem := p.mem.write a k v } = p' :=
    Option.some.inj (taskForPid_eq_some.mp hp').1
  refine Memory.write_of_notMem fun hmem => hout x hx ?_
  rw [Memory.mem_span] at hmem ⊢
  exact hmem.trans_le hk

lemma ShowsCode.enableEntry (h : w.ShowsCode code image extra) {i : ℕ} {bp : Breakpoint}
    (hbp : w.dbg.breakpoints.entry i = some bp)
    (hok : ∀ e ∈ (enableEntry i bp w).trace, e.leavesCode host code image) :
    (enableEntry i bp w).final.ShowsCode code image extra := by
  rcases enableEntry_cases hbp with ⟨_, he⟩ | ⟨p, hp, _, he⟩
  · rw [he]
    exact h
  rw [he] at hok ⊢
  have hmem := Table.mem_of_entry hbp
  have hfresh : ∀ b ∈ w.dbg.breakpoints.toList, b.enabled = true →
      Memory.Apart b.addr 4 bp.addr 4 := hok _ List.mem_cons_self
  -- an enabled entry is not apart from itself
  have hdisabled : bp.enabled = false := by
    by_contra hen
    have hself := (hfresh bp hmem (by simpa using hen)).1
    simp at hself
  refine h.plant hp rfl rfl (Table.perm_set hbp _) (List.eraseIdx_sublist _ _) (fun b hb he => ?_)
    hfresh (h.clear bp hmem)
  refine (List.mem_cons.mp ((Table.perm_of_entry hbp).mem_iff.mp hb)).resolve_left fun hb => ?_
  rw [hb, hdisabled] at he
  cases he

lemma ShowsCode.disableEntry (h : w.ShowsCode code image extra) {i : ℕ} {bp : Breakpoint}
    (hbp : w.dbg.breakpoints.entry i = some bp)
    (hok : ∀ e ∈ (disableEntry i bp w).trace, e.leavesCode host code image) :
    (disableEntry i bp w).final.ShowsCode code image extra := by
  rcases disableEntry_cases hbp with ⟨_, hd⟩ | ⟨he, p, hp, _, hd⟩ | ⟨_, _, hd⟩ | ⟨_, p, hp, _, hd⟩
  · rw [hd]
    exact h
  · rw [hd]
    exact h.lift hp he rfl rfl (Table.perm_of_entry hbp) (Table.perm_set hbp _)
  · rw [hd]
    exact h
  · rw [hd] at hok ⊢
    exact h.write hp (p.mappedPrefix_le _ _) (hok _ List.mem_cons_self)

lemma ShowsCode.addBreakpoint (h : w.ShowsCode code image ∅) (addr : Addr)
    (hok : ∀ e ∈ (addBreakpoint addr w).trace, e.leavesCode host code image) :
    (addBreakpoint addr w).final.ShowsCode code image ∅ := by
  rcases addBreakpoint_cases addr w with ha | ⟨_, ha⟩ | ⟨p, hp, _, hc, ha⟩
  · rw [ha]
    exact h
  · rw [ha]
    exact h
  rw [ha] at hok ⊢
  refine h.plant hp rfl rfl ?_ (List.Sublist.refl _) (fun _ hb _ => hb) (hok _ List.mem_cons_self)
    (by simp)
  rw [Dbg.toList_pushEntry hc]
  exact List.perm_append_singleton _ _

lemma ShowsCode.writeScalarValue (h : w.ShowsCode code image extra) (addr : Addr) (size : ℕ)
    (value : BitVec 64)
    (hok : ∀ e ∈ (writeScalarValue addr size value w).trace, e.leavesCode host code image) :
    (writeScalarValue addr size value w).final.ShowsCode code image extra := by
  rcases writeScalarValue_cases addr size value w with ⟨_, hs⟩ | ⟨p, hp, ⟨_, hs⟩ | ⟨_, hs⟩⟩
  · rw [hs]
    exact h
  · rw [hs] at hok ⊢
    exact h.write hp le_rfl (hok _ List.mem_cons_self)
  · rw [hs] at hok ⊢
    exact h.write hp (p.mappedPrefix_le _ _) (hok _ List.mem_cons_self)

/-- A disabled entry is taken out of the table. -/
lemma ShowsCode.erase (h : w.ShowsCode code image extra) {i : ℕ}
    (hi : ∀ bp, w.dbg.breakpoints.entry i = some bp → bp.enabled = true →
      w.taskForPid w.dbg.pid = none) :
    (w.setDbg { w.dbg with breakpoints := w.dbg.breakpoints.erase i }).ShowsCode code image
      extra := by
  have hsub : (w.dbg.breakpoints.erase i).toList.Sublist w.dbg.breakpoints.toList :=
    List.eraseIdx_sublist _ _
  refine ⟨h.coherent, h.apart.sublist hsub, fun bp hbp => h.clear bp (hsub.mem hbp),
    fun p hp => ?_⟩
  have hsites : trapSites (w.dbg.breakpoints.erase i).toList
      = trapSites w.dbg.breakpoints.toList := by
    refine trapSites_congr fun bp he => ⟨fun hmem => hsub.mem hmem, fun hmem => ?_⟩
    obtain ⟨j, hj⟩ := List.mem_iff_getElem?.mp hmem
    refine List.mem_eraseIdx_iff_getElem?.mpr ⟨j, ?_, hj⟩
    rintro rfl
    have hnone := hi bp hj he
    rw [show w.taskForPid w.dbg.pid = some p from hp] at hnone
    cases hnone
  rw [setDbg_dbg, hsites]
  exact h.overlaid p hp

/-! ### Resuming, waiting, starting and ending -/

lemma ShowsCode.quiet (h : w.ShowsCode code image extra) (hq : Quiet w w') :
    w'.ShowsCode code image extra := by
  refine h.congr (h.coherent.congr hq.state hq.pid hq.mild.child) hq.breakpoints fun p' hp' => ?_
  obtain ⟨p, hp, hm⟩ := hq.exists_task hp'
  exact ⟨hq.pid, p, hp, fun x _ => congrFun hm x⟩

/-- The threads or the way of running of the debuggee have changed. -/
lemma ShowsCode.setProc (h : w.ShowsCode code image extra) {p q : Proc}
    (hp : w.taskForPid w.dbg.pid = some p) (hm : q.mem = p.mem) {d : Dbg}
    (hpid : d.pid = w.dbg.pid) (hb : d.breakpoints = w.dbg.breakpoints)
    (hc : ((w.setProc q).setDbg d).Coherent) :
    ((w.setProc q).setDbg d).ShowsCode code image extra := by
  refine h.congr hc hb fun p' hp' => ⟨hpid, p, hp, fun x _ => ?_⟩
  obtain rfl : q = p' := Option.some.inj (taskForPid_eq_some.mp hp').1
  rw [hm]

lemma ShowsCode.waitForStop (h : w.ShowsCode code image extra)
    (hok : ∀ e ∈ (waitForStop host w).trace, e.leavesCode host code image) :
    (waitForStop host w).final.ShowsCode code image extra := by
  have hc := Fine.coherent (.prim (.wait w) : Fine host w _ _) h.coherent
  rcases waitForStop_cases host w with ⟨_, hw⟩ | ⟨h', hw⟩ | ⟨p, r, o, h', hp, _, _, hw⟩
  · rw [hw]
    exact h
  · rw [hw] at hc ⊢
    exact h.congr hc rfl fun p' hp' => ⟨rfl, p', hp', fun _ _ => rfl⟩
  · rw [hw] at hok hc ⊢
    cases o with
    | exited _ => exact .of_none hc rfl h.apart h.clear
    | signaled _ => exact .of_none hc rfl h.apart h.clear
    | stopped s =>
        have hsame := hok _ List.mem_cons_self p hp
        refine h.congr hc rfl fun p' hp' => ⟨rfl, p, hp, fun x hx => ?_⟩
        obtain rfl : p.stopWith s = p' := Option.some.inj (taskForPid_eq_some.mp hp').1
        exact hsame x hx

/-- The debuggee has ended, and the entries are disabled. -/
lemma ShowsCode.disableAll (h : w.ShowsCode code image ∅) (hc : w'.Coherent)
    (hi : w'.dbg.state = .idle) (hd : w'.dbg.breakpoints = w.dbg.disableAll.breakpoints) :
    w'.ShowsCode code image ∅ := by
  refine .of_none hc ?_ ?_ (by simp)
  · rw [Coherent, hi] at hc
    exact Option.map_eq_none_iff.mp hc
  · rw [hd, Dbg.disableAll, Table.toList_map, List.pairwise_map]
    refine List.Pairwise.imp ?_ h.apart
    intro a b _ ha
    cases ha

/-- A table without entries. -/
lemma ShowsCode.empty (hc : w.Coherent) (hb : w.dbg.breakpoints = .empty)
    (hp : ∀ p ∈ w.taskForPid w.dbg.pid, ∀ x ∈ code w.dbg.pid, p.mem x = image w.dbg.pid x) :
    w.ShowsCode code image ∅ := by
  have hnil : w.dbg.breakpoints.toList = [] := by rw [hb, Table.toList_empty]
  refine ⟨hc, hnil ▸ List.Pairwise.nil, by simp, fun p hp' => ?_⟩
  rw [hnil, trapSites_nil, Set.union_empty]
  exact .of_eqOn (hp p hp')

lemma ShowsCode.threadsSuspendOthers (h : w.ShowsCode code image ∅)
    (hc : (threadsSuspendOthers w.dbg.pid w.dbg.currentTid w).final.Coherent) :
    (threadsSuspendOthers w.dbg.pid w.dbg.currentTid w).final.ShowsCode code image ∅ := by
  rcases threadsSuspendOthers_cases w.dbg.pid w.dbg.currentTid w with hs | ⟨p, hp, hs⟩
  · rw [hs]
    exact h
  · rw [hs] at hc ⊢
    exact h.setProc (q := p.frozen w.dbg.currentTid) (d := w.dbg) hp rfl rfl rfl hc

/-- A child starts with the code of the program, and the table is emptied for it. -/
lemma ShowsCode.launch (hc : w.Coherent) (program : Str) (hi : w.dbg.state = .idle)
    (hok : ∀ e ∈ (launch host program w).trace, e.leavesCode host code image) :
    (launch host program w).final.ShowsCode code image ∅ := by
  have hc' := Fine.coherent (.prim (.launch w program hi) : Fine host w _ _) hc
  have hnone : w.proc = none := by
    rw [Coherent, hi] at hc
    exact Option.map_eq_none_iff.mp hc
  rcases launch_cases host program w with hl | ⟨b, host', lineno, syms, hfork, hl⟩
  · rw [hl] at hc' ⊢
    refine .empty hc' rfl fun p hp => ?_
    rw [taskForPid, setDbg_proc, hnone] at hp
    cases hp
  · rw [hl] at hc' hok ⊢
    have himage := hok _ List.mem_cons_self (b, host') hfork
    refine .empty hc' rfl fun p hp x hx => ?_
    obtain rfl : b.proc = p := Option.some.inj (taskForPid_eq_some.mp hp).1
    exact himage x hx

lemma ShowsCode.stopDebuggee (h : w.ShowsCode code image ∅) :
    (stopDebuggee host w).final.ShowsCode code image ∅ := by
  have hc := Fine.coherent (.prim (.kill w) : Fine host w _ _) h.coherent
  rcases stopDebuggee_cases host w with ⟨_, hs⟩ | ⟨_, hs⟩ | ⟨_, hs⟩ | ⟨p, _, _, hs⟩
  · rw [hs] at hc ⊢
    exact h.congr hc rfl fun p hp => ⟨rfl, p, hp, fun _ _ => rfl⟩
  · rw [hs] at hc ⊢
    exact h.disableAll hc rfl rfl
  · rw [hs]
    exact h
  · rw [hs] at hc ⊢
    exact h.disableAll hc rfl rfl

lemma ShowsCode.reportProcessExit (h : w.ShowsCode code image ∅)
    (hc : (reportProcessExit w).final.Coherent) :
    (reportProcessExit w).final.ShowsCode code image ∅ := by
  rcases reportProcessExit_cases w with ⟨_, hr⟩ | ⟨hi, hr⟩
  · rw [hr]
    exact h
  · rw [hr] at hc ⊢
    exact h.disableAll hc hi rfl

end World

section Steps

variable {code : ℕ → Set Addr} {image : ℕ → Memory} {extra : Set (Site Addr (BitVec 8))}
  {w w' : World σ} {t : List (Event σ)}

/-- Stepping and waiting keep the code. -/
lemma Drive.shows (h : Drive host w t w') (hw : w.ShowsCode code image extra)
    (hok : ∀ e ∈ t, e.leavesCode host code image) : w'.ShowsCode code image extra := by
  have hc := Fine.coherent (.prim h.prim : Fine host w t w') hw.coherent
  cases h with
  | still h => exact hw.quiet h.1
  | enable _ _ _ hbp => exact hw.enableEntry hbp hok
  | singleStep =>
      rcases cdbgSingleStep_cases w with ⟨h, _⟩ | ⟨p, hp, _, h⟩
      · rw [h]
        exact hw
      · rw [h] at hc ⊢
        exact hw.setProc (q := { p with running := some .step }) (d := w.dbg.resumed) hp rfl rfl
          rfl hc
  | wait => exact hw.waitForStop hok

/-- They do not change the process id, and what is enabled stays enabled. -/
lemma Drive.keeps (h : Drive host w t w') : w'.dbg.pid = w.dbg.pid ∧
    ∀ bp ∈ w.dbg.breakpoints.toList, bp.enabled = true →
      ∃ bp' ∈ w'.dbg.breakpoints.toList, bp'.addr = bp.addr ∧ bp'.enabled = true := by
  have hself (bp : Breakpoint) (hbp : bp ∈ w.dbg.breakpoints.toList) (he : bp.enabled = true) :
      ∃ bp' ∈ w.dbg.breakpoints.toList, bp'.addr = bp.addr ∧ bp'.enabled = true :=
    ⟨bp, hbp, rfl, he⟩
  cases h with
  | still h => exact ⟨h.1.pid, h.1.breakpoints ▸ hself⟩
  | enable _ i bp hbp =>
      rcases enableEntry_cases hbp with ⟨_, h⟩ | ⟨p, _, _, h⟩ <;> rw [h]
      · exact ⟨rfl, hself⟩
      refine ⟨rfl, fun b hb he => ?_⟩
      have hset := Table.perm_set hbp (p.breakpointAt bp.addr)
      rcases List.mem_cons.mp ((Table.perm_of_entry hbp).mem_iff.mp hb) with hb | hb
      · exact ⟨_, hset.mem_iff.mpr List.mem_cons_self, by rw [hb, Proc.breakpointAt], rfl⟩
      · exact ⟨b, hset.mem_iff.mpr (List.mem_cons_of_mem _ hb), rfl, he⟩
  | singleStep =>
      rcases cdbgSingleStep_cases w with ⟨h, _⟩ | ⟨p, _, _, h⟩ <;> rw [h] <;> exact ⟨rfl, hself⟩
  | wait =>
      rcases waitForStop_cases host w with ⟨_, h⟩ | ⟨h', h⟩ | ⟨p, r, o, h', _, _, _, h⟩ <;> rw [h]
      · exact ⟨rfl, hself⟩
      · exact ⟨rfl, hself⟩
      · cases o <;> exact ⟨rfl, hself⟩

/-! ### Temporary breakpoints -/

/-- A temporary breakpoint is one more site, or it covers the `BRK` of an entry, or it is
not set. -/
def World.Bears (code : ℕ → Set Addr) (image : ℕ → Memory) (temp : Breakpoint) (w : World σ) :
    Prop :=
  temp.enabled = true ∧ w.ShowsCode code image {temp.site} ∨
    w.ShowsCode code image ∅ ∧ (temp.enabled = true →
      (∃ bp ∈ w.dbg.breakpoints.toList, bp.addr = temp.addr ∧ bp.enabled = true) ∧
        ∀ x ∈ temp.site.dom, x ∈ code w.dbg.pid → temp.site.saved x = temp.site.text x)

/-- From a world in `P`, if every event of the run of `m` finds what it demands, then the
value returned and the world left satisfy `Q`. -/
abbrev Clears (host : Host σ) (code : ℕ → Set Addr) (image : ℕ → Memory) (P : World σ → Prop)
    (m : Debugger σ α) (Q : α → World σ → Prop) : Prop :=
  Spec (Event.leavesCode host code image) (fun _ => True) P m Q

lemma World.ShowsCode.bears_zero (h : w.ShowsCode code image ∅) : w.Bears code image .zero :=
  Or.inr ⟨h, fun he => nomatch he⟩

lemma World.Bears.coherent {temp : Breakpoint} (h : w.Bears code image temp) : w.Coherent := by
  rcases h with ⟨_, h⟩ | ⟨h, _⟩ <;> exact h.coherent

lemma Drive.bears (h : Drive host w t w') {temp : Breakpoint} (hw : w.Bears code image temp)
    (hok : ∀ e ∈ t, e.leavesCode host code image) : w'.Bears code image temp := by
  rcases hw with ⟨he, hw⟩ | ⟨hw, hat⟩
  · exact Or.inl ⟨he, h.shows hw hok⟩
  · obtain ⟨hpid, hkeep⟩ := h.keeps
    refine Or.inr ⟨h.shows hw hok, fun he => ?_⟩
    obtain ⟨⟨bp, hbp, haddr, hbe⟩, hsaved⟩ := hat he
    obtain ⟨bp', hbp', haddr', hbe'⟩ := hkeep bp hbp hbe
    exact ⟨⟨bp', hbp', haddr'.trans haddr, hbe'⟩, hpid ▸ hsaved⟩

lemma clears_drive {m : Debugger σ α} (h : Moves (Drive host) m) (temp : Breakpoint) :
    Clears host code image (World.Bears code image temp) m
      fun _ => World.Bears code image temp :=
  h.spec fun _ _ _ hd hw hok => ⟨hd.bears hw hok, fun _ _ => trivial⟩

/-- A temporary breakpoint is set. -/
lemma clears_plant (pid : ℕ) (addr : Addr) :
    Clears host code image (fun w => w.ShowsCode code image ∅ ∧ pid = w.dbg.pid)
      (bpEnable .temp .zero pid addr) fun r w =>
        w.Bears code image r.1 ∧ (r.2 ≠ 0 → w.ShowsCode code image ∅) := by
  rintro w ⟨hw, rfl⟩ hok
  refine ⟨fun _ _ => trivial, fun r hr => ?_⟩
  rcases bpEnable_cases .temp .zero w.dbg.pid addr w with ⟨_, h⟩ | ⟨p, hp, _, h⟩
  · rw [h] at hr ⊢
    obtain rfl := Option.some.inj hr
    exact ⟨hw.bears_zero, fun _ => hw⟩
  rw [h] at hok hr ⊢
  obtain rfl := Option.some.inj hr
  refine ⟨?_, fun h0 => absurd rfl h0⟩
  -- the event demands that the place is free, or that of an enabled entry
  have hfresh : ∀ bp ∈ w.dbg.breakpoints.toList,
      Memory.Apart bp.addr 4 addr 4 ∨ bp.addr = addr ∧ bp.enabled = true :=
    hok _ List.mem_cons_self
  have hc : (w.setProc (p.planted addr)).Coherent :=
    hw.coherent.congr rfl rfl (World.child_setProc hp rfl rfl)
  have hoverlaid := hw.overlaid p hp
  rw [Set.empty_union] at hoverlaid
  by_cases hat : ∃ bp ∈ w.dbg.breakpoints.toList, bp.addr = addr ∧ bp.enabled = true
  -- over the `BRK` of an entry nothing changes
  · obtain ⟨bp, hbp, rfl, he⟩ := hat
    have htrap {x : Addr} (hx : x ∈ Memory.span bp.addr 4) (hC : x ∈ code w.dbg.pid) :
        p.mem x = (p.breakpointAt bp.addr).site.text x :=
      hoverlaid.text bp.site ⟨bp, ⟨hbp, he⟩, rfl⟩ x hx hC
    refine Or.inr ⟨hw.congr hc rfl fun p' hp' => ⟨rfl, p, hp, fun x hC => ?_⟩,
      fun _ => ⟨⟨bp, hbp, rfl, he⟩, fun x hx hC => ?_⟩⟩
    · obtain rfl : p.planted bp.addr = p' :=
        Option.some.inj (World.taskForPid_eq_some.mp hp').1
      by_cases hx : x ∈ Memory.span bp.addr 4
      · rw [Proc.planted_of_mem hx, htrap hx hC]
      · exact Memory.write_of_notMem hx
    · exact (Proc.saved_breakpointAt hx).trans (htrap hx hC)
  -- elsewhere it is one more site
  · have hapart : ∀ bp ∈ w.dbg.breakpoints.toList, Memory.Apart bp.addr 4 addr 4 :=
      fun bp hbp => (hfresh bp hbp).resolve_right fun h => hat ⟨bp, hbp, h⟩
    refine Or.inl ⟨rfl, hc, hw.apart, fun bp hbp s hs x hx => ?_, fun p' hp' => ?_⟩
    · obtain rfl := Set.mem_singleton_iff.mp hs
      exact (hapart bp hbp).notMem hx
    · obtain rfl : p.planted addr = p' := Option.some.inj (World.taskForPid_eq_some.mp hp').1
      rw [Set.singleton_union]
      refine hoverlaid.plant _ (fun s hs x hx => ?_) (fun x hx _ => Proc.saved_breakpointAt hx)
        (fun x hx _ => Proc.planted_of_mem hx) fun x hx _ => Memory.write_of_notMem hx
      obtain ⟨bp, ⟨hbp, _⟩, rfl⟩ := hs
      exact (hapart bp hbp).symm.notMem hx

/-- A temporary breakpoint is lifted. -/
lemma clears_lift (temp : Breakpoint) (pid : ℕ) :
    Clears host code image (fun w => w.Bears code image temp ∧ pid = w.dbg.pid)
      (bpDisable temp pid) fun _ => World.ShowsCode code image ∅ := by
  rintro w ⟨hw, rfl⟩ hok
  refine ⟨fun _ _ => trivial, fun r _ => ?_⟩
  -- a site outside of the code is none
  have hdrop (hout : ∀ x ∈ code w.dbg.pid, x ∉ Memory.span temp.addr 4) :
      w.ShowsCode code image ∅ := by
    rcases hw with ⟨_, hw⟩ | ⟨hw, _⟩
    · refine ⟨hw.coherent, hw.apart, by simp, fun p hp => ?_⟩
      have hoverlaid := hw.overlaid p hp
      rw [Set.singleton_union] at hoverlaid
      rw [Set.empty_union]
      exact hoverlaid.drop fun x hx hC => hout x hC hx
    · exact hw
  rcases bpDisable_cases temp w.dbg.pid w with ⟨he, h⟩ | ⟨he, p, hp, _, h⟩ | ⟨_, _, h⟩ |
    ⟨_, p, hp, _, h⟩
  · rw [h]
    rcases hw with ⟨he', _⟩ | ⟨hw, _⟩
    · rw [he] at he'
      cases he'
    · exact hw
  · rw [h]
    have hc : (w.setProc (p.restored temp)).Coherent :=
      hw.coherent.congr rfl rfl (World.child_setProc hp rfl rfl)
    rcases hw with ⟨_, hw⟩ | ⟨hw, hat⟩
    · refine ⟨hc, hw.apart, by simp, fun p' hp' => ?_⟩
      obtain rfl : p.restored temp = p' := Option.some.inj (World.taskForPid_eq_some.mp hp').1
      have hoverlaid := hw.overlaid p hp
      rw [Set.singleton_union] at hoverlaid
      rw [Set.empty_union]
      refine hoverlaid.lift (fun s hs x hx hsx => ?_) (fun x hx _ => Proc.restored_of_mem hx)
        fun x hx _ => Memory.write_of_notMem hx
      obtain ⟨bp, ⟨hbp, _⟩, rfl⟩ := hs
      exact hw.clear bp hbp _ (Set.mem_singleton _) x hsx hx
    -- what is put back is the `BRK` of the entry
    · obtain ⟨⟨bp, hbp, haddr, hbe⟩, hsaved⟩ := hat he
      refine hw.congr hc rfl fun p' hp' => ⟨rfl, p, hp, fun x hC => ?_⟩
      obtain rfl : p.restored temp = p' := Option.some.inj (World.taskForPid_eq_some.mp hp').1
      by_cases hx : x ∈ Memory.span temp.addr 4
      · have hoverlaid := hw.overlaid p hp
        rw [Set.empty_union] at hoverlaid
        have hxbp : x ∈ bp.site.dom := by
          change x ∈ Memory.span bp.addr 4
          rwa [haddr]
        have htext := hoverlaid.text bp.site ⟨bp, ⟨hbp, hbe⟩, rfl⟩ x hxbp hC
        rw [Proc.restored_of_mem hx, hsaved x hx hC, htext, Breakpoint.site_text,
          Breakpoint.site_text, haddr]
      · exact Memory.write_of_notMem hx
  · rw [h] at hok ⊢
    exact hdrop (hok _ List.mem_cons_self)
  · rw [h] at hok ⊢
    have hout := hok _ List.mem_cons_self
    exact (hdrop hout).write hp (p.mappedPrefix_le _ _) hout

lemma clears_dropTemp (temp : Breakpoint) :
    Clears host code image (World.Bears code image temp) (dropTemp temp)
      fun _ => World.ShowsCode code image ∅ :=
  Spec.get_bind fun _ hw => Spec.bind ((clears_lift temp _).from ⟨hw, rfl⟩) fun _ =>
    Spec.pure _ fun _ h => h

/-- Give up a temporary breakpoint and return. -/
lemma clears_dropTemp_return (temp : Breakpoint) (rc : ℤ) {P : World σ → Prop}
    (hP : ∀ w, P w → w.Bears code image temp) :
    Clears host code image P (dropTemp temp >>= fun _ => pure rc)
      fun _ => World.ShowsCode code image ∅ :=
  Spec.bind ((clears_dropTemp temp).pre hP) fun _ => Spec.pure _ fun _ h => h

/-! ### Continuing -/

lemma World.Bears.setProc {temp : Breakpoint} (h : w.Bears code image temp) {p q : Proc}
    (hp : w.taskForPid w.dbg.pid = some p) (hm : q.mem = p.mem) {d : Dbg}
    (hpid : d.pid = w.dbg.pid) (hb : d.breakpoints = w.dbg.breakpoints)
    (hc : ((w.setProc q).setDbg d).Coherent) :
    ((w.setProc q).setDbg d).Bears code image temp := by
  rcases h with ⟨he, h⟩ | ⟨h, hat⟩
  · exact Or.inl ⟨he, h.setProc hp hm hpid hb hc⟩
  · refine Or.inr ⟨h.setProc hp hm hpid hb hc, fun he => ?_⟩
    rw [World.setDbg_dbg, hb, hpid]
    exact hat he

lemma clears_thawAndContinue (temp : Breakpoint) :
    Clears host code image (World.Bears code image temp) thawAndContinue
      fun _ => World.Bears code image temp := by
  intro w hw _
  refine ⟨fun _ _ => trivial, fun _ _ => ?_⟩
  have hc := Fine.coherent (.resume w : Fine host w _ _) hw.coherent
  rcases thawAndContinue_cases w with ⟨_, h⟩ | ⟨p, hp, ⟨_, h⟩ | ⟨_, h⟩⟩
  · rw [h]
    exact hw
  · rw [h] at hc ⊢
    exact hw.setProc (q := p.thawed w.dbg.currentTid) (d := w.dbg) hp rfl rfl rfl hc
  · rw [h] at hc ⊢
    exact hw.setProc (q := { p.thawed w.dbg.currentTid with running := some .cont })
      (d := w.dbg.resumed) hp rfl rfl rfl hc

lemma clears_cdbgContinue (temp : Breakpoint) :
    Clears host code image (World.Bears code image temp) (cdbgContinue host)
      fun _ => World.Bears code image temp :=
  Spec.bind_rc (clears_drive drive_stepOverDisabledBreakpoint temp)
    (fun _ _ => Spec.pure _ fun _ h => h) <| Spec.get_bind fun _ hw =>
      Spec.ite (fun _ => Spec.pure_from _ hw) fun _ => (clears_thawAndContinue temp).from hw

/-! ### Sessions -/

/-- The steps that keep the code. -/
abbrev CodeStep (host : Host σ) (code : ℕ → Set Addr) (image : ℕ → Memory) :
    Step (Event σ) (World σ) :=
  Keeping (Event.leavesCode host code image) (Event.showsCode code image)
    (World.ShowsCode code image ∅)

/-- An operation of the debugger that keeps the code. -/
lemma Fine.codeStep (hf : Fine host w t w')
    (h : w.ShowsCode code image ∅ → (∀ e ∈ t, e.leavesCode host code image) →
      w'.ShowsCode code image ∅) : CodeStep host code image w t w' := by
  refine fun hw hok => ⟨h hw hok, fun e he hread => ?_⟩
  rw [hf.commandRead e he] at hread
  cases hread

lemma moves_of_clears {m : Debugger σ α}
    (h : Clears host code image (World.ShowsCode code image ∅) m
      fun _ => World.ShowsCode code image ∅)
    (hm : Moves (Fine host) m) : Moves (CodeStep host code image) m := by
  refine Spec.moves fun w hw hok => ⟨fun e he hread => ?_, (h w hw hok).2⟩
  rw [commandRead_of_moves hm w e he] at hread
  cases hread

lemma clears_of_moves {m : Debugger σ α} (h : Moves (CodeStep host code image) m) :
    Clears host code image (World.ShowsCode code image ∅) m fun _ => World.ShowsCode code image ∅ :=
  h.spec fun _ _ _ hs hw hok => ⟨(hs hw hok).1, fun _ _ => trivial⟩

lemma clears_deleteBreakpointAt (i : ℕ) :
    Clears host code image (World.ShowsCode code image ∅) (deleteBreakpointAt (σ := σ) i)
      fun _ => World.ShowsCode code image ∅ := by
  refine Spec.get_bind fun w hw => ?_
  split
  · exact Spec.pure_from _ hw
  next bp hbp =>
  -- an entry is taken out when it is disabled, or when there is no debuggee
  have herase : Clears host code image (fun w => w.ShowsCode code image ∅ ∧
      ∀ bp, w.dbg.breakpoints.entry i = some bp → bp.enabled = true →
        w.taskForPid w.dbg.pid = none)
      (modifyDbg (fun d => { d with breakpoints := d.breakpoints.erase i }) >>= fun _ =>
        pure (0 : ℤ)) fun _ => World.ShowsCode code image ∅ :=
    Spec.bind (Spec.modify fun w hw => hw.1.erase hw.2) fun _ => Spec.pure _ fun _ h => h
  refine Spec.ite (fun _ => ?_) fun hlive => herase.from ⟨hw, fun _ _ _ => ?_⟩
  · refine Spec.bind_rc (Q := fun rc w => w.ShowsCode code image ∅ ∧ (rc = 0 →
      ∀ bp, w.dbg.breakpoints.entry i = some bp → bp.enabled = true →
        w.taskForPid w.dbg.pid = none)) ?_ (fun _ _ => Spec.pure _ fun _ h => h.1)
      (herase.pre fun _ h => ⟨h.1, h.2 rfl⟩)
    rintro w rfl hok
    refine ⟨fun _ _ => trivial, fun rc hrc => ⟨hw.disableEntry hbp hok, fun h0 b hb he => ?_⟩⟩
    rcases disableEntry_cases hbp with ⟨hdis, hd⟩ | ⟨_, p, hp, _, hd⟩ | ⟨_, hnone, hd⟩ |
      ⟨_, p, hp, _, hd⟩
    · rw [hd] at hb
      rw [Option.some.inj (hb.symm.trans hbp), hdis] at he
      cases he
    · rw [hd] at hb
      have hset := Table.entry_set_self (b := { bp with enabled := false }) hbp
      rw [← Option.some.inj (hset.symm.trans hb)] at he
      cases he
    · rw [hd]
      exact hnone
    · rw [hd, h0] at hrc
      cases hrc
  · cases hp : w.taskForPid w.dbg.pid with
    | none => rfl
    | some p =>
        have hpos := p.pid_pos
        rw [(World.taskForPid_eq_some.mp hp).2] at hpos
        exact absurd ⟨hpos, hw.coherent.not_idle hp⟩ hlive

/-- The operations keep the code. -/
lemma codeStep_kit : Kit host (CodeStep host code image) where
  still _ _ _ h := Fine.codeStep (.prim (.edit (.still h))) fun hw _ => hw.quiet h.1
  disable w i bp h := Fine.codeStep (.prim (.edit (.disable w i bp h)))
    fun hw hok => hw.disableEntry h hok
  add w addr := Fine.codeStep (.prim (.edit (.add w addr))) fun hw hok => hw.addBreakpoint addr hok
  delete i := moves_of_clears (clears_deleteBreakpointAt i) ((Fine.grain host).kit.delete i)
  freeze w := by
    have hf : Fine host w _ _ := .prim (.edit (.freeze w))
    exact hf.codeStep fun hw _ => hw.threadsSuspendOthers (hf.coherent hw.coherent)
  select w t h := Fine.codeStep (.prim (.edit (.select w t h)))
    fun hw _ => hw.congr hw.coherent rfl fun p hp => ⟨rfl, p, hp, fun _ _ => rfl⟩
  store w addr size value := Fine.codeStep (.prim (.edit (.store w addr size value)))
    fun hw hok => hw.writeScalarValue addr size value hok
  drive _ _ _ h := Fine.codeStep (.prim h.prim) fun hw hok => h.shows hw hok
  stepPast k hk := Moves.bind (moves_of_step fun w => Fine.codeStep (.sight w hk) fun hw _ => hw)
    fun _ => moves_stepPastAllWatchpoints
      (fun _ _ _ h => Fine.codeStep (.rig h) fun hw _ => hw.quiet h.quiet.1)
      (drive_cdbgSingleStep.mono fun _ _ _ h =>
        Fine.codeStep (.prim h.prim) fun hw hok => h.shows hw hok)
      (drive_cdbgWait.mono fun _ _ _ h =>
        Fine.codeStep (.prim h.prim) fun hw hok => h.shows hw hok)
  launch w program hi := Fine.codeStep (.prim (.launch w program hi))
    fun hw hok => .launch hw.coherent program hi hok
  kill w := Fine.codeStep (.prim (.kill w)) fun hw _ => hw.stopDebuggee
  exit w := by
    have hf : Fine host w _ _ := .prim (.exit w)
    exact hf.codeStep fun hw _ => hw.reportProcessExit (hf.coherent hw.coherent)

lemma World.Bears.of_zero (h : w.Bears code image .zero) : w.ShowsCode code image ∅ := by
  rcases h with ⟨he, _⟩ | ⟨h, _⟩
  · cases he
  · exact h

lemma clears_finishTempBreakpoint (temp : Breakpoint) :
    Clears host code image (World.Bears code image temp) (finishTempBreakpoint host temp)
      fun _ => World.ShowsCode code image ∅ := by
  refine Spec.bind_rc (clears_drive (drive_of_still still_refreshRegs) temp)
    (fun _ _ => clears_dropTemp_return temp _ fun _ h => h) ?_
  refine Spec.get_bind fun w hw => Spec.ite (fun _ => ?_) fun _ => ?_
  · exact Spec.bind ((clears_dropTemp temp).from hw) fun _ =>
      clears_of_moves (kit_reportStop codeStep_kit)
  · exact Spec.bind ((clears_lift temp _).from ⟨hw, rfl⟩) fun r =>
      Spec.ite (fun _ => Spec.pure _ fun _ h => h) fun _ => Spec.pure _ fun _ h => h

lemma clears_stepOverCall (returnAddr : Addr) :
    Clears host code image (World.ShowsCode code image ∅) (stepOverCall host returnAddr)
      fun _ => World.ShowsCode code image ∅ := by
  refine Spec.get_bind fun w hw => Spec.bind ((clears_plant _ _).from ⟨hw, rfl⟩) fun r => ?_
  refine Spec.ite (fun hrc => Spec.pure _ fun _ h => h.2 hrc) fun _ => ?_
  refine Spec.bind_rc ((clears_cdbgContinue r.1).pre fun _ h => h.1)
    (fun _ _ => clears_dropTemp_return r.1 _ fun _ h => h) ?_
  refine Spec.get_bind fun w hw => Spec.ite
    (fun _ => clears_dropTemp_return r.1 _ fun _ h => h ▸ hw) fun _ => ?_
  refine Spec.bind_rc ((clears_drive drive_cdbgWait r.1).from hw) (fun _ _ => ?_) ?_
  · exact Spec.bind (clears_dropTemp r.1) fun _ => Spec.get_bind fun _ hw => Spec.pure_from _ hw
  · exact Spec.get_bind fun w hw => Spec.ite
      (fun _ => clears_dropTemp_return r.1 _ fun _ h => h ▸ hw)
      fun _ => (clears_finishTempBreakpoint r.1).from hw

lemma clears_runToEntryStop :
    Clears host code image (World.ShowsCode code image ∅) (runToEntryStop host)
      fun _ => World.ShowsCode code image ∅ := by
  have hstill {m : Debugger σ ℤ} (h : Moves Still m) :
      Clears host code image (World.ShowsCode code image ∅) m
        fun _ => World.ShowsCode code image ∅ :=
    clears_of_moves (codeStep_kit.of_still h)
  refine Spec.get_bind fun w hw => Spec.ite (fun _ => Spec.pure_from _ hw) fun _ => ?_
  split
  · exact Spec.pure_from _ hw
  refine Spec.bind ((clears_plant _ _).from ⟨hw, rfl⟩) fun r => ?_
  refine Spec.ite (fun hrc => Spec.pure _ fun _ h => h.2 hrc) fun _ => ?_
  refine Spec.bind_rc ((clears_cdbgContinue r.1).pre fun _ h => h.1)
    (fun _ _ => clears_dropTemp_return r.1 _ fun _ h => h) ?_
  refine Spec.bind_rc (clears_drive drive_cdbgWait r.1)
    (fun _ _ => clears_dropTemp_return r.1 _ fun _ h => h) ?_
  refine Spec.get_bind fun w hw => Spec.ite
    (fun _ => clears_dropTemp_return r.1 _ fun _ h => h ▸ hw) fun _ => ?_
  refine Spec.bind_rc ((clears_drive (drive_of_still still_refreshRegs) r.1).from hw)
    (fun _ _ => clears_dropTemp_return r.1 _ fun _ h => h) ?_
  refine Spec.get_bind fun w hw => Spec.ite
    (fun _ => clears_dropTemp_return r.1 _ fun _ h => h ▸ hw) fun _ => ?_
  refine Spec.bind ((clears_dropTemp r.1).from hw) fun _ => Spec.ite (fun _ => ?_) fun _ => ?_
  · exact hstill <| Moves.bind (still_setRegs fun r => r.setPc _) fun _ =>
      Moves.bind still_storeRegs fun _ => Moves.ite (Moves.pure _) <|
        Moves.bind still_printStopHeader fun _ =>
          Moves.bind (still_printStopLocation _) fun _ => Moves.pure _
  · exact hstill <| Moves.bind still_printStopHeader fun _ =>
      Moves.bind (still_printStopLocation _) fun _ => Moves.pure _

lemma codeStep_full : FullKit host (CodeStep host code image) where
  toKit := codeStep_kit
  cont := moves_of_clears ((clears_cdbgContinue .zero).weaken (fun _ h => h.bears_zero)
    fun _ _ h => h.of_zero) (Fine.grain host).cont
  overCall a := moves_of_clears (clears_stepOverCall a) ((Fine.grain host).overCall a)
  entryStop := moves_of_clears clears_runToEntryStop (Fine.grain host).entryStop

/-- Reading a command changes nothing. -/
lemma Turn.codeStep (h : Turn (CodeStep host code image) w t w') :
    CodeStep host code image w t w' := by
  cases h with
  | op h => exact h
  | read c =>
      refine fun hw _ => ⟨hw, fun e he _ p hp => ?_⟩
      obtain rfl := List.mem_singleton.mp he
      have hoverlaid := hw.overlaid p hp
      rwa [Set.empty_union] at hoverlaid

end Steps

/-- **Breakpoints leave the code alone**: in a session whose events find what they demand,
whenever a command is read the code of the debuggee is that of the program, overlaid with
the `BRK`s of the enabled entries. -/
theorem prompt_shows (host : Host σ) (code : ℕ → Set Addr) (image : ℕ → Memory) (s : σ)
    (argv input : List Str)
    (h : ∀ e ∈ (cdbgMain host argv input (World.start s)).trace, e.leavesCode host code image) :
    ∀ e ∈ (cdbgMain host argv input (World.start s)).trace, e.showsCode code image :=
  have hstart : (World.start s).ShowsCode code image ∅ := .empty rfl rfl fun _ hp => nomatch hp
  ((full_cdbgMain codeStep_full argv input).spec (fun _ _ _ ht => ht.codeStep) _ hstart h).1

instance instDecidableLeavesSpan (host : Host σ) (a : Addr) (n : ℕ) (image : ℕ → Memory)
    (w : World σ) :
    (k : EventKind) → Decidable (k.leavesCode host (fun _ => Memory.span a n) image w)
  | .bpEnable (.entry _) addr => inferInstanceAs (Decidable (∀ bp ∈ w.dbg.breakpoints.toList,
      bp.enabled = true → Memory.Apart bp.addr 4 addr 4))
  | .bpEnable .temp addr => inferInstanceAs (Decidable (∀ bp ∈ w.dbg.breakpoints.toList,
      Memory.Apart bp.addr 4 addr 4 ∨ bp.addr = addr ∧ bp.enabled = true))
  | .waited (.stopped s) => inferInstanceAs (Decidable (∀ p ∈ w.taskForPid w.dbg.pid,
      ∀ x ∈ Memory.span a n, s.mem x = p.mem x))
  | .store addr m | .memFailed addr m =>
      inferInstanceAs (Decidable (∀ x ∈ Memory.span a n, x ∉ Memory.span addr m))
  | .fork => inferInstanceAs (Decidable (∀ r ∈ host.fork w.host, ∀ x ∈ Memory.span a n,
      r.1.start.mem x = image r.1.pid x))
  | .waited (.exited _) | .waited (.signaled _) | .command _ | .refreshRegs | .suspendOthers _
  | .resumeOthers _ | .ptStep | .ptContinue | .steppingOver | .stopHeader | .breakpointHit _
  | .watchpointHit _ _ | .watchpointNear _ | .stoppedAt _ | .location _ | .reported
  | .processExit _ _ | .stepLimit => .isTrue trivial

instance instDecidableLeavesCodeSpan (host : Host σ) (a : Addr) (n : ℕ) (image : ℕ → Memory)
    (e : Event σ) : Decidable (e.leavesCode host (fun _ => Memory.span a n) image) :=
  instDecidableLeavesSpan host a n image e.world e.kind

/-- A breakpoint that is hit, passed and deleted: the code is what it was. -/
theorem prompt_shows_script :
    List.Forall (Event.showsCode (fun _ => Memory.span 0x1000 12) fun _ _ => 0)
      (cdbgMain (Script.host .stripped) ["a".toList]
        ["break 0x1004".toList, "continue".toList, "si".toList, "del 0".toList, "regs".toList]
        (World.start trapScript)).trace :=
  List.forall_iff_forall_mem.mpr (prompt_shows _ _ _ _ _ _ (by decide +kernel))

end Cdbg
