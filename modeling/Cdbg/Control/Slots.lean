import Cdbg.Control.Arming

/-!
Watchpoints and the debug registers that stand for them.

An enabled watchpoint is programmed on a thread if the registers of its slot hold what
`cdbg_watch_arm` writes for it. The slots of the table entries are distinct
(`WellSlotted`), so arming one watchpoint leaves the others alone, and the enable bits
that are set are those of the entries (`OnlyFor`). What an operation does is followed on
the ids and debug registers of the threads, in their order (`Proc.debugs`, `Rigged`).
-/

namespace Cdbg

variable {σ : Type}

/-! ### One thread -/

namespace DebugState

/-- The enable bit of a control register. -/
def on (s : DebugState) (i : Fin 16) : Bool := (s.wcr i).getLsbD 0

lemma on_zero (i : Fin 16) : DebugState.zero.on i = false := by
  simp [on, zero]

/-- Numbers below `32` have no bits from the fifth on. -/
lemma getLsbD_ofNat_of_lt {n : ℕ} (hn : n < 32) (b : ℕ) :
    (n : BitVec 64).getLsbD (5 + b) = false := by
  have h : n < 2 ^ (5 + b) := by
    calc n < 2 ^ 5 := hn
      _ ≤ 2 ^ (5 + b) := Nat.pow_le_pow_right (by norm_num) (by omega)
  change (BitVec.ofNat 64 n).getLsbD (5 + b) = false
  rw [BitVec.getLsbD_ofNat, Nat.testBit_lt_two_pow h, Bool.and_false]

/-- The control register selects the bytes of the watchpoint within its doubleword. -/
lemma watchControl_byte (addr : Addr) (size : ℕ) (kind : WatchKind) {b : ℕ} (hb : b < 8) :
    (watchControl addr size kind).getLsbD (5 + b) = true ↔
      (addr &&& 7).toNat ≤ b ∧ b < (addr &&& 7).toNat + size := by
  have hr : (if kind.reads then 1 <<< 3 else 0 : ℕ) < 32 := by cases kind <;> decide
  have hw : (if kind.writes then 2 <<< 3 else 0 : ℕ) < 32 := by cases kind <;> decide
  rw [watchControl, BitVec.getLsbD_or, BitVec.getLsbD_or, BitVec.getLsbD_or, BitVec.getLsbD_or,
    getLsbD_ofNat_of_lt (by decide), getLsbD_ofNat_of_lt (by decide), getLsbD_ofNat_of_lt hr,
    getLsbD_ofNat_of_lt hw, BitVec.getLsbD_shiftLeft, BitVec.getLsbD_shiftLeft,
    BitVec.getLsbD_ofNat, Nat.testBit_two_pow_sub_one, Nat.add_sub_cancel_left]
  simp only [Bool.and_eq_true, Bool.or_eq_true, Bool.not_eq_true', decide_eq_true_eq,
    decide_eq_false_iff_not, Bool.false_eq_true, false_or, or_false]
  omega

/-- The control register traps loads and stores as the kind of the watchpoint says. -/
lemma watchControl_kind (addr : Addr) (size : ℕ) (kind : WatchKind) :
    (watchControl addr size kind).getLsbD 3 = kind.reads ∧
      (watchControl addr size kind).getLsbD 4 = kind.writes := by
  cases kind <;> simp [watchControl, WatchKind.reads, WatchKind.writes]

lemma watchControl_on (addr : Addr) (size : ℕ) (kind : WatchKind) :
    (watchControl addr size kind).getLsbD 0 = true := by
  cases kind <;> simp [watchControl, WatchKind.reads, WatchKind.writes]

lemma on_arm (s : DebugState) (wp : Watchpoint) (i : Fin 16) :
    (s.arm wp).on i = true ↔ i.val = wp.slot ∨ s.on i = true := by
  by_cases h : i.val = wp.slot
  · simp [on, arm, setSlot, h, watchControl_on]
  · simp [on, arm, setSlot, h]

lemma on_disarm (s : DebugState) {slot : ℕ} (hs : slot < maxWatchpoints) (i : Fin 16) :
    (s.disarm slot).on i = true ↔ i.val ≠ slot ∧ s.on i = true := by
  rw [disarm, if_neg (not_le.mpr hs)]
  by_cases h : i.val = slot
  · simp [on, clearSlot, h]
  · simp [on, clearSlot, h]

end DebugState

namespace Arming

/-- The registers of the slot hold what `cdbg_watch_arm` writes for the watchpoint. -/
def programmed (a : Arming) (s : DebugState) : Prop :=
  ∀ i : Fin 16, i.val = a.slot →
    s.wvr i = a.addr &&& ~~~ 7 ∧ s.wcr i = watchControl a.addr a.size a.kind

instance (a : Arming) (s : DebugState) : Decidable (a.programmed s) :=
  inferInstanceAs (Decidable (∀ _ : Fin 16, _))

/-- The tests `cdbg_watch_arm` makes of its arguments. -/
def fits (a : Arming) : Prop :=
  a.slot < maxWatchpoints ∧ 0 < a.size ∧ a.size ≤ 8 ∧ (a.addr &&& 7).toNat + a.size ≤ 8

variable {a : Arming} {s : DebugState}

lemma programmed.on (h : a.programmed s) {i : Fin 16} (hi : i.val = a.slot) : s.on i = true := by
  rw [DebugState.on, (h i hi).2, DebugState.watchControl_on]

lemma programmed_arm (s : DebugState) {wp : Watchpoint} (h : a.addr = wp.addr)
    (hz : a.size = wp.size) (hk : a.kind = wp.kind) (hs : a.slot = wp.slot) :
    a.programmed (s.arm wp) := by
  intro i hi
  rw [hs] at hi
  simp [DebugState.arm, DebugState.setSlot, hi, h, hz, hk]

/-- Arming a watchpoint leaves the other slots alone. -/
lemma programmed.arm (h : a.programmed s) {wp : Watchpoint} (hne : a.slot ≠ wp.slot) :
    a.programmed (s.arm wp) := by
  intro i hi
  have hi' : i.val ≠ wp.slot := hi ▸ hne
  simpa [DebugState.arm, DebugState.setSlot, hi'] using h i hi

/-- Disarming a watchpoint leaves the other slots alone. -/
lemma programmed.disarm (h : a.programmed s) {slot : ℕ} (hne : a.slot ≠ slot) :
    a.programmed (s.disarm slot) := by
  intro i hi
  have hi' : i.val ≠ slot := hi ▸ hne
  rw [DebugState.disarm]
  split
  · exact h i hi
  · simpa [DebugState.clearSlot, hi'] using h i hi

/-- What the architecture asks of the registers of a slot for them to watch `size` bytes at
`addr` for accesses of the kind. -/
structure EncodedBy (a : Arming) (wvr wcr : BitVec 64) : Prop where
  base : wvr = a.addr &&& ~~~ 7
  on : wcr.getLsbD 0 = true
  loads : wcr.getLsbD 3 = a.kind.reads
  stores : wcr.getLsbD 4 = a.kind.writes
  bytes : ∀ b < 8, wcr.getLsbD (5 + b) = true ↔
    (a.addr &&& 7).toNat ≤ b ∧ b < (a.addr &&& 7).toNat + a.size

/-- What `cdbg_watch_arm` writes is what the architecture asks for. -/
lemma programmed.encodedBy (h : a.programmed s) {i : Fin 16} (hi : i.val = a.slot) :
    a.EncodedBy (s.wvr i) (s.wcr i) := by
  obtain ⟨hv, hc⟩ := h i hi
  rw [hv, hc]
  obtain ⟨hr, hw⟩ := DebugState.watchControl_kind a.addr a.size a.kind
  exact ⟨rfl, DebugState.watchControl_on _ _ _, hr, hw,
    fun b hb => DebugState.watchControl_byte a.addr a.size a.kind hb⟩

end Arming

lemma Watchpoint.fits_iff (wp : Watchpoint) : wp.fits = true ↔ wp.arming.fits := by
  simp only [Watchpoint.fits, Watchpoint.arming, Arming.fits, Bool.and_eq_true, decide_eq_true_eq]
  omega

/-! ### The entries of a table -/

/-- The entries fit and have slots of their own. -/
structure WellSlotted (as : List Arming) : Prop where
  fits : ∀ a ∈ as, a.fits
  nodup : (as.map Arming.slot).Nodup

namespace WellSlotted

variable {as : List Arming}

lemma nil : WellSlotted [] := ⟨by simp, by simp⟩

/-- A new entry in a free slot. -/
lemma concat (h : WellSlotted as) {a : Arming} (hf : a.fits)
    (hs : ∀ b ∈ as, b.slot ≠ a.slot) : WellSlotted (as ++ [a]) := by
  refine ⟨fun b hb => ?_, ?_⟩
  · rcases List.mem_append.mp hb with hb | hb
    · exact h.fits b hb
    · obtain rfl := List.mem_singleton.mp hb
      exact hf
  · rw [List.map_append, List.nodup_append]
    refine ⟨h.nodup, by simp, fun x hx y hy => ?_⟩
    obtain ⟨b, hb, rfl⟩ := List.mem_map.mp hx
    obtain rfl := List.mem_singleton.mp hy
    exact hs b hb

lemma eraseIdx (h : WellSlotted as) (i : ℕ) : WellSlotted (as.eraseIdx i) := by
  have hsub : (as.eraseIdx i).Sublist as := List.eraseIdx_sublist as i
  exact ⟨fun a ha => h.fits a (hsub.mem ha), h.nodup.sublist (hsub.map _)⟩

/-- Disabling the entries leaves their slots alone. -/
lemma disabled (h : WellSlotted as) :
    WellSlotted (as.map fun a => { a with enabled := false }) := by
  refine ⟨fun a ha => ?_, ?_⟩
  · obtain ⟨b, hb, rfl⟩ := List.mem_map.mp ha
    exact h.fits b hb
  · rw [List.map_map]
    exact h.nodup

/-- Entries of one slot are one entry. -/
lemma slot_ne (h : WellSlotted as) {i : ℕ} {a b : Arming} (ha : as[i]? = some a)
    (hb : b ∈ as.eraseIdx i) : b.slot ≠ a.slot := by
  obtain ⟨j, hj, hjb⟩ := List.mem_eraseIdx_iff_getElem?.mp hb
  intro he
  have hi : (as.map Arming.slot)[i]? = some a.slot := by rw [List.getElem?_map, ha]; rfl
  have hj' : (as.map Arming.slot)[j]? = some a.slot := by
    rw [List.getElem?_map, hjb, Option.map_some, he]
  have hlt : j < (as.map Arming.slot).length := (List.getElem?_eq_some_iff.mp hj').1
  exact hj ((List.getElem?_inj hlt h.nodup).mp (hj'.trans hi.symm))

end WellSlotted

/-- The enable bits that are set are those of the entries. -/
def OnlyFor (as : List Arming) (s : DebugState) : Prop :=
  ∀ i : Fin 16, s.on i = true → ∃ a ∈ as, a.slot = i.val

namespace OnlyFor

variable {as : List Arming} {s : DebugState}

lemma zero (as : List Arming) : OnlyFor as .zero := by
  intro i hi
  rw [DebugState.on_zero] at hi
  cases hi

lemma arm (h : OnlyFor as s) {wp : Watchpoint} {a : Arming} (hs : a.slot = wp.slot) :
    OnlyFor (as ++ [a]) (s.arm wp) := by
  intro i hi
  rcases (DebugState.on_arm s wp i).mp hi with hi | hi
  · exact ⟨a, by simp, hs.trans hi.symm⟩
  · obtain ⟨b, hb, hbi⟩ := h i hi
    exact ⟨b, List.mem_append_left _ hb, hbi⟩

lemma disarm (h : OnlyFor as s) {i : ℕ} {a : Arming} (ha : as[i]? = some a) (hf : a.fits) :
    OnlyFor (as.eraseIdx i) (s.disarm a.slot) := by
  intro k hk
  obtain ⟨hne, hk⟩ := (DebugState.on_disarm s hf.1 k).mp hk
  obtain ⟨b, hb, hbk⟩ := h k hk
  refine ⟨b, List.mem_eraseIdx_iff_getElem?.mpr ?_, hbk⟩
  obtain ⟨j, hj⟩ := List.mem_iff_getElem?.mp hb
  refine ⟨j, fun hji => hne ?_, hj⟩
  rw [hji, ha] at hj
  rw [← hbk, Option.some.inj hj]

end OnlyFor

/-! ### The threads of a process -/

/-- The ids and the debug registers of the threads. -/
def Proc.debugs (p : Proc) : List (Tid × DebugState) :=
  p.threads.list.map fun t => (t.tid, t.debug)

/-- There are no more threads than are listed, the bits set are those of the entries, and all
but the `fresh` threads have every entry programmed. -/
structure Rigged (as : List Arming) (fresh : List Tid) (ds : List (Tid × DebugState)) :
    Prop where
  few : ds.length ≤ maxThreads
  only : ∀ d ∈ ds, OnlyFor as d.2
  programmed : ∀ d ∈ ds, d.1 ∉ fresh → ∀ a ∈ as, a.programmed d.2

namespace Proc

/-- A change of the debug registers of the listed threads reaches all threads. -/
lemma debugs_mapDebug {p : Proc} (h : p.debugs.length ≤ maxThreads)
    (f : DebugState → DebugState) :
    (p.mapDebug p.listedIds f).debugs = p.debugs.map fun d => (d.1, f d.2) := by
  have hlen : p.threads.list.length ≤ maxThreads := by simpa [debugs] using h
  rw [debugs, mapDebug, Threads.list_mapDebug, debugs, List.map_map, List.map_map]
  refine List.map_congr_left fun t ht => ?_
  have hmem : t.tid ∈ p.listedIds := by
    rw [listedIds, List.take_of_length_le hlen]
    exact List.mem_map_of_mem ht
  simp [hmem]

end Proc

namespace Rigged

variable {as : List Arming} {fresh : List Tid} {p : Proc}

/-- Arming a watchpoint in a free slot. -/
lemma armed (h : Rigged as fresh p.debugs) {wp : Watchpoint} {a : Arming}
    (ha : a = { wp.arming with enabled := a.enabled }) (hs : ∀ b ∈ as, b.slot ≠ wp.slot) :
    Rigged (as ++ [a]) fresh (p.armed wp).debugs := by
  have hslot : a.slot = wp.slot := by rw [ha]; rfl
  rw [Proc.armed, Proc.debugs_mapDebug h.few]
  refine ⟨by simpa using h.few, fun d hd => ?_, fun d hd hf b hb => ?_⟩
  · obtain ⟨u, hu, rfl⟩ := List.mem_map.mp hd
    exact (h.only u hu).arm hslot
  · obtain ⟨u, hu, rfl⟩ := List.mem_map.mp hd
    rcases List.mem_append.mp hb with hb | hb
    · exact (h.programmed u hu hf b hb).arm (hs b hb)
    · obtain rfl := List.mem_singleton.mp hb
      rw [ha]
      exact Arming.programmed_arm _ rfl rfl rfl rfl

/-- Disarming the slot of an entry that is deleted. -/
lemma disarmed (h : Rigged as fresh p.debugs) (hw : WellSlotted as) {i : ℕ} {a : Arming}
    (ha : as[i]? = some a) : Rigged (as.eraseIdx i) fresh (p.disarmed a.slot).debugs := by
  have hf : a.fits := hw.fits a (List.mem_of_getElem? ha)
  rw [Proc.disarmed, Proc.debugs_mapDebug h.few]
  refine ⟨by simpa using h.few, fun d hd => ?_, fun d hd hfr b hb => ?_⟩
  · obtain ⟨u, hu, rfl⟩ := List.mem_map.mp hd
    exact (h.only u hu).disarm ha hf
  · obtain ⟨u, hu, rfl⟩ := List.mem_map.mp hd
    have hb' : b ∈ as := List.mem_of_mem_eraseIdx hb
    exact (h.programmed u hu hfr b hb').disarm (hw.slot_ne ha hb)

/-- Without entries no thread lacks one. -/
lemma of_nil {ds : List (Tid × DebugState)} (h : Rigged [] fresh ds) : Rigged [] [] ds :=
  ⟨h.few, h.only, by simp⟩

/-- Disarming all entries clears all enable bits. -/
lemma disarmedAll {wps : List Watchpoint} (he : ∀ wp ∈ wps, wp.enabled = true) {p : Proc}
    (hw : WellSlotted (wps.map Watchpoint.arming))
    (h : Rigged (wps.map Watchpoint.arming) fresh p.debugs) :
    Rigged [] fresh (p.disarmedAll wps).debugs := by
  induction wps generalizing p with
  | nil => exact h
  | cons wp wps ih =>
      have hrest : Rigged (wps.map Watchpoint.arming) fresh (p.disarmed wp.slot).debugs :=
        h.disarmed hw (i := 0) rfl
      rw [Proc.disarmedAll, if_pos (he wp List.mem_cons_self)]
      exact ih (fun v hv => he v (List.mem_cons_of_mem _ hv)) (hw.eraseIdx 0) hrest

/-- Arming all entries programs them on all threads. -/
lemma armedAll {wps : List Watchpoint} (he : ∀ wp ∈ wps, wp.enabled = true)
    {as : List Arming} {p : Proc} (hw : WellSlotted (as ++ wps.map Watchpoint.arming))
    (h : Rigged as fresh p.debugs) :
    Rigged (as ++ wps.map Watchpoint.arming) fresh (p.armedAll wps).debugs := by
  induction wps generalizing as p with
  | nil =>
      rw [List.map_nil, List.append_nil]
      exact h
  | cons wp wps ih =>
      have hassoc : as ++ (wp :: wps).map Watchpoint.arming =
          as ++ [wp.arming] ++ wps.map Watchpoint.arming := by simp
      have hfree : ∀ b ∈ as, b.slot ≠ wp.slot := by
        intro b hb
        have hnd := hw.nodup
        rw [List.map_append, List.nodup_append] at hnd
        exact hnd.2.2 _ (List.mem_map_of_mem hb) _ (by simp [Watchpoint.arming])
      have hnext : Rigged (as ++ [wp.arming]) fresh (p.armed wp).debugs := h.armed rfl hfree
      rw [Proc.armedAll, if_pos (he wp List.mem_cons_self), hassoc]
      rw [hassoc] at hw
      exact ih (fun v hv => he v (List.mem_cons_of_mem _ hv)) hw hnext

end Rigged

/-! ### Stops -/

/-- The threads at a stop that have missed the watchpoints: those that had before and those
that are new. -/
def Proc.freshAt (p : Proc) (s : StopState) (fresh : List Tid) : List Tid :=
  (s.threads.list.map Thread.tid).filter fun i => i ∈ fresh ∨ ¬ p.threads.has i

/-- A thread at a stop has the debug registers it had, or none set. -/
lemma Proc.debug_keepKernelState (p : Proc) (t : Thread) :
    (¬ p.threads.has t.tid ∧ (p.keepKernelState t).debug = .zero) ∨
      ∃ d ∈ p.debugs, d.1 = t.tid ∧ (p.keepKernelState t).debug = d.2 := by
  rw [keepKernelState]
  cases hf : p.threads.list.find? fun u => u.tid = t.tid with
  | none =>
      refine Or.inl ⟨?_, rfl⟩
      rintro ⟨u, hu, htid⟩
      have := List.find?_eq_none.mp hf u hu
      simp [htid] at this
  | some u =>
      refine Or.inr ⟨(u.tid, u.debug), ?_, by simpa using List.find?_some hf, rfl⟩
      exact List.mem_map_of_mem (f := fun t : Thread => (t.tid, t.debug))
        (List.mem_of_find?_eq_some hf)

lemma Proc.mem_debugs_stopWith {p : Proc} {s : StopState} {d : Tid × DebugState}
    (h : d ∈ (p.stopWith s).debugs) :
    ∃ t ∈ s.threads.list, d.1 = t.tid ∧ d.2 = (p.keepKernelState t).debug := by
  obtain ⟨u, hu, rfl⟩ := List.mem_map.mp h
  obtain ⟨t, ht, rfl⟩ := List.mem_map.mp hu
  exact ⟨t, ht, p.keepKernelState_tid t, rfl⟩

/-- At a stop the threads that had the entries programmed still have. -/
lemma Rigged.stopWith {as : List Arming} {fresh : List Tid} {p : Proc}
    (h : Rigged as fresh p.debugs) {s : StopState} (hs : s.threads.list.length ≤ maxThreads) :
    Rigged as (p.freshAt s fresh) (p.stopWith s).debugs := by
  refine ⟨by simpa [Proc.debugs, Proc.stopWith] using hs, fun d hd => ?_, fun d hd hf a ha => ?_⟩
  · obtain ⟨t, ht, _, h2⟩ := Proc.mem_debugs_stopWith hd
    rcases p.debug_keepKernelState t with ⟨_, hz⟩ | ⟨u, hu, _, hud⟩
    · rw [h2, hz]
      exact OnlyFor.zero as
    · rw [h2, hud]
      exact h.only u hu
  · obtain ⟨t, ht, h1, h2⟩ := Proc.mem_debugs_stopWith hd
    have hold : t.tid ∉ fresh ∧ p.threads.has t.tid := by
      by_contra hn
      refine hf (List.mem_filter.mpr ⟨h1 ▸ List.mem_map_of_mem ht, ?_⟩)
      rw [h1]
      by_cases ht' : t.tid ∈ fresh
      · simp [ht']
      · simpa [ht'] using fun hh => hn ⟨ht', hh⟩
    rcases p.debug_keepKernelState t with ⟨hn, _⟩ | ⟨u, hu, hut, hud⟩
    · exact absurd hold.2 hn
    · rw [h2, hud]
      exact h.programmed u hu (hut ▸ hold.1) a ha

end Cdbg
