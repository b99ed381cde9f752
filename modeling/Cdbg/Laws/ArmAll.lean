import Cdbg.Control.DebugPort
import Cdbg.Control.Slots

/-!
Arming a watchpoint on all threads, with a kernel that may refuse any call.

`cdbg_threads_list` leaves out threads whose id the kernel does not tell and those beyond the
first `CDBG_MAX_THREADS`. `arm_watchpoint_all_threads` takes back what it has armed when a
thread fails, but not on that thread itself, which is armed if it was the reading back that
failed. What follows says when all threads are armed or none (`allOrNothing_iff`).
-/

namespace Cdbg

/-- The register pairs a processor with `n` of them shows; the others read as zero. -/
def DebugState.visible (n : ℕ) (s : DebugState) : DebugState where
  wvr i := if i.val < n then s.wvr i else 0
  wcr i := if i.val < n then s.wcr i else 0

/-- The debug registers of all threads, and how many calls have been made on them. -/
structure Bank where
  debug : Tid → DebugState
  calls : ℕ

/-- A debuggee and the kernel's answers: its threads in the order of `task_threads`, whether
they can be listed, which of them tell their id, which calls on debug registers succeed, and
how many register pairs there are. -/
structure Bench where
  threads : List Tid
  nodup : threads.Nodup
  task : Bool
  known : Tid → Bool
  answers : ℕ → Bool
  slots : ℕ

namespace Bench

variable (b : Bench)

/-- The threads `cdbg_threads_list` finds. -/
def listed : List Tid := (b.threads.filter b.known).take maxThreads

/-- `cdbg_regs_get_debug_state`. -/
def getDebugState (tid : Tid) : StateM Bank (Option DebugState) := fun s =>
  (if b.answers s.calls then some ((s.debug tid).visible b.slots) else none,
    { s with calls := s.calls + 1 })

/-- `cdbg_regs_set_debug_state`. -/
def setDebugState (tid : Tid) (d : DebugState) : StateM Bank ℤ := fun s =>
  if b.answers s.calls then (0, ⟨Function.update s.debug tid d, s.calls + 1⟩)
  else (-1, { s with calls := s.calls + 1 })

/-- The calls on the debuggee. -/
def port : DebugPort (StateM Bank) where
  threadsList s := (if b.task then some b.listed else none, s)
  getDebugState := b.getDebugState
  setDebugState := b.setDebugState

/-- The registers of a thread as the processor has them. -/
def seen (s : Bank) (tid : Tid) : DebugState := (s.debug tid).visible b.slots

/-- Whether the enable bit of a slot is set on a thread. -/
def lit (slot : ℕ) (s : Bank) (tid : Tid) : Bool := ((b.seen s tid).control slot).getLsbD 0

/-- The watchpoint passes the tests of `cdbg_watch_arm`, and the slot is there. -/
def Usable (wp : Watchpoint) : Prop := wp.fits = true ∧ wp.slot < b.slots

instance (wp : Watchpoint) : Decidable (b.Usable wp) := inferInstanceAs (Decidable (_ ∧ _))

/-- Arming is all or nothing: with the result `0` the slot is programmed on every thread, with
the result `-1` it is off on every thread. -/
def AllOrNothing (wp : Watchpoint) (s : Bank) : Prop :=
  let r := b.port.armAllThreads wp s
  (r.1 = 0 → ∀ t ∈ b.threads, wp.arming.programmed (b.seen r.2 t)) ∧
    (r.1 = -1 → ∀ t ∈ b.threads, b.lit wp.slot r.2 t = false)

end Bench

/-! ### One thread -/

namespace DebugState

/-- A slot that is there is set in what the processor shows. -/
lemma visible_setSlot {n slot : ℕ} (h : slot < n) (s : DebugState) (wvr wcr : BitVec 64) :
    (s.setSlot slot wvr wcr).visible n = (s.visible n).setSlot slot wvr wcr := by
  simp only [visible, setSlot, mk.injEq]
  constructor <;> funext i <;> by_cases hi : i.val = slot <;> simp [hi, h]

lemma visible_control {n slot : ℕ} (h : n ≤ slot) (s : DebugState) :
    (s.visible n).control slot = 0 := by
  rw [control]
  split
  · exact if_neg (not_lt.mpr h)
  · rfl

lemma control_clearSlot (s : DebugState) (slot : ℕ) :
    ((s.clearSlot slot).control slot).getLsbD 0 = false := by
  rw [control]
  split
  · simp [clearSlot]
  · rfl

lemma visible_clearSlot (n slot : ℕ) (s : DebugState) :
    (s.clearSlot slot).visible n = (s.visible n).clearSlot slot := by
  simp only [visible, clearSlot, mk.injEq, true_and]
  funext i
  by_cases hi : i.val = slot
  · subst hi
    by_cases hn : i.val < n <;> simp [hn]
  · simp [hi]

end DebugState

namespace Bench

variable {b : Bench} {wp : Watchpoint}

/-- What is written to the registers of a thread. -/
def written (b : Bench) (wp : Watchpoint) (d : DebugState) : DebugState :=
  (d.visible b.slots).setSlot wp.slot (wp.addr &&& ~~~ 7) (watchControl wp.addr wp.size wp.kind)

lemma bind_run {α β : Type} (x : StateM Bank α) (f : α → StateM Bank β) (s : Bank) :
    (x >>= f) s = f (x s).1 (x s).2 := rfl

lemma pure_run {α : Type} (a : α) (s : Bank) : (pure a : StateM Bank α) s = (a, s) := rfl

lemma get_run (s : Bank) (tid : Tid) : b.getDebugState tid s =
    (if b.answers s.calls then some (b.seen s tid) else none, { s with calls := s.calls + 1 }) :=
  rfl

lemma set_run (s : Bank) (tid : Tid) (d : DebugState) : b.setDebugState tid d s =
    if b.answers s.calls then (0, ⟨Function.update s.debug tid d, s.calls + 1⟩)
    else (-1, { s with calls := s.calls + 1 }) := rfl

/-- The calls `cdbg_watch_arm` makes for a watchpoint that passes its tests. -/
lemma watchArm_run (hf : wp.fits = true) (tid : Tid) (s : Bank) :
    b.port.watchArm tid wp.slot wp.addr wp.size wp.kind s =
      if b.answers s.calls then
        if b.answers (s.calls + 1) then
          (if b.answers (s.calls + 2) ∧ wp.slot < b.slots then 0 else -1,
            ⟨Function.update s.debug tid (b.written wp (s.debug tid)), s.calls + 3⟩)
        else (-1, { s with calls := s.calls + 2 })
      else (-1, { s with calls := s.calls + 1 }) := by
  have hfits := (Watchpoint.fits_iff wp).mp hf
  simp only [Watchpoint.arming, Arming.fits] at hfits
  obtain ⟨hslot, h0, h8, hfit⟩ := hfits
  -- what is read back shows the slot exactly if the processor has it
  have hback : ((b.written wp (s.debug tid)).visible b.slots).control wp.slot =
      watchControl wp.addr wp.size wp.kind ↔ wp.slot < b.slots := by
    by_cases h : wp.slot < b.slots
    · rw [written, DebugState.visible_setSlot h, setSlot_control _ hslot]
      exact iff_of_true rfl h
    · rw [DebugState.visible_control (not_lt.mp h)]
      refine iff_of_false (fun hz => ?_) h
      have hon := DebugState.watchControl_on wp.addr wp.size wp.kind
      rw [← hz] at hon
      cases hon
  rw [DebugPort.watchArm, if_neg (not_le.mpr hslot), if_neg (by omega), if_neg (by omega)]
  simp only [port, bind_run, get_run]
  cases ha : b.answers s.calls with
  | false => rfl
  | true =>
  simp only [if_true, bind_run, set_run]
  cases ha1 : b.answers (s.calls + 1) with
  | false => rfl
  | true =>
  simp only [if_true, ne_eq, not_true_eq_false, if_false, bind_run, get_run, Nat.add_assoc]
  cases ha2 : b.answers (s.calls + 2) with
  | false => rfl
  | true =>
      simp only [if_true, pure_run, true_and, ← hback]
      simp only [seen, Function.update_self]
      rfl

lemma seen_update (s : Bank) (tid u : Tid) (d : DebugState) (n : ℕ) :
    b.seen ⟨Function.update s.debug tid d, n⟩ u =
      if u = tid then d.visible b.slots else b.seen s u := by
  rw [seen]
  dsimp only
  rw [Function.update_apply]
  split <;> rfl

lemma programmed_written (hu : b.Usable wp) (d : DebugState) :
    wp.arming.programmed ((b.written wp d).visible b.slots) := by
  intro i hi
  have hi' : i.val = wp.slot := hi
  rw [written, DebugState.visible_setSlot hu.2]
  simp [DebugState.setSlot, hi', Watchpoint.arming]

lemma lit_written (hu : b.Usable wp) (d : DebugState) :
    (((b.written wp d).visible b.slots).control wp.slot).getLsbD 0 = true := by
  have hslot : wp.slot < maxWatchpoints := ((Watchpoint.fits_iff wp).mp hu.1).1
  rw [written, DebugState.visible_setSlot hu.2, setSlot_control _ hslot]
  exact DebugState.watchControl_on _ _ _

lemma lit_of_absent {slot : ℕ} (h : b.slots ≤ slot) (s : Bank) (u : Tid) :
    b.lit slot s u = false := by
  rw [lit, seen, DebugState.visible_control h]
  rfl

/-! ### The rollback -/

lemma watchDisarm_run {slot : ℕ} (hslot : slot < maxWatchpoints) (tid : Tid) {s : Bank}
    (h : ∀ n, s.calls ≤ n → b.answers n = true) : b.port.watchDisarm tid slot s =
      (0, ⟨Function.update s.debug tid ((b.seen s tid).clearSlot slot), s.calls + 2⟩) := by
  rw [DebugPort.watchDisarm, if_neg (not_le.mpr hslot)]
  simp only [port, bind_run, get_run, h _ le_rfl, if_true, set_run, h _ (Nat.le_succ _)]

/-- A rollback whose calls succeed clears the slot on its threads. -/
lemma disarmThreads_lit {slot : ℕ} (hslot : slot < maxWatchpoints) (ts : List Tid) :
    ∀ s : Bank, (∀ n, s.calls ≤ n → b.answers n = true) → ∀ u,
      b.lit slot (b.port.disarmThreads slot ts s).2 u =
        if u ∈ ts then false else b.lit slot s u := by
  induction ts with
  | nil => exact fun _ _ _ => rfl
  | cons t ts ih =>
      intro s h u
      rw [DebugPort.disarmThreads, bind_run, watchDisarm_run hslot t h,
        ih _ fun n hn => h n (le_trans (Nat.le_add_right _ 2) hn)]
      by_cases hts : u ∈ ts
      · rw [if_pos hts, if_pos (List.mem_cons_of_mem t hts)]
      rw [if_neg hts, lit, seen_update]
      by_cases hut : u = t
      · rw [if_pos hut, if_pos (hut ▸ List.mem_cons_self), DebugState.visible_clearSlot]
        exact DebugState.control_clearSlot _ _
      · rw [if_neg hut, if_neg (by simp [hut, hts])]
        rfl

/-! ### The loop -/

lemma armThreads_cons (done : List Tid) (t : Tid) (ts : List Tid) (s : Bank) :
    b.port.armThreads wp done (t :: ts) s =
      if (b.port.watchArm t wp.slot wp.addr wp.size wp.kind s).1 ≠ 0 then
        (-1, (b.port.disarmThreads wp.slot done
          (b.port.watchArm t wp.slot wp.addr wp.size wp.kind s).2).2)
      else b.port.armThreads wp (done ++ [t]) ts
        (b.port.watchArm t wp.slot wp.addr wp.size wp.kind s).2 := by
  rw [DebugPort.armThreads, bind_run]
  split <;> rfl

/-- The registers after a thread has been written. -/
def arm (b : Bench) (wp : Watchpoint) (t : Tid) (s : Bank) : Bank :=
  ⟨Function.update s.debug t (b.written wp (s.debug t)), s.calls + 3⟩

/-- A thread whose three calls succeed. -/
lemma armThreads_armed (hu : b.Usable wp) (done : List Tid) (t : Tid) (ts : List Tid) {s : Bank}
    (h : ∀ j < 3, b.answers (s.calls + j) = true) : b.port.armThreads wp done (t :: ts) s =
      b.port.armThreads wp (done ++ [t]) ts (b.arm wp t s) := by
  have h0 : b.answers s.calls = true := h 0 (by omega)
  have hrun : b.port.watchArm t wp.slot wp.addr wp.size wp.kind s = (0, b.arm wp t s) := by
    rw [watchArm_run hu.1, if_pos h0, if_pos (h 1 (by omega)), if_pos ⟨h 2 (by omega), hu.2⟩]
    rfl
  rw [armThreads_cons, hrun, if_neg (by simp)]

/-- A thread of whose three calls one fails. -/
lemma armThreads_refused (hu : b.Usable wp) (done : List Tid) (t : Tid) (ts : List Tid)
    {s : Bank} {k : ℕ} (hk : k < 3) (hbefore : ∀ j < k, b.answers (s.calls + j) = true)
    (hfail : b.answers (s.calls + k) = false) : b.port.armThreads wp done (t :: ts) s =
      (-1, (b.port.disarmThreads wp.slot done
        (if k = 2 then b.arm wp t s else ⟨s.debug, s.calls + (k + 1)⟩)).2) := by
  rw [armThreads_cons, watchArm_run hu.1]
  interval_cases k
  · rw [Nat.add_zero] at hfail
    simp [hfail]
  · have h0 := hbefore 0 (by omega)
    rw [Nat.add_zero] at h0
    simp [h0, hfail]
  · have h0 := hbefore 0 (by omega)
    have h1 := hbefore 1 (by omega)
    rw [Nat.add_zero] at h0
    simp [h0, h1, hfail, arm]

/-- Without a failing call every listed thread is programmed, and no other one is touched. -/
lemma armThreads_all (hu : b.Usable wp) (ts : List Tid) : ∀ (done : List Tid) (s : Bank),
    (∀ k < 3 * ts.length, b.answers (s.calls + k) = true) →
    (b.port.armThreads wp done ts s).1 = 0 ∧ ∀ u,
      if u ∈ ts then wp.arming.programmed (b.seen (b.port.armThreads wp done ts s).2 u)
      else b.seen (b.port.armThreads wp done ts s).2 u = b.seen s u := by
  induction ts with
  | nil => exact fun _ _ _ => ⟨rfl, fun _ => rfl⟩
  | cons t ts ih =>
      intro done s h
      rw [List.length_cons] at h
      rw [armThreads_armed hu done t ts fun j hj => h j (by omega)]
      obtain ⟨hrc, hregs⟩ := ih (done ++ [t]) (b.arm wp t s) fun k hk => by
        rw [arm, Nat.add_assoc]
        exact h (3 + k) (by omega)
      refine ⟨hrc, fun u => ?_⟩
      have hreg := hregs u
      by_cases hts : u ∈ ts
      · rw [if_pos hts] at hreg
        rwa [if_pos (List.mem_cons_of_mem t hts)]
      rw [if_neg hts, arm, seen_update] at hreg
      by_cases hut : u = t
      · rw [if_pos hut] at hreg
        rw [if_pos (hut ▸ List.mem_cons_self), arm, hreg]
        exact programmed_written hu _
      · rw [if_neg hut] at hreg
        rwa [if_neg (by simp [hut, hts])]

lemma lit_arm (hu : b.Usable wp) (t u : Tid) (s : Bank) :
    b.lit wp.slot (b.arm wp t s) u = if u = t then true else b.lit wp.slot s u := by
  rw [lit, arm, seen_update]
  by_cases hut : u = t
  · rw [if_pos hut, if_pos hut, lit_written hu]
  · rw [if_neg hut, if_neg hut, lit]

/-- The call number `k` fails: the threads before the one it is for are cleared, and that one
is armed if it was the reading back. -/
lemma armThreads_fail (hu : b.Usable wp) (ts : List Tid) : ∀ (done : List Tid) (s : Bank) (k : ℕ),
    k < 3 * ts.length → (∀ j < k, b.answers (s.calls + j) = true) →
    b.answers (s.calls + k) = false → (∀ n, s.calls + k < n → b.answers n = true) →
    (b.port.armThreads wp done ts s).1 = -1 ∧ ∀ u,
      b.lit wp.slot (b.port.armThreads wp done ts s).2 u =
        if u ∈ done ∨ u ∈ ts.take (k / 3) then false
        else if k % 3 = 2 ∧ ts[k / 3]? = some u then true else b.lit wp.slot s u := by
  have hslot : wp.slot < maxWatchpoints := ((Watchpoint.fits_iff wp).mp hu.1).1
  induction ts with
  | nil => exact fun _ _ k hk => absurd hk (Nat.not_lt_zero k)
  | cons t ts ih =>
      intro done s k hk hbefore hfail hafter
      rw [List.length_cons] at hk
      -- each thread takes three calls: the first thread fails, or it is armed
      by_cases h3 : k < 3
      · rw [armThreads_refused hu done t ts h3 hbefore hfail]
        refine ⟨rfl, fun u => ?_⟩
        have hdiv : k / 3 = 0 := Nat.div_eq_of_lt h3
        have hmod : k % 3 = k := Nat.mod_eq_of_lt h3
        rw [hdiv, hmod, List.take_zero, List.getElem?_cons_zero]
        -- the third call reads back, when the registers are already written
        by_cases h2 : k = 2
        · have hcalls : (b.arm wp t s).calls = s.calls + 3 := rfl
          rw [if_pos h2, disarmThreads_lit hslot done _ fun n hn => hafter n (by omega),
            lit_arm hu]
          simp only [h2, true_and, List.not_mem_nil, or_false, Option.some.injEq, eq_comm (a := t)]
        · have hcalls : ∀ n, s.calls + (k + 1) ≤ n → b.answers n = true :=
            fun n hn => hafter n (by omega)
          rw [if_neg h2, disarmThreads_lit hslot done _ hcalls]
          simp only [h2, false_and, if_false, List.not_mem_nil, or_false]
          rfl
      · obtain ⟨j, rfl⟩ : ∃ j, k = 3 + j := ⟨k - 3, by omega⟩
        rw [armThreads_armed hu done t ts fun i hi => hbefore i (by omega)]
        have hsum : ∀ i, (b.arm wp t s).calls + i = s.calls + (3 + i) := fun i => by
          rw [arm, Nat.add_assoc]
        -- the other threads fail, and the rollback clears this one too
        obtain ⟨hrc, hregs⟩ := ih (done ++ [t]) (b.arm wp t s) j (by omega)
          (fun i hi => by rw [hsum]; exact hbefore (3 + i) (by omega)) (by rw [hsum]; exact hfail)
          (fun n hn => hafter n (by rwa [hsum] at hn))
        refine ⟨hrc, fun u => ?_⟩
        rw [hregs u, lit_arm hu]
        have hdiv : (3 + j) / 3 = j / 3 + 1 := by omega
        have hmod : (3 + j) % 3 = j % 3 := by omega
        rw [hdiv, hmod, List.take_succ_cons, List.getElem?_cons_succ]
        by_cases hut : u = t
        · rw [if_pos (by simp [hut]), if_pos (by simp [hut])]
        · simp only [hut, if_false, List.mem_append, List.mem_cons, List.not_mem_nil, or_false,
            false_or]

/-- A watchpoint that `cdbg_watch_arm` does not accept: nothing is written. -/
lemma armThreads_misfit (hf : wp.fits = false) (t : Tid) (ts : List Tid) (s : Bank) :
    b.port.armThreads wp [] (t :: ts) s = (-1, s) := by
  have hrun : b.port.watchArm t wp.slot wp.addr wp.size wp.kind s = (-1, s) := by
    have hno : ¬ wp.arming.fits := by simp [← Watchpoint.fits_iff, hf]
    simp only [Watchpoint.arming, Arming.fits] at hno
    rw [DebugPort.watchArm]
    split
    · rfl
    split
    · rfl
    · rw [if_pos (by omega)]
      rfl
  rw [armThreads_cons, hrun]
  rfl

/-- A watchpoint that cannot be armed: the first thread is refused, and no slot changes. -/
lemma armThreads_unusable (hu : ¬ b.Usable wp) (t : Tid) (ts : List Tid) (s : Bank) :
    (b.port.armThreads wp [] (t :: ts) s).1 = -1 ∧ ∀ u,
      b.lit wp.slot (b.port.armThreads wp [] (t :: ts) s).2 u = b.lit wp.slot s u := by
  cases hf : wp.fits with
  | false =>
      rw [armThreads_misfit hf]
      exact ⟨rfl, fun _ => rfl⟩
  | true =>
      have hs : b.slots ≤ wp.slot := not_lt.mp fun h => hu ⟨hf, h⟩
      refine ⟨?_, fun u => by rw [lit_of_absent hs, lit_of_absent hs]⟩
      have hno : ¬ (b.answers (s.calls + 2) = true ∧ wp.slot < b.slots) := fun h =>
        absurd h.2 (not_lt.mpr hs)
      rw [armThreads_cons, watchArm_run hf, if_neg hno]
      repeat (first | rfl | split)

/-! ### All or nothing -/

/-- When arming is all or nothing, in terms of the threads, of the kernel's answers and of the
registers before. -/
structure ArmsCleanly (b : Bench) (wp : Watchpoint) (s : Bank) : Prop where
  /-- without a list of threads the slot has been off everywhere -/
  unlisted : b.task = false → ∀ t ∈ b.threads, b.lit wp.slot s t = false
  /-- if no call fails, the threads that are not listed have been programmed already -/
  missed : b.task = true →
    (b.listed = [] ∨ b.Usable wp ∧ ∀ k < 3 * b.listed.length, b.answers k = true) →
    ∀ t ∈ b.threads, t ∉ b.listed → wp.arming.programmed (b.seen s t)
  /-- if the watchpoint cannot be armed, the slot has been off everywhere -/
  refused : b.task = true → b.listed ≠ [] → ¬ b.Usable wp →
    ∀ t ∈ b.threads, b.lit wp.slot s t = false
  /-- if a call fails it is not the reading back, and the slot has been off on all threads that
  had not been armed by then -/
  failed : b.task = true → b.Usable wp → ∀ k < 3 * b.listed.length, b.answers k = false →
    k % 3 ≠ 2 ∧ ∀ t ∈ b.threads, t ∉ b.listed.take (k / 3) → b.lit wp.slot s t = false

lemma listed_subset {t : Tid} (h : t ∈ b.listed) : t ∈ b.threads :=
  List.mem_of_mem_filter (List.mem_of_mem_take h)

lemma nodup_listed : b.listed.Nodup :=
  (b.nodup.filter _).sublist (List.take_sublist _ _)

lemma armAllThreads_run (s : Bank) : b.port.armAllThreads wp s =
    if b.task = true then b.port.armThreads wp [] b.listed s else (-1, s) := by
  rw [DebugPort.armAllThreads, bind_run, port]
  dsimp only
  cases b.task with
  | false => rfl
  | true => rfl

/-- Without a failing call: listed threads are programmed, the others are as before. -/
lemma allOrNothing_answered (htask : b.task = true) {s : Bank} (hs : s.calls = 0)
    (hall : b.listed = [] ∨ b.Usable wp ∧ ∀ k < 3 * b.listed.length, b.answers k = true) :
    b.AllOrNothing wp s ↔ b.ArmsCleanly wp s := by
  rw [AllOrNothing, armAllThreads_run, if_pos htask]
  have hrun : (b.port.armThreads wp [] b.listed s).1 = 0 ∧ ∀ u,
      if u ∈ b.listed then wp.arming.programmed (b.seen (b.port.armThreads wp [] b.listed s).2 u)
      else b.seen (b.port.armThreads wp [] b.listed s).2 u = b.seen s u := by
    rcases hall with hnil | ⟨hu, hans⟩
    · rw [hnil]
      exact ⟨rfl, fun _ => rfl⟩
    · exact armThreads_all hu b.listed [] s fun k hk => by rw [hs, Nat.zero_add]; exact hans k hk
  obtain ⟨hrc, hregs⟩ := hrun
  rw [hrc]
  constructor
  · rintro ⟨h0, -⟩
    refine ⟨by simp [htask], fun _ _ t ht hnot => ?_, fun _ hne hu => ?_, fun _ hu k hk hf => ?_⟩
    · have hreg := hregs t
      rw [if_neg hnot] at hreg
      exact hreg ▸ h0 rfl t ht
    · rcases hall with hnil | hok
      · exact absurd hnil hne
      · exact absurd hok.1 hu
    · rcases hall with hnil | hok
      · rw [hnil] at hk
        exact absurd hk (Nat.not_lt_zero k)
      · rw [hok.2 k hk] at hf
        cases hf
  · intro h
    refine ⟨fun _ t ht => ?_, fun h => by cases h⟩
    have hreg := hregs t
    by_cases hl : t ∈ b.listed
    · rwa [if_pos hl] at hreg
    · rw [if_neg hl] at hreg
      rw [hreg]
      exact h.missed htask hall t ht hl

/-- With a failing call: the threads before the failing one are cleared, and that one is armed
if it was the reading back. -/
lemma allOrNothing_failed (htask : b.task = true) (hu : b.Usable wp) {s : Bank}
    (hs : s.calls = 0) {k : ℕ} (hk : k < 3 * b.listed.length) (hf : b.answers k = false)
    (hroll : ∀ m n, m < n → b.answers m = false → b.answers n = true) :
    b.AllOrNothing wp s ↔ b.ArmsCleanly wp s := by
  have hall : ¬ (b.listed = [] ∨ b.Usable wp ∧ ∀ k < 3 * b.listed.length, b.answers k = true) := by
    rintro (hnil | ⟨-, hans⟩)
    · rw [hnil] at hk
      exact absurd hk (Nat.not_lt_zero k)
    · rw [hans k hk] at hf
      cases hf
  rw [AllOrNothing, armAllThreads_run, if_pos htask]
  have hbefore : ∀ j < k, b.answers (s.calls + j) = true := by
    intro j hj
    rw [hs, Nat.zero_add]
    by_contra hj'
    rw [hroll j k hj (by simpa using hj')] at hf
    cases hf
  obtain ⟨hrc, hlit⟩ := armThreads_fail hu b.listed [] s k hk hbefore
    (by rw [hs, Nat.zero_add]; exact hf) fun n hn => hroll k n (by omega) hf
  rw [hrc]
  constructor
  · rintro ⟨-, hoff⟩
    refine ⟨by simp [htask], fun _ h => absurd h hall, fun _ _ h => absurd hu h,
      fun _ _ i hi hfi => ?_⟩
    obtain rfl : i = k := by
      rcases Nat.lt_trichotomy i k with hik | hik | hik
      · rw [hroll i k hik hfi] at hf
        cases hf
      · exact hik
      · rw [hroll k i hik hf] at hfi
        cases hfi
    have hlt : i / 3 < b.listed.length := by omega
    have hget : b.listed[i / 3]? = some b.listed[i / 3] := List.getElem?_eq_getElem hlt
    constructor
    · intro h2
      -- the thread that was written and not read back stays armed
      have hoff' := hoff rfl _ (listed_subset (List.getElem_mem hlt))
      have hnot : b.listed[i / 3] ∉ b.listed.take (i / 3) := by
        intro hmem
        obtain ⟨j, hj, hje⟩ := List.mem_take_iff_getElem.mp hmem
        have := (nodup_listed (b := b)).getElem_inj_iff.mp hje
        omega
      rw [hlit, if_neg (by simp [hnot]), if_pos ⟨h2, hget⟩] at hoff'
      cases hoff'
    · intro t ht hnot
      have hoff' := hoff rfl t ht
      rw [hlit, if_neg (by simp [hnot])] at hoff'
      split at hoff'
      · cases hoff'
      · exact hoff'
  · intro h
    refine ⟨fun h0 => absurd h0 (by simp), fun _ t ht => ?_⟩
    obtain ⟨h2, hoff⟩ := h.failed htask hu k hk hf
    rw [hlit]
    split
    · rfl
    next hnot =>
      rw [if_neg fun h => h2 h.1]
      exact hoff t ht fun hm => hnot (Or.inr hm)

/-- A watchpoint that cannot be armed: nothing changes. -/
lemma allOrNothing_refused (htask : b.task = true) (hne : b.listed ≠ []) (hu : ¬ b.Usable wp)
    (s : Bank) : b.AllOrNothing wp s ↔ b.ArmsCleanly wp s := by
  have hall : ¬ (b.listed = [] ∨ b.Usable wp ∧ ∀ k < 3 * b.listed.length, b.answers k = true) :=
    fun h => h.elim hne fun h => hu h.1
  rw [AllOrNothing, armAllThreads_run, if_pos htask]
  obtain ⟨t, ts, hts⟩ := List.exists_cons_of_ne_nil hne
  obtain ⟨hrc, hlit⟩ := armThreads_unusable hu t ts s
  rw [hts, hrc]
  constructor
  · rintro ⟨-, hoff⟩
    refine ⟨by simp [htask], fun _ h => absurd h hall, fun _ _ _ u hu' => ?_,
      fun _ h => absurd h hu⟩
    rw [← hlit]
    exact hoff rfl u hu'
  · intro h
    refine ⟨fun h0 => absurd h0 (by simp), fun _ u hu' => ?_⟩
    rw [hlit]
    exact h.refused htask hne hu u hu'

/-- **All or nothing**: with a rollback whose calls succeed, `arm_watchpoint_all_threads` arms
every thread or none exactly under `ArmsCleanly`. -/
theorem allOrNothing_iff (b : Bench) (wp : Watchpoint) (s : Bank) (hs : s.calls = 0)
    (hroll : ∀ m n, m < n → b.answers m = false → b.answers n = true) :
    b.AllOrNothing wp s ↔ b.ArmsCleanly wp s := by
  cases htask : b.task with
  | false =>
      rw [AllOrNothing, armAllThreads_run, if_neg (by simp [htask])]
      refine ⟨fun h => ⟨fun _ => h.2 rfl, by simp [htask], by simp [htask], by simp [htask]⟩,
        fun h => ⟨fun h0 => absurd h0 (by simp), fun _ => h.unlisted htask⟩⟩
  | true =>
  by_cases hall : b.listed = [] ∨ b.Usable wp ∧ ∀ k < 3 * b.listed.length, b.answers k = true
  · exact allOrNothing_answered htask hs hall
  obtain ⟨hne, hbad⟩ := not_or.mp hall
  by_cases hu : b.Usable wp
  · obtain ⟨k, hk, hf⟩ : ∃ k < 3 * b.listed.length, b.answers k = false := by
      by_contra hno
      refine hbad ⟨hu, fun k hk => ?_⟩
      by_contra hk'
      exact hno ⟨k, hk, by simpa using hk'⟩
    exact allOrNothing_failed htask hu hs hk hf hroll
  · exact allOrNothing_refused htask hne hu s

end Bench

/-! ### A debuggee with two threads -/

/-- Two threads and four register pairs. -/
def Bench.two (known : Tid → Bool) (answers : ℕ → Bool) : Bench :=
  ⟨[1, 2], by simp, true, known, answers, 4⟩

/-- Nothing armed, no call made. -/
def Bank.fresh : Bank := ⟨fun _ => .zero, 0⟩

/-- Stores of eight bytes at `0x2000`. -/
def watchStores : Watchpoint := ⟨0x2000, 8, .write, true, 0, [], 0, false⟩

lemma Bank.lit_fresh (b : Bench) (slot : ℕ) (t : Tid) : b.lit slot .fresh t = false := by
  rw [Bench.lit, DebugState.control]
  split
  · simp [Bench.seen, fresh, DebugState.visible, DebugState.zero]
  · rfl

/-- When the write on the second thread fails, the first one is disarmed again. -/
theorem allOrNothing_iff_write :
    (Bench.two (fun _ => true) (· ≠ 4)).AllOrNothing watchStores .fresh := by
  refine (Bench.allOrNothing_iff _ _ _ rfl fun m n hmn hm => ?_).mpr ⟨?_, ?_, ?_, ?_⟩
  · simp only [Bench.two, ne_eq, decide_not, Bool.not_eq_false', decide_eq_true_eq] at hm
    simp only [Bench.two, ne_eq, decide_not, Bool.not_eq_true', decide_eq_false_iff_not]
    omega
  · exact fun h => by cases h
  · exact fun _ _ t ht hnot => absurd ht hnot
  · exact fun _ _ _ t _ => Bank.lit_fresh _ _ t
  · intro _ _ k _ hf
    simp only [Bench.two, ne_eq, decide_not, Bool.not_eq_false', decide_eq_true_eq] at hf
    exact ⟨by rw [hf]; decide, fun t _ _ => Bank.lit_fresh _ _ t⟩

/-- When the reading back on the second thread fails, that thread stays armed although the
result is `-1`; and a thread whose id the kernel does not tell is missed with the result
`0`. -/
theorem armAllThreads_partial :
    ¬ (Bench.two (fun _ => true) (· ≠ 5)).AllOrNothing watchStores .fresh ∧
      ¬ (Bench.two (· ≠ 2) (fun _ => true)).AllOrNothing watchStores .fresh := by
  constructor
  · intro h
    have hoff := h.2 (by decide +kernel) 2 (by decide)
    revert hoff
    decide +kernel
  · intro h
    have hregs := h.1 (by decide +kernel) 2 (by decide) 0 rfl
    revert hregs
    decide +kernel

end Cdbg
