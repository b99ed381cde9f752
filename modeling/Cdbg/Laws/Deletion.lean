import Cdbg.Control.Arming
import Cdbg.Control.Inversion
import Cdbg.Lib.Removal
import Cdbg.Lib.Trim
import Cdbg.Machine.Script

/-!
Deleting breakpoints and watchpoints by number, `cmd_del` and `cmd_delwatch`.

The numbers given name positions before any deletion. The commands keep them in an array, each
once, sort it by hand from the largest to the smallest and delete in this order, every deletion
shifting the entries behind it. What follows says that the array is large enough
(`collect_eq`), that the order is the one of `deletionOrder` (`deletionOrder_eq`), and that
exactly the entries at these numbers go (`deletes_exactly`). The one argument that is not a
list of numbers and still deletes is `all` (`del_all`).
-/

namespace Cdbg

open CString

variable {σ α : Type} {cap : ℕ}

/-! ### The numbers -/

/-- What the token loop of `cmd_del` and `cmd_delwatch` leaves: it has given up, it has written
behind the array `indices`, or the array holds these numbers. -/
inductive Collected
  | refused
  | overrun
  | done (indices : List ℕ)
  deriving DecidableEq

/-- The token loop of `cmd_del` and `cmd_delwatch`, the array having `cap` places. -/
def collect (cap count : ℕ) : List Str → List ℕ → Collected
  | [], indices => .done indices
  | token :: tokens, indices =>
      match parseU64 token with
      | none => .refused
      | some number =>
          if count ≤ number.toNat then .refused
          else if indices.any (· = number.toNat) then collect cap count tokens indices
          else if cap ≤ indices.length then .overrun
          else collect cap count tokens (indices ++ [number.toNat])

/-- The array after the sorting loops. -/
def Collected.order : Collected → Option (List ℕ)
  | .done indices => some indices.exchangeSort
  | _ => none

/-- A number below the count. -/
def numberBelow (count : ℕ) (token : Str) : Option ℕ :=
  ((parseU64 token).map BitVec.toNat).filter (· < count)

/-- The numbers a text lists, if it lists numbers below the count and nothing else. -/
def numbersBelow (count : ℕ) (text : Str) : Option (List ℕ) :=
  (strtok (trimSpace text)).mapM (numberBelow count)

lemma parseIndices_cons (count : ℕ) (token : Str) (tokens : List Str) (acc : List ℕ) :
    parseIndices count (token :: tokens) acc =
      match numberBelow count token with
      | none => none
      | some n => parseIndices count tokens (if n ∈ acc then acc else acc ++ [n]) := by
  rw [parseIndices, numberBelow]
  cases parseU64 token with
  | none => rfl
  | some number =>
      by_cases hlt : number.toNat < count
      · rw [Option.map_some, Option.filter_some_pos (by simpa using hlt)]
        simp only [if_neg (not_le.mpr hlt)]
        split <;> rfl
      · rw [Option.map_some, Option.filter_some_neg (by simpa using hlt)]
        simp only [if_pos (not_lt.mp hlt)]

/-- The array is large enough: the numbers in it differ and are below the count. -/
lemma collect_eq {cap count : ℕ} (hcap : count ≤ cap) (tokens : List Str) : ∀ acc : List ℕ,
    acc.Nodup → (∀ i ∈ acc, i < count) → collect cap count tokens acc =
      match parseIndices count tokens acc with
      | none => .refused
      | some is => .done is := by
  induction tokens with
  | nil => exact fun _ _ _ => rfl
  | cons token tokens ih =>
      intro acc hnodup hlt
      rw [collect, parseIndices]
      cases parseU64 token with
      | none => rfl
      | some number =>
      simp only [List.any_eq_true, decide_eq_true_eq, exists_eq_right]
      by_cases hn : count ≤ number.toNat
      · rw [if_pos hn, if_pos hn]
      rw [if_neg hn, if_neg hn]
      by_cases hmem : number.toNat ∈ acc
      · rw [if_pos hmem, if_pos hmem]
        exact ih acc hnodup hlt
      have hnodup' : (acc ++ [number.toNat]).Nodup := by
        rw [List.nodup_append_comm]
        exact List.nodup_cons.mpr ⟨hmem, hnodup⟩
      have hlt' : ∀ i ∈ acc ++ [number.toNat], i < count := by
        intro i hi
        rcases List.mem_append.mp hi with hi | hi
        · exact hlt i hi
        · rw [List.mem_singleton.mp hi]
          exact not_le.mp hn
      -- distinct numbers below the count leave room in the array
      have hroom : acc.length < cap := by
        have hsub := hnodup'.subperm fun i hi => List.mem_range.mpr (hlt' i hi)
        have hlen := hsub.length_le
        rw [List.length_append, List.length_range, List.length_singleton] at hlen
        omega
      rw [if_neg hmem, if_neg hmem, if_neg (not_le.mpr hroom)]
      exact ih _ hnodup' hlt'

/-- The loops of the commands compute `deletionOrder`. -/
lemma deletionOrder_eq {cap count : ℕ} (hcap : count ≤ cap) (text : Str) :
    deletionOrder count (some text) =
      if trimSpace text = [] then none
      else if trimSpace text = "all".toList then some (List.range count).reverse
      else (collect cap count (strtok (truncate maxCmd (trimSpace text))) []).order := by
  rw [deletionOrder, collect_eq hcap _ [] List.nodup_nil (by simp)]
  cases parseIndices count (strtok (truncate maxCmd (trimSpace text))) [] with
  | none => rfl
  | some is => simp [Collected.order, List.exchangeSort_eq]

/-- Each number is kept once. -/
lemma parseIndices_mem (count : ℕ) (tokens : List Str) : ∀ acc : List ℕ,
    match tokens.mapM (numberBelow count) with
    | none => parseIndices count tokens acc = none
    | some is => ∃ js, parseIndices count tokens acc = some js ∧
        (acc.Nodup → js.Nodup) ∧ ∀ i, i ∈ js ↔ i ∈ acc ∨ i ∈ is := by
  induction tokens with
  | nil => exact fun acc => ⟨acc, rfl, id, by simp⟩
  | cons token tokens ih =>
      intro acc
      rw [List.mapM_cons, parseIndices_cons]
      cases numberBelow count token with
      | none => rfl
      | some n =>
      -- a number that is there already is not entered twice
      have hrest := ih (if n ∈ acc then acc else acc ++ [n])
      cases htokens : tokens.mapM (numberBelow count) with
      | none =>
          rw [htokens] at hrest
          exact hrest
      | some is =>
      rw [htokens] at hrest
      obtain ⟨js, hjs, hnodup, hmem⟩ := hrest
      refine ⟨js, hjs, fun hacc => hnodup ?_, fun i => ?_⟩
      · split
        · exact hacc
        next hn =>
          rw [List.nodup_append_comm]
          exact List.nodup_cons.mpr ⟨hn, hacc⟩
      · rw [hmem, List.mem_cons]
        split
        next hn =>
          constructor
          · rintro (h | h)
            · exact Or.inl h
            · exact Or.inr (Or.inr h)
          · rintro (h | rfl | h)
            · exact Or.inl h
            · exact Or.inl hn
            · exact Or.inr h
        · rw [List.mem_append, List.mem_singleton, or_assoc]

lemma numberBelow_lt {count : ℕ} {token : Str} {n : ℕ} (h : numberBelow count token = some n) :
    n < count := by
  have hfilter := (Option.filter_eq_some_iff.mp h).2
  simpa using hfilter

lemma mapM_numberBelow_lt {count : ℕ} (tokens : List Str) : ∀ {is : List ℕ},
    tokens.mapM (numberBelow count) = some is → ∀ i ∈ is, i < count := by
  induction tokens with
  | nil =>
      intro is h i hi
      obtain rfl := Option.some.inj h
      cases hi
  | cons token tokens ih =>
      intro is h i hi
      rw [List.mapM_cons] at h
      obtain ⟨n, hn, h⟩ := Option.bind_eq_some_iff.mp h
      obtain ⟨js, hjs, h⟩ := Option.bind_eq_some_iff.mp h
      obtain rfl := Option.some.inj h
      rcases List.mem_cons.mp hi with rfl | hi
      · exact numberBelow_lt hn
      · exact ih hjs i hi

/-- The order of deletion for a list of numbers: each once, from the largest on. -/
lemma deletionOrder_numbers (count : ℕ) {text : Str} (hlen : text.length < maxCmd)
    (hne : trimSpace text ≠ []) (hall : trimSpace text ≠ "all".toList) :
    match numbersBelow count text with
    | none => deletionOrder count (some text) = none
    | some is => ∃ js, deletionOrder count (some text) = some js ∧ js.Pairwise (· > ·) ∧
        ∀ i, i ∈ js ↔ i ∈ is := by
  have hlen' : (trimSpace text).length ≤ maxCmd - 1 := by
    have hle := length_trimSpace_le text
    omega
  have htrunc : truncate maxCmd (trimSpace text) = trimSpace text := List.take_of_length_le hlen'
  have hmem := parseIndices_mem count (strtok (trimSpace text)) []
  rw [numbersBelow]
  cases hnum : (strtok (trimSpace text)).mapM (numberBelow count) with
  | none =>
      rw [hnum] at hmem
      have hnone : parseIndices count (strtok (trimSpace text)) [] = none := hmem
      rw [deletionOrder, if_neg hne, if_neg hall, htrunc, hnone, Option.map_none]
  | some is =>
      rw [hnum] at hmem
      obtain ⟨js, hjs, hnodup, hmem⟩ := hmem
      refine ⟨js.insertionSort (· ≥ ·), ?_, ?_, fun i => ?_⟩
      · rw [deletionOrder, if_neg hne, if_neg hall, htrunc, hjs, Option.map_some]
      · have hsorted := List.pairwise_insertionSort (· ≥ ·) js
        have hne' : (js.insertionSort (· ≥ ·)).Pairwise (· ≠ ·) :=
          (List.perm_insertionSort (· ≥ ·) js).nodup_iff.mpr (hnodup List.nodup_nil)
        exact (hsorted.and hne').imp fun h => lt_of_le_of_ne h.1 (Ne.symm h.2)
      · rw [List.mem_insertionSort, hmem]
        simp

/-! ### The tables -/

/-- A table of the debugger whose entries are deleted by number. -/
structure Shelf (α : Type) (cap : ℕ) where
  table : Dbg → Table α cap
  put : Dbg → Table α cap → Dbg
  /-- what the deletion of an entry does to a debuggee -/
  clear : Proc → α → Proc
  table_put : ∀ d t, table (put d t) = t
  put_put : ∀ d t u, put (put d t) u = put d u
  put_table : ∀ d, put d (table d) = d
  put_live : ∀ d t, (put d t).pid = d.pid ∧ (put d t).state = d.state

/-- There is a debuggee to put right when something is deleted. -/
def World.Live (w : World σ) : Prop := 0 < w.dbg.pid ∧ w.dbg.state ≠ .idle

instance (w : World σ) : Decidable w.Live := inferInstanceAs (Decidable (_ ∧ _))

namespace Shelf

variable (k : Shelf α cap)

/-- The world with the entry `a` at `i` deleted. -/
def drop (w : World σ) (i : ℕ) (a : α) : World σ where
  dbg := k.put w.dbg ((k.table w.dbg).erase i)
  proc := if w.Live then w.proc.map fun p => k.clear p a else w.proc
  host := w.host

/-- The world with the entries at these indices deleted, the last one first, and the others in
their order. -/
def removed (w : World σ) (is : List ℕ) : World σ where
  dbg := k.put w.dbg ((k.table w.dbg).without is)
  proc :=
    if w.Live then w.proc.map fun p => ((k.table w.dbg).toList.only is).reverse.foldl k.clear p
    else w.proc
  host := w.host

lemma live_drop (w : World σ) (i : ℕ) (a : α) : (k.drop w i a).Live ↔ w.Live := by
  obtain ⟨hpid, hstate⟩ := k.put_live w.dbg ((k.table w.dbg).erase i)
  rw [World.Live, World.Live, drop, hpid, hstate]

lemma removed_nil (w : World σ) : k.removed w [] = w := by
  have htable : (k.table w.dbg).without [] = k.table w.dbg :=
    Table.ext (List.without_nil _)
  have hproc : (w.proc.map fun p => ([] : List α).reverse.foldl k.clear p) = w.proc :=
    Option.map_id'
  rw [removed, htable, k.put_table, List.only_nil, hproc, ite_self]

lemma removed_congr {is js : List ℕ} (h : ∀ i, i ∈ is ↔ i ∈ js) (w : World σ) :
    k.removed w is = k.removed w js := by
  have htable : (k.table w.dbg).without is = (k.table w.dbg).without js :=
    Table.ext (List.without_congr h _)
  rw [removed, removed, htable, List.only_congr h]

lemma removed_drop {w : World σ} {is : List ℕ} {i : ℕ} {a : α} (h : ∀ j ∈ is, j < i)
    (ha : (k.table w.dbg).entry i = some a) :
    k.removed (k.drop w i a) is = k.removed w (i :: is) := by
  obtain ⟨hwithout, honly, hlast⟩ := List.eraseIdx_last h ha
  have htable : ((k.table w.dbg).erase i).without is = (k.table w.dbg).without (i :: is) :=
    Table.ext hwithout
  have hdrop : k.table (k.drop w i a).dbg = (k.table w.dbg).erase i := k.table_put _ _
  rw [removed, hdrop, htable, Table.toList_erase, honly, removed, hlast, List.reverse_append]
  simp only [live_drop]
  rw [drop]
  by_cases hl : w.Live
  · simp only [if_pos hl, k.put_put, Option.map_map]
    rfl
  · simp only [if_neg hl, k.put_put]

end Shelf

/-- The command that deletes entries of a table by number, with the functions it is made of:
what they do is said here once for breakpoints and watchpoints. -/
structure Deletion (σ : Type) {α : Type} {cap : ℕ} (k : Shelf α cap) where
  deleteAt : ℕ → Debugger σ ℤ
  deleteAll : List ℕ → Debugger σ ℤ
  command : Option Str → Debugger σ ℤ
  /-- the writes that the deletion of an entry makes to the debuggee succeed -/
  Ready : World σ → α → Prop
  all_nil : deleteAll [] = pure 0
  all_cons : ∀ i is, deleteAll (i :: is) = do
    if (← deleteAt i) ≠ 0 then
      return -1
    deleteAll is
  command_eq : ∀ args, command args = do
    let w ← Prog.get
    if (k.table w.dbg).count = 0 then
      return 0
    match deletionOrder (k.table w.dbg).count args with
    | none => return -1
    | some indices => deleteAll indices
  deleteAt_run : ∀ w i a, (k.table w.dbg).entry i = some a → Ready w a →
    deleteAt i w = ⟨some 0, k.drop w i a, []⟩
  ready_drop : ∀ w i a b, (k.table w.dbg).entry i = some a → Ready w b → Ready (k.drop w i a) b

namespace Deletion

variable {k : Shelf α cap} (d : Deletion σ k)

/-- Deleting by number deletes exactly those: for a list of numbers below the count the entries
at these indices are removed, the others kept in their order, and the debuggee put right; for
anything else nothing changes. -/
def Exact (w : World σ) (text : Str) : Prop :=
  match numbersBelow (k.table w.dbg).count text with
  | none => ∃ rc, d.command (some text) w = ⟨some rc, w, []⟩
  | some is => (∀ a ∈ (k.table w.dbg).toList.only is, d.Ready w a) →
      ∃ rc, d.command (some text) w = ⟨some rc, k.removed w is, []⟩

/-- The loop of deletions, the last index first. -/
lemma deleteAll_run : ∀ (is : List ℕ) (w : World σ), is.Pairwise (· > ·) →
    (∀ i ∈ is, i < (k.table w.dbg).count) →
    (∀ a ∈ (k.table w.dbg).toList.only is, d.Ready w a) →
    d.deleteAll is w = ⟨some 0, k.removed w is, []⟩
  | [], w, _, _, _ => by
      rw [d.all_nil, k.removed_nil]
      rfl
  | i :: is, w, hsorted, hlt, hready => by
      obtain ⟨hi, his⟩ := List.pairwise_cons.mp hsorted
      obtain ⟨a, ha⟩ : ∃ a, (k.table w.dbg).entry i = some a :=
        ⟨_, List.getElem?_eq_getElem (hlt i List.mem_cons_self)⟩
      have hra : d.Ready w a := hready a (List.mem_only.mpr ⟨i, List.mem_cons_self, ha⟩)
      have hdrop : k.table (k.drop w i a).dbg = (k.table w.dbg).erase i := k.table_put _ _
      have honly :
          (k.table (k.drop w i a).dbg).toList.only is = (k.table w.dbg).toList.only is := by
        rw [hdrop, Table.toList_erase, (List.eraseIdx_last hi ha).2.1]
      have hrest := deleteAll_run is (k.drop w i a) his (fun j hj => ?_) fun b hb => ?_
      · rw [d.all_cons, Prog.bind_of_eq (d.deleteAt_run w i a ha hra), if_neg (by simp), hrest,
          k.removed_drop hi ha]
        rfl
      · have hcount : (k.table w.dbg).count - 1 = (k.table (k.drop w i a).dbg).count := by
          rw [hdrop, Table.count, Table.count, Table.toList_erase,
            List.length_eraseIdx_of_lt (hlt i List.mem_cons_self)]
        have hij := hi j hj
        have hicount := hlt i List.mem_cons_self
        omega
      · rw [honly] at hb
        obtain ⟨j, hj, hjb⟩ := List.mem_only.mp hb
        exact d.ready_drop w i a b ha
          (hready b (List.mem_only.mpr ⟨j, List.mem_cons_of_mem i hj, hjb⟩))

/-- Every text that fits the buffer and is not `all`. -/
lemma exact (w : World σ) {text : Str} (hlen : text.length < maxCmd)
    (hall : trimSpace text ≠ "all".toList) : d.Exact w text := by
  rw [Exact, d.command_eq, Prog.get_bind]
  by_cases hzero : (k.table w.dbg).count = 0
  · rw [if_pos hzero, hzero]
    cases hnum : numbersBelow 0 text with
    | none => exact ⟨0, rfl⟩
    | some is =>
        obtain rfl : is = [] := List.eq_nil_iff_forall_not_mem.mpr fun i hi =>
          Nat.not_lt_zero i (mapM_numberBelow_lt _ hnum i hi)
        exact fun _ => ⟨0, by rw [k.removed_nil]; rfl⟩
  rw [if_neg hzero]
  by_cases hne : trimSpace text = []
  · have hnum : numbersBelow (k.table w.dbg).count text = some [] := by
      rw [numbersBelow, hne]
      rfl
    rw [hnum, deletionOrder, if_pos hne]
    exact fun _ => ⟨-1, by rw [k.removed_nil]; rfl⟩
  have horder := deletionOrder_numbers (k.table w.dbg).count hlen hne hall
  cases hnum : numbersBelow (k.table w.dbg).count text with
  | none =>
      rw [hnum] at horder
      rw [show deletionOrder _ _ = none from horder]
      exact ⟨-1, rfl⟩
  | some is =>
      rw [hnum] at horder
      obtain ⟨js, hjs, hsorted, hmem⟩ := horder
      intro hready
      rw [hjs]
      have hlt : ∀ j ∈ js, j < (k.table w.dbg).count := fun j hj =>
        mapM_numberBelow_lt _ hnum j ((hmem j).mp hj)
      have hrun := d.deleteAll_run js w hsorted hlt fun a ha =>
        hready a (by rwa [← List.only_congr hmem])
      exact ⟨0, by rw [← k.removed_congr hmem]; exact hrun⟩

end Deletion

/-! ### Breakpoints and watchpoints -/

/-- Write back what a breakpoint has replaced, if it is enabled. -/
def Proc.putBack (p : Proc) (bp : Breakpoint) : Proc := if bp.enabled then p.restored bp else p

/-- The breakpoints; the deletion of one writes its saved word back. -/
def breakpointShelf : Shelf Breakpoint maxBreakpoints where
  table := Dbg.breakpoints
  put d t := { d with breakpoints := t }
  clear := Proc.putBack
  table_put _ _ := rfl
  put_put _ _ _ := rfl
  put_table _ := rfl
  put_live _ _ := ⟨rfl, rfl⟩

/-- The watchpoints; the deletion of one disarms its slot on the listed threads. -/
def watchpointShelf : Shelf Watchpoint maxWatchpoints where
  table := Dbg.watchpoints
  put d t := { d with watchpoints := t }
  clear p wp := p.disarmed wp.slot
  table_put _ _ := rfl
  put_put _ _ _ := rfl
  put_table _ := rfl
  put_live _ _ := ⟨rfl, rfl⟩

lemma Proc.putBack_frame (p : Proc) (bp : Breakpoint) :
    (p.putBack bp).pid = p.pid ∧ (p.putBack bp).mapped = p.mapped := by
  rw [putBack]
  split <;> exact ⟨rfl, rfl⟩

lemma deleteBreakpointAt_run {w : World σ} {i : ℕ} {bp : Breakpoint}
    (h : w.dbg.breakpoints.entry i = some bp)
    (hready : w.Live → bp.enabled = true →
      ∃ p, w.taskForPid w.dbg.pid = some p ∧ p.mappedSpan bp.addr 4 = true) :
    deleteBreakpointAt i w = ⟨some 0, breakpointShelf.drop w i bp, []⟩ := by
  have herase (b : Breakpoint) :
      (w.dbg.breakpoints.set i b).erase i = w.dbg.breakpoints.erase i :=
    Table.ext (List.eraseIdx_set_eq ..)
  rw [deleteBreakpointAt, Prog.get_bind, h]
  dsimp only
  by_cases hl : 0 < w.dbg.pid ∧ w.dbg.state ≠ .idle
  · have hlive : w.Live := hl
    rw [if_pos hl, Shelf.drop, if_pos hlive]
    rcases disableEntry_cases h with ⟨he, hrun⟩ | ⟨he, p, hp, -, hrun⟩ | ⟨he, hp, hrun⟩ |
      ⟨he, p, hp, hm, hrun⟩
    · have hclear : (w.proc.map fun p => breakpointShelf.clear p bp) = w.proc := by
        simp [breakpointShelf, Proc.putBack, he]
      rw [Prog.bind_of_eq hrun, if_neg (by simp), hclear]
      rfl
    · have hproc := (World.taskForPid_eq_some.mp hp).1
      have hclear : breakpointShelf.clear p bp = p.restored bp := if_pos he
      rw [Prog.bind_of_eq hrun, if_neg (by simp), hproc, Option.map_some, hclear]
      simp only [modifyDbg_bind, World.setDbg_dbg, Dbg.setEntry, herase]
      rfl
    · obtain ⟨q, hq, _⟩ := hready hlive he
      rw [hp] at hq
      cases hq
    · obtain ⟨q, hq, hqm⟩ := hready hlive he
      obtain rfl : p = q := Option.some.inj (hp.symm.trans hq)
      rw [hm] at hqm
      cases hqm
  · have hidle : ¬ w.Live := hl
    rw [if_neg hl, Shelf.drop, if_neg hidle]
    rfl

lemma deleteWatchpointAt_run {w : World σ} {i : ℕ} {wp : Watchpoint}
    (h : w.dbg.watchpoints.entry i = some wp)
    (hready : w.Live → ∃ p, w.taskForPid w.dbg.pid = some p) :
    deleteWatchpointAt i w = ⟨some 0, watchpointShelf.drop w i wp, []⟩ := by
  rw [deleteWatchpointAt, Prog.get_bind, h]
  dsimp only
  by_cases hl : 0 < w.dbg.pid ∧ w.dbg.state ≠ .idle
  · have hlive : w.Live := hl
    rw [if_pos hl, Shelf.drop, if_pos hlive]
    rcases disarmWatchpointAllThreads_cases wp w with ⟨hp, _⟩ | ⟨p, hp, hrun⟩
    · obtain ⟨q, hq⟩ := hready hlive
      rw [hp] at hq
      cases hq
    · rw [Prog.bind_of_eq hrun, (World.taskForPid_eq_some.mp hp).1]
      rfl
  · have hidle : ¬ w.Live := hl
    rw [if_neg hl, Shelf.drop, if_neg hidle]
    rfl

/-- The debuggee of the same process id, and with the same memory mapped, is still there. -/
lemma Shelf.taskForPid_drop {k : Shelf α cap} {w : World σ} {i : ℕ} {a : α} {p : Proc}
    (hpid : (k.clear p a).pid = p.pid) (hp : w.taskForPid w.dbg.pid = some p) :
    (k.drop w i a).taskForPid (k.drop w i a).dbg.pid =
      some (if w.Live then k.clear p a else p) := by
  obtain ⟨hproc, hpp⟩ := World.taskForPid_eq_some.mp hp
  have hdbg : (k.drop w i a).dbg.pid = w.dbg.pid := (k.put_live _ _).1
  refine World.taskForPid_eq_some.mpr ⟨?_, ?_⟩
  · rw [drop, hproc]
    split <;> rfl
  · rw [hdbg, ← hpp]
    split
    · exact hpid
    · rfl

/-- `del`. -/
def delBreakpoints (σ : Type) : Deletion σ breakpointShelf where
  deleteAt := deleteBreakpointAt
  deleteAll := deleteBreakpoints
  command := cmdDel
  Ready w bp := w.Live → bp.enabled = true →
    ∃ p, w.taskForPid w.dbg.pid = some p ∧ p.mappedSpan bp.addr 4 = true
  all_nil := rfl
  all_cons _ _ := rfl
  command_eq _ := rfl
  deleteAt_run _ _ _ h hready := deleteBreakpointAt_run h hready
  ready_drop w i a b _ hb hlive he := by
    obtain ⟨p, hp, hm⟩ := hb ((Shelf.live_drop _ w i a).mp hlive) he
    obtain ⟨hpid, hmapped⟩ := p.putBack_frame a
    refine ⟨_, Shelf.taskForPid_drop hpid hp, ?_⟩
    rw [if_pos ((Shelf.live_drop _ w i a).mp hlive)]
    rw [Proc.mappedSpan] at hm ⊢
    exact hmapped.symm ▸ hm

/-- `delwatch`. -/
def delWatchpoints (σ : Type) : Deletion σ watchpointShelf where
  deleteAt := deleteWatchpointAt
  deleteAll := deleteWatchpoints
  command := cmdDelwatch
  Ready w _ := w.Live → ∃ p, w.taskForPid w.dbg.pid = some p
  all_nil := rfl
  all_cons _ _ := rfl
  command_eq _ := rfl
  deleteAt_run _ _ _ h hready := deleteWatchpointAt_run h hready
  ready_drop w i a _ _ hb hlive := by
    obtain ⟨p, hp⟩ := hb ((Shelf.live_drop _ w i a).mp hlive)
    exact ⟨_, Shelf.taskForPid_drop rfl hp⟩

/-- The array of a command has room for the numbers of a text, and sorted by hand it is the
order in which the command deletes. -/
def ArrayHolds (cap count : ℕ) (text : Str) : Prop :=
  let c := collect cap count (strtok (truncate maxCmd (trimSpace text))) []
  c ≠ .overrun ∧ (trimSpace text ≠ [] → trimSpace text ≠ "all".toList →
    deletionOrder count (some text) = c.order)

lemma arrayHolds (t : Table α cap) (text : Str) : ArrayHolds cap t.count text := by
  have hcap : t.count ≤ cap := t.length_le
  constructor
  · rw [collect_eq hcap _ [] List.nodup_nil (by simp)]
    cases parseIndices t.count (strtok (truncate maxCmd (trimSpace text))) [] <;> simp
  · intro hne hall
    rw [deletionOrder_eq hcap, if_neg hne, if_neg hall]

/-- **Deleting by number deletes exactly those**: for every text that fits the buffer and is
not `all`. -/
theorem deletes_exactly (w : World σ) (text : Str) (hlen : text.length < maxCmd)
    (hall : trimSpace text ≠ "all".toList) :
    (delBreakpoints σ).Exact w text ∧ (delWatchpoints σ).Exact w text ∧
      ArrayHolds maxBreakpoints w.dbg.breakpoints.count text ∧
      ArrayHolds maxWatchpoints w.dbg.watchpoints.count text :=
  ⟨(delBreakpoints σ).exact w hlen hall, (delWatchpoints σ).exact w hlen hall,
    arrayHolds w.dbg.breakpoints text, arrayHolds w.dbg.watchpoints text⟩

/-- A debuggee with three breakpoints, of which the second is disabled. -/
def threeBreakpoints : World Unit where
  dbg := { Dbg.init with
    pid := 7
    state := .stopped
    breakpoints := ⟨[⟨0x1000, 1, true⟩, ⟨0x1004, 2, false⟩, ⟨0x1008, 3, true⟩],
      by simp [maxBreakpoints]⟩ }
  proc := some (.resting (.numbered (.at 1 0x1000) []) fun _ => 0)
  host := ()

/-- The first and the third are deleted, in whatever order and however often they are named. -/
theorem deletes_exactly_two : ∃ rc, cmdDel (some "0 0x2 0".toList) threeBreakpoints =
    ⟨some rc, breakpointShelf.removed threeBreakpoints [0, 2], []⟩ := by
  have h := (deletes_exactly threeBreakpoints "0 0x2 0".toList (by decide) (by decide)).1
  have hnum : numbersBelow (breakpointShelf.table threeBreakpoints.dbg).count
      "0 0x2 0".toList = some [0, 2, 0] := by decide
  rw [Deletion.Exact, hnum] at h
  obtain ⟨rc, hrc⟩ := h fun bp _ _ _ => ⟨_, rfl, rfl⟩
  have hsame (i : ℕ) : i ∈ [0, 2, 0] ↔ i ∈ [0, 2] := by
    simp only [List.mem_cons, List.not_mem_nil]
    tauto
  exact ⟨rc, by rw [← breakpointShelf.removed_congr hsame]; exact hrc⟩

/-- `all` is no list of numbers, and all breakpoints are deleted. -/
theorem del_all : ¬ (delBreakpoints Unit).Exact threeBreakpoints "all".toList := by
  intro h
  have hnum : numbersBelow (breakpointShelf.table threeBreakpoints.dbg).count "all".toList =
      none := by decide
  rw [Deletion.Exact, hnum] at h
  obtain ⟨rc, hrc⟩ := h
  have hcount : ((delBreakpoints Unit).command (some "all".toList)
      threeBreakpoints).final.dbg.breakpoints.count = 3 := by
    rw [hrc]
    rfl
  exact absurd hcount (by decide)

end Cdbg
