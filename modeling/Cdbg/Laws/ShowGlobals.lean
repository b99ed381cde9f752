import Cdbg.Dwarf.Show
import Cdbg.Lib.Firsts

/-!
`show globals`: whether it lists a global once.

The globals of the debugging information are listed first and then the data symbols, both
under the names they have there. Only names are compared, so a C global is listed a second time
as the symbol with the underscore, as long as there is room.
-/

namespace Cdbg

open CString

variable {d : Dbg} {max : ℕ}

/-- The name under which a variable is listed. -/
def ShowVar.name (v : ShowVar) : Str := v.var.name

/-- A variable as it is stored. -/
def ShowVar.complete (d : Dbg) (v : ShowVar) : ShowVar :=
  ⟨completeVarType d { v.var with hasLocation := true }, v.addr⟩

lemma completeVarType_name (d : Dbg) (var : VarInfo) : (completeVarType d var).name = var.name := by
  rw [completeVarType]
  split <;> rfl

@[simp] lemma ShowVar.name_complete (v : ShowVar) : (v.complete d).name = v.name :=
  completeVarType_name d _

lemma showVarNameExists_iff {vars : List ShowVar} {name : Str} :
    showVarNameExists vars name = true ↔ name ∈ vars.map ShowVar.name := by
  simp only [showVarNameExists, List.any_eq_true, decide_eq_true_eq, List.mem_map]
  rfl

/-- A variable with a name is collected under it. -/
lemma showVarPush_eq (vars : List ShowVar) (v : ShowVar) :
    showVarPush d max vars v.var v.addr =
      if v.name = [] then vars else vars.collect ShowVar.name max (v.complete d) := by
  have hex : showVarNameExists vars v.var.name = true ↔
      (v.complete d).name ∈ vars.map ShowVar.name := by
    rw [ShowVar.name_complete]
    exact showVarNameExists_iff
  rw [showVarPush, List.collect]
  by_cases hname : v.var.name = []
  · have hname' : v.name = [] := hname
    rw [if_pos hname, if_pos hname']
  have hname' : v.name ≠ [] := hname
  rw [if_neg hname, if_neg hname']
  by_cases hfull : max ≤ vars.length
  · rw [if_pos hfull, if_pos (.inl hfull)]
  rw [if_neg hfull]
  by_cases hmem : (v.complete d).name ∈ vars.map ShowVar.name
  · rw [if_pos (hex.mpr hmem), if_pos (.inr hmem)]
  · rw [if_neg (mt hex.mp hmem), if_neg (not_or.mpr ⟨hfull, hmem⟩)]
    rfl

/-! ### Names that fit -/

namespace ShowScan

variable {s : ShowScan} {line : Str}

lemma fits_forget (h : s.var.name.length ≤ 127) : s.forget.var.name.length ≤ 127 := by
  rw [forget]
  split
  · exact Nat.zero_le _
  · exact h

lemma fits_entry (h : s.var.name.length ≤ 127) : (s.entry line).var.name.length ≤ 127 := by
  rw [entry]
  repeat' split
  all_goals first
    | exact h
    | exact Nat.zero_le _

lemma fits_attr (h : s.var.name.length ≤ 127) (linkPc : Addr) :
    (s.attr linkPc line).var.name.length ≤ 127 := by
  have hloc : (parseFbregOffset line s.var).1.name.length ≤ 127 := by
    rw [parseFbregOffset_name]
    exact h
  rw [attr]
  dsimp only
  repeat' split
  all_goals first
    | exact h
    | exact hloc
    | exact parseQuotedValue_length ‹_›

lemma fits_run {scope : ShowScope} {linkPc : Addr} {lines : List Str} :
    ∀ {s : ShowScan}, s.var.name.length ≤ 127 →
      ∀ v ∈ s.run d scope linkPc lines, v.name.length ≤ 127 := by
  have hshown : ∀ {s : ShowScan}, s.var.name.length ≤ 127 →
      ∀ v ∈ s.shown d scope, v.name.length ≤ 127 := by
    intro s h v hv
    rw [shown] at hv
    split at hv
    · obtain rfl := List.mem_singleton.mp hv
      exact h
    · cases hv
  induction lines with
  | nil => exact fun h => hshown h
  | cons line lines ih =>
      intro s h v hv
      rw [run] at hv
      split at hv
      · rcases List.mem_append.mp hv with hv | hv
        · exact hshown h v hv
        · exact ih (fits_attr (fits_entry (fits_forget h)) linkPc) v hv
      · exact ih (fits_attr h linkPc) v hv

end ShowScan

lemma fits_shownVars (d : Dbg) (scope : ShowScope) :
    ∀ v ∈ shownVars d scope, v.name.length ≤ 127 := by
  rw [shownVars]
  split
  · nofun
  · exact ShowScan.fits_run (Nat.zero_le _)

/-! ### The entries of the list -/

/-- Whether a symbol is listed. -/
def SymEntry.isGlobal (e : SymEntry) : Bool := e.address ≠ 0 && symIsGlobalData e.type

/-- A symbol as a variable. -/
def SymEntry.shown (d : Dbg) (e : SymEntry) : ShowVar := ⟨symVar e, d.syms.runtimeAddr e.address⟩

/-- The variables and then the symbols that have a name, in the order in which they are met. -/
def Dbg.globalEntries (d : Dbg) : List ShowVar :=
  (shownVars d .globals ++ (d.syms.entries.filter SymEntry.isGlobal).map (SymEntry.shown d)).filter
    fun v => v.name ≠ []

/-- Pushing variables one after the other collects those with a name. -/
lemma foldl_showVarPush (vs : List ShowVar) (vars : List ShowVar) :
    vs.foldl (fun vars v => showVarPush d max vars v.var v.addr) vars =
      ((vs.filter fun v => v.name ≠ []).map (ShowVar.complete d)).foldl
        (List.collect ShowVar.name max) vars := by
  induction vs generalizing vars with
  | nil => rfl
  | cons v vs ih =>
      rw [List.foldl_cons, showVarPush_eq, ih]
      by_cases hname : v.name = []
      · rw [if_pos hname, List.filter_cons_of_neg (by simp [hname])]
      · rw [if_neg hname, List.filter_cons_of_pos (by simp [hname])]
        rfl

/-- A full list stays as it is. -/
lemma foldl_showVarPush_full {vars : List ShowVar} (h : max ≤ vars.length) (vs : List ShowVar) :
    vs.foldl (fun vars v => showVarPush d max vars v.var v.addr) vars = vars := by
  induction vs with
  | nil => rfl
  | cons v vs ih =>
      have hpush : showVarPush d max vars v.var v.addr = vars := by
        rw [showVarPush]
        split_ifs <;> rfl
      rw [List.foldl_cons, hpush, ih]

/-- The names of the variables pushed fit. -/
lemma fits_showVarPush {vars : List ShowVar} (h : ∀ v ∈ vars, v.name.length ≤ 127) {v : ShowVar}
    (hv : v.name.length ≤ 127) :
    ∀ u ∈ showVarPush d max vars v.var v.addr, u.name.length ≤ 127 := by
  intro u hu
  rw [showVarPush_eq, List.collect] at hu
  split_ifs at hu
  · exact h u hu
  · exact h u hu
  · rcases List.mem_append.mp hu with hu | hu
    · exact h u hu
    · rw [List.mem_singleton.mp hu, ShowVar.name_complete]
      exact hv

lemma fits_symShown (e : SymEntry) : (e.shown d).name.length ≤ 127 := List.length_take_le _ _

/-- The symbols are pushed one after the other. -/
lemma collectGlobalsFromSyms_eq {vars : List ShowVar} (h : ∀ v ∈ vars, v.name.length ≤ 127)
    (es : List SymEntry) : collectGlobalsFromSyms d max vars es =
      ((es.filter SymEntry.isGlobal).map (SymEntry.shown d)).foldl
        (fun vars v => showVarPush d max vars v.var v.addr) vars := by
  induction es generalizing vars with
  | nil => rfl
  | cons e es ih =>
      rw [collectGlobalsFromSyms]
      by_cases hfull : max ≤ vars.length
      · rw [if_pos hfull, foldl_showVarPush_full hfull]
      rw [if_neg hfull]
      by_cases hdata : e.address = 0 ∨ symIsGlobalData e.type = false
      · have hnot : ¬ e.isGlobal = true := by
          rcases hdata with h0 | h0 <;> simp [SymEntry.isGlobal, h0]
        rw [if_pos hdata, List.filter_cons_of_neg hnot, ih h]
      · have hglobal : e.isGlobal = true := by
          obtain ⟨hne, htype⟩ := not_or.mp hdata
          rw [SymEntry.isGlobal, Bool.and_eq_true, decide_eq_true_eq]
          exact ⟨hne, Bool.not_eq_false _ |>.mp htype⟩
        rw [if_neg hdata, List.filter_cons_of_pos hglobal, List.map_cons, List.foldl_cons]
        by_cases hex : showVarNameExists vars e.name = true
        -- a name that is there fits, so it is the name of the variable
        · obtain ⟨v, hv, hname⟩ := List.mem_map.mp (showVarNameExists_iff.mp hex)
          have hlen : e.name.length ≤ 127 := hname ▸ h v hv
          have hpush : showVarPush d max vars (e.shown d).var (e.shown d).addr = vars := by
            have hcut : (e.shown d).var.name = e.name := List.take_of_length_le hlen
            rw [showVarPush, hcut, if_pos hex]
            split_ifs <;> rfl
          rw [if_pos hex, hpush, ih h]
        · rw [if_neg hex]
          exact ih (fits_showVarPush h (fits_symShown e))

/-- The list is what is collected of the entries. -/
lemma collectShowVars_globals : collectShowVars d .globals max =
    (d.globalEntries.collected ShowVar.name max).map (ShowVar.complete d) := by
  have hfits : ∀ {vs vars : List ShowVar}, (∀ v ∈ vs, v.name.length ≤ 127) →
      (∀ v ∈ vars, v.name.length ≤ 127) →
      ∀ u ∈ vs.foldl (fun vars v => showVarPush d max vars v.var v.addr) vars,
        u.name.length ≤ 127 := by
    intro vs
    induction vs with
    | nil => exact fun _ h => h
    | cons v vs ih =>
        intro vars hvs hvars
        exact ih (fun u hu => hvs u (List.mem_cons_of_mem v hu))
          (fits_showVarPush hvars (hvs v List.mem_cons_self))
  rw [collectShowVars, if_pos rfl,
    collectGlobalsFromSyms_eq (hfits (fits_shownVars d .globals) fun _ h => absurd h (by simp)),
    ← List.foldl_append,
    foldl_showVarPush, ← List.collected_map (ShowVar.complete d) fun v => ShowVar.name_complete v]
  rfl

/-- `show globals` lists no address twice. -/
def Dbg.ListedOnce (d : Dbg) : Prop :=
  ((collectShowVars d .globals maxShowVars).map ShowVar.addr).Nodup

/-- Of the entries that get a place in the list, the first of their name among the first 128
names, no two have one address. -/
def Dbg.NoClash (d : Dbg) : Prop :=
  ∀ pre x mid y post, d.globalEntries = pre ++ x :: (mid ++ y :: post) →
    List.Fresh ShowVar.name maxShowVars pre x →
      List.Fresh ShowVar.name maxShowVars (pre ++ x :: mid) y → x.addr ≠ y.addr

/-- **Globals**: every global is listed once exactly if no two entries that get a place have one
address. -/
theorem listedOnce_iff (d : Dbg) : d.ListedOnce ↔ d.NoClash := by
  have haddr : (collectShowVars d .globals maxShowVars).map ShowVar.addr =
      (d.globalEntries.collected ShowVar.name maxShowVars).map ShowVar.addr := by
    rw [collectShowVars_globals, List.map_map]
    rfl
  rw [Dbg.ListedOnce, haddr, List.Nodup, List.pairwise_map, List.pairwise_collected]
  rfl

/-- A program with one global, with its debugging information and its symbol. -/
def oneGlobal : Dbg :=
  { Dbg.init with
    debugInfo := some ["0x10: DW_TAG_compile_unit".toList, "0x20:   DW_TAG_variable".toList,
      "DW_AT_name (\"g\")".toList, "DW_AT_type (\"int\")".toList,
      "DW_AT_location (DW_OP_addr 0x8000)".toList, "0x30:   NULL".toList]
    syms := ⟨[⟨0x8000, 'D', "_g".toList⟩], 0, 0⟩ }

/-- It is listed as `g` and as `_g`. -/
theorem listed_twice :
    (collectShowVars oneGlobal .globals maxShowVars).map (fun v => (v.name, v.addr)) =
        [("g".toList, 0x8000), ("_g".toList, 0x8000)] ∧
      ¬ ∀ d : Dbg, d.ListedOnce := by
  have hlist : (collectShowVars oneGlobal .globals maxShowVars).map (fun v => (v.name, v.addr)) =
      [("g".toList, 0x8000), ("_g".toList, 0x8000)] := by
    decide +kernel
  refine ⟨hlist, fun h => ?_⟩
  have hnodup := h oneGlobal
  have haddr := congrArg (List.map Prod.snd) hlist
  rw [List.map_map] at haddr
  have haddr' : (collectShowVars oneGlobal .globals maxShowVars).map ShowVar.addr =
      [0x8000, 0x8000] := haddr
  rw [Dbg.ListedOnce, haddr'] at hnodup
  exact absurd hnodup (by decide)

end Cdbg
