import Cdbg.Control.Start
import Cdbg.Laws.LineLookup
import Cdbg.Repl.Commands

/-!
Where `break` with the name of a function, and the stop at the entry of the program, plant
their breakpoint: whether the address lies in the function.

Both skip the prologue by going to the lowest row above the function's own address that
has the same file and another line. Nothing bounds that search by the end of the
function, so a function of one line gets its breakpoint in the next function of the file.
-/

namespace Cdbg

open CString

/-- Whether a symbol is defined and stands in the code. -/
def SymEntry.isText (e : SymEntry) : Bool := e.isDefined && (e.type = 'T' || e.type = 't')

/-- An address lies in the function of a symbol: from the symbol on, and before the text
symbol with the next higher address. -/
def SymTable.InFunction (syms : SymTable) (s : SymEntry) (a : Addr) : Prop :=
  syms.runtimeAddr s.address ≤ a ∧
    ∀ t ∈ syms.entries, t.isText → syms.runtimeAddr s.address < syms.runtimeAddr t.address →
      a < syms.runtimeAddr t.address

instance (syms : SymTable) (s : SymEntry) (a : Addr) : Decidable (syms.InFunction s a) :=
  inferInstanceAs (Decidable (_ ∧ _))

lemma SymTable.inFunction_self (syms : SymTable) (s : SymEntry) :
    syms.InFunction s (syms.runtimeAddr s.address) :=
  ⟨BitVec.le_refl _, fun _ _ _ h => h⟩

namespace LineTable

variable {ln : LineTable} {pc : Addr} {P : Addr → Prop}

/-- The rows of lowest link address among those of a kind lie where `P` says. -/
def Lands (ln : LineTable) (C : LineEntry → Prop) (P : Addr → Prop) : Prop :=
  ∀ e ∈ ln.entries, C e → (∀ e' ∈ ln.entries, C e' → e.address ≤ e'.address) →
    P (ln.runtimeAddr e.address)

/-- A search for the first row of lowest address lands where all such rows lie. -/
lemma lands_iff {C : LineEntry → Prop} [DecidablePred C] {r : Option LineEntry}
    (hr : r = (ln.entries.filter (fun e => C e)).argmin (fun e => e.address.toNat)) :
    (∀ e ∈ r, P (ln.runtimeAddr e.address)) ↔ ln.Lands C P := by
  subst hr
  constructor
  · intro h e he hC hmin
    cases hr : (ln.entries.filter (fun e => C e)).argmin (fun e => e.address.toNat) with
    | none =>
      have hnil := List.argmin_eq_none.mp hr
      exact absurd (List.mem_filter.mpr ⟨he, decide_eq_true hC⟩) (hnil ▸ List.not_mem_nil)
    | some m =>
      have hm := List.mem_filter.mp (List.argmin_mem hr)
      have hme : m.address = e.address := by
        have hle : e.address ≤ m.address := hmin m hm.1 (of_decide_eq_true hm.2)
        have hge := List.le_of_mem_argmin (f := fun e : LineEntry => e.address.toNat)
          (List.mem_filter.mpr ⟨he, decide_eq_true hC⟩) hr
        exact BitVec.le_antisymm (BitVec.le_def.mpr hge) hle
      exact hme ▸ h m hr
  · intro h e he
    have hm := List.mem_filter.mp (List.argmin_mem he)
    refine h e hm.1 (of_decide_eq_true hm.2) fun e' he' hC' => ?_
    exact BitVec.le_def.mpr (List.le_of_mem_argmin (f := fun e : LineEntry => e.address.toNat)
      (List.mem_filter.mpr ⟨he', decide_eq_true hC'⟩) he)

/-- The rows that the skip of the prologue considers for an address: above it, in the file
of its row and with another line. -/
def Follows (ln : LineTable) (pc : Addr) (e : LineEntry) : Prop :=
  pc < ln.runtimeAddr e.address ∧
    ∃ current ∈ ln.entries, ln.Nearest pc current ∧ e.file = current.file ∧
      e.line ≠ current.line

instance (e : LineEntry) : Decidable (ln.Follows pc e) := inferInstanceAs (Decidable (_ ∧ _))

lemma follows_iff {current e : LineEntry} (h : ln.Nearest pc current) :
    ln.Follows pc e ↔
      pc < ln.runtimeAddr e.address ∧ e.file = current.file ∧ e.line ≠ current.line := by
  constructor
  · rintro ⟨habove, x, -, hx, hfile, hline⟩
    have hx' := lookupPc_eq_some_iff.mpr hx
    rw [lookupPc_eq_some_iff.mpr h, Option.some_inj] at hx'
    subst hx'
    exact ⟨habove, hfile, hline⟩
  · rintro ⟨habove, hfile, hline⟩
    exact ⟨habove, current, h.mem, h, hfile, hline⟩

lemma lookupNextLineAfterPc_eq (ln : LineTable) (pc : Addr) : ln.lookupNextLineAfterPc pc =
    (ln.entries.filter (fun e => ln.Follows pc e)).argmin (fun e => e.address.toNat) := by
  cases h : ln.lookupPc pc with
  | none =>
    have hnil : ln.entries.filter (fun e => ln.Follows pc e) = [] := by
      refine List.filter_eq_nil_iff.mpr fun e _ he => ?_
      obtain ⟨-, x, -, hx, -⟩ := of_decide_eq_true he
      rw [lookupPc_eq_some_iff.mpr hx] at h
      exact absurd h (Option.some_ne_none x)
    rw [lookupNextLineAfterPc, h, hnil]
    rfl
  | some current =>
    have hcur := lookupPc_eq_some_iff.mp h
    rw [← List.foldl_min_eq_argmin, lookupNextLineAfterPc, h]
    refine List.foldl_ext _ _ _ fun next e _ => ?_
    simp only [follows_iff hcur]
    by_cases habove : ln.runtimeAddr e.address ≤ pc
    · simp [habove]
    · have habove' : pc < ln.runtimeAddr e.address := BitVec.not_le.mp habove
      by_cases hsame : e.file ≠ current.file ∨ e.line = current.line
      · have : ¬ (e.file = current.file ∧ e.line ≠ current.line) := by tauto
        simp [habove, habove', hsame, this]
      · have : e.file = current.file ∧ e.line ≠ current.line := by tauto
        cases next with
        | none => simp [habove, habove', this]
        | some b => simp [habove, habove', this, BitVec.lt_def]

lemma firstAtOrAfter_eq (ln : LineTable) (addr : Addr) : ln.firstAtOrAfter addr =
    (ln.entries.filter (fun e => addr ≤ ln.runtimeAddr e.address)).argmin
      (fun e => e.address.toNat) := by
  rw [← List.foldl_min_eq_argmin, firstAtOrAfter]
  refine List.foldl_ext _ _ _ fun best e _ => ?_
  by_cases h : ln.runtimeAddr e.address < addr
  · simp [h, BitVec.not_le.mpr h]
  · cases best with
    | none => simp [h, BitVec.not_lt.mp h]
    | some b => simp [h, BitVec.not_lt.mp h, BitVec.lt_def]

/-- A line occurs in two files, or in none. -/
def Ambiguous (ln : LineTable) (line : BitVec 32) : Prop :=
  ∀ e ∈ ln.entries, e.line = line → ∃ e' ∈ ln.entries, e'.line = line ∧ e.file ≠ e'.file

instance (line : BitVec 32) : Decidable (ln.Ambiguous line) :=
  inferInstanceAs (Decidable (∀ _ ∈ _, _))

/-- From a first match on, the search keeps the lowest row if all rows of the line are of
the one file. -/
lemma lookupLineUniqueFrom_eq (line : BitVec 32) (file : Str) (best : LineEntry)
    (es : List LineEntry) : lookupLineUniqueFrom line file best es =
      if ∀ e ∈ es, e.line = line → file = e.file then
        (best :: es.filter fun e => e.line = line).argmin (fun e => e.address.toNat)
      else none := by
  induction es generalizing best with
  | nil => simp [lookupLineUniqueFrom]
  | cons e es ih =>
    by_cases hline : e.line = line
    · by_cases hfile : file = e.file
      · rw [lookupLineUniqueFrom, if_neg (not_not.mpr hline), if_neg (not_not.mpr hfile), ih]
        simp [hline, hfile, List.argmin_cons_cons, BitVec.lt_def]
      · simp [lookupLineUniqueFrom, hline, hfile]
    · simp [lookupLineUniqueFrom, hline, ih]

lemma lookupLineUnique_eq (ln : LineTable) (line : BitVec 32) : ln.lookupLineUnique line =
    if ln.Ambiguous line then none
    else (ln.entries.filter fun e => e.line = line).argmin (fun e => e.address.toNat) := by
  -- the rows before the first of the line are skipped
  obtain ⟨skip, hskip, hentries⟩ : ∃ skip : List LineEntry, (∀ e ∈ skip, e.line ≠ line) ∧
      ln.entries = skip ++ ln.entries.dropWhile (fun e => e.line ≠ line) := by
    refine ⟨ln.entries.takeWhile (fun e => e.line ≠ line), ?_, ?_⟩
    · intro e he
      have := List.all_eq_true.mp List.all_takeWhile e he
      exact of_decide_eq_true this
    · exact List.takeWhile_append_dropWhile.symm
  have hhead := List.head?_dropWhile_not (fun e : LineEntry => e.line ≠ line) ln.entries
  rw [lookupLineUnique]
  generalize ln.entries.dropWhile (fun e => e.line ≠ line) = rest at hentries hhead
  have hskipped : skip.filter (fun e => e.line = line) = [] :=
    List.filter_eq_nil_iff.mpr fun e he => by simpa using hskip e he
  have hfilter : (ln.entries.filter fun e => e.line = line) =
      rest.filter fun e => e.line = line := by
    rw [hentries, List.filter_append, hskipped, List.nil_append]
  rw [hfilter]
  cases rest with
  | nil => simp
  | cons e es =>
    have he : e.line = line := by simpa using hhead
    -- the line is ambiguous exactly if a later row of it has another file than the first
    have hamb : ln.Ambiguous line ↔ ¬ ∀ y ∈ es, y.line = line → e.file = y.file := by
      unfold Ambiguous
      rw [hentries]
      constructor
      · intro h hone
        obtain ⟨y, hy, hyl, hne⟩ := h e (by simp) he
        rcases List.mem_append.mp hy with hy | hy
        · exact hskip y hy hyl
        · rcases List.mem_cons.mp hy with rfl | hy
          · exact hne rfl
          · exact hne (hone y hy hyl)
      · intro h x hx hxl
        push Not at h
        obtain ⟨y, hy, hyl, hne⟩ := h
        by_cases hxe : x.file = e.file
        · exact ⟨y, by simp [hy], hyl, hxe ▸ hne⟩
        · exact ⟨e, by simp, he, hxe⟩
    simp only [lookupLineUniqueFrom_eq, hamb, ite_not]
    simp [he]

end LineTable

/-! ### What `break` takes its argument for -/

/-- The kinds of argument that `break` tells apart. -/
inductive BreakTarget where
  | invalid
  | fileLine (file : Str) (line : BitVec 32)
  | address (addr : Addr)
  | lineOrAddress (number : Addr)
  | symbol
  deriving DecidableEq

/-- The kind of an argument, by its text alone: a `:` with something behind it makes a file
and line, a number is an address or a line, and the rest is the name of a symbol. -/
def breakTarget (target : Str) : BreakTarget :=
  match strrchr target ':' with
  | some (file, c :: line) =>
      if file = [] ∨ linenoMaxFile ≤ file.length then .invalid
      else
        match parseU64 (c :: line) with
        | none => .invalid
        | some lineNo => if lineNo = 0 then .invalid else .fileLine file (lineNo.setWidth 32)
  | _ =>
      match parseU64 target with
      | some parsed =>
          if "0x".toList.isPrefixOf target ∨ "0X".toList.isPrefixOf target then .address parsed
          else .lineOrAddress parsed
      | none => .symbol

/-- The breakpoint for an argument of a kind is in the function of `s`: the number given, or
every lowest row that the argument stands for, lies there. -/
def Dbg.StaysIn (d : Dbg) (s : SymEntry) : BreakTarget → Prop
  | .invalid => True
  | .fileLine file line =>
      d.lineno.Lands (fun e => e.line = line ∧ LineTable.fileMatches e.file (some file))
        (d.syms.InFunction s)
  | .address addr => d.syms.InFunction s addr
  | .lineOrAddress number =>
      if d.lineno.Ambiguous (number.setWidth 32) then d.syms.InFunction s number
      else d.lineno.Lands (fun e => e.line = number.setWidth 32) (d.syms.InFunction s)
  | .symbol =>
      d.lineno.Lands (d.lineno.Follows (d.syms.runtimeAddr s.address)) (d.syms.InFunction s)

/-- The entry stop is in the function of `s`: every lowest row above `s` of its file and
another line lies there, or if there is none, every lowest row from `s` on. -/
def Dbg.EntryStaysIn (d : Dbg) (s : SymEntry) : Prop :=
  d.lineno.Lands (d.lineno.Follows (d.syms.runtimeAddr s.address)) (d.syms.InFunction s) ∧
    ((∀ e ∈ d.lineno.entries, ¬ d.lineno.Follows (d.syms.runtimeAddr s.address) e) →
      d.lineno.Lands (fun e => d.syms.runtimeAddr s.address ≤ d.lineno.runtimeAddr e.address)
        (d.syms.InFunction s))

variable {d : Dbg} {s : SymEntry} {target : Str}

/-- A row given by file and line lies where the lowest rows of that file and line lie. -/
lemma fileLine_stays_iff {file : Str} {line : BitVec 32} (hfile : file ≠ []) :
    (∀ a ∈ d.resolveBreakLine (some file) line, d.syms.InFunction s a) ↔
      d.StaysIn s (.fileLine file line) := by
  obtain ⟨c, f, rfl⟩ := List.exists_cons_of_ne_nil hfile
  rw [Dbg.StaysIn, ← LineTable.lands_iff (d.lineno.lookupLine_eq _ _), Dbg.resolveBreakLine]
  simp [Option.mem_def]

/-- A number without a file stands for the line of that number, if just one file has it,
and for the address otherwise. -/
lemma lineOrAddress_stays_iff {number : Addr} :
    d.syms.InFunction s ((d.resolveBreakLine none (number.setWidth 32)).getD number) ↔
      d.StaysIn s (.lineOrAddress number) := by
  have hline : d.resolveBreakLine none (number.setWidth 32) =
      (d.lineno.lookupLineUnique (number.setWidth 32)).map
        fun e => d.lineno.runtimeAddr e.address := rfl
  rw [Dbg.StaysIn, hline, LineTable.lookupLineUnique_eq]
  by_cases hamb : d.lineno.Ambiguous (number.setWidth 32)
  · simp [hamb]
  · rw [if_neg hamb, if_neg hamb, ← LineTable.lands_iff rfl]
    cases hrow : (d.lineno.entries.filter fun e => e.line = number.setWidth 32).argmin
        (fun e => e.address.toNat) with
    | none =>
      have hempty := List.filter_eq_nil_iff.mp (List.argmin_eq_none.mp hrow)
      refine absurd (fun e he hel => ?_) hamb
      exact absurd (decide_eq_true hel) (hempty e he)
    | some e => simp

/-- For a function the breakpoint lies where the rows behind its prologue lie. -/
lemma symbol_stays_iff (hs : s.isDefined) (h : d.syms.lookupName target = some s) :
    (∀ a ∈ d.resolveBreakSymbol target, d.syms.InFunction s a) ↔ d.StaysIn s .symbol := by
  rw [Dbg.StaysIn, ← LineTable.lands_iff (d.lineno.lookupNextLineAfterPc_eq _),
    Dbg.resolveBreakSymbol, h]
  cases hnext : d.lineno.lookupNextLineAfterPc (d.syms.runtimeAddr s.address) with
  | none => simp [hs, hnext, SymTable.inFunction_self]
  | some e => simp [hs, hnext]

/-- An argument that names no file is a number or a symbol. -/
lemma number_stays_iff (hs : s.isDefined) (h : d.syms.lookupName target = some s) :
    (∀ a ∈ (match parseU64 target with
      | some parsed =>
          if "0x".toList.isPrefixOf target ∨ "0X".toList.isPrefixOf target then some parsed
          else
            match d.resolveBreakLine none (parsed.setWidth 32) with
            | some addr => some addr
            | none => some parsed
      | none => d.resolveBreakSymbol target), d.syms.InFunction s a) ↔
      d.StaysIn s (match parseU64 target with
      | some parsed =>
          if "0x".toList.isPrefixOf target ∨ "0X".toList.isPrefixOf target then .address parsed
          else .lineOrAddress parsed
      | none => .symbol) := by
  cases parseU64 target with
  | none => exact symbol_stays_iff hs h
  | some parsed =>
    by_cases hx : "0x".toList.isPrefixOf target ∨ "0X".toList.isPrefixOf target
    · simp only [if_pos hx, Dbg.StaysIn]
      simp
    · simp only [if_neg hx, ← lineOrAddress_stays_iff]
      cases d.resolveBreakLine none (parsed.setWidth 32) <;> simp

/-- The breakpoint of `break` is in a function as its argument says. -/
lemma break_stays_iff (hs : s.isDefined) (h : d.syms.lookupName target = some s) :
    (∀ a ∈ d.resolveBreakTarget target, d.syms.InFunction s a) ↔
      d.StaysIn s (breakTarget target) := by
  unfold Dbg.resolveBreakTarget breakTarget
  rcases hcolon : strrchr target ':' with _ | ⟨file, _ | ⟨c, line⟩⟩
  · exact number_stays_iff hs h
  · exact number_stays_iff hs h
  · by_cases hfile : file = [] ∨ linenoMaxFile ≤ file.length
    · simp [hfile, Dbg.StaysIn]
    · simp only [hfile, if_false]
      cases parseU64 (c :: line) with
      | none => simp [Dbg.StaysIn]
      | some lineNo =>
        by_cases hzero : lineNo = 0
        · simp [hzero, Dbg.StaysIn]
        · simp only [hzero, if_false]
          exact fileLine_stays_iff fun h => hfile (.inl h)

/-- The entry stop lies where the rows behind the prologue of `main` lie, or without such
rows where the first rows from there on lie. -/
lemma entry_stays_iff (hs : s.isDefined) (h : d.syms.lookupName "main".toList = some s) :
    (∀ a ∈ d.resolveEntryStopAddr, d.syms.InFunction s a) ↔ d.EntryStaysIn s := by
  have hnone := List.argmin_eq_none (f := fun e : LineEntry => e.address.toNat)
    (l := d.lineno.entries.filter fun e => d.lineno.Follows (d.syms.runtimeAddr s.address) e)
  rw [← LineTable.lookupNextLineAfterPc_eq, List.filter_eq_nil_iff] at hnone
  simp only [decide_eq_true_eq] at hnone
  rw [Dbg.EntryStaysIn, ← LineTable.lands_iff (d.lineno.lookupNextLineAfterPc_eq _),
    ← LineTable.lands_iff (d.lineno.firstAtOrAfter_eq _), Dbg.resolveEntryStopAddr, h, ← hnone]
  cases hnext : d.lineno.lookupNextLineAfterPc (d.syms.runtimeAddr s.address) with
  | none =>
    cases hfirst : d.lineno.firstAtOrAfter (d.syms.runtimeAddr s.address) with
    | none => simp [hs, hnext, hfirst, SymTable.inFunction_self]
    | some e => simp [hs, hnext, hfirst]
  | some e => simp [hs, hnext]

/-- **A breakpoint on a function stays in it** exactly if the lowest row behind the
prologue does, and so does the entry stop in `main`. -/
theorem break_in_function (d : Dbg) (name : Str) (s : SymEntry)
    (h : d.syms.lookupName name = some s) (hs : s.isText) :
    ((∀ a, d.resolveBreakTarget name = some a → d.syms.InFunction s a) ↔
      d.StaysIn s (breakTarget name)) ∧
    (name = "main".toList →
      ((∀ a, d.resolveEntryStopAddr = some a → d.syms.InFunction s a) ↔ d.EntryStaysIn s)) := by
  have hdef : s.isDefined := by
    rw [SymEntry.isText, Bool.and_eq_true] at hs
    exact hs.1
  refine ⟨break_stays_iff hdef h, ?_⟩
  rintro rfl
  exact entry_stays_iff hdef h

/-- Two functions of one file: `f` stands on one line, `g` on two. -/
def twoFunctions : Dbg :=
  { Dbg.init with
    syms := ⟨[⟨0x3f00, 'T', "_f".toList⟩, ⟨0x3f20, 'T', "_g".toList⟩], 0, 0x100000⟩
    lineno := ⟨[⟨0x3f00, 1, 0, "a.c".toList⟩, ⟨0x3f20, 3, 0, "a.c".toList⟩,
      ⟨0x3f30, 4, 0, "a.c".toList⟩], 0, 0x100000⟩ }

theorem break_in_function_g :
    ∃ a, twoFunctions.resolveBreakTarget "g".toList = some a ∧
      twoFunctions.syms.InFunction ⟨0x3f20, 'T', "_g".toList⟩ a :=
  ⟨0x103f30, by decide,
    (break_in_function twoFunctions "g".toList ⟨0x3f20, 'T', "_g".toList⟩ (by decide)
      (by decide)).1.mpr (by
        have htarget : breakTarget "g".toList = .symbol := by decide
        rw [htarget, Dbg.StaysIn, LineTable.Lands]
        decide) 0x103f30 (by decide)⟩

/-- `break f` plants its breakpoint in `g`. -/
theorem break_leaves_function :
    twoFunctions.syms.lookupName "f".toList = some ⟨0x3f00, 'T', "_f".toList⟩ ∧
      ∃ a, twoFunctions.resolveBreakTarget "f".toList = some a ∧
        ¬ twoFunctions.syms.InFunction ⟨0x3f00, 'T', "_f".toList⟩ a :=
  ⟨by decide, 0x103f20, by decide, by decide⟩

end Cdbg
