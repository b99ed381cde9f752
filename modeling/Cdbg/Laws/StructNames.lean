import Cdbg.Laws.Identifiers
import Cdbg.Machine.Script

/-!
Names of structures that are taken for scalar types.

`type_is_scalar` looks for the words of the base types anywhere in a name. `print`, `set` and
`watch` treat a variable as a structure only if it answers no, which for an identifier it does
exactly if none of the words is a part of it (`typeIsScalar_iff`); and `print` then shows the
members if the debugging information lists them for a structure of that name
(`structure_iff`).
-/

namespace Cdbg

open CString Token

variable {σ : Type}

/-- The words `type_is_scalar` looks for. -/
def scalarWords : List Str :=
  ["char".toList, "short".toList, "int".toList, "long".toList, "bool".toList]

lemma typeIsScalar_iff {type : Str} (h : isSimpleIdentifier type = true) :
    typeIsScalar type = false ↔ ∀ word ∈ scalarWords, ¬ word <:+: type := by
  have hstar : '*' ∉ type := fun hmem => absurd (isIdChar_of_mem h _ hmem) (by decide)
  have hword (word : Str) : hasSubstr type word = false ↔ ¬ word <:+: type := by
    rw [← hasSubstr_iff, Bool.not_eq_true]
  simp only [typeIsScalar, scalarWords, Bool.or_eq_false_iff, decide_eq_false_iff_not, hword,
    List.forall_mem_cons, List.not_mem_nil, false_imp_iff, implies_true, and_true, hstar,
    not_false_eq_true, true_and, and_assoc]

/-- A variable `x` of a type is treated as a structure: its type is no scalar type, `print`
shows its members, and `set` and `watch` refuse it. -/
structure World.TreatedWhole (w : World σ) (x type : Str) : Prop where
  notScalar : typeIsScalar type = false
  shown : ∃ members size, dwarfLookupStruct w.dbg type = some (members, size) ∧
    ∃ a ms, printShows .default x w = some ⟨a, .members w.dbg.printPretty ms⟩ ∧
      ms.map MemberShown.name = members.map StructMember.name
  setRefused : ∀ rhs, (setStorage x rhs w).value = some (-1) ∧
    (setStorage x rhs w).final.proc = w.proc
  watchRefused : ∀ kind, (cmdWatch (some x) kind w).value = some (-1) ∧
    (cmdWatch (some x) kind w).final.proc = w.proc ∧
    (cmdWatch (some x) kind w).final.dbg.watchpoints = w.dbg.watchpoints

variable {w v : World σ} {t : List (Event σ)} {x type : Str} {var : VarInfo} {addr : Addr}

/-- A variable whose type is an identifier is a local one, with a short name. -/
lemma name_length_le (hvar : resolveVariableAddress v.dbg x = some (var, addr))
    (htype : isSimpleIdentifier var.type = true) : x.length ≤ 127 := by
  rw [resolveVariableAddress] at hvar
  split at hvar
  next hlocal => exact findLocalVar_name_length hlocal
  · split at hvar
    · cases hvar
    · split at hvar
      · cases hvar
      · obtain ⟨rfl, -⟩ := Prod.mk.inj (Option.some.inj hvar)
        rw [completeVarType_type] at htype
        exact absurd (show isSimpleIdentifier symbolType = true from htype) (by decide)

/-- A variable whose type is an identifier is no array and no pointer. -/
lemma plain_of_identifier (hvar : resolveVariableAddress v.dbg x = some (var, addr))
    (htype : isSimpleIdentifier var.type = true) :
    var.isArray = false ∧ var.isPointer = false := by
  obtain ⟨raw, -, rfl⟩ := resolveVariableAddress_completed hvar
  rw [completeVarType_type] at htype
  have hchars := isIdChar_of_mem htype
  have hstar : '*' ∉ raw.type := fun hmem => absurd (hchars _ hmem) (by decide)
  have hbracket : '[' ∉ raw.type := fun hmem => absurd (hchars _ hmem) (by decide)
  exact ⟨(completeVarType_scalar v.dbg hbracket).1,
    (completeVarType_isPointer v.dbg raw).trans (decide_eq_false hstar)⟩

/-- The storage that a whole variable of a type with no scalar's name is. -/
lemma exprEvalLvalue_whole (hx : isSimpleIdentifier x = true)
    (hvar : resolveVariableAddress v.dbg x = some (var, addr))
    (htype : isSimpleIdentifier var.type = true) (hscalar : typeIsScalar var.type = false) :
    v.exprEvalLvalue x = some (⟨addr, var.size, var.isSigned, var.type⟩, true) := by
  have hlen := name_length_le hvar htype
  have hcut : truncate 128 x = x := List.take_of_length_le hlen
  have hne : var.type ≠ [] := by
    intro h
    rw [h] at htype
    cases htype
  rw [World.exprEvalLvalue, exprParse_name hx, hcut]
  dsimp only
  rw [World.eval, World.identLvalue, hvar]
  simp [(plain_of_identifier hvar htype).1, hne, hscalar]

/-- `set` of such a variable fails. -/
lemma setStorage_refused (hr : refreshRegs w = ⟨some 0, v, t⟩)
    (hwhole : ∃ lv, v.exprEvalLvalue x = some (lv, true)) (rhs : Str) :
    (setStorage x rhs w).value = some (-1) ∧ (setStorage x rhs w).final.proc = w.proc := by
  obtain ⟨lv, hlv⟩ := hwhole
  obtain ⟨t', ht'⟩ := refreshRegs_twice hr
  have hproc : v.proc = w.proc := by
    obtain ⟨regs, rfl⟩ := refreshRegs_frame hr
    rfl
  rw [setStorage, Prog.get_bind]
  by_cases hlang : w.dbg.languageCheckExpr = false
  · rw [if_pos hlang]
    exact ⟨rfl, rfl⟩
  rw [if_neg hlang, Prog.bind_of_eq (exprEval_run (by simpa using hlang) hr rhs)]
  cases (exprParse rhs).bind fun root => (v.eval root).value with
  | none => exact ⟨rfl, hproc⟩
  | some result =>
  dsimp only
  by_cases haddr : result.isAddress = true
  · rw [if_pos haddr]
    exact ⟨rfl, hproc⟩
  have hlhs : resolveSetLhs x v = ⟨some none, v, t'⟩ := by
    rw [resolveSetLhs, Prog.bind_of_eq ht', if_neg (by simp)]
    by_cases hamp : x.head? = some '&'
    · simp [hamp]
    · simp [hamp, hlv]
  rw [if_neg haddr, Prog.bind_of_eq hlhs]
  exact ⟨rfl, hproc⟩

/-- So does `watch`. -/
lemma cmdWatch_refused (hr : refreshRegs w = ⟨some 0, v, t⟩) (hx : isSimpleIdentifier x = true)
    (hlen : x.length ≤ 127) (hwhole : ∃ lv, v.exprEvalLvalue x = some (lv, true))
    (kind : WatchKind) : (cmdWatch (some x) kind w).value = some (-1) ∧
      (cmdWatch (some x) kind w).final.proc = w.proc ∧
      (cmdWatch (some x) kind w).final.dbg.watchpoints = w.dbg.watchpoints := by
  obtain ⟨lv, hlv⟩ := hwhole
  have hframe : v.proc = w.proc ∧ v.dbg.watchpoints = w.dbg.watchpoints := by
    obtain ⟨regs, rfl⟩ := refreshRegs_frame hr
    exact ⟨rfl, rfl⟩
  have hcut : truncate 256 x = x := List.take_of_length_le (by omega)
  rw [cmdWatch, trimSpace_identifier hx, if_neg (ne_nil_of_identifier hx), Prog.get_bind, hcut]
  by_cases hstop : w.dbg.pid = 0 ∨ w.dbg.state ≠ .stopped
  · rw [if_pos hstop]
    exact ⟨rfl, rfl, rfl⟩
  rw [if_neg hstop]
  by_cases hlang : w.dbg.languageCheckExpr = false
  · rw [if_pos hlang]
    exact ⟨rfl, rfl, rfl⟩
  rw [if_neg hlang, Prog.bind_of_eq hr, if_neg (by simp)]
  by_cases hfull : maxWatchpoints ≤ w.dbg.watchpoints.count
  · rw [if_pos hfull]
    exact ⟨rfl, hframe⟩
  rw [if_neg hfull]
  cases findFreeWatchSlot w.dbg.watchpoints with
  | none => exact ⟨rfl, hframe⟩
  | some slot =>
      dsimp only
      rw [Prog.get_bind, hlv]
      exact ⟨rfl, hframe⟩

/-! ### The members -/

/-- What `print` shows for a variable whose type is the name of a structure. -/
lemma printVariable_structure (hvar : resolveVariableAddress v.dbg x = some (var, addr))
    (htype : isSimpleIdentifier var.type = true) (hscalar : typeIsScalar var.type = false)
    {members : List StructMember} {size : ℕ}
    (hlookup : dwarfLookupStruct v.dbg var.type = some (members, size)) :
    v.printVariable .default var addr = v.printStruct addr var.type members := by
  obtain ⟨harray, hpointer⟩ := plain_of_identifier hvar htype
  rw [World.printVariable, if_neg (by simp [harray]), if_pos ⟨hpointer, rfl, hscalar⟩, hlookup]

/-- **Structures are not taken for scalars** exactly if no word of a base type is a part of the
name and the debugging information lists members, which can be read. -/
theorem structure_iff (type : Str) (htype : isSimpleIdentifier type = true) :
    (typeIsScalar type = false ↔ ∀ word ∈ scalarWords, ¬ word <:+: type) ∧
    ∀ {w v : World σ} {t : List (Event σ)} {x : Str} {var : VarInfo} {addr : Addr},
      isSimpleIdentifier x = true → refreshRegs w = ⟨some 0, v, t⟩ →
      resolveVariableAddress v.dbg x = some (var, addr) → var.type = type →
      (w.TreatedWhole x type ↔ (∀ word ∈ scalarWords, ¬ word <:+: type) ∧
        w.dbg.languageCheckExpr = true ∧
        ∃ members size, dwarfLookupStruct w.dbg type = some (members, size) ∧
          w.MembersReadable addr members) := by
  refine ⟨typeIsScalar_iff htype, fun {w v t x var addr} hx hr hvar hvartype => ?_⟩
  subst hvartype
  have hlen := name_length_le hvar htype
  rw [← typeIsScalar_iff htype]
  -- refreshing the registers changes neither memory nor debugging information
  have hstruct : dwarfLookupStruct w.dbg var.type = dwarfLookupStruct v.dbg var.type ∧
      w.dbg.printPretty = v.dbg.printPretty ∧
      ∀ members, w.MembersReadable addr members ↔ v.MembersReadable addr members := by
    obtain ⟨regs, rfl⟩ := refreshRegs_frame hr
    exact ⟨rfl, rfl, fun _ => Iff.rfl⟩
  obtain ⟨hlookup, hpretty, hreadable⟩ := hstruct
  constructor
  · rintro ⟨hscalar, ⟨members, size, hmembers, a, ms, hshown, -⟩, -, -⟩
    have hlang : w.dbg.languageCheckExpr = true := by
      by_contra h
      rw [printShows_unsupported (by simpa using h)] at hshown
      cases hshown
    refine ⟨hscalar, hlang, members, size, hmembers, ?_⟩
    -- `print` has listed the members, so each of them could be read
    rw [output_name hlang hr hx (lt_of_le_of_lt hlen (by decide)) hvar,
      printVariable_structure hvar htype hscalar (hlookup ▸ hmembers), World.printStruct] at hshown
    obtain ⟨ms', hms', -⟩ := Option.map_eq_some_iff.mp hshown
    rw [hreadable, membersReadable_iff addr members v.dbg.printPretty, hms']
    rfl
  · rintro ⟨hscalar, hlang, members, size, hmembers, hread⟩
    have hwhole := exprEvalLvalue_whole hx hvar htype hscalar
    rw [hreadable, membersReadable_iff addr members v.dbg.printPretty] at hread
    obtain ⟨ms, hms⟩ := Option.isSome_iff_exists.mp hread
    refine ⟨hscalar, ⟨members, size, hmembers, v.dbg.annotationText .default var.type, ms, ?_,
      printStructElement_names hms⟩, setStorage_refused hr ⟨_, hwhole⟩,
      cmdWatch_refused hr hx hlen ⟨_, hwhole⟩⟩
    rw [output_name hlang hr hx (lt_of_le_of_lt hlen (by decide)) hvar,
      printVariable_structure hvar htype hscalar (hlookup ▸ hmembers), World.printStruct, hms,
      hpretty]
    rfl

/-! ### Two structures -/

/-- A debuggee stopped in a function with a variable `p` of a structure type of this name, which
has the members `x` and `y`. -/
def stoppedAtStruct (name : String) : World Unit where
  dbg := { Dbg.init with
    pid := 7
    state := .stopped
    regs := (Thread.at 1 0x1010).regs
    debugInfo := some ["0x10: DW_TAG_structure_type".toList,
      "DW_AT_name (\"".toList ++ name.toList ++ "\")".toList, "DW_AT_byte_size (0x08)".toList,
      "0x18:   DW_TAG_member".toList, "DW_AT_name (\"x\")".toList, "DW_AT_type (\"int\")".toList,
      "DW_AT_data_member_location (0x00)".toList,
      "0x20:   DW_TAG_member".toList, "DW_AT_name (\"y\")".toList, "DW_AT_type (\"int\")".toList,
      "DW_AT_data_member_location (0x04)".toList, "0x28:   NULL".toList,
      "0x30: DW_TAG_subprogram".toList, "DW_AT_low_pc (0x1000)".toList,
      "DW_AT_high_pc (0x1080)".toList, "0x40:   DW_TAG_variable".toList,
      "DW_AT_location (DW_OP_breg31 WSP+8)".toList, "DW_AT_name (\"p\")".toList,
      "DW_AT_type (\"".toList ++ name.toList ++ "\")".toList] }
  proc := some (.resting (.numbered (.at 1 0x1010) []) fun _ => 1)
  host := ()

/-- A structure named `pair` is treated as one. -/
theorem structure_iff_pair : (stoppedAtStruct "pair").TreatedWhole "p".toList "pair".toList := by
  have hvar : resolveVariableAddress (refreshRegs (stoppedAtStruct "pair")).final.dbg "p".toList =
      some (⟨"p".toList, "pair".toList, [], 8, .sp, 8, 0, 8, 0, true, false, true, false⟩, 8) := by
    decide +kernel
  have hlookup : dwarfLookupStruct (stoppedAtStruct "pair").dbg "pair".toList =
      some ([⟨"x".toList, "int".toList, 0, 4, true⟩, ⟨"y".toList, "int".toList, 4, 4, true⟩],
        8) := by
    decide +kernel
  refine ((structure_iff "pair".toList (by decide)).2 (by decide) rfl hvar rfl).mpr
    ⟨fun word hword => ?_, rfl, _, _, hlookup, fun m hm => ?_⟩
  · rw [← hasSubstr_iff, Bool.not_eq_true]
    revert word
    decide
  · revert m
    decide +kernel

/-- One named `point` is not: the name has `int` in it. `print` shows a number, and a
watchpoint is set on it. -/
theorem structure_point :
    typeIsScalar "point".toList = true ∧
      printShows .default "p".toList (stoppedAtStruct "point") =
        some ⟨some "point".toList, .number 0x01010101 0x01010101⟩ ∧
      (cmdWatch (some "p".toList) .write (stoppedAtStruct "point")).value = some 0 ∧
      ¬ (stoppedAtStruct "point").TreatedWhole "p".toList "point".toList := by
  have hscalar : typeIsScalar "point".toList = true := by decide
  refine ⟨hscalar, by decide +kernel, by decide +kernel, fun h => ?_⟩
  rw [h.notScalar] at hscalar
  cases hscalar

end Cdbg
