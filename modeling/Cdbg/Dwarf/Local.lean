import Cdbg.Dwarf.Struct

/-!
`find_local_var`, the scanner for a local variable or argument visible at the
program counter, and `resolve_variable_address`.
-/

namespace Cdbg

open CString

/-- The local variables of `find_local_var`. -/
structure VarScan where
  inFunc : Bool
  funcMatches : Bool
  funcDepth : ℕ
  funcLow : Addr
  funcHigh : Addr
  readingVar : Bool
  var : VarInfo

/-- Their initial values. -/
def VarScan.init : VarScan := ⟨false, false, 0, 0, 0, false, .zero⟩

/-- `var_ready`. -/
def VarInfo.ready (var : VarInfo) (name : Str) : Bool :=
  var.hasLocation && var.name ≠ [] && var.name = name

/-- The texts of a variable fit their buffers. -/
structure VarInfo.Fits (var : VarInfo) : Prop where
  name : var.name.length ≤ 127
  type : var.type.length ≤ 127

lemma VarInfo.fits_zero : VarInfo.zero.Fits := ⟨Nat.zero_le _, Nat.zero_le _⟩

namespace VarScan

/-- The effect of a line that gives an attribute. -/
def attr (linkPc : Addr) (line : Str) (s : VarScan) : VarScan :=
  if s.inFunc ∧ hasSubstr line "DW_AT_low_pc".toList then
    let low := (parseHexValue line).getD s.funcLow
    { s with funcLow := low, funcMatches := pcInRange linkPc low s.funcHigh }
  else if s.inFunc ∧ hasSubstr line "DW_AT_high_pc".toList then
    let high := (parseHexValue line).getD s.funcHigh
    { s with funcHigh := high, funcMatches := pcInRange linkPc s.funcLow high }
  else if s.readingVar = false then s
  else
    let located := parseFbregOffset line s.var
    let isLocation := hasSubstr line "DW_AT_location".toList
    if isLocation ∧ located.2 then
      { s with var := { located.1 with hasLocation := true } }
    else
      let s := if isLocation then { s with var := located.1 } else s
      if hasSubstr line "DW_AT_name".toList then
        match parseQuotedValue line 128 with
        | some n => { s with var := { s.var with name := n } }
        | none => s
      else if hasSubstr line "DW_AT_type".toList then
        match parseQuotedValue line 128 with
        | some t => { s with var := { s.var with type := t } }
        | none => s
      else s

/-- The effect of a line that starts an entry, once the variable read before it has
been dealt with. -/
def entry (linkPc : Addr) (line : Str) (s : VarScan) : VarScan :=
  let depth := dwarfLineDepth line
  if hasSubstr line "DW_TAG_subprogram".toList then
    { s with inFunc := true, funcMatches := false, funcDepth := depth,
             funcLow := 0, funcHigh := 0 }
  else
    let s := if s.inFunc ∧ depth ≤ s.funcDepth then
      { s with inFunc := false, funcMatches := false } else s
    if s.inFunc ∧ s.funcMatches ∧ (hasSubstr line "DW_TAG_variable".toList ∨
        hasSubstr line "DW_TAG_formal_parameter".toList) then
      { s with var := .zero, readingVar := true }
    else s.attr linkPc line

/-- The loop of `find_local_var`: the first variable of the name that is ready. -/
def run (linkPc : Addr) (name : Str) : VarScan → List Str → Option VarInfo
  | s, [] => if s.readingVar ∧ s.var.ready name then some s.var else none
  | s, line :: lines =>
      if dwarfStartsDie line then
        if s.readingVar ∧ s.var.ready name then some s.var
        else
          let s := if s.readingVar then { s with var := .zero, readingVar := false } else s
          run linkPc name (s.entry linkPc line) lines
      else run linkPc name (s.attr linkPc line) lines

lemma fits_attr {s : VarScan} (h : s.var.Fits) (linkPc : Addr) (line : Str) :
    (s.attr linkPc line).var.Fits := by
  have hloc : (parseFbregOffset line s.var).1.Fits := by
    constructor
    · rw [parseFbregOffset_name]
      exact h.name
    · rw [parseFbregOffset_type]
      exact h.type
  rw [attr]
  dsimp only
  repeat' split
  all_goals first
    | exact h
    | exact hloc
    | exact ⟨hloc.name, hloc.type⟩
    | exact ⟨parseQuotedValue_length ‹_›, h.type⟩
    | exact ⟨parseQuotedValue_length ‹_›, hloc.type⟩
    | exact ⟨h.name, parseQuotedValue_length ‹_›⟩
    | exact ⟨hloc.name, parseQuotedValue_length ‹_›⟩

lemma fits_entry {s : VarScan} (h : s.var.Fits) (linkPc : Addr) (line : Str) :
    (s.entry linkPc line).var.Fits := by
  rw [entry]
  dsimp only
  split
  · exact h
  · split <;> split
    · exact VarInfo.fits_zero
    · exact fits_attr (s := { s with inFunc := false, funcMatches := false }) h linkPc line
    · exact VarInfo.fits_zero
    · exact fits_attr h linkPc line

/-- What the loop finds fits the buffers and has the name looked for. -/
lemma run_found {linkPc : Addr} {name : Str} {lines : List Str} :
    ∀ {s : VarScan} {var : VarInfo}, s.var.Fits →
      run linkPc name s lines = some var → var.Fits ∧ var.name = name := by
  have hready : ∀ var : VarInfo, var.ready name = true → var.name = name := by
    intro var h
    rw [VarInfo.ready, Bool.and_eq_true, decide_eq_true_eq] at h
    exact h.2
  induction lines with
  | nil =>
      intro s var h hrun
      rw [run] at hrun
      split at hrun
      next hr => exact Option.some.inj hrun ▸ ⟨h, hready _ hr.2⟩
      · cases hrun
  | cons line lines ih =>
      intro s var h hrun
      rw [run] at hrun
      split at hrun
      · split at hrun
        next hr => exact Option.some.inj hrun ▸ ⟨h, hready _ hr.2⟩
        · refine ih (fits_entry ?_ linkPc line) hrun
          split
          · exact VarInfo.fits_zero
          · exact h
      · exact ih (fits_attr h linkPc line) hrun

end VarScan

/-- `find_local_var`. -/
def findLocalVar (d : Dbg) (name : Str) : Option VarInfo :=
  match d.debugLines with
  | none => none
  | some lines =>
      (VarScan.init.run (d.regs.pc - d.lineno.slide) name lines).map (completeVarType d)

/-- `var_base_addr`. -/
def varBaseAddr (d : Dbg) (base : VarBase) : Addr :=
  match base with
  | .sp => d.regs.native.sp
  | .x29 => d.regs.fp
  | .fb => d.regs.fp

/-- The type `resolve_variable_address` gives to a symbol. -/
def symbolType : Str := "unsigned long".toList

/-- `resolve_variable_address`: a local variable, else a defined symbol. -/
def resolveVariableAddress (d : Dbg) (name : Str) : Option (VarInfo × Addr) :=
  match findLocalVar d name with
  | some var => some (var, varBaseAddr d var.base + BitVec.ofInt 64 var.fbregOffset)
  | none =>
  match d.syms.lookupName name with
  | none => none
  | some sym =>
      if sym.isDefined = false then none
      else
        let var := { VarInfo.zero with name := truncate 128 name, type := symbolType }
        some (completeVarType d var, d.syms.runtimeAddr sym.address)

/-- The type `find_local_var` has read fits its buffer. -/
lemma findLocalVar_completed {d : Dbg} {name : Str} {var : VarInfo}
    (h : findLocalVar d name = some var) :
    ∃ raw, raw.type.length ≤ 127 ∧ var = completeVarType d raw := by
  rw [findLocalVar] at h
  split at h
  · cases h
  · obtain ⟨raw, hraw, hvar⟩ := Option.map_eq_some_iff.mp h
    exact ⟨raw, (VarScan.run_found VarInfo.fits_zero hraw).1.type, hvar.symm⟩

/-- A local variable has a short name. -/
lemma findLocalVar_name_length {d : Dbg} {name : Str} {var : VarInfo}
    (h : findLocalVar d name = some var) : name.length ≤ 127 := by
  rw [findLocalVar] at h
  split at h
  · cases h
  · obtain ⟨raw, hraw, -⟩ := Option.map_eq_some_iff.mp h
    obtain ⟨hfits, hname⟩ := VarScan.run_found VarInfo.fits_zero hraw
    exact hname ▸ hfits.name

/-- What `resolve_variable_address` finds has been through `complete_var_type`. -/
lemma resolveVariableAddress_completed {d : Dbg} {name : Str} {var : VarInfo} {addr : Addr}
    (h : resolveVariableAddress d name = some (var, addr)) :
    ∃ raw, raw.type.length ≤ 127 ∧ var = completeVarType d raw := by
  rw [resolveVariableAddress] at h
  split at h
  · rename_i hlocal
    rw [← (Prod.mk.inj (Option.some.inj h)).1]
    exact findLocalVar_completed hlocal
  · split at h
    · cases h
    · split at h
      · cases h
      · exact ⟨_, (by decide : symbolType.length ≤ 127), (Prod.mk.inj (Option.some.inj h)).1.symm⟩

lemma resolveVariableAddress_isPointer {d : Dbg} {name : Str} {var : VarInfo} {addr : Addr}
    (h : resolveVariableAddress d name = some (var, addr)) :
    var.isPointer = decide ('*' ∈ var.type) := by
  obtain ⟨raw, -, rfl⟩ := resolveVariableAddress_completed h
  rw [completeVarType_isPointer, completeVarType_type]

lemma resolveVariableAddress_type_length {d : Dbg} {name : Str} {var : VarInfo} {addr : Addr}
    (h : resolveVariableAddress d name = some (var, addr)) : var.type.length ≤ 127 := by
  obtain ⟨raw, hraw, rfl⟩ := resolveVariableAddress_completed h
  rw [completeVarType_type]
  exact hraw

end Cdbg
