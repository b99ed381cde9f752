import Cdbg.Dwarf.Local

/-!
`collect_show_vars`, the scanner behind `show locals`, `show args` and `show globals`.

What the loop passes to `show_var_push` does not depend on what has been pushed, so it is the
list of the variables found (`ShowScan.run`), which are pushed one after the other.
-/

namespace Cdbg

open CString

/-- `cdbg_show_scope_t`. -/
inductive ShowScope
  | locals
  | args
  | globals
  deriving DecidableEq, Repr

/-- `cdbg_show_var_t`. -/
structure ShowVar where
  var : VarInfo
  addr : Addr
  deriving DecidableEq, Repr

/-- `CDBG_MAX_SHOW_VARS`. -/
def maxShowVars : ℕ := 128

/-- `parse_addr_location`. -/
def parseAddrLocation (line : Str) : Option Addr :=
  match strstr line "DW_OP_addr".toList with
  | none => none
  | some op =>
      (strtoull 0 ((op.drop "DW_OP_addr".length).dropWhile (· = ' '))).map Prod.fst

/-- `show_var_name_exists`. -/
def showVarNameExists (vars : List ShowVar) (name : Str) : Bool :=
  vars.any fun v => v.var.name = name

/-- `show_var_push`. -/
def showVarPush (d : Dbg) (max : ℕ) (vars : List ShowVar) (var : VarInfo) (addr : Addr) :
    List ShowVar :=
  if var.name = [] then vars
  else if max ≤ vars.length then vars
  else if showVarNameExists vars var.name then vars
  else vars ++ [⟨completeVarType d { var with hasLocation := true }, addr⟩]

/-- `sym_is_global_data`. -/
def symIsGlobalData (type : Char) : Bool :=
  type ∈ ['b', 'B', 'd', 'D', 'g', 'G', 's', 'S', 'C']

/-- The variable `collect_globals_from_syms` makes of a symbol. -/
def symVar (entry : SymEntry) : VarInfo :=
  { VarInfo.zero with name := truncate 128 entry.name, type := symbolType }

/-- The loop of `collect_globals_from_syms`. -/
def collectGlobalsFromSyms (d : Dbg) (max : ℕ) : List ShowVar → List SymEntry → List ShowVar
  | vars, [] => vars
  | vars, entry :: entries =>
      if max ≤ vars.length then vars
      else if entry.address = 0 ∨ symIsGlobalData entry.type = false then
        collectGlobalsFromSyms d max vars entries
      else if showVarNameExists vars entry.name then collectGlobalsFromSyms d max vars entries
      else
        collectGlobalsFromSyms d max
          (showVarPush d max vars (symVar entry) (d.syms.runtimeAddr entry.address)) entries

/-- The local variables of the loop of `collect_show_vars`. -/
structure ShowScan where
  inFunc : Bool
  funcMatches : Bool
  funcDepth : ℕ
  funcLow : Addr
  funcHigh : Addr
  inLexBlock : Bool
  lexMatches : Bool
  lexLow : Addr
  lexHigh : Addr
  readingVar : Bool
  readingFormal : Bool
  var : VarInfo
  locFbreg : Bool
  linkAddr : Addr

/-- Their initial values. -/
def ShowScan.init : ShowScan :=
  ⟨false, false, 0, 0, 0, false, false, 0, 0, false, false, .zero, false, 0⟩

namespace ShowScan

/-- Whether the variable read last belongs to the scope. -/
def include_ (scope : ShowScope) (s : ShowScan) : Bool :=
  match scope with
  | .args => s.readingFormal && s.funcMatches && s.inFunc && s.locFbreg
  | .locals => !s.readingFormal && s.funcMatches && s.inFunc && s.locFbreg &&
      (!s.inLexBlock || s.lexMatches)
  | .globals => !s.readingFormal && !s.inFunc && !s.inLexBlock && s.linkAddr ≠ 0

/-- The variable read last, with its address, if it is shown. -/
def shown (d : Dbg) (scope : ShowScope) (s : ShowScan) : List ShowVar :=
  if s.readingVar ∧ s.var.name ≠ [] ∧ s.include_ scope then
    [⟨s.var, if scope = .globals then d.syms.runtimeAddr s.linkAddr
      else varBaseAddr d s.var.base + BitVec.ofInt 64 s.var.fbregOffset⟩]
  else []

/-- The variable read last is done with. -/
def forget (s : ShowScan) : ShowScan :=
  if s.readingVar then
    { s with var := .zero, readingVar := false, readingFormal := false, locFbreg := false,
             linkAddr := 0 }
  else s

/-- Start to read a variable. -/
def read (formal : Bool) (s : ShowScan) : ShowScan :=
  { s with var := .zero, readingVar := true, readingFormal := formal, locFbreg := false,
           linkAddr := 0 }

/-- The effect of a line that starts an entry. -/
def entry (line : Str) (s : ShowScan) : ShowScan :=
  let depth := dwarfLineDepth line
  if hasSubstr line "DW_TAG_subprogram".toList then
    { s with inFunc := true, funcMatches := false, funcDepth := depth, funcLow := 0,
             funcHigh := 0 }
  else if s.inFunc ∧ depth ≤ s.funcDepth then
    { s with inFunc := false, funcMatches := false, inLexBlock := false, lexMatches := false }
  else if s.inFunc ∧ s.funcMatches ∧ hasSubstr line "DW_TAG_lexical_block".toList then
    { s with inLexBlock := true, lexMatches := false, lexLow := 0, lexHigh := 0 }
  else if s.inFunc ∧ s.funcMatches ∧ hasSubstr line "DW_TAG_formal_parameter".toList then
    s.read true
  else if hasSubstr line "DW_TAG_variable".toList then s.read false
  else if s.inLexBlock ∧ hasSubstr line "NULL".toList then
    { s with inLexBlock := false, lexMatches := false }
  else s

/-- The effect of an attribute in a line. -/
def attr (linkPc : Addr) (line : Str) (s : ShowScan) : ShowScan :=
  if s.inFunc ∧ hasSubstr line "DW_AT_low_pc".toList then
    if s.inLexBlock then
      let low := (parseHexValue line).getD s.lexLow
      { s with lexLow := low, lexMatches := pcInRange linkPc low s.lexHigh }
    else
      let low := (parseHexValue line).getD s.funcLow
      { s with funcLow := low, funcMatches := pcInRange linkPc low s.funcHigh }
  else if s.inFunc ∧ hasSubstr line "DW_AT_high_pc".toList then
    if s.inLexBlock then
      let high := (parseHexValue line).getD s.lexHigh
      { s with lexHigh := high, lexMatches := pcInRange linkPc s.lexLow high }
    else
      let high := (parseHexValue line).getD s.funcHigh
      { s with funcHigh := high, funcMatches := pcInRange linkPc s.funcLow high }
  else if s.readingVar = false then s
  else if hasSubstr line "DW_AT_location".toList then
    let located := parseFbregOffset line s.var
    if located.2 then { s with var := located.1, locFbreg := true }
    else
      match parseAddrLocation line with
      | some addr => { s with var := located.1, locFbreg := false, linkAddr := addr }
      | none => { s with var := located.1 }
  else if hasSubstr line "DW_AT_name".toList then
    match parseQuotedValue line 128 with
    | some n => { s with var := { s.var with name := n } }
    | none => s
  else if hasSubstr line "DW_AT_type".toList then
    match parseQuotedValue line 128 with
    | some t => { s with var := { s.var with type := t } }
    | none => s
  else s

/-- The loop of `collect_show_vars`: the variables it passes to `show_var_push`. -/
def run (d : Dbg) (scope : ShowScope) (linkPc : Addr) : ShowScan → List Str → List ShowVar
  | s, [] => s.shown d scope
  | s, line :: lines =>
      if dwarfStartsDie line then
        s.shown d scope ++ run d scope linkPc ((s.forget.entry line).attr linkPc line) lines
      else run d scope linkPc (s.attr linkPc line) lines

end ShowScan

/-- The variables in the debugging information of the program. -/
def shownVars (d : Dbg) (scope : ShowScope) : List ShowVar :=
  match d.debugLines with
  | none => []
  | some lines => ShowScan.init.run d scope (d.regs.pc - d.lineno.slide) lines

/-- `collect_show_vars`; an empty list stands for `-1`. -/
def collectShowVars (d : Dbg) (scope : ShowScope) (max : ℕ) : List ShowVar :=
  let vars := (shownVars d scope).foldl (fun vars v => showVarPush d max vars v.var v.addr) []
  if scope = .globals then collectGlobalsFromSyms d max vars d.syms.entries else vars

end Cdbg
