import Cdbg.Lib.Scanf
import Cdbg.Source.MachO

/-!
`syms.c`, how the symbol table is loaded: from what `nm -n` prints for the executable or for
its dSYM, and else from the symbol table of the file itself.
-/

namespace Cdbg

open CString

/-- `sym_name_interesting`, for the name itself. -/
def symNameShown (name : Str) (type : Char) : Bool :=
  match name with
  | [] => false
  | c :: _ => type ≠ '?' && type ≠ '-' && c ≠ '.' && c ≠ 'L' && (' ' ≤ c && c ≤ '~')

/-- `syms_push`, for a name that has been copied. -/
def pushSymbol (entries : List SymEntry) (addr : Addr) (type : Char) (name : Str) :
    List SymEntry :=
  if symNameShown name type = true then entries ++ [⟨addr, type, truncate symMaxName name⟩]
  else entries

/-- `sscanf (p, "%llx %c %255s", &addr, &type, name)`. -/
def scanAddressed : Directive (Addr × Char × Str) := do
  let addr ← Directive.hex
  Directive.blanks
  let type ← Directive.char
  Directive.blanks
  let name ← Directive.word 255
  return (addr, type, name)

/-- `sscanf (p, "%c %255s", &type, name)`. -/
def scanUnaddressed : Directive (Char × Str) := do
  let type ← Directive.char
  Directive.blanks
  let name ← Directive.word 255
  return (type, name)

/-- A round of the loop of `syms_load_from_nm`. -/
def nmRound (entries : List SymEntry) (line : Str) : List SymEntry :=
  let p := line.dropWhile fun c => c = ' ' || c = '\t'
  if p = [] ∨ p.head? = some '\n' then entries
  else
    match scanAddressed p with
    | some ((addr, type, name), _) => pushSymbol entries addr type name
    | none =>
    match scanUnaddressed p with
    | some ((type, name), _) => pushSymbol entries 0 type name
    | none => entries

/-- What a tool has printed, and whether it has ended well. -/
structure ToolRun where
  lines : List Str
  ok : Bool

/-- `syms_load_from_nm`, on a table that holds some entries: the entries then, and whether
it returns `0`. There is no run if `nm` cannot be started. -/
def symsLoadFromNm (entries : List SymEntry) : Option ToolRun → List SymEntry × Bool
  | none => (entries, false)
  | some run =>
      let entries := (fgetsAll 512 run.lines).foldl nmRound entries
      (entries, run.ok && ! entries.isEmpty)

/-- An object file from which symbols can be loaded: the run of `nm` on it, and its
contents, if it can be mapped. -/
structure SymObject where
  nm : Option ToolRun
  image : Option MachImage

/-- The loop of `cdbg_syms_load` over the objects, until `nm` has succeeded. -/
def loadFromObjects : List SymEntry → List SymObject → Option (List SymEntry)
  | _, [] => none
  | entries, o :: os =>
      let r := symsLoadFromNm entries o.nm
      if r.2 = true then some r.1 else loadFromObjects r.1 os

/-- The base address that a file is linked for. -/
def SymObject.linkBase (o : SymObject) : Addr :=
  (o.image.map fun m => m.machoTextVmaddr.value).getD 0

/-- The last part of `cdbg_syms_load`, without `nm`: `none` stands for `-1`. -/
def symsLoadImages (exe : SymObject) (dsym : Option SymObject) : Option SymTable :=
  match exe.image with
  | none => none
  | some m =>
  match (m.symsLoadMacho []).value with
  | some entries => some ⟨entries, exe.linkBase, 0⟩
  | none =>
  match dsym.bind SymObject.image with
  | none => none
  | some d =>
      let base := if exe.linkBase = 0 then d.machoTextVmaddr.value else exe.linkBase
      (d.symsLoadMacho []).value.map fun entries => ⟨entries, base, 0⟩

/-- `cdbg_syms_load`, with the dSYM if it can be read: `none` stands for `-1`. -/
def symsLoad (exe : SymObject) (dsym : Option SymObject) : Option SymTable :=
  match loadFromObjects [] (exe :: dsym.toList) with
  | some entries => some ⟨entries, exe.linkBase, 0⟩
  | none => symsLoadImages exe dsym

/-! ### Symbols for a program counter -/

/-- `CDBG_MAX_SYMBOL_OFFSET`. -/
def maxSymbolOffset : Addr := 0x100000

namespace SymTable

/-- A round of the search of `lookup_symbol_for_pc`. -/
def symbolForPcStep (syms : SymTable) (pc : Addr) (best : Option SymEntry) (e : SymEntry) :
    Option SymEntry :=
  if e.address = 0 ∨ e.type ≠ 'T' ∧ e.type ≠ 't' then best
  else if syms.runtimeAddr e.address ≤ pc then
    match best with
    | none => some e
    | some b => if syms.runtimeAddr e.address > syms.runtimeAddr b.address then some e else best
  else best

/-- `lookup_symbol_for_pc`: the symbol and the offset of the program counter in it. -/
def lookupSymbolForPc (syms : SymTable) (pc : Addr) : Option (SymEntry × Addr) :=
  match syms.entries.foldl (syms.symbolForPcStep pc) none with
  | none => none
  | some best =>
      let offset := pc - syms.runtimeAddr best.address
      if offset > maxSymbolOffset then none else some (best, offset)

end SymTable

/-- `display_sym_name`. -/
def displaySymName : Option SymEntry → Str
  | none => "??".toList
  | some sym =>
      match sym.name with
      | '_' :: c :: name => c :: name
      | name => name

/-- `sym_matches`. -/
def symMatches (name : Str) (filter : Option Str) : Bool :=
  match filter with
  | none => true
  | some [] => true
  | some f =>
      hasSubstr name f ||
        match name with
        | '_' :: rest => hasSubstr rest f
        | _ => false

/-- The rows that `cdbg_syms_print_list` prints: address, if there is one, type and name. -/
def SymTable.printList (syms : SymTable) (filter : Option Str) :
    List (Option Addr × Char × Str) :=
  (syms.entries.filter fun e => symMatches e.name filter).map fun e =>
    (if e.address = 0 then none else some (syms.runtimeAddr e.address), e.type, e.name)

end Cdbg
