import Cdbg.Repl.Commands
import Mathlib.Data.List.DropRight

/-!
The places that `break`, `dis` and `list` find for their argument, with the row of the line
table that led there, and the window of a source file that `list` prints.
-/

namespace Cdbg

open CString

/-! ### Places -/

/-- The label of a place: a row of the line table, printed as its file and line, or a name. -/
inductive Label
  | row (e : LineEntry)
  | text (s : Str)

namespace Dbg

/-- `resolve_break_line`, with the label it prints. -/
def resolveLine (d : Dbg) (file : Option Str) (line : BitVec 32) : Option (Addr × Label) :=
  let entry := match file with
    | some (c :: f) => d.lineno.lookupLine (some (c :: f)) line
    | _ => d.lineno.lookupLineUnique line
  entry.map fun e => (d.lineno.runtimeAddr e.address, .row e)

end Dbg

/-- An argument with a colon, as all three commands take it apart: the file before the last
colon and the line after it; `some none` where they are refused. -/
def fileAndLine (target : Str) : Option (Option (Str × BitVec 32)) :=
  match strrchr target ':' with
  | some (file, c :: line) =>
      some
        (if file = [] ∨ linenoMaxFile ≤ file.length then none
        else
          match parseU64 (c :: line) with
          | none => none
          | some lineNo => if lineNo = 0 then none else some (file, lineNo.setWidth 32))
  | _ => none

namespace Dbg

/-- The address and the label that `cmd_break` finds for its argument. -/
def breakPlace (d : Dbg) (target : Str) : Option (Addr × Label) :=
  match fileAndLine target with
  | some none => none
  | some (some (file, line)) => d.resolveLine (some file) line
  | none =>
  match parseU64 target with
  | some parsed =>
      if "0x".toList.isPrefixOf target ∨ "0X".toList.isPrefixOf target then
        some (parsed, .text target)
      else
        match d.resolveLine none (parsed.setWidth 32) with
        | some place => some place
        | none => some (parsed, .text target)
  | none => (d.resolveBreakSymbol target).map fun addr => (addr, .text target)

/-- `resolve_dis_target`. -/
def resolveDisTarget (d : Dbg) (target : Str) : Option (Addr × Label) :=
  match fileAndLine target with
  | some none => none
  | some (some (file, line)) => d.resolveLine (some file) line
  | none =>
  match parseU64 target with
  | some parsed => if parsed = 0 then none else d.resolveLine none (parsed.setWidth 32)
  | none =>
  match d.syms.lookupName target with
  | none => none
  | some sym =>
      if sym.isDefined = false then none
      else
        let name := match sym.name with
          | '_' :: c :: name => c :: name
          | name => name
        some (d.syms.runtimeAddr sym.address, .text name)

end Dbg

/-! ### Source windows -/

/-- The sources on disk, by lines, and the directories in which they are looked for. -/
structure Sources where
  fopen : Str → Option (List Str)
  compDir : Str
  exeDir : Str

namespace Sources

/-- The file of a relative path in a directory. -/
def fopenIn (src : Sources) (dir path : Str) : Option (List Str) :=
  if path.head? ≠ some '/' ∧ dir ≠ [] then
    src.fopen (truncate linenoMaxFile (dir ++ "/".toList ++ path))
  else none

/-- `lineno_open_source`. -/
def openSource (src : Sources) (path : Str) : Option (List Str) :=
  let base := match strrchr path '/' with
    | some (_, b) => b
    | none => path
  src.fopen path <|> src.fopenIn src.compDir path <|> src.fopenIn src.exeDir path <|>
    src.fopen base

end Sources

/-- A printed window of a source file: the line it is about and the lines shown, each with its
number. -/
structure Window where
  file : Str
  target : BitVec 32
  rows : List (BitVec 32 × Str)

/-- The loop of `lineno_print_source_window`, after `lineNo` lines. -/
def windowRows (start last : BitVec 32) : BitVec 32 → List Str → List (BitVec 32 × Str)
  | _, [] => []
  | lineNo, buf :: bufs =>
      let lineNo := lineNo + 1
      if lineNo < start then windowRows start last lineNo bufs
      else if last < lineNo then []
      else
        (lineNo, buf.rdropWhile fun c => c = '\n' || c = '\r') ::
          windowRows start last lineNo bufs

/-- `lineno_print_source_window`. -/
def printSourceWindow (src : Sources) (file : Str) (target totalLines : BitVec 32) :
    Option Window :=
  (src.openSource file).map fun lines =>
    let before := totalLines / 2
    let start := if before < target then target - before else 1
    ⟨file, target, windowRows start (start + totalLines - 1) 0 (fgetsAll 4096 lines)⟩

/-- The loop of `cdbg_lineno_print_source_at_line` over the rows: the one file they match. -/
def matchFile (filter : Option Str) : Option Str → List LineEntry → Option Str
  | matched, [] => matched
  | matched, e :: es =>
      if LineTable.fileMatches e.file filter = false then matchFile filter matched es
      else
        match matched with
        | none => matchFile filter (some e.file) es
        | some file => if file ≠ e.file then none else matchFile filter (some file) es

/-- `CDBG_LIST_SOURCE_LINES`. -/
def listSourceLines : BitVec 32 := 10

/-- `cdbg_lineno_print_source_at_line`. -/
def LineTable.printSourceAtLine (ln : LineTable) (src : Sources) (filter : Option Str)
    (line : BitVec 32) : Option Window :=
  match matchFile filter none ln.entries with
  | none => none
  | some file => printSourceWindow src file line listSourceLines

/-- `cmd_list` with a target that is not blank. -/
def Dbg.listWindow (d : Dbg) (src : Sources) (target : Str) : Option Window :=
  let target := trimSpace target
  match fileAndLine target with
  | some none => none
  | some (some (file, line)) => d.lineno.printSourceAtLine src (some file) line
  | none =>
  match parseU64 target with
  | some lineNo =>
      if lineNo = 0 then none else d.lineno.printSourceAtLine src none (lineNo.setWidth 32)
  | none =>
  match d.syms.lookupName target with
  | none => none
  | some sym =>
      if sym.isDefined = false then none
      else
        match d.lineno.lineAtPc (d.syms.runtimeAddr sym.address) with
        | none => none
        | some (file, line) =>
            d.lineno.printSourceAtLine src (some (truncate linenoMaxFile file)) line

end Cdbg
