import Cdbg.Dwarf.Text
import Cdbg.Source.LineUnit
import Cdbg.Source.SymbolLoad

/-!
`lineno.c`, how the line table is loaded from what `dwarfdump --debug-line` prints.

The text is scanned line by line. A line that names a directory or a file sets the current
one, a row is pushed with the path that the two make.
-/

namespace Cdbg

open CString

/-- The local variables of `lineno_load_from_dwarfdump`, and the entries pushed so far. -/
structure LineScan where
  currentDir : Str
  currentFile : Str
  entries : List LineEntry
  deriving DecidableEq, Repr

namespace LineScan

/-- `sscanf (line_buf, "0x%llx %u %u", &addr, &line_no, &column)`. -/
def scanRow : Directive (Addr × BitVec 32 × BitVec 32) := do
  Directive.literal '0'
  Directive.literal 'x'
  let addr ← Directive.hex
  Directive.blanks
  let lineNo ← Directive.unsigned
  Directive.blanks
  let column ← Directive.unsigned
  return (addr, lineNo, column)

/-- `full_path`. -/
def fullPath (dir file : Str) : Str :=
  truncate linenoMaxFile
    (if file = [] then "<unknown>".toList
      else if '/' ∈ file ∨ dir = [] then file
      else dir ++ '/' :: file)

/-- The words that a line with the name of a file has in it. -/
def nameMarker : Str := "name: ".toList ++ ['"']

lemma nameMarker_eq : nameMarker = "name: ".toList ++ ['"'] := rfl

/-- A round of the loop of `lineno_load_from_dwarfdump`. -/
def round (s : LineScan) (line : Str) : LineScan :=
  match strstr line "include_directories".toList with
  | some dirMarker =>
      match parseQuotedValue dirMarker linenoMaxFile with
      | some dir => { s with currentDir := dir }
      | none => s
  | none =>
  match strstr line nameMarker with
  | some marker =>
      let quote := marker.drop nameMarker.length
      if '"' ∈ quote then
        { s with currentFile := truncate linenoMaxFile (quote.takeWhile (· ≠ '"')) }
      else s
  | none =>
      if line.head? ≠ some '0' ∨ line.tail.head? ≠ some 'x' then s
      else
        match scanRow line with
        | some ((addr, lineNo, column), _) =>
            let path := fullPath s.currentDir s.currentFile
            { s with entries := s.entries ++ [⟨addr, lineNo, column, path⟩] }
        | none => s

end LineScan

/-- `lineno_load_from_dwarfdump`: the table then, and whether it returns `0`. There is no
run if `dwarfdump` cannot be started. -/
def linenoLoadFromDwarfdump (ln : LineRows) : Option ToolRun → LineRows × Bool
  | none => (ln, false)
  | some run =>
      let s := (fgetsAll 512 run.lines).foldl LineScan.round ⟨[], [], ln.entries⟩
      let compDir := if s.currentDir = [] then ln.compDir else s.currentDir
      (⟨s.entries, compDir⟩, run.ok && ! s.entries.isEmpty)

/-- `cdbg_lineno_load`, from what `dwarfdump` prints and from the sections of the file: the
table that is left. There is none if the parser does not end. -/
def linenoLoad (run : Option ToolRun) (section_ lineStr : List Byte) : Option LineRows :=
  match linenoLoadFromDwarfdump ⟨[], []⟩ run with
  | (ln, true) => some ln
  | (_, false) =>
      (parseLineTable ⟨[], []⟩ section_ lineStr).map fun r =>
        if r.1 ≠ 0 ∨ r.2.entries = [] then ⟨[], []⟩ else r.2

end Cdbg
