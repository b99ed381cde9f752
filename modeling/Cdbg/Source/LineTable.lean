import Cdbg.Lib.Memory
import Cdbg.Lib.CString

/-!
`lineno.c`, the lookups: the line table of the program and its searches by
program counter and by file and line. Addresses in the table are link-time
addresses; the slide of the running process is added for every comparison with a
program counter.
-/

namespace Cdbg

open CString

/-- `CDBG_LINENO_MAX_FILE`. -/
def linenoMaxFile : ℕ := 512

/-- `cdbg_line_entry_t`. -/
structure LineEntry where
  address : Addr
  line : BitVec 32
  column : BitVec 32
  file : Str
  deriving DecidableEq, Repr

/-- `cdbg_lineno_t`, without the directories that serve to open sources. -/
structure LineTable where
  entries : List LineEntry
  linkBase : Addr
  slide : Addr
  deriving DecidableEq, Repr

namespace LineTable

/-- The table after `cdbg_lineno_free`. -/
def empty : LineTable := ⟨[], 0, 0⟩

/-- `cdbg_lineno_runtime_addr`. -/
def runtimeAddr (ln : LineTable) (linkAddr : Addr) : Addr := linkAddr + ln.slide

/-- One round of the search of `cdbg_lineno_lookup_pc`. -/
def lookupPcStep (ln : LineTable) (pc : Addr) (best : Option LineEntry) (e : LineEntry) :
    Option LineEntry :=
  if ln.runtimeAddr e.address ≤ pc then
    match best with
    | none => some e
    | some b => if ln.runtimeAddr e.address > ln.runtimeAddr b.address then some e else best
  else best

/-- `cdbg_lineno_lookup_pc`: the first entry of highest address at or below `pc`. -/
def lookupPc (ln : LineTable) (pc : Addr) : Option LineEntry :=
  ln.entries.foldl (ln.lookupPcStep pc) none

/-- The bound of `lineno_entry_at_pc`: `128` bytes on, or just below the next row. -/
def maxPc (ln : LineTable) (start : Addr) : Addr :=
  ln.entries.foldl (fun maxPc e =>
    if start < ln.runtimeAddr e.address ∧ ln.runtimeAddr e.address < maxPc then
      ln.runtimeAddr e.address - 1 else maxPc) (start + 128)

/-- `lineno_entry_at_pc`. -/
def entryAtPc (ln : LineTable) (pc : Addr) : Option LineEntry :=
  match ln.lookupPc pc with
  | none => none
  | some e =>
      if e.line = 0 then none
      else if pc > ln.maxPc (ln.runtimeAddr e.address) then none else some e

/-- `cdbg_lineno_line_at_pc`: the file and line of a program counter. -/
def lineAtPc (ln : LineTable) (pc : Addr) : Option (Str × BitVec 32) :=
  (ln.entryAtPc pc).map fun e => (e.file, e.line)

/-- `file_matches`. -/
def fileMatches (entryFile : Str) (filter : Option Str) : Bool :=
  match filter with
  | none => true
  | some [] => true
  | some f =>
      let base := match strrchr entryFile '/' with
        | some (_, b) => b
        | none => entryFile
      hasSubstr entryFile f || base = f

/-- `cdbg_lineno_lookup_line`: the first matching row of lowest address. -/
def lookupLine (ln : LineTable) (filter : Option Str) (line : BitVec 32) :
    Option LineEntry :=
  ln.entries.foldl (fun best e =>
    if e.line ≠ line ∨ ¬ fileMatches e.file filter then best
    else match best with
      | none => some e
      | some b => if e.address < b.address then some e else best) none

/-- The search of `cdbg_lineno_lookup_line_unique` from a first match on. -/
def lookupLineUniqueFrom (line : BitVec 32) (onlyFile : Str) :
    LineEntry → List LineEntry → Option LineEntry
  | best, [] => some best
  | best, e :: es =>
      if e.line ≠ line then lookupLineUniqueFrom line onlyFile best es
      else if onlyFile ≠ e.file then none
      else lookupLineUniqueFrom line onlyFile (if e.address < best.address then e else best) es

/-- `cdbg_lineno_lookup_line_unique`: as `lookupLine`, but `none` if the line
occurs in two files. -/
def lookupLineUnique (ln : LineTable) (line : BitVec 32) : Option LineEntry :=
  match ln.entries.dropWhile (fun e => e.line ≠ line) with
  | [] => none
  | e :: es => lookupLineUniqueFrom line e.file e es

/-- `cdbg_lineno_lookup_next_line_after_pc`: the row of lowest address above `pc`
in the file of `pc` with another line. -/
def lookupNextLineAfterPc (ln : LineTable) (pc : Addr) : Option LineEntry :=
  match ln.lookupPc pc with
  | none => none
  | some current =>
      ln.entries.foldl (fun next e =>
        if ln.runtimeAddr e.address ≤ pc then next
        else if e.file ≠ current.file ∨ e.line = current.line then next
        else match next with
          | none => some e
          | some b => if e.address < b.address then some e else next) none

end LineTable

end Cdbg
