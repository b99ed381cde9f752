import Cdbg.Source.LineLoad

/-!
The line tables that `dwarfdump --debug-line` prints: directories and files with their
indices, then a row for each line of a sequence.
-/

namespace Cdbg

open CString

/-- A file with the index of its directory, and what else is printed of it. -/
structure DumpFile where
  name : Str
  dirIndex : ℕ
  details : List Str
  deriving DecidableEq

/-- A row with the index of its file, and what is printed behind that. -/
structure DumpRow where
  address : Addr
  line : BitVec 32
  column : BitVec 32
  file : ℕ
  flags : Str
  deriving DecidableEq

/-- A line table: the lines of its header, directories and files, both counted from `base`
on, and rows. -/
structure DumpTable where
  header : List Str
  base : ℕ
  dirs : List Str
  files : List DumpFile
  rows : List DumpRow
  deriving DecidableEq

/-! ### The text -/

/-- An index in brackets. -/
def bracketed (word : Str) (n : ℕ) : Str := word ++ '[' :: (padDec 3 n ++ [']'])

/-- The line of a directory. -/
def dirLine (n : ℕ) (dir : Str) : Str :=
  bracketed "include_directories".toList n ++ (" = ".toList ++ '"' :: (dir ++ ['"']))

/-- The lines of a file. -/
def DumpFile.lines (n : ℕ) (f : DumpFile) : List Str :=
  [bracketed "file_names".toList n ++ [':'],
    List.replicate 11 ' ' ++ ("name: ".toList ++ '"' :: (f.name ++ ['"'])),
    "      dir_index: ".toList ++ padDec 0 f.dirIndex] ++ f.details

/-- The line of a row. -/
def DumpRow.text (r : DumpRow) : Str :=
  hexText 16 r.address.toNat ++ (' ' :: (padDec 6 r.line.toNat ++ (' ' ::
    (padDec 6 r.column.toNat ++ (' ' :: (padDec 6 r.file ++ r.flags))))))

namespace DumpTable

/-- The lines above the rows. -/
def heading : List Str :=
  [[], "Address            Line   Column File   ISA Discriminator OpIndex Flags".toList,
    "------------------ ------ ------ ------ --- ------------- ------- -------------".toList]

/-- The lines of a table. -/
def lines (t : DumpTable) : List Str :=
  t.header ++ (t.dirs.zipIdx t.base).map (fun d => dirLine d.2 d.1) ++
    (t.files.zipIdx t.base).flatMap (fun f => f.1.lines f.2) ++ heading ++
    t.rows.map DumpRow.text ++ [[]]

/-- The directory of an index, empty if there is none. -/
def dir (t : DumpTable) (n : ℕ) : Str :=
  (if t.base ≤ n then t.dirs[n - t.base]? else none).getD []

/-- The path of the file that a row selects. -/
def path (t : DumpTable) (r : DumpRow) : Option Str :=
  (if t.base ≤ r.file then t.files[r.file - t.base]? else none).map fun f =>
    LineScan.fullPath (t.dir f.dirIndex) f.name

end DumpTable

/-- A line that names neither a directory nor a file and begins no row. -/
structure QuietLine (l : Str) : Prop where
  dir : hasSubstr l "include_directories".toList = false
  file : hasSubstr l LineScan.nameMarker = false
  row : l.head? ≠ some '0'

lemma quietLine_iff {l : Str} : QuietLine l ↔ hasSubstr l "include_directories".toList = false ∧
    hasSubstr l LineScan.nameMarker = false ∧ l.head? ≠ some '0' := by
  constructor
  · exact fun h => ⟨h.dir, h.file, h.row⟩
  · exact fun h => ⟨h.1, h.2.1, h.2.2⟩

instance (l : Str) : Decidable (QuietLine l) := decidable_of_iff' _ quietLine_iff

/-- A table whose lines fit the buffer. A quoted name has no quote in it, and a file is not
named after a directory line. -/
structure DumpTable.Printable (t : DumpTable) : Prop where
  header : ∀ l ∈ t.header, QuietLine l
  dirs : ∀ d ∈ t.dirs, '"' ∉ d
  names : ∀ f ∈ t.files, '"' ∉ f.name ∧ hasSubstr f.name "include_directories".toList = false
  details : ∀ f ∈ t.files, ∀ l ∈ f.details, QuietLine l
  flags : ∀ r ∈ t.rows, Directive.AtSpace r.flags ∧
    hasSubstr r.flags "include_directories".toList = false ∧
    hasSubstr r.flags LineScan.nameMarker = false
  fits : ∀ l ∈ t.lines, l.length + 1 < 512

end Cdbg
