import Cdbg.Dwarf.LineMachine
import Cdbg.Source.Cursor

/-!
Line-number units of DWARF 5 and DWARF 4, as the standard lays them out: their parts,
their bytes, and the path of the file a row selects.
-/

namespace Cdbg

/-- The path of a file in a directory. -/
def joinPath (dir file : Str) : Str := if dir = [] then file else dir ++ '/' :: file

/-- The number of operands of the named standard opcodes. -/
def standardLength (opcode : ℕ) : Byte := if opcode ∈ [2, 3, 4, 5, 9] then 1 else 0

/-- What a header must satisfy whatever its version. -/
structure LineParams.WellFormed (h : LineParams) : Prop where
  maxOps : 1 ≤ h.maxOps
  lineRange : 0 < h.lineRange
  opcodeBase : 1 ≤ h.opcodeBase
  lengths : h.lengths.length = h.opcodeBase - 1
  standard : ∀ opcode ∈ LineOp.named, opcode < h.opcodeBase →
    h.lengths.getD (opcode - 1) 0 = standardLength opcode

/-! ### The tables of version 5 -/

/-- What a field of an entry holds: a path in one of two forms, the index of a directory,
or a checksum. -/
inductive FieldKind
  | string
  | lineStrp
  | dirIndex
  | md5
  deriving DecidableEq, Repr

namespace FieldKind

/-- The content type code. -/
def type : FieldKind → ℕ
  | string => 1
  | lineStrp => 1
  | dirIndex => 2
  | md5 => 5

/-- The form code. -/
def form : FieldKind → ℕ
  | string => 0x08
  | lineStrp => 0x1f
  | dirIndex => 0x0f
  | md5 => 0x1e

end FieldKind

/-- An item of an entry format. -/
structure FormatItem where
  kind : FieldKind
  type : Leb
  form : Leb
  deriving DecidableEq, Repr

/-- The bytes of an item. -/
def FormatItem.bytes (i : FormatItem) : List Byte := i.type.bytes ++ i.form.bytes

/-- The codes of an item are those of its kind. -/
def FormatItem.WellFormed (i : FormatItem) : Prop :=
  i.type.unsigned = i.kind.type ∧ i.form.unsigned = i.kind.form

instance (i : FormatItem) : Decidable i.WellFormed := inferInstanceAs (Decidable (_ ∧ _))

/-- A field of an entry. -/
inductive FieldValue
  | string (s : List Byte)
  | lineStrp (offset : ℕ)
  | dirIndex (n : Leb)
  | md5 (digest : List Byte)
  deriving DecidableEq, Repr

namespace FieldValue

/-- What the field holds. -/
def kind : FieldValue → FieldKind
  | string _ => .string
  | lineStrp _ => .lineStrp
  | dirIndex _ => .dirIndex
  | md5 _ => .md5

/-- The bytes of a field. -/
def bytes : FieldValue → List Byte
  | string s => s ++ [0]
  | lineStrp offset => leBytes 4 offset
  | dirIndex n => n.bytes
  | md5 digest => digest

/-- The values a field can have. -/
def WellFormed : FieldValue → Prop
  | string s => ∀ b ∈ s, b ≠ 0
  | lineStrp offset => offset < 2 ^ 32
  | dirIndex _ => True
  | md5 digest => digest.length = 16

instance : (v : FieldValue) → Decidable v.WellFormed
  | string s => inferInstanceAs (Decidable (∀ b ∈ s, b ≠ 0))
  | lineStrp offset => inferInstanceAs (Decidable (offset < 2 ^ 32))
  | dirIndex _ => .isTrue trivial
  | md5 digest => inferInstanceAs (Decidable (digest.length = 16))

end FieldValue

/-- An entry of a table. -/
abbrev TableEntry : Type := List FieldValue

namespace TableEntry

/-- The bytes of an entry. -/
def bytes (e : TableEntry) : List Byte := e.flatMap FieldValue.bytes

/-- The path in an entry. -/
def path (lineStr : List Byte) (e : TableEntry) : Str :=
  e.foldl (fun acc v =>
    match v with
    | .string s => s.map charOf
    | .lineStrp offset => cstrOf (lineStr.drop offset)
    | _ => acc) []

/-- The directory index in an entry. -/
def dir (e : TableEntry) : ℕ :=
  e.foldl (fun acc v =>
    match v with
    | .dirIndex n => n.unsigned
    | _ => acc) 0

end TableEntry

/-- A table of directories or files. -/
structure EntryTable where
  format : List FormatItem
  count : Leb
  entries : List TableEntry
  deriving DecidableEq, Repr

namespace EntryTable

/-- The bytes of a table. -/
def bytes (t : EntryTable) : List Byte :=
  BitVec.ofNat 8 t.format.length ::
    (t.format.flatMap FormatItem.bytes ++ (t.count.bytes ++ t.entries.flatMap TableEntry.bytes))

/-- The format lists a path once and nothing twice, and the entries follow it. -/
structure WellFormed (t : EntryTable) : Prop where
  format_lt : t.format.length < 256
  items : ∀ i ∈ t.format, i.WellFormed
  path : ∃ i ∈ t.format, i.kind.type = 1
  nodup : (t.format.map fun i => i.kind.type).Nodup
  count : t.count.unsigned = t.entries.length
  count_lt : t.entries.length < 2 ^ 64
  kinds : ∀ e ∈ t.entries, e.map FieldValue.kind = t.format.map FormatItem.kind
  fields : ∀ e ∈ t.entries, ∀ v ∈ e, v.WellFormed

end EntryTable

/-! ### Units of version 5 -/

/-- The parts of a unit of version 5. -/
structure Unit5 where
  addressSize : Byte
  segmentSize : Byte
  minInstLength : Byte
  maxOps : Byte
  defaultIsStmt : Byte
  lineBase : Byte
  lineRange : Byte
  opcodeBase : Byte
  lengths : List Byte
  dirs : EntryTable
  files : EntryTable
  ops : List LineOp
  deriving DecidableEq, Repr

namespace Unit5

/-- The fields that matter to the program. -/
def params (u : Unit5) : LineParams :=
  ⟨5, u.minInstLength.toNat, u.maxOps.toNat, u.lineBase.toInt, u.lineRange.toNat,
    u.opcodeBase.toNat, u.addressSize.toNat, u.lengths⟩

/-- The bytes that the length of the header counts. -/
def prologue (u : Unit5) : List Byte :=
  [u.minInstLength, u.maxOps, u.defaultIsStmt, u.lineBase, u.lineRange, u.opcodeBase] ++
    (u.lengths ++ (u.dirs.bytes ++ u.files.bytes))

/-- The bytes of the line program. -/
def program (u : Unit5) : List Byte := u.ops.flatMap (LineOp.bytes u.params)

/-- The bytes behind the version. -/
def body (u : Unit5) : List Byte :=
  [u.addressSize, u.segmentSize] ++ (leBytes 4 u.prologue.length ++ (u.prologue ++ u.program))

/-- The bytes of a unit. -/
def bytes (u : Unit5) : List Byte :=
  leBytes 4 (2 + u.body.length) ++ (leBytes 2 5 ++ u.body)

/-- The path of a file, counted from `0`. -/
def path (u : Unit5) (lineStr : List Byte) (file : ℕ) : Option Str :=
  u.files.entries[file]?.bind fun f =>
    u.dirs.entries[f.dir]?.map fun d => joinPath (d.path lineStr) (f.path lineStr)

/-- The units of the 32-bit format. -/
structure WellFormed (u : Unit5) : Prop where
  params : u.params.WellFormed
  dirs : u.dirs.WellFormed
  files : u.files.WellFormed
  dirIndex : ∀ f ∈ u.files.entries, f.dir < u.dirs.entries.length
  ops : ∀ op ∈ u.ops, op.WellFormed u.params
  selected : ∀ r ∈ u.params.lineRows u.ops, r.file < u.files.entries.length
  length_lt : 2 + u.body.length < 0xfffffff0

end Unit5

/-! ### Units of version 4 -/

/-- A file is not empty and its name has no NUL. -/
def FileEntry.WellFormed (f : FileEntry) : Prop := f.name ≠ [] ∧ ∀ b ∈ f.name, b ≠ 0

instance (f : FileEntry) : Decidable f.WellFormed := inferInstanceAs (Decidable (_ ∧ _))

/-- The parts of a unit of version 4. -/
structure Unit4 where
  minInstLength : Byte
  maxOps : Byte
  defaultIsStmt : Byte
  lineBase : Byte
  lineRange : Byte
  opcodeBase : Byte
  lengths : List Byte
  dirs : List (List Byte)
  files : List FileEntry
  ops : List LineOp
  deriving DecidableEq, Repr

namespace Unit4

/-- The fields that matter to the program. -/
def params (u : Unit4) : LineParams :=
  ⟨4, u.minInstLength.toNat, u.maxOps.toNat, u.lineBase.toInt, u.lineRange.toNat,
    u.opcodeBase.toNat, 8, u.lengths⟩

/-- The bytes that the length of the header counts. -/
def prologue (u : Unit4) : List Byte :=
  [u.minInstLength, u.maxOps, u.defaultIsStmt, u.lineBase, u.lineRange, u.opcodeBase] ++
    (u.lengths ++ ((u.dirs.flatMap (· ++ [0]) ++ [0]) ++ (u.files.flatMap FileEntry.bytes ++ [0])))

/-- The bytes of the line program. -/
def program (u : Unit4) : List Byte := u.ops.flatMap (LineOp.bytes u.params)

/-- The bytes behind the version. -/
def body (u : Unit4) : List Byte :=
  leBytes 4 u.prologue.length ++ (u.prologue ++ u.program)

/-- The bytes of a unit. -/
def bytes (u : Unit4) : List Byte :=
  leBytes 4 (2 + u.body.length) ++ (leBytes 2 4 ++ u.body)

/-- The files of the header and those that the program defines. -/
def allFiles (u : Unit4) : List FileEntry :=
  u.files ++ u.ops.filterMap fun op =>
    match op with
    | .defineFile _ file => some file
    | _ => none

/-- A directory, counted from `1`; `0` is that of the compilation, which is not named. -/
def dir (u : Unit4) : ℕ → Option Str
  | 0 => some []
  | k + 1 => u.dirs[k]?.map (List.map charOf)

/-- The path of a file, counted from `1`. -/
def path (u : Unit4) : ℕ → Option Str
  | 0 => none
  | k + 1 => u.allFiles[k]?.bind fun f =>
      (u.dir f.dirIndex.unsigned).map fun d => joinPath d (f.name.map charOf)

/-- The units of the 32-bit format with addresses of eight bytes. -/
structure WellFormed (u : Unit4) : Prop where
  params : u.params.WellFormed
  maxOps : u.maxOps = 1
  dirs : ∀ d ∈ u.dirs, d ≠ [] ∧ ∀ b ∈ d, b ≠ 0
  files : ∀ f ∈ u.allFiles, f.WellFormed
  dirIndex : ∀ f ∈ u.allFiles, f.dirIndex.unsigned ≤ u.dirs.length
  ops : ∀ op ∈ u.ops, op.WellFormed u.params
  selected : ∀ r ∈ u.params.lineRows u.ops, 1 ≤ r.file ∧ r.file ≤ u.allFiles.length
  length_lt : 2 + u.body.length < 0xfffffff0

end Unit4

end Cdbg
