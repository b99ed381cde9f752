import Cdbg.Source.Cursor
import Cdbg.Source.LineTable

/-!
`lineno.c`, the parser of `.debug_line`: `parse_line_table` and the functions it calls,
for units of version 4 and 5. A function that returns `-1` is `none`; the tables of
directories and files are lists.
-/

namespace Cdbg

open CString Reader

/-- `DW_LNCT_path`. -/
def dwLnctPath : BitVec 64 := 1

/-- `DW_LNCT_directory_index`. -/
def dwLnctDirectoryIndex : BitVec 64 := 2

/-- `DW_LNCT_MD5`. -/
def dwLnctMD5 : BitVec 64 := 5

/-- `DW_FORM_string`. -/
def dwFormString : BitVec 64 := 0x08

/-- `DW_FORM_udata`. -/
def dwFormUdata : BitVec 64 := 0x0f

/-- `DW_FORM_data16`. -/
def dwFormData16 : BitVec 64 := 0x1e

/-- `DW_FORM_line_strp`. -/
def dwFormLineStrp : BitVec 64 := 0x1f

/-- `file_table_t`: the names with the indices of their directories. -/
abbrev FileTable : Type := List (Str × BitVec 64)

/-- `build_file_path`; entry `0` is no file. -/
def buildFilePath (dirs : List Str) (files : FileTable) (fileIndex : BitVec 64) : Option Str :=
  if fileIndex = 0 then none
  else
    match files[fileIndex.toNat]? with
    | none => none
    | some (file, dirIndex) =>
        let dir := dirs[dirIndex.toNat]?.getD []
        some (truncate linenoMaxFile (if dir = [] then file else dir ++ '/' :: file))

/-! ### The tables of version 5 -/

/-- `format_desc_t`. -/
structure FormatDesc where
  type : BitVec 64
  form : BitVec 64
  deriving DecidableEq, Repr

/-- `lookup_line_str`: the string at an offset of `.debug_line_str`. -/
def lookupLineStr (lineStr : List Byte) (offset : BitVec 64) : Str :=
  cstrOf (lineStr.drop offset.toNat)

/-- `read_format_descriptors`. -/
def readFormatDescriptors : ByteReader (List FormatDesc) := do
  let count ← readU8
  times count.toNat do
    let type ← readUleb128
    let form ← readUleb128
    return ⟨type, form⟩

/-- `read_form_string`. -/
def readFormString (lineStr : List Byte) (form : BitVec 64) : ByteReader Str :=
  if form = dwFormLineStrp then do
    cursorOk 1
    let offset ← readUleb128
    return truncate linenoMaxFile (lookupLineStr lineStr offset)
  else if form = dwFormString then do
    let s ← readCstr
    return truncate linenoMaxFile s
  else failure

/-- `skip_form_value`. -/
def skipFormValue (form : BitVec 64) : ByteReader Unit :=
  if form = dwFormUdata then do
    let _ ← readUleb128
  else if form = dwFormData16 then do
    cursorOk 16
    advance 16
  else if form = dwFormString then do
    let _ ← readCstr
  else if form = dwFormLineStrp then do
    let _ ← readUleb128
  else failure

/-- One field of a directory: the path so far becomes the path read. -/
def readDirField (lineStr : List Byte) (path : Str) (desc : FormatDesc) : ByteReader Str :=
  if desc.type = dwLnctPath then readFormString lineStr desc.form
  else do
    skipFormValue desc.form
    return path

/-- `parse_v5_directories`. -/
def parseV5Directories (lineStr : List Byte) : ByteReader (List Str) := do
  let descs ← readFormatDescriptors
  if descs = [] then
    return []
  let entryCount ← readUleb128
  let dirs ← times entryCount.toNat (descs.foldlM (readDirField lineStr) [])
  skipPaddingZeros
  return dirs

/-- One field of a file: the name and the index of its directory. -/
def readFileField (lineStr : List Byte) (file : Str × BitVec 64) (desc : FormatDesc) :
    ByteReader (Str × BitVec 64) :=
  if desc.type = dwLnctPath then do
    let name ← readFormString lineStr desc.form
    return (name, file.2)
  else if desc.type = dwLnctDirectoryIndex ∧ desc.form = dwFormUdata then do
    let dirIndex ← readUleb128
    return (file.1, dirIndex)
  else if desc.type = dwLnctMD5 ∧ desc.form = dwFormData16 then do
    cursorOk 16
    advance 16
    return file
  else do
    skipFormValue desc.form
    return file

/-- `parse_v5_file_names`. -/
def parseV5FileNames (lineStr : List Byte) : ByteReader FileTable := do
  let descs ← readFormatDescriptors
  if descs = [] then
    return []
  let entryCount ← readUleb128
  times entryCount.toNat (descs.foldlM (readFileField lineStr) ([], 0))

/-! ### The tables of version 4 -/

/-- The loop of `parse_line_table` that reads the directories, up to an empty one; each
round takes a byte. -/
def parseDirsV4 : ℕ → ByteReader (List Str)
  | 0 => pure []
  | n + 1 => do
      if (← get).inside = [] then
        return []
      let dir ← readCstr
      if dir = [] then
        return []
      let dirs ← parseDirsV4 n
      return dir :: dirs

/-- The loop of `parse_file_names_v4`. -/
def fileNamesV4Loop : ℕ → ByteReader FileTable
  | 0 => pure []
  | n + 1 => do
      if (← get).inside = [] then
        return []
      let name ← readCstr
      if name = [] then
        return []
      let dirIndex ← readUleb128
      cursorOk 16
      advance 16
      let files ← fileNamesV4Loop n
      return (name, dirIndex) :: files

/-- `parse_file_names_v4`. -/
def parseFileNamesV4 : ByteReader FileTable := do
  let c ← get
  fileNamesV4Loop c.inside.length

/-! ### The line program -/

/-- The fields of a header that `parse_line_program` is given. The table of the lengths of
the standard opcodes has `16` entries; its first is not used. -/
structure LineHeader where
  minInstLength : Byte
  lineBase : Byte
  lineRange : Byte
  opcodeBase : Byte
  addressSize : Byte
  stdLengths : List Byte
  deriving DecidableEq, Repr

/-- `line_state_t`, without the flags that are never read. -/
structure LineState where
  address : Addr
  line : BitVec 64
  fileIndex : BitVec 64
  column : BitVec 64
  deriving DecidableEq, Repr

/-- The state at the start of a sequence. -/
def LineState.init : LineState := ⟨0, 1, 1, 0⟩

/-- `emit_row` and `entries_push`: the entry of a row, none if its line is not positive or
its file is unknown. -/
def LineState.entry (dirs : List Str) (files : FileTable) (s : LineState) : Option LineEntry :=
  if s.line.toInt ≤ 0 then none
  else
    (buildFilePath dirs files s.fileIndex).map fun path =>
      ⟨s.address, s.line.setWidth 32, s.column.setWidth 32, path⟩

/-- What one round of the loop of `parse_line_program` leaves: the state of the row it
emits, if any, and the next state. -/
abbrev LineRound : Type := Option LineState × LineState

namespace LineHeader

/-- An operation advance as an address advance. -/
def advance (h : LineHeader) (operations : ℕ) : Addr :=
  BitVec.ofNat 64 (operations * h.minInstLength.toNat)

/-- What follows the length of an extended opcode. -/
def subOpcode (h : LineHeader) (s : LineState) (sub : Byte) : ByteReader LineRound :=
  if sub = 1 then return (some s, LineState.init)
  else if sub = 2 ∧ h.addressSize = 8 then do
    let address ← readU64
    return (none, { s with address := address })
  else if sub = 2 ∧ h.addressSize = 4 then do
    let address ← readU32
    return (none, { s with address := address.setWidth 64 })
  else return (none, s)

/-- An extended opcode: whatever it reads, it ends where its length says. -/
def extended (h : LineHeader) (s : LineState) : ByteReader LineRound := do
  let extLen ← readUleb128
  cursorOk extLen.toNat
  let c ← get
  let sub ← readU8
  let round ← h.subOpcode s sub
  set c
  Cdbg.advance extLen.toNat
  return round

/-- A standard opcode. -/
def standard (h : LineHeader) (s : LineState) (opcode : Byte) : ByteReader LineRound :=
  match opcode.toNat with
  | 1 => return (some s, s)
  | 2 => do
      let delta ← readUleb128
      return (none, { s with address := s.address + delta * h.minInstLength.setWidth 64 })
  | 3 => do
      let delta ← readSleb128
      return (none, { s with line := s.line + delta })
  | 4 => do
      let fileIndex ← readUleb128
      return (none, { s with fileIndex := fileIndex })
  | 5 => do
      let column ← readUleb128
      return (none, { s with column := column })
  | 8 =>
      return (none, { s with address :=
        s.address + h.advance ((255 - h.opcodeBase.toNat) / h.lineRange.toNat) })
  | 9 => do
      let delta ← readU16
      return (none, { s with address := s.address + delta.setWidth 64 })
  | n => do
      Cdbg.advance (h.stdLengths.getD n 0).toNat
      return (none, s)

/-- A special opcode: address advance and line increment, an `int8_t`. -/
def special (h : LineHeader) (s : LineState) (opcode : Byte) : LineState :=
  let adjusted := opcode - h.opcodeBase
  let lineIncrement : BitVec 8 := h.lineBase + BitVec.ofNat 8 (adjusted.toNat % h.lineRange.toNat)
  { s with
    line := s.line + lineIncrement.signExtend 64
    address := s.address + h.advance (adjusted.toNat / h.lineRange.toNat) }

/-- One round of the loop of `parse_line_program`. -/
def round (h : LineHeader) (s : LineState) : ByteReader LineRound := do
  let opcode ← readU8
  if opcode = 0 then h.extended s
  else if opcode < h.opcodeBase then h.standard s opcode
  else
    let s' := h.special s opcode
    return (some s', s')

/-- The loop of `parse_line_program`: the return code and the states of the rows emitted.
Each round takes a byte, so the number of bytes bounds the rounds. -/
def program (h : LineHeader) : ℕ → LineState → Cursor Byte → ℤ × List LineState
  | 0, _, _ => (0, [])
  | n + 1, s, c =>
      if c.inside = [] then (0, [])
      else
        match (h.round s).run c with
        | none => (-1, [])
        | some ((row, s'), c') =>
            let rest := h.program n s' c'
            (rest.1, row.toList ++ rest.2)

end LineHeader

/-- `parse_line_program`. -/
def parseLineProgram (h : LineHeader) (dirs : List Str) (files : FileTable) (c : Cursor Byte) :
    ℤ × List LineEntry :=
  let r := h.program c.inside.length .init c
  (r.1, r.2.filterMap (LineState.entry dirs files))

/-! ### Units -/

/-- The part of `cdbg_lineno_t` that `parse_line_table` fills. -/
structure LineRows where
  entries : List LineEntry
  compDir : Str
  deriving DecidableEq, Repr

/-- What a header leaves: its fields, the tables, and for version 4 where its tables end. -/
structure Prologue where
  header : LineHeader
  dirs : List Str
  files : FileTable

/-- The tables of a header behind its fields. Index `0` of the files is taken by an empty
entry, in version 4 that of the directories as well. -/
def readTables (lineStr : List Byte) (v5 : Bool) (header : LineHeader) : ByteReader Prologue :=
  if v5 then do
    let dirs ← parseV5Directories lineStr
    let files ← parseV5FileNames lineStr
    return ⟨header, dirs, ([], 0) :: files⟩
  else do
    let c ← get
    let dirs ← parseDirsV4 c.inside.length
    let files ← parseFileNamesV4
    return ⟨header, [] :: dirs, ([], 0) :: files⟩

/-- `max_ops_per_inst`, which version 4 is not taken to have. -/
def readMaxOps (v5 : Bool) : ByteReader Byte := if v5 then readU8 else pure 1

/-- The header of a unit with this address size, from `minimum_instruction_length` on. -/
def readPrologue (lineStr : List Byte) (v5 : Bool) (addressSize : Byte) :
    ByteReader Prologue := do
  let minInstLength ← readU8
  let _maxOpsPerInst ← readMaxOps v5
  let _defaultIsStmt ← readU8
  let lineBase ← readU8
  let lineRange ← readU8
  let opcodeBase ← readU8
  let lengths ← times (min opcodeBase.toNat 16 - 1) readU8
  readTables lineStr v5
    ⟨minInstLength, lineBase, lineRange, opcodeBase, addressSize, 0 :: lengths⟩

/-- The directory a unit adds when none is known. -/
def Prologue.compDir (p : Prologue) (v5 : Bool) : Str :=
  truncate linenoMaxFile
    ((if v5 then p.dirs.head? else p.dirs.find? fun d => d ≠ []).getD [])

/-- The fields between version and header: address size and length of the header. -/
def readUnitFields (v5 : Bool) : ByteReader (Byte × BitVec 32) :=
  if v5 then do
    let addressSize ← readU8
    let _segmentSize ← readU8
    let prologueLength ← readU32
    return (addressSize, prologueLength)
  else do
    let prologueLength ← readU32
    return (8, prologueLength)

/-- A unit of version 4 or 5, with the cursor behind its version: the return code and the rows
so far with those of the unit. The program of version 5 starts at the byte before the end of
the header, that of version 4 where its tables end. -/
def parseUnit (lineStr : List Byte) (v5 : Bool) (whole unit : Cursor Byte) (ln : LineRows) :
    ℤ × LineRows :=
  match (readUnitFields v5).run unit with
  | none => (-1, ln)
  | some ((addressSize, prologueLength), body) =>
      let len := prologueLength.toNat
      if body.inside.length < len then (-1, ln)
      else
        let prologue : Cursor Byte :=
          ⟨body.inside.take len, body.inside.drop len ++ body.outside⟩
        match (readPrologue lineStr v5 addressSize).run prologue with
        | none => (-1, ln)
        | some (p, stop) =>
            let ln := if ln.compDir = [] then { ln with compDir := p.compDir v5 } else ln
            let start := if v5 then
                whole.inside.drop (whole.inside.length - body.inside.length + len - 1)
              else stop.inside ++ body.inside.drop len
            let r := parseLineProgram p.header p.dirs p.files ⟨start, whole.outside⟩
            (r.1, { ln with entries := ln.entries ++ r.2 })

/-- The loop of `parse_line_table`. A section that ends in one to three further bytes is
never left, which is when the rounds run out. -/
def parseLineTableLoop (lineStr : List Byte) : ℕ → List Byte → LineRows → Option (ℤ × LineRows)
  | _, [], ln => some (0, ln)
  | 0, _ :: _, _ => none
  | n + 1, section_@(_ :: _), ln =>
      match readU32.run ⟨section_, []⟩ with
      | none => none
      | some (unitLength, cursor) =>
          if unitLength = 0xffffffff then some (-1, ln)
          else if cursor.inside.length < unitLength.toNat then some (-1, ln)
          else
            let rest := cursor.inside.drop unitLength.toNat
            let whole : Cursor Byte := ⟨cursor.inside.take unitLength.toNat, rest⟩
            match readU16.run whole with
            | none => none
            | some (version, unit) =>
                if version ≠ 5 ∧ version ≠ 4 then parseLineTableLoop lineStr n rest ln
                else
                  let r := parseUnit lineStr (version = 5) whole unit ln
                  if r.1 ≠ 0 then some r else parseLineTableLoop lineStr n rest r.2

/-- `parse_line_table`. -/
def parseLineTable (ln : LineRows) (section_ lineStr : List Byte) : Option (ℤ × LineRows) :=
  parseLineTableLoop lineStr section_.length section_ ln

end Cdbg
