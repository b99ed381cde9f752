import Cdbg.Lib.Prog
import Cdbg.Source.LineUnit

/-!
`lineno.c`, the parser of `.debug_line` over addresses.

`LineUnit` reads its sections as lists and stops at their ends. Here the cursors are the
pairs of pointers the code has, what they point at is memory, pointers wrap as 64-bit
addresses do, and every byte loaded, entry indexed and divisor used is an event. A program
that ends without a value has returned `-1`. The two loops of `parse_line_table` and
`parse_line_program` are the steps of a machine, so that a section on which they go on
forever has a run as well.
-/

namespace Cdbg

open CString

/-- The byte strings that `parse_line_table` is given. -/
inductive Region where
  | line
  | lineStr
  deriving DecidableEq, Repr

/-- What `parse_line_table` is given, as it lies in memory: `.debug_line`, in the lower half
of the addresses, and `.debug_line_str`, with `0` as the null pointer. The last field is
what lies on the stack behind the table of the lengths of the standard opcodes. -/
structure LineSections where
  mem : Addr → Byte
  start : Region → Addr
  size : Region → BitVec 64
  behindLengths : ℕ → Byte
  fits : (start .line).toNat + (size .line).toNat ≤ 2 ^ 63

/-- The end of `.debug_line`. -/
def LineSections.end_ (m : LineSections) : Addr := m.start .line + m.size .line

/-- `parse_cursor_t`. -/
structure ParseCursor where
  data : Addr
  end_ : Addr
  deriving DecidableEq, Repr

/-- What the decoder touches: a byte, loaded through a pointer into a section; the first
byte of a C string it copies; an entry of the lengths of the standard opcodes; a divisor. -/
inductive Touch where
  | load (region : Region) (a : Addr)
  | text (region : Region) (a : Addr)
  | length (i : ℕ)
  | divisor (d : Byte)
  deriving DecidableEq, Repr

/-- A function of the decoder, over the cursor it is given. -/
abbrev Decoder (α : Type) : Type := Prog Touch ParseCursor α

namespace Decoder

/-- Return `-1`, as every caller then does. -/
def giveUp {α : Type} : Decoder α := Prog.hang

/-- Touch something. -/
def touch (t : Touch) : Decoder Unit := Prog.emit fun _ => t

/-- Move on by some bytes. -/
def advance (n : ℕ) : Decoder Unit :=
  Prog.modify fun c => { c with data := c.data + BitVec.ofNat 64 n }

/-- `cursor_ok`: the bytes left are counted as a `size_t`. -/
def cursorOk (n : ℕ) : Decoder Bool := do
  let c ← Prog.get
  return n ≤ (c.end_ - c.data).toNat

variable (m : LineSections)

/-- The byte at an address. -/
def load (r : Region) (a : Addr) : Decoder Byte := do
  touch (.load r a)
  return m.mem a

/-! ### The functions that read from a cursor -/

/-- `read_u8`. -/
def readU8 : Decoder Byte := do
  if ← cursorOk 1 then
    let c ← Prog.get
    let b ← load m .line c.data
    advance 1
    return b
  else return 0

/-- `read_u16`. -/
def readU16 : Decoder (BitVec 16) := do
  if ← cursorOk 2 then
    let c ← Prog.get
    let b0 ← load m .line c.data
    let b1 ← load m .line (c.data + 1)
    advance 2
    return b1 ++ b0
  else return 0

/-- `read_u32`. -/
def readU32 : Decoder (BitVec 32) := do
  if ← cursorOk 4 then
    let c ← Prog.get
    let b0 ← load m .line c.data
    let b1 ← load m .line (c.data + 1)
    let b2 ← load m .line (c.data + 2)
    let b3 ← load m .line (c.data + 3)
    advance 4
    return b3 ++ b2 ++ b1 ++ b0
  else return 0

/-- `read_u64`: byte by byte. -/
def readU64 : Decoder (BitVec 64) := do
  let b0 ← readU8 m
  let b1 ← readU8 m
  let b2 ← readU8 m
  let b3 ← readU8 m
  let b4 ← readU8 m
  let b5 ← readU8 m
  let b6 ← readU8 m
  let b7 ← readU8 m
  return b7 ++ b6 ++ b5 ++ b4 ++ b3 ++ b2 ++ b1 ++ b0

/-- The loop of `read_uleb128` and `read_sleb128`: the value, the shift reached and the
last byte. -/
def lebLoop : ℕ → ℕ → BitVec 64 → Byte → Decoder (BitVec 64 × ℕ × Byte)
  | 0, shift, value, byte => pure (value, shift, byte)
  | n + 1, shift, value, _ => do
      let byte ← readU8 m
      let value := value ||| (byte &&& 0x7f).setWidth 64 <<< shift
      if byte &&& 0x80 = 0 then
        return (value, shift + 7, byte)
      lebLoop n (shift + 7) value byte

/-- `read_uleb128`: at most ten bytes. -/
def readUleb128 : Decoder (BitVec 64) := do
  let r ← lebLoop m 10 0 0 0
  return r.1

/-- `read_sleb128`: at most ten bytes. -/
def readSleb128 : Decoder (BitVec 64) := do
  let (value, shift, byte) ← lebLoop m 10 0 0 0
  return if byte &&& 0x40 ≠ 0 ∧ shift < 64 then value ||| BitVec.allOnes 64 <<< shift else value

/-- A loop that moves on while the byte before the end is one of these; it has as many
rounds as there are bytes left. -/
def skipWhile (p : Byte → Bool) : ℕ → Decoder Unit
  | 0 => pure ()
  | n + 1 => do
      let c ← Prog.get
      if c.data < c.end_ then
        let b ← load m .line c.data
        if p b then
          advance 1
          skipWhile p n

/-- `read_cstr`: where the string starts. -/
def readCstr : Decoder Addr := do
  let start ← Prog.get
  skipWhile m (· ≠ 0) (start.end_ - start.data).toNat
  let c ← Prog.get
  if c.data < c.end_ then
    advance 1
  return start.data

/-- `skip_padding_zeros`. -/
def skipPaddingZeros : Decoder Unit := do
  let c ← Prog.get
  skipWhile m (· = 0) (c.end_ - c.data).toNat

/-- The bytes of a C string, up to the NUL that ends it. -/
def copyLoop (r : Region) : ℕ → Addr → Decoder Str
  | 0, _ => pure []
  | n + 1, a => do
      let b ← load m r a
      if b = 0 then
        return []
      let s ← copyLoop r n (a + 1)
      return charOf b :: s

/-- What `snprintf` and `strdup` make of a C string. The bound is the number of addresses:
where nothing in memory ends the string, its copy is cut there. -/
def copyCstr (r : Region) (a : Addr) : Decoder Str := do
  touch (.text r a)
  copyLoop m r (2 ^ 64) a

/-! ### The tables of version 5 -/

/-- A copy of `lookup_line_str`. -/
def lookupLineStr (offset : BitVec 64) : Decoder Str :=
  if m.start .lineStr = 0 ∨ m.size .lineStr ≤ offset then return []
  else copyCstr m .lineStr (m.start .lineStr + offset)

/-- `read_format_descriptors`. -/
def readFormatDescriptors : Decoder (List FormatDesc) := do
  let count ← readU8 m
  Prog.times count.toNat do
    let type ← readUleb128 m
    let form ← readUleb128 m
    return ⟨type, form⟩

/-- `read_form_string`. -/
def readFormString (form : BitVec 64) : Decoder Str :=
  if form = dwFormLineStrp then do
    if ← cursorOk 1 then
      let offset ← readUleb128 m
      let s ← lookupLineStr m offset
      return truncate linenoMaxFile s
    else giveUp
  else if form = dwFormString then do
    let a ← readCstr m
    let s ← copyCstr m .line a
    return truncate linenoMaxFile s
  else giveUp

/-- The sixteen bytes of `DW_FORM_data16`. -/
def skipData16 : Decoder Unit := do
  if ← cursorOk 16 then
    advance 16
  else giveUp

/-- `skip_form_value`. -/
def skipFormValue (form : BitVec 64) : Decoder Unit :=
  if form = dwFormUdata then do
    let _ ← readUleb128 m
  else if form = dwFormData16 then skipData16
  else if form = dwFormString then do
    let _ ← readCstr m
  else if form = dwFormLineStrp then do
    let _ ← readUleb128 m
  else giveUp

/-- One field of a directory: the path so far becomes the path read. -/
def readDirField (path : Str) (desc : FormatDesc) : Decoder Str :=
  if desc.type = dwLnctPath then readFormString m desc.form
  else do
    skipFormValue m desc.form
    return path

/-- `parse_v5_directories`. -/
def parseV5Directories : Decoder (List Str) := do
  let descs ← readFormatDescriptors m
  if descs = [] then
    return []
  let entryCount ← readUleb128 m
  let dirs ← Prog.times entryCount.toNat (descs.foldlM (readDirField m) [])
  skipPaddingZeros m
  return dirs

/-- One field of a file: the name and the index of its directory. -/
def readFileField (file : Str × BitVec 64) (desc : FormatDesc) : Decoder (Str × BitVec 64) :=
  if desc.type = dwLnctPath then do
    let name ← readFormString m desc.form
    return (name, file.2)
  else if desc.type = dwLnctDirectoryIndex ∧ desc.form = dwFormUdata then do
    let dirIndex ← readUleb128 m
    return (file.1, dirIndex)
  else if desc.type = dwLnctMD5 ∧ desc.form = dwFormData16 then do
    skipData16
    return file
  else do
    skipFormValue m desc.form
    return file

/-- `parse_v5_file_names`. -/
def parseV5FileNames : Decoder FileTable := do
  let descs ← readFormatDescriptors m
  if descs = [] then
    return []
  let entryCount ← readUleb128 m
  Prog.times entryCount.toNat (descs.foldlM (readFileField m) ([], 0))

/-! ### The tables of version 4 -/

/-- `read_cstr`, and the first byte of the string. -/
def readCstrFirst : Decoder (Addr × Byte) := do
  let a ← readCstr m
  let first ← load m .line a
  return (a, first)

/-- The loop of `parse_line_table` that reads the directories, up to an empty one; each
round takes a byte. -/
def parseDirsV4 : ℕ → Decoder (List Str)
  | 0 => pure []
  | n + 1 => do
      let c ← Prog.get
      if c.data < c.end_ then
        let (dir, first) ← readCstrFirst m
        if first = 0 then
          return []
        let copy ← copyCstr m .line dir
        let dirs ← parseDirsV4 n
        return copy :: dirs
      else return []

/-- The loop of `parse_file_names_v4`. -/
def fileNamesV4Loop : ℕ → Decoder FileTable
  | 0 => pure []
  | n + 1 => do
      let c ← Prog.get
      if c.data < c.end_ then
        let (name, first) ← readCstrFirst m
        if first = 0 then
          return []
        let dirIndex ← readUleb128 m
        skipData16
        let copy ← copyCstr m .line name
        let files ← fileNamesV4Loop n
        return (copy, dirIndex) :: files
      else return []

/-- `parse_file_names_v4`. -/
def parseFileNamesV4 : Decoder FileTable := do
  let c ← Prog.get
  fileNamesV4Loop m (c.end_ - c.data).toNat

/-! ### The line program -/

/-- What follows the length of an extended opcode. -/
def subOpcode (h : LineHeader) (s : LineState) (sub : Byte) : Decoder LineRound :=
  if sub = 1 then return (some s, LineState.init)
  else if sub = 2 ∧ h.addressSize = 8 then do
    let address ← readU64 m
    return (none, { s with address := address })
  else if sub = 2 ∧ h.addressSize = 4 then do
    let address ← readU32 m
    return (none, { s with address := address.setWidth 64 })
  else return (none, s)

/-- An extended opcode behind its length: whatever it reads, it ends at `extEnd`. -/
def extendedTo (h : LineHeader) (s : LineState) (extEnd : Addr) : Decoder LineRound := do
  let sub ← readU8 m
  let round ← subOpcode m h s sub
  Prog.modify fun c => { c with data := extEnd }
  return round

/-- An extended opcode: it ends where its length says, a sum of 64 bits. -/
def extended (h : LineHeader) (s : LineState) : Decoder LineRound := do
  let extLen ← readUleb128 m
  let c ← Prog.get
  let extEnd := c.data + extLen
  if c.end_ < extEnd then giveUp
  else extendedTo m h s extEnd

/-- An entry of the lengths of the standard opcodes, or what lies behind them. -/
def stdLength (h : LineHeader) (i : ℕ) : Byte :=
  if i < 16 then h.stdLengths.getD i 0 else m.behindLengths i

/-- A standard opcode. -/
def standard (h : LineHeader) (s : LineState) (opcode : Byte) : Decoder LineRound :=
  match opcode.toNat with
  | 1 => return (some s, s)
  | 2 => do
      let delta ← readUleb128 m
      return (none, { s with address := s.address + delta * h.minInstLength.setWidth 64 })
  | 3 => do
      let delta ← readSleb128 m
      return (none, { s with line := s.line + delta })
  | 4 => do
      let fileIndex ← readUleb128 m
      return (none, { s with fileIndex := fileIndex })
  | 5 => do
      let column ← readUleb128 m
      return (none, { s with column := column })
  | 8 => do
      touch (.divisor h.lineRange)
      return (none, { s with address :=
        s.address + h.advance ((255 - h.opcodeBase.toNat) / h.lineRange.toNat) })
  | 9 => do
      let delta ← readU16 m
      return (none, { s with address := s.address + delta.setWidth 64 })
  | n => do
      touch (.length n)
      advance (stdLength m h n).toNat
      return (none, s)

/-- A special opcode. -/
def special (h : LineHeader) (s : LineState) (opcode : Byte) : Decoder LineRound := do
  touch (.divisor h.lineRange)
  let s' := h.special s opcode
  return (some s', s')

/-- One round of the loop of `parse_line_program`. -/
def round (h : LineHeader) (s : LineState) : Decoder LineRound := do
  let opcode ← readU8 m
  if opcode = 0 then extended m h s
  else if opcode < h.opcodeBase then standard m h s opcode
  else special h s opcode

/-! ### Units -/

/-- The tables of a header behind its fields. -/
def readTables (v5 : Bool) (header : LineHeader) : Decoder Prologue :=
  if v5 then do
    let dirs ← parseV5Directories m
    let files ← parseV5FileNames m
    return ⟨header, dirs, ([], 0) :: files⟩
  else do
    let c ← Prog.get
    let dirs ← parseDirsV4 m (c.end_ - c.data).toNat
    let files ← parseFileNamesV4 m
    return ⟨header, [] :: dirs, ([], 0) :: files⟩

/-- `max_ops_per_inst`, which version 4 is not taken to have. -/
def readMaxOps (v5 : Bool) : Decoder Byte := if v5 then readU8 m else pure 1

/-- The loop that reads the lengths of the standard opcodes, from one on. -/
def lengthsLoop : ℕ → ℕ → Decoder (List Byte)
  | 0, _ => pure []
  | n + 1, i => do
      touch (.length i)
      let b ← readU8 m
      let bs ← lengthsLoop n (i + 1)
      return b :: bs

/-- The header of a unit with this address size, from `minimum_instruction_length` on. -/
def readPrologue (v5 : Bool) (addressSize : Byte) : Decoder Prologue := do
  let minInstLength ← readU8 m
  let _maxOpsPerInst ← readMaxOps m v5
  let _defaultIsStmt ← readU8 m
  let lineBase ← readU8 m
  let lineRange ← readU8 m
  let opcodeBase ← readU8 m
  let lengths ← lengthsLoop m (min opcodeBase.toNat 16 - 1) 1
  readTables m v5 ⟨minInstLength, lineBase, lineRange, opcodeBase, addressSize, 0 :: lengths⟩

/-- The fields between version and header: address size and length of the header. -/
def readUnitFields (v5 : Bool) : Decoder (Byte × BitVec 32) :=
  if v5 then do
    let addressSize ← readU8 m
    let _segmentSize ← readU8 m
    let prologueLength ← readU32 m
    return (addressSize, prologueLength)
  else do
    let prologueLength ← readU32 m
    return (8, prologueLength)

/-- What the body of the loop of `parse_line_table` comes to before it runs a program: a
unit of another version, which it skips, or the header of a unit of version 4 or 5 with the
cursor its program is given. -/
inductive UnitHead where
  | skip (next : Addr)
  | program (v5 : Bool) (p : Prologue) (unit : ParseCursor)

/-- A unit from its header on, of this length. The program of version 5 starts at the byte
before the end of the header, that of version 4 where its tables end. -/
def readHeader (v5 : Bool) (addressSize : Byte) (prologueLength : BitVec 32) :
    Decoder UnitHead := do
  let unit ← Prog.get
  let prologueEnd := unit.data + prologueLength.setWidth 64
  if unit.end_ < prologueEnd then giveUp
  else
    Prog.modify fun c => { c with end_ := prologueEnd }
    let p ← readPrologue m v5 addressSize
    let prologue ← Prog.get
    return .program v5 p ⟨if v5 then prologueEnd - 1 else prologue.data, unit.end_⟩

/-- A unit from its address size on. -/
def readUnit (v5 : Bool) : Decoder UnitHead := do
  let fields ← readUnitFields m v5
  readHeader m v5 fields.1 fields.2

/-- A unit of this length, up to its program. -/
def unitOf (unitLength : BitVec 32) : Decoder UnitHead := do
  if unitLength = 0xffffffff then giveUp
  else
    let cursor ← Prog.get
    let unitEnd := cursor.data + unitLength.setWidth 64
    if cursor.end_ < unitEnd then giveUp
    else
      Prog.modify fun c => { c with end_ := unitEnd }
      let version ← readU16 m
      if version ≠ 5 ∧ version ≠ 4 then return .skip unitEnd
      else readUnit m (version = 5)

/-- A unit, up to its program. -/
def unitHead : Decoder UnitHead := do
  let unitLength ← readU32 m
  unitOf m unitLength

end Decoder

/-! ### The loops -/

/-- Where `parse_line_table` stands: at the head of its loop, at the head of the loop of
`parse_line_program` with the cursor of the unit, or at its return. -/
inductive LinePosition where
  | units (data : Addr) (ln : LineRows)
  | opcodes (p : Prologue) (s : LineState) (unit : ParseCursor) (ln : LineRows)
  | returned (rc : ℤ) (ln : LineRows)

namespace LineSections

open Decoder

variable (m : LineSections)

/-- Where the head of a unit leads: back to the loop of `parse_line_table`, or to that of
`parse_line_program`. -/
def behindHead (ln : LineRows) : UnitHead → LinePosition
  | .skip next => .units next ln
  | .program v5 p unit =>
      .opcodes p .init unit
        (if ln.compDir = [] then { ln with compDir := p.compDir v5 } else ln)

/-- The body of the loop of `parse_line_table`, up to the program. -/
def unitBody (ln : LineRows) : Decoder LinePosition := do
  let head ← unitHead m
  return behindHead ln head

/-- Where a round of `parse_line_program` leads, with the row it emits. -/
def behindRound (p : Prologue) (ln : LineRows) (unit : ParseCursor) (r : LineRound) :
    LinePosition :=
  let entry := r.1.bind (LineState.entry p.dirs p.files)
  .opcodes p r.2 unit { ln with entries := ln.entries ++ entry.toList }

/-- The body of the loop of `parse_line_program`. -/
def opcodeBody (p : Prologue) (s : LineState) (ln : LineRows) : Decoder LinePosition := do
  let r ← round m p.header s
  let unit ← Prog.get
  return behindRound p ln unit r

/-- The next position, behind the condition of a loop and its body. -/
def next : LinePosition → LinePosition
  | .units data ln =>
      if data < m.end_ then (m.unitBody ln ⟨data, m.end_⟩).value.getD (.returned (-1) ln)
      else .returned 0 ln
  | .opcodes p s unit ln =>
      if unit.data < unit.end_ then (m.opcodeBody p s ln unit).value.getD (.returned (-1) ln)
      else .units unit.end_ ln
  | .returned rc ln => .returned rc ln

/-- What is touched on the way there. -/
def touched : LinePosition → List Touch
  | .units data ln => if data < m.end_ then (m.unitBody ln ⟨data, m.end_⟩).trace else []
  | .opcodes p s unit ln =>
      if unit.data < unit.end_ then (m.opcodeBody p s ln unit).trace else []
  | .returned _ _ => []

/-- The run of `parse_line_table`: the positions it comes to. -/
def run (ln : LineRows) (k : ℕ) : LinePosition := m.next^[k] (.units (m.start .line) ln)

end LineSections

end Cdbg
