import Cdbg.Lib.Scan
import Cdbg.Source.Cursor
import Cdbg.Source.Symbols

/-!
`lineno.c` and `syms.c`, the readers of Mach-O files. A file is mapped whole and read through
pointers to the structs of `<mach-o/loader.h>` and `<mach-o/nlist.h>`; the offset of every byte
read is recorded. A field that a loop reads again in every round is recorded once.
-/

namespace Cdbg

open CString

/-- A file in memory: the bytes from its start on, of which those from `size` on lie behind
it. -/
structure MachImage where
  mem : ℕ → Byte
  size : ℕ
  fits : size < 2 ^ 63

/-- A function that reads a file. -/
abbrev MachScan (α : Type) : Type := Scan ℕ α

/-- `MH_MAGIC_64`. -/
def mhMagic64 : BitVec 32 := 0xfeedfacf

/-- `LC_SEGMENT_64`. -/
def lcSegment64 : BitVec 32 := 0x19

/-- `LC_SYMTAB`. -/
def lcSymtab : BitVec 32 := 0x2

/-- The bytes of `"__TEXT"`. -/
def textName : List Byte := [0x5f, 0x5f, 0x54, 0x45, 0x58, 0x54]

namespace MachImage

variable (m : MachImage)

/-- The 32-bit number at an offset. -/
def word (off : ℕ) : BitVec 32 :=
  m.mem (off + 3) ++ m.mem (off + 2) ++ m.mem (off + 1) ++ m.mem off

/-- Read a byte. -/
def u8 (off : ℕ) : MachScan Byte := ⟨m.mem off, [off]⟩

/-- Read a field of 32 bits. -/
def u32 (off : ℕ) : MachScan (BitVec 32) := ⟨m.word off, [off, off + 1, off + 2, off + 3]⟩

/-- Read a field of 64 bits. -/
def u64 (off : ℕ) : MachScan (BitVec 64) := do
  let low ← m.u32 off
  let high ← m.u32 (off + 4)
  return high ++ low

/-- `strncmp (a, b, n) == 0` for a name in the file and a C string. -/
def strncmpEq : ℕ → ℕ → List Byte → MachScan Bool
  | 0, _, _ => pure true
  | n + 1, a, b => do
      let c ← m.u8 a
      match b with
      | [] => return c = 0
      | d :: b => if c = d then strncmpEq n (a + 1) b else return false

/-- The check of the `mach_header_64` and its `ncmds`. -/
def header : MachScan (Option (BitVec 32)) :=
  if m.size < 32 then pure none
  else do
    let magic ← m.u32 0
    if magic ≠ mhMagic64 then return none
    else some <$> m.u32 16

/-- The loop over load commands, ended by the first that gives a result. -/
def eachCommand {α : Type} (visit : ℕ → MachScan (Option α)) : ℕ → ℕ → MachScan (Option α)
  | 0, _ => pure none
  | n + 1, cursor =>
      if m.size < cursor + 8 then pure none
      else do
        match ← visit cursor with
        | some a => return some a
        | none => do
            let cmdsize ← m.u32 (cursor + 4)
            eachCommand visit n (cursor + cmdsize.toNat)

/-- The round of `macho_text_vmaddr`. -/
def textSegment (cursor : ℕ) : MachScan (Option (BitVec 64)) := do
  let cmd ← m.u32 cursor
  if cmd = lcSegment64 then do
    if ← m.strncmpEq (textName.length + 1) (cursor + 8) textName then
      some <$> m.u64 (cursor + 24)
    else return none
  else return none

/-- `macho_text_vmaddr`. -/
def machoTextVmaddr : MachScan (BitVec 64) := do
  match ← m.header with
  | none => return 0
  | some ncmds => (fun r => r.getD 0) <$> m.eachCommand m.textSegment ncmds.toNat 32

/-- The loop of `macho_find_section` over the sections of a segment. -/
def findInSegment (segname sectname : List Byte) :
    ℕ → ℕ → MachScan (Option (BitVec 32 × BitVec 32))
  | 0, _ => pure none
  | n + 1, sec => do
      if ← m.strncmpEq 16 (sec + 16) segname then do
        if ← m.strncmpEq 16 sec sectname then do
          let offset ← m.u32 (sec + 48)
          let size ← m.u64 (sec + 40)
          return some (offset, size.setWidth 32)
        else findInSegment segname sectname n (sec + 80)
      else findInSegment segname sectname n (sec + 80)

/-- The round of `macho_find_section`. -/
def sectionSegment (segname sectname : List Byte) (cursor : ℕ) :
    MachScan (Option (BitVec 32 × BitVec 32)) := do
  let cmd ← m.u32 cursor
  if cmd = lcSegment64 then do
    let nsects ← m.u32 (cursor + 64)
    m.findInSegment segname sectname nsects.toNat (cursor + 72)
  else return none

/-- `macho_find_section`: the offset and the size of a section. -/
def machoFindSection (segname sectname : List Byte) :
    MachScan (Option (BitVec 32 × BitVec 32)) := do
  match ← m.header with
  | none => return none
  | some ncmds => m.eachCommand (m.sectionSegment segname sectname) ncmds.toNat 32

/-! ### The symbol table -/

/-- The loop of `syms_load_macho` over load commands. -/
def lastSymtab : ℕ → ℕ → Option ℕ → MachScan (Option ℕ)
  | 0, _, symtab => pure symtab
  | n + 1, cursor, symtab =>
      if m.size < cursor + 8 then pure symtab
      else do
        let cmd ← m.u32 cursor
        let cmdsize ← m.u32 (cursor + 4)
        lastSymtab n (cursor + cmdsize.toNat) (if cmd = lcSymtab then some cursor else symtab)

/-- Copy a C string. -/
def cstr : ℕ → ℕ → MachScan (List Byte)
  | 0, _ => pure []
  | n + 1, a => do
      let c ← m.u8 a
      if c = 0 then return []
      else (c :: ·) <$> cstr n (a + 1)

end MachImage

/-- `nlist_type_char`. -/
def nlistTypeChar (type : Byte) : Char :=
  let base := type &&& 0x0e
  let ext := type &&& 0x01 ≠ 0
  if base = 0x00 then if ext then 'U' else 'u'
  else if base = 0x02 then if ext then 'A' else 'a'
  else if base = 0x0e then if ext then 'T' else 't'
  else if base = 0x0c then 'Z'
  else if base = 0x0a then 'I'
  else '?'

/-- `sym_name_interesting`, for a name that begins with this byte. -/
def symNameInteresting (first : Byte) (type : Char) : Bool :=
  first ≠ 0 && type ≠ '?' && type ≠ '-' && charOf first ≠ '.' && charOf first ≠ 'L' &&
    (0x20 ≤ first && first ≤ 0x7e)

namespace MachImage

variable (m : MachImage)

/-- `syms_push`. -/
def symsPush (entries : List SymEntry) (addr : Addr) (type : Char) (name : ℕ) :
    MachScan (List SymEntry) := do
  let first ← m.u8 name
  if symNameInteresting first type = true then do
    let bytes ← m.cstr (2 ^ 64) name
    return entries ++ [⟨addr, type, truncate symMaxName (bytes.map charOf)⟩]
  else return entries

/-- The loop of `syms_load_macho` over symbols. -/
def symbolLoop (stroff strsize : ℕ) : ℕ → ℕ → List SymEntry → MachScan (List SymEntry)
  | 0, _, entries => pure entries
  | n + 1, sym, entries => do
      let type ← m.u8 (sym + 4)
      if type &&& 0xe0 ≠ 0 then symbolLoop stroff strsize n (sym + 16) entries
      else do
        let strx ← m.u32 sym
        if strsize ≤ strx.toNat then symbolLoop stroff strsize n (sym + 16) entries
        else do
          let value ← m.u64 (sym + 8)
          let entries ← m.symsPush entries value (nlistTypeChar type) (stroff + strx.toNat)
          symbolLoop stroff strsize n (sym + 16) entries

/-- `syms_load_macho` from the symbol table command on. -/
def loadSymtab (entries : List SymEntry) (symtab : ℕ) : MachScan (Option (List SymEntry)) := do
  let nsyms ← m.u32 (symtab + 12)
  if nsyms = 0 then return none
  else do
    let symoff ← m.u32 (symtab + 8)
    if m.size < symoff.toNat + nsyms.toNat * 16 then return none
    else do
      let stroff ← m.u32 (symtab + 16)
      let strsize ← m.u32 (symtab + 20)
      if m.size < stroff.toNat + strsize.toNat then return none
      else do
        let entries ←
          m.symbolLoop stroff.toNat strsize.toNat nsyms.toNat symoff.toNat entries
        return if entries = [] then none else some entries

/-- `syms_load_macho`, on a table that holds some entries: `none` stands for `-1`. -/
def symsLoadMacho (entries : List SymEntry) : MachScan (Option (List SymEntry)) := do
  match ← m.header with
  | none => return none
  | some ncmds => do
      match ← m.lastSymtab ncmds.toNat 32 none with
      | none => return none
      | some symtab => m.loadSymtab entries symtab

end MachImage

end Cdbg
