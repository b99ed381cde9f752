import Cdbg.Machine.World

/-!
Reading what `dwarfdump --debug-info` prints: the small parsers of `debugger.c` and
the description of a variable they fill in (`expr_shared.h`).

The output is scanned line by line. A line either starts a debugging information
entry (it carries its offset, a colon, one blank for each level and the tag) or
gives an attribute of the entry started last.
-/

namespace Cdbg

open CString

/-- `cdbg_var_base_t`: the register a location is relative to. -/
inductive VarBase
  | fb
  | sp
  | x29
  deriving DecidableEq, Repr

/-- `cdbg_var_info_t`. -/
structure VarInfo where
  name : Str
  type : Str
  elementType : Str
  fbregOffset : ℤ
  base : VarBase
  size : ℕ
  elementSize : ℕ
  pointeeSize : ℕ
  arrayCount : ℕ
  hasLocation : Bool
  isPointer : Bool
  isSigned : Bool
  isArray : Bool
  deriving DecidableEq, Repr

/-- A description cleared by `memset`. -/
def VarInfo.zero : VarInfo where
  name := []
  type := []
  elementType := []
  fbregOffset := 0
  base := .fb
  size := 0
  elementSize := 0
  pointeeSize := 0
  arrayCount := 0
  hasLocation := false
  isPointer := false
  isSigned := false
  isArray := false

/-- `cdbg_struct_member_t`. -/
structure StructMember where
  name : Str
  type : Str
  offset : BitVec 64
  size : ℕ
  isSigned : Bool
  deriving DecidableEq, Repr

/-- A member cleared by `memset`. -/
def StructMember.zero : StructMember := ⟨[], [], 0, 0, false⟩

/-- The size of the buffer `line` of the scanners. -/
def dwarfLineSize : ℕ := 1024

/-- The pieces of lines the scanners see, none if no program was loaded. -/
def Dbg.debugLines (d : Dbg) : Option (List Str) :=
  d.debugInfo.map (fgetsAll dwarfLineSize)

/-- `parse_quoted_value`: the text between the first two quotes, cut to the buffer. -/
def parseQuotedValue (line : Str) (outLen : ℕ) : Option Str :=
  match strchr line '"' with
  | none => none
  | some start =>
      if '"' ∈ start.tail then
        some (truncate outLen (start.tail.takeWhile (· ≠ '"')))
      else none

lemma parseQuotedValue_length {line out : Str} {n : ℕ} (h : parseQuotedValue line n = some out) :
    out.length ≤ n - 1 := by
  rw [parseQuotedValue] at h
  split at h
  · cases h
  · split at h
    · rw [← Option.some.inj h]
      exact List.length_take_le _ _
    · cases h

/-- `parse_hex_value`: the first hexadecimal number of the line. -/
def parseHexValue (line : Str) : Option (BitVec 64) :=
  match strstr line "0x".toList with
  | none => none
  | some hex => (strtoull 16 hex).map Prod.fst

/-- The part of `parse_fbreg_offset` that finds the base register: the base it
stores, if any, and the rest of the line if it goes on. -/
def parseFbregBase (line : Str) : Option (VarBase × Str) :=
  match strstr line "DW_OP_fbreg".toList with
  | some p => some (.fb, p.drop "DW_OP_fbreg".length)
  | none =>
  match strstr line "DW_OP_breg".toList with
  | none => none
  | some p =>
  match strtoll 10 (p.drop "DW_OP_breg".length) with
  | none => none
  | some (reg, rest) =>
      if reg = 31 then some (.sp, rest) else if reg = 29 then some (.x29, rest) else none

/-- The part of `parse_fbreg_offset` after the base register: the offset. -/
def parseFbregNumber (rest : Str) : Option ℤ :=
  match strpbrk rest fun c => c = '+' || c = '-' || isdigit c with
  | none => none
  | some p => (strtoll 10 p).map Prod.fst

/-- `parse_fbreg_offset`: the variable with the base register found in the line, and
whether an offset was found as well. -/
def parseFbregOffset (line : Str) (var : VarInfo) : VarInfo × Bool :=
  match parseFbregBase line with
  | none => (var, false)
  | some (base, rest) =>
  match parseFbregNumber rest with
  | none => ({ var with base := base }, false)
  | some offset => ({ var with base := base, fbregOffset := offset }, true)

lemma parseFbregOffset_type (line : Str) (var : VarInfo) :
    (parseFbregOffset line var).1.type = var.type := by
  rw [parseFbregOffset]
  repeat' split
  all_goals rfl

lemma parseFbregOffset_name (line : Str) (var : VarInfo) :
    (parseFbregOffset line var).1.name = var.name := by
  rw [parseFbregOffset]
  repeat' split
  all_goals rfl

/-- `dwarf_line_depth`: the blanks after the first colon. -/
def dwarfLineDepth (line : Str) : ℕ :=
  match strchr line ':' with
  | none => 0
  | some s => (s.tail.takeWhile (· = ' ')).length

/-- `dwarf_starts_die`. -/
def dwarfStartsDie (line : Str) : Bool :=
  hasSubstr line "DW_TAG_".toList || hasSubstr line "NULL".toList

/-- `pc_in_range`: an upper bound below the lower one is a length. -/
def pcInRange (pc low high : Addr) : Bool :=
  if low = 0 ∨ high = 0 then false
  else
    let high := if high < low then high + low else high
    low ≤ pc && pc < high

/-- `sizeof (uintptr_t)`. -/
def ptrSize : ℕ := 8

/-- `type_scalar_size`: the size guessed from the name of a type. -/
def typeScalarSize (type : Str) : ℕ :=
  if '*' ∈ type then ptrSize
  else if hasSubstr type "char".toList then 1
  else if hasSubstr type "short".toList then 2
  else if hasSubstr type "long".toList then 8
  else if hasSubstr type "int".toList || hasSubstr type "bool".toList then 4
  else ptrSize

/-- `type_pointee_size`: `0` for a type that is no pointer. -/
def typePointeeSize (type : Str) : ℕ :=
  if '*' ∈ type then
    typeScalarSize (trimSpace (truncate 128 (type.takeWhile (· ≠ '*'))))
  else 0

/-- `type_is_scalar`. -/
def typeIsScalar (type : Str) : Bool :=
  '*' ∈ type || hasSubstr type "char".toList || hasSubstr type "short".toList ||
    hasSubstr type "int".toList || hasSubstr type "long".toList ||
    hasSubstr type "bool".toList

/-- `parse_member_offset`. -/
def parseMemberOffset (line : Str) : Option (BitVec 64) :=
  match strstr line "DW_AT_data_member_location".toList with
  | none => none
  | some loc =>
  match strchr loc '(' with
  | none => none
  | some s => (strtoull 16 s.tail).map Prod.fst

/-- `parse_array_type`: the type of the elements and their number. -/
def parseArrayType (type : Str) (elemLen : ℕ) : Option (Str × ℕ) :=
  match strchr type '[' with
  | none => none
  | some bracket =>
      if bracket = type then none
      else
        match strtoull 10 bracket.tail with
        | some (count, ']' :: _) =>
            some (truncate elemLen (type.takeWhile (· ≠ '[')), count.toNat)
        | _ => none

/-- A text without a bracket is no array type. -/
lemma parseArrayType_eq_none {type : Str} (h : '[' ∉ type) (len : ℕ) :
    parseArrayType type len = none := by
  rw [parseArrayType, strchr_eq_none h]

end Cdbg
