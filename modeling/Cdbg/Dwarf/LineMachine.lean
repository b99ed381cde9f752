import Cdbg.Lib.ByteNumber
import Cdbg.Lib.Memory

/-!
The line-number state machine of the DWARF standard: the opcodes of a line program with
their bytes, and the rows that a program emits. Nothing here is taken from the debugger.
-/

namespace Cdbg

/-- A file of version 4: its name, the index of its directory, its time and its length. -/
structure FileEntry where
  name : List Byte
  dirIndex : Leb
  time : Leb
  length : Leb
  deriving DecidableEq, Repr

/-- The bytes of a file. -/
def FileEntry.bytes (f : FileEntry) : List Byte :=
  f.name ++ 0 :: (f.dirIndex.bytes ++ f.time.bytes ++ f.length.bytes)

/-- The fields of a header that give a line program its meaning. -/
structure LineParams where
  version : ℕ
  minInstLength : ℕ
  maxOps : ℕ
  lineBase : ℤ
  lineRange : ℕ
  opcodeBase : ℕ
  addressSize : ℕ
  /-- the numbers of operands of the opcodes from `1` on -/
  lengths : List Byte

/-- The registers of the machine. -/
structure LineRegs where
  address : Addr
  opIndex : ℕ
  line : ℤ
  file : ℕ
  column : ℕ
  deriving DecidableEq, Repr

/-- The registers at the start of a sequence. -/
def LineRegs.init : LineRegs := ⟨0, 0, 1, 1, 0⟩

/-- An opcode with its operands. -/
inductive LineOp
  | special (opcode : Byte)
  | copy
  | advancePc (operations : Leb)
  | advanceLine (lines : Leb)
  | setFile (file : Leb)
  | setColumn (column : Leb)
  | constAddPc
  | fixedAdvancePc (delta : BitVec 16)
  /-- a standard opcode that changes none of the registers above -/
  | other (opcode : Byte) (operands : List Leb)
  | endSequence (len : Leb)
  | setAddress (len : Leb) (address : ℕ)
  /-- version 4: one more file -/
  | defineFile (len : Leb) (file : FileEntry)
  /-- an extended opcode that changes none of the registers above -/
  | extended (len : Leb) (opcode : Byte) (rest : List Byte)
  deriving DecidableEq, Repr

namespace LineOp

/-- The standard opcodes with a constructor of their own. -/
def named : List ℕ := [1, 2, 3, 4, 5, 8, 9]

/-- The bytes of an opcode. -/
def bytes (h : LineParams) : LineOp → List Byte
  | special opcode => [opcode]
  | copy => [1]
  | advancePc n => 2 :: n.bytes
  | advanceLine n => 3 :: n.bytes
  | setFile n => 4 :: n.bytes
  | setColumn n => 5 :: n.bytes
  | constAddPc => [8]
  | fixedAdvancePc delta => 9 :: leBytes 2 delta.toNat
  | other opcode operands => opcode :: operands.flatMap Leb.bytes
  | endSequence len => 0 :: (len.bytes ++ [1])
  | setAddress len address => 0 :: (len.bytes ++ 2 :: leBytes h.addressSize address)
  | defineFile len file => 0 :: (len.bytes ++ 3 :: file.bytes)
  | extended len opcode rest => 0 :: (len.bytes ++ opcode :: rest)

lemma bytes_ne_nil (h : LineParams) (op : LineOp) : op.bytes h ≠ [] := by
  cases op <;> simp [bytes]

/-- The opcodes a program may hold. -/
def WellFormed (h : LineParams) : LineOp → Prop
  | special opcode => h.opcodeBase ≤ opcode.toNat
  | copy => 1 < h.opcodeBase
  | advancePc _ => 2 < h.opcodeBase
  | advanceLine _ => 3 < h.opcodeBase
  | setFile _ => 4 < h.opcodeBase
  | setColumn _ => 5 < h.opcodeBase
  | constAddPc => 8 < h.opcodeBase
  | fixedAdvancePc _ => 9 < h.opcodeBase
  | other opcode operands =>
      opcode ≠ 0 ∧ opcode.toNat < h.opcodeBase ∧ opcode.toNat ∉ named ∧
        operands.length = (h.lengths.getD (opcode.toNat - 1) 0).toNat
  | endSequence len => len.unsigned = 1
  | setAddress len address =>
      len.unsigned = 1 + h.addressSize ∧ address < 256 ^ h.addressSize
  | defineFile len file =>
      h.version = 4 ∧ len.unsigned = 1 + file.bytes.length ∧ len.unsigned < 2 ^ 32
  | extended len opcode rest =>
      opcode ≠ 1 ∧ opcode ≠ 2 ∧ (h.version = 4 → opcode ≠ 3) ∧
        len.unsigned = 1 + rest.length ∧ len.unsigned < 2 ^ 32

instance (h : LineParams) : (op : LineOp) → Decidable (op.WellFormed h)
  | special _ => inferInstanceAs (Decidable (_ ≤ _))
  | copy | constAddPc => inferInstanceAs (Decidable (_ < _))
  | advancePc _ | advanceLine _ | setFile _ | setColumn _ | fixedAdvancePc _ =>
      inferInstanceAs (Decidable (_ < _))
  | other _ _ => inferInstanceAs (Decidable (_ ∧ _ ∧ _ ∧ _))
  | endSequence len => inferInstanceAs (Decidable (len.unsigned = 1))
  | setAddress _ _ => inferInstanceAs (Decidable (_ ∧ _))
  | defineFile _ _ => inferInstanceAs (Decidable (_ ∧ _ ∧ _))
  | extended _ _ _ => inferInstanceAs (Decidable (_ ∧ _ ∧ _ ∧ _ ∧ _))

end LineOp

namespace LineParams

/-- Advance the address by a number of operations. -/
def advance (h : LineParams) (r : LineRegs) (operations : ℕ) : LineRegs :=
  { r with
    address := r.address +
      BitVec.ofNat 64 (h.minInstLength * ((r.opIndex + operations) / h.maxOps))
    opIndex := (r.opIndex + operations) % h.maxOps }

/-- An opcode: the row it emits, if any, and the registers after it. -/
def step (h : LineParams) (r : LineRegs) : LineOp → Option LineRegs × LineRegs
  | .special opcode =>
      let adjusted := opcode.toNat - h.opcodeBase
      let r' := { h.advance r (adjusted / h.lineRange) with
        line := r.line + (h.lineBase + (adjusted % h.lineRange : ℕ)) }
      (some r', r')
  | .copy => (some r, r)
  | .advancePc n => (none, h.advance r n.unsigned)
  | .advanceLine n => (none, { r with line := r.line + n.signed })
  | .setFile n => (none, { r with file := n.unsigned })
  | .setColumn n => (none, { r with column := n.unsigned })
  | .constAddPc => (none, h.advance r ((255 - h.opcodeBase) / h.lineRange))
  | .fixedAdvancePc delta =>
      (none, { r with address := r.address + delta.setWidth 64, opIndex := 0 })
  | .other _ _ => (none, r)
  | .endSequence _ => (some r, .init)
  | .setAddress _ address => (none, { r with address := BitVec.ofNat 64 address, opIndex := 0 })
  | .defineFile _ _ => (none, r)
  | .extended _ _ _ => (none, r)

/-- The rows a program emits from given registers on. -/
def rows (h : LineParams) : LineRegs → List LineOp → List LineRegs
  | _, [] => []
  | r, op :: ops => (h.step r op).1.toList ++ h.rows (h.step r op).2 ops

/-- The rows of a program that show a line. -/
def lineRows (h : LineParams) (ops : List LineOp) : List LineRegs :=
  (h.rows .init ops).filter fun r => 1 ≤ r.line

end LineParams

end Cdbg
