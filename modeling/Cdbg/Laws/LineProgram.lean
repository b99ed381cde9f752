import Cdbg.Dwarf.LineMachine
import Cdbg.Source.LineUnit

/-!
Line programs: where `parse_line_program` does what the state machine of DWARF does.

The header the debugger goes by (`LineHeader`) need not be the header of the unit
(`LineParams`). `ReadAs` says of an opcode that it means the same under both; a program of
such opcodes emits the same rows. Under a header that is read in full the `Plain` opcodes are
of that kind.
-/

namespace Cdbg

open CString Reader

/-- The state of the debugger that stands for the registers. -/
def LineRegs.state (r : LineRegs) : LineState :=
  ⟨r.address, BitVec.ofInt 64 r.line, BitVec.ofNat 64 r.file, BitVec.ofNat 64 r.column⟩

@[simp] lemma LineRegs.state_init : LineRegs.init.state = LineState.init := rfl

/-- The debugger takes the bytes of an opcode for the same opcode with the same effect. -/
def LineOp.ReadAs (h : LineParams) (k : LineHeader) : LineOp → Prop
  | special opcode =>
      let adjusted := opcode.toNat - h.opcodeBase
      let adjusted' := opcode.toNat - k.opcodeBase.toNat
      opcode ≠ 0 ∧ k.opcodeBase.toNat ≤ opcode.toNat ∧
        k.advance (adjusted' / k.lineRange.toNat) =
          BitVec.ofNat 64 (h.minInstLength * (adjusted / h.lineRange)) ∧
        (k.lineBase + BitVec.ofNat 8 (adjusted' % k.lineRange.toNat)).toInt =
          h.lineBase + (adjusted % h.lineRange : ℕ)
  | copy => 1 < k.opcodeBase.toNat
  | advancePc n =>
      2 < k.opcodeBase.toNat ∧ n.size ≤ 10 ∧ k.minInstLength.toNat = h.minInstLength
  | advanceLine n => 3 < k.opcodeBase.toNat ∧ n.size ≤ 10
  | setFile n => 4 < k.opcodeBase.toNat ∧ n.size ≤ 10
  | setColumn n => 5 < k.opcodeBase.toNat ∧ n.size ≤ 10
  | constAddPc =>
      8 < k.opcodeBase.toNat ∧
        k.advance ((255 - k.opcodeBase.toNat) / k.lineRange.toNat) =
          BitVec.ofNat 64 (h.minInstLength * ((255 - h.opcodeBase) / h.lineRange))
  | fixedAdvancePc _ => 9 < k.opcodeBase.toNat
  | other opcode operands =>
      opcode.toNat < k.opcodeBase.toNat ∧
        (k.stdLengths.getD opcode.toNat 0).toNat = (operands.flatMap Leb.bytes).length
  | endSequence len => len.size ≤ 10
  | setAddress len _ =>
      len.size ≤ 10 ∧ k.addressSize.toNat = h.addressSize ∧
        (h.addressSize = 8 ∨ h.addressSize = 4)
  | defineFile len _ => len.size ≤ 10
  | extended len _ _ => len.size ≤ 10

instance (h : LineParams) (k : LineHeader) : (op : LineOp) → Decidable (op.ReadAs h k)
  | .special _ => inferInstanceAs (Decidable (_ ∧ _ ∧ _ ∧ _))
  | .advancePc _ | .setAddress _ _ => inferInstanceAs (Decidable (_ ∧ _ ∧ _))
  | .advanceLine _ | .setFile _ | .setColumn _ | .constAddPc | .other _ _ =>
      inferInstanceAs (Decidable (_ ∧ _))
  | .copy | .fixedAdvancePc _ => inferInstanceAs (Decidable (_ < _))
  | .endSequence _ | .defineFile _ _ | .extended _ _ _ => inferInstanceAs (Decidable (_ ≤ _))

/-- An opcode that a header read in full makes the debugger execute as it is meant. -/
def LineOp.Plain (h : LineParams) : LineOp → Prop
  | special opcode => h.lineBase + ((opcode.toNat - h.opcodeBase) % h.lineRange : ℕ) < 128
  | other _ operands => ∀ n ∈ operands, n.size = 1
  | advancePc n => n.size ≤ 10
  | advanceLine n => n.size ≤ 10
  | setFile n => n.size ≤ 10
  | setColumn n => n.size ≤ 10
  | endSequence len => len.size ≤ 10
  | setAddress len _ => len.size ≤ 10 ∧ (h.addressSize = 8 ∨ h.addressSize = 4)
  | defineFile len _ => len.size ≤ 10
  | extended len _ _ => len.size ≤ 10
  | _ => True

instance (h : LineParams) : (op : LineOp) → Decidable (op.Plain h)
  | .special _ => inferInstanceAs (Decidable (_ < _))
  | .other _ operands => inferInstanceAs (Decidable (∀ n ∈ operands, n.size = 1))
  | .setAddress _ _ => inferInstanceAs (Decidable (_ ∧ _))
  | .copy | .constAddPc | .fixedAdvancePc _ => .isTrue trivial
  | .advancePc _ | .advanceLine _ | .setFile _ | .setColumn _ => inferInstanceAs (Decidable (_ ≤ _))
  | .endSequence _ | .defineFile _ _ | .extended _ _ _ => inferInstanceAs (Decidable (_ ≤ _))

/-- Operands of one byte each take as many bytes as there are operands. -/
lemma length_operands {operands : List Leb} (h : ∀ n ∈ operands, n.size = 1) :
    (operands.flatMap Leb.bytes).length = operands.length := by
  induction operands with
  | nil => rfl
  | cons n operands ih =>
      have hn := h n List.mem_cons_self
      have hrest := ih fun m hm => h m (List.mem_cons_of_mem n hm)
      rw [List.flatMap_cons, List.length_append, Leb.length_bytes, hn, hrest, List.length_cons,
        Nat.add_comm]

namespace LineHeader

/-- The header as DWARF understands it, with one operation for each instruction. -/
def params (k : LineHeader) : LineParams :=
  ⟨5, k.minInstLength.toNat, 1, k.lineBase.toInt, k.lineRange.toNat, k.opcodeBase.toNat,
    k.addressSize.toNat, k.stdLengths.tail⟩

/-! ### Plain opcodes -/

section Plain

variable {k : LineHeader}

/-- The sum of the line base and what a special opcode adds, where it fits an `int8_t`. -/
lemma toInt_lineIncrement {n : ℕ} (h : k.lineBase.toInt + n < 128) :
    (k.lineBase + BitVec.ofNat 8 n).toInt = k.lineBase.toInt + n := by
  have hlow : -128 ≤ k.lineBase.toInt := BitVec.le_toInt k.lineBase
  rw [← BitVec.ofInt_natCast, ← BitVec.ofInt_toInt (x := k.lineBase), ← BitVec.ofInt_add,
    BitVec.ofInt_toInt]
  exact BitVec.toInt_ofInt_eq_self (by decide) (by norm_num; omega) (by norm_num; omega)

/-- A header that is read in full means of a plain opcode what DWARF means. -/
lemma readAs_of_plain (hbase : 1 ≤ k.opcodeBase.toNat) {op : LineOp}
    (hwf : op.WellFormed k.params) (h : op.Plain k.params) : op.ReadAs k.params k := by
  have hadvance : ∀ n : ℕ, k.advance n = BitVec.ofNat 64 (k.params.minInstLength * n) :=
    fun n => congrArg (BitVec.ofNat 64) (Nat.mul_comm n _)
  cases op with
  | special opcode =>
      have hle : k.opcodeBase.toNat ≤ opcode.toNat := hwf
      refine ⟨?_, hle, hadvance _, toInt_lineIncrement h⟩
      rintro rfl
      exact absurd (hbase.trans hle) (by decide)
  | copy => exact hwf
  | advancePc n => exact ⟨hwf, h, rfl⟩
  | advanceLine n => exact ⟨hwf, h⟩
  | setFile n => exact ⟨hwf, h⟩
  | setColumn n => exact ⟨hwf, h⟩
  | constAddPc => exact ⟨hwf, hadvance _⟩
  | fixedAdvancePc delta => exact hwf
  | other opcode operands =>
      -- its length stands one place further on in the array, whose place 0 is not used
      obtain ⟨hne, hlt, -, hlen⟩ := hwf
      have hpos : opcode.toNat ≠ 0 := fun h0 => hne (BitVec.eq_of_toNat_eq h0)
      obtain ⟨i, hi⟩ := Nat.exists_eq_succ_of_ne_zero hpos
      refine ⟨hlt, ?_⟩
      rw [length_operands h, hlen, hi]
      simp [params, List.getD_eq_getElem?_getD, List.getElem?_tail]
  | endSequence len => exact h
  | setAddress len address => exact ⟨h.1, rfl, h.2⟩
  | defineFile len file => exact h
  | extended len opcode rest => exact h

end Plain

variable {h : LineParams} {k : LineHeader} {r : LineRegs}

/-- A standard opcode is read as such. -/
lemma reads_standard {s : LineState} {opcode : Byte} {operands : List Byte} {row : LineRound}
    (h0 : opcode ≠ 0) (hlt : opcode.toNat < k.opcodeBase.toNat)
    (hop : Reads (k.standard s opcode) operands row) :
    Reads (k.round s) (opcode :: operands) row := by
  show Reads (k.round s) ([opcode] ++ operands) row
  refine (reads_readU8 opcode).bind ?_
  rw [if_neg h0, if_pos (BitVec.lt_def.mpr hlt)]
  exact hop

/-- An extended opcode is read up to its end. -/
lemma reads_extended {s : LineState} {len : Leb} {sub : Byte} {payload : List Byte}
    {row : LineRound} (hsize : len.size ≤ 10) (hlen : len.unsigned = 1 + payload.length)
    (hlt : len.unsigned < 2 ^ 32)
    (hrow : ∀ rest out, ∃ c, (k.subOpcode s sub).run ⟨payload ++ rest, out⟩ = some (row, c)) :
    Reads (k.round s) (0 :: (len.bytes ++ sub :: payload)) row := by
  show Reads (k.round s) ([0] ++ (len.bytes ++ sub :: payload)) row
  refine (reads_readU8 0).bind ?_
  rw [if_pos rfl]
  refine (reads_readUleb128 len hsize).bind ?_
  intro rest out
  obtain ⟨c, hc⟩ := hrow rest out
  have hnat : (BitVec.ofNat 64 len.unsigned).toNat = (sub :: payload).length := by
    rw [BitVec.toNat_ofNat, List.length_cons]
    omega
  have hok : (cursorOk (sub :: payload).length).run ⟨sub :: payload ++ rest, out⟩ =
      some ((), ⟨sub :: payload ++ rest, out⟩) := if_pos (by simp)
  rw [hnat, StateT.run_bind, hok]
  change ((k.subOpcode s sub).run ⟨payload ++ rest, out⟩ >>= fun x =>
    (do set (⟨sub :: payload ++ rest, out⟩ : Cursor Byte)
        Cdbg.advance (sub :: payload).length
        return x.1 : ByteReader LineRound).run x.2) = _
  rw [hc]
  have hend : Reads (do Cdbg.advance (sub :: payload).length; return row) (sub :: payload) row :=
    (reads_advance _).bind_nil (Reads.pure row)
  exact hend rest out

/-- What the sub opcode makes of bytes it does not read. -/
lemma reads_extended_of_pure {s : LineState} {len : Leb} {sub : Byte} {payload : List Byte}
    {row : LineRound} (hsize : len.size ≤ 10) (hlen : len.unsigned = 1 + payload.length)
    (hlt : len.unsigned < 2 ^ 32) (hrow : k.subOpcode s sub = pure row) :
    Reads (k.round s) (0 :: (len.bytes ++ sub :: payload)) row :=
  reads_extended hsize hlen hlt fun rest out => ⟨⟨payload ++ rest, out⟩, by rw [hrow]; rfl⟩

lemma standard_other {s : LineState} {opcode : Byte} (h : opcode.toNat ∉ LineOp.named) :
    k.standard s opcode = (do
      Cdbg.advance (k.stdLengths.getD opcode.toNat 0).toNat
      return (none, s)) := by
  simp only [LineOp.named, List.mem_cons, List.not_mem_nil, or_false, not_or] at h
  unfold standard
  split <;> simp_all

/-- The address of `DW_LNE_set_address`. -/
lemma reads_setAddress {len : Leb} {address : ℕ} (hsize : k.addressSize.toNat = h.addressSize)
    (hwidth : h.addressSize = 8 ∨ h.addressSize = 4) (hlt : address < 256 ^ h.addressSize) :
    Reads (k.subOpcode r.state 2) (leBytes h.addressSize address)
      (none, (h.step r (.setAddress len address)).2.state) := by
  have hne : ¬ (2 : Byte) = 1 := by decide
  rcases hwidth with h8 | h4
  · have hk : k.addressSize = 8 := BitVec.eq_of_toNat_eq (hsize.trans h8)
    rw [h8] at hlt ⊢
    rw [subOpcode, if_neg hne, if_pos ⟨rfl, hk⟩]
    refine (reads_readU64 hlt).bind_nil ?_
    exact Reads.pure _
  · have hk : k.addressSize = 4 := BitVec.eq_of_toNat_eq (hsize.trans h4)
    have hk8 : ¬ ((2 : Byte) = 2 ∧ k.addressSize = 8) := by
      rw [hk]
      decide
    have hwide : BitVec.setWidth 64 (BitVec.ofNat 32 address) = BitVec.ofNat 64 address := by
      apply BitVec.eq_of_toNat_eq
      simp only [BitVec.toNat_setWidth, BitVec.toNat_ofNat]
      rw [h4] at hlt
      omega
    rw [h4] at hlt ⊢
    rw [subOpcode, if_neg hne, if_neg hk8, if_pos ⟨rfl, hk⟩]
    refine (reads_readU32 hlt).bind_nil ?_
    rw [hwide]
    exact Reads.pure _

/-- With one operation per instruction the address advances by whole instructions. -/
lemma advance_one (hops : h.maxOps = 1) (hr : r.opIndex = 0) (n : ℕ) :
    h.advance r n =
      { r with address := r.address + BitVec.ofNat 64 (h.minInstLength * n) } := by
  rw [LineParams.advance, hops, hr, Nat.zero_add, Nat.div_one, Nat.mod_one]

lemma special_state {opcode : Byte} (hops : h.maxOps = 1) (hr : r.opIndex = 0)
    (hread : (LineOp.special opcode).ReadAs h k) :
    some (k.special r.state opcode) = (h.step r (.special opcode)).1.map LineRegs.state := by
  obtain ⟨_, hle, hadv, hinc⟩ := hread
  have hsub : (opcode - k.opcodeBase).toNat = opcode.toNat - k.opcodeBase.toNat :=
    BitVec.toNat_sub_of_le (BitVec.le_def.mpr hle)
  simp only [special, LineParams.step, advance_one hops hr, Option.map_some, LineRegs.state,
    hsub, hadv, BitVec.signExtend, hinc, ← BitVec.ofInt_add]

/-- An opcode that means the same is executed as the state machine does. -/
lemma reads_round {op : LineOp} (hops : h.maxOps = 1) (hr : r.opIndex = 0)
    (hwf : op.WellFormed h) (hread : op.ReadAs h k) :
    Reads (k.round r.state) (op.bytes h)
      ((h.step r op).1.map LineRegs.state, (h.step r op).2.state) := by
  -- one case for each opcode: its operands are read, and the registers agree
  cases op with
  | special opcode =>
      have hstate := special_state hops hr hread
      refine (reads_readU8 opcode).bind_nil ?_
      rw [if_neg hread.1, if_neg (by rw [BitVec.lt_def]; exact not_lt.mpr hread.2.1), ← hstate,
        show (h.step r (.special opcode)).2.state = k.special r.state opcode from
          (Option.some.inj hstate).symm]
      exact Reads.pure _
  | copy => exact reads_standard (by decide) hread (Reads.pure _)
  | advancePc n =>
      obtain ⟨hbase, hsize, hmin⟩ := hread
      refine reads_standard (by decide) hbase ((reads_readUleb128 n hsize).bind_nil ?_)
      have hmul : BitVec.ofNat 64 n.unsigned * k.minInstLength.setWidth 64 =
          BitVec.ofNat 64 (h.minInstLength * n.unsigned) := by
        rw [← BitVec.ofNat_toNat, hmin, ← BitVec.ofNat_mul, Nat.mul_comm]
      rw [hmul]
      simp only [LineParams.step, advance_one hops hr]
      exact Reads.pure _
  | advanceLine n =>
      refine reads_standard (by decide) hread.1 ((reads_readSleb128 n hread.2).bind_nil ?_)
      simp only [LineParams.step, LineRegs.state, BitVec.ofInt_add]
      exact Reads.pure _
  | setFile n =>
      exact reads_standard (by decide) hread.1
        ((reads_readUleb128 n hread.2).bind_nil (Reads.pure _))
  | setColumn n =>
      exact reads_standard (by decide) hread.1
        ((reads_readUleb128 n hread.2).bind_nil (Reads.pure _))
  | constAddPc =>
      refine reads_standard (by decide) hread.1 ?_
      simp only [LineParams.step, advance_one hops hr, ← hread.2]
      exact Reads.pure _
  | fixedAdvancePc delta =>
      have hu16 := reads_readU16 delta.isLt
      rw [BitVec.ofNat_toNat, BitVec.setWidth_eq] at hu16
      exact reads_standard (by decide) hread (hu16.bind_nil (Reads.pure _))
  | other opcode operands =>
      obtain ⟨h0, _, hnamed, _⟩ := hwf
      refine reads_standard h0 hread.1 ?_
      rw [standard_other hnamed, hread.2]
      exact (reads_advance _).bind_nil (Reads.pure _)
  -- the extended opcodes, by their lengths
  | endSequence len =>
      have hlen : len.unsigned = 1 := hwf
      exact reads_extended_of_pure hread hlen (by omega) (if_pos rfl)
  | setAddress len address =>
      obtain ⟨hsize, haddr, hwidth⟩ := hread
      obtain ⟨hlen, hlt⟩ := hwf
      exact reads_extended hsize (by rw [length_leBytes]; exact hlen) (by omega) fun rest out =>
        ⟨_, reads_setAddress haddr hwidth hlt rest out⟩
  | defineFile len file =>
      exact reads_extended_of_pure hread hwf.2.1 hwf.2.2 rfl
  | extended len opcode rest =>
      obtain ⟨h1, h2, _, hlen, hlt⟩ := hwf
      refine reads_extended_of_pure hread hlen hlt ?_
      rw [subOpcode, if_neg h1, if_neg fun hc => h2 hc.1, if_neg fun hc => h2 hc.1]
      rfl

lemma step_opIndex (op : LineOp) (hops : h.maxOps = 1) (hr : r.opIndex = 0) :
    (h.step r op).2.opIndex = 0 := by
  cases op <;> simp [LineParams.step, advance_one hops hr, hr, LineRegs.init]

/-- A program of opcodes that mean the same emits the rows of the state machine. -/
lemma program_eq (hops : h.maxOps = 1) (out : List Byte) :
    ∀ (ops : List LineOp) (r : LineRegs) (n : ℕ), r.opIndex = 0 →
      (∀ op ∈ ops, op.WellFormed h ∧ op.ReadAs h k) →
      (ops.flatMap (LineOp.bytes h)).length ≤ n →
      k.program n r.state ⟨ops.flatMap (LineOp.bytes h), out⟩ =
        (0, (h.rows r ops).map LineRegs.state) := by
  intro ops
  induction ops with
  | nil =>
      intro r n _ _ _
      cases n <;> rfl
  | cons op ops ih =>
      intro r n hr hall hn
      obtain ⟨hwf, hread⟩ := hall op List.mem_cons_self
      have hne := op.bytes_ne_nil h
      have hpos := List.length_pos_of_ne_nil hne
      rw [List.flatMap_cons, List.length_append] at hn
      obtain ⟨m, rfl⟩ : ∃ m, n = m + 1 := ⟨n - 1, by omega⟩
      have hround := reads_round hops hr hwf hread (ops.flatMap (LineOp.bytes h)) out
      have hrest := ih (h.step r op).2 m (step_opIndex op hops hr)
        (fun o ho => hall o (List.mem_cons_of_mem op ho)) (by omega)
      rw [List.flatMap_cons, program, if_neg (by simp [hne]), hround]
      simp only [hrest, LineParams.rows, List.map_append]
      cases (h.step r op).1 <;> rfl

end LineHeader

/-! ### Rows and entries -/

/-- An entry shows a row: address, line and column are the same, and the file has this path. -/
def LineEntry.Shows (path : ℕ → Option Str) (e : LineEntry) (r : LineRegs) : Prop :=
  e.address = r.address ∧ (e.line.toNat : ℤ) = r.line ∧ e.column.toNat = r.column ∧
    path r.file = some e.file

instance (path : ℕ → Option Str) (e : LineEntry) (r : LineRegs) : Decidable (e.Shows path r) :=
  inferInstanceAs (Decidable (_ ∧ _ ∧ _ ∧ _))

lemma length_filterMap_le {α β : Type} {f : α → Option β} {p : α → Bool} :
    ∀ {l : List α}, (∀ x ∈ l, (f x).isSome → p x) → (l.filterMap f).length ≤ (l.filter p).length
  | [], _ => le_rfl
  | x :: l, h => by
      have ih := length_filterMap_le (l := l) fun y hy => h y (List.mem_cons_of_mem x hy)
      have hx := h x List.mem_cons_self
      cases hf : f x with
      | none =>
          rw [List.filterMap_cons_none hf]
          refine ih.trans ?_
          exact ((List.sublist_cons_self x l).filter p).length_le
      | some y =>
          rw [hf] at hx
          rw [List.filterMap_cons_some hf, List.filter_cons_of_pos (hx rfl)]
          exact Nat.succ_le_succ ih

/-- Where only members of the filter are mapped, the results match the filter one by one
exactly if every member of the filter is mapped to a match. -/
lemma forall₂_filterMap_iff {α β : Type} {f : α → Option β} {p : α → Bool} {R : β → α → Prop} :
    ∀ {l : List α}, (∀ x ∈ l, (f x).isSome → p x) →
      (List.Forall₂ R (l.filterMap f) (l.filter p) ↔ ∀ x ∈ l, p x → ∃ y ∈ f x, R y x)
  | [], _ => by simp
  | x :: l, h => by
      have hl := fun y hy => h y (List.mem_cons_of_mem x hy)
      have ih := forall₂_filterMap_iff (R := R) (l := l) hl
      have hx := h x List.mem_cons_self
      rw [List.forall_mem_cons, ← ih]
      cases hf : f x with
      | none =>
          rw [List.filterMap_cons_none hf]
          by_cases hp : p x
          · rw [List.filter_cons_of_pos hp]
            constructor
            · intro hfor
              have hlen := hfor.length_eq
              have hle := length_filterMap_le hl
              rw [List.length_cons] at hlen
              omega
            · rintro ⟨hsome, _⟩
              obtain ⟨y, hy, _⟩ := hsome hp
              cases hy
          · rw [List.filter_cons_of_neg hp]
            exact (and_iff_right fun hp' => absurd hp' hp).symm
      | some y =>
          rw [hf] at hx
          rw [List.filterMap_cons_some hf, List.filter_cons_of_pos (hx rfl), List.forall₂_cons]
          simp [hx rfl]

/-- The debugger can hold the row: its line and column fit 32 bits. -/
def LineRegs.Fits (r : LineRegs) : Prop := r.line < 2 ^ 32 ∧ r.column < 2 ^ 32

instance (r : LineRegs) : Decidable r.Fits := inferInstanceAs (Decidable (_ ∧ _))

section Rows

variable {dirs : List Str} {files : FileTable} {path : ℕ → Option Str} {r : LineRegs}

/-- A row of a line that is not positive leaves no entry. -/
lemma entry_isSome (hline : -2 ^ 63 ≤ r.line) (h : (r.state.entry dirs files).isSome) :
    1 ≤ r.line := by
  by_contra hneg
  have hint : (BitVec.ofInt 64 r.line).toInt = r.line :=
    BitVec.toInt_ofInt_eq_self (by decide) (by omega) (by omega)
  have hle : ¬ r.state.line.toInt ≤ 0 := by
    intro hle
    rw [LineState.entry, if_pos hle] at h
    cases h
  rw [LineRegs.state, hint] at hle
  omega

/-- The entry of a row shows it exactly if the row fits and the debugger finds its path. -/
lemma entry_shows_iff (hline : 1 ≤ r.line) (hfile : (path r.file).isSome) :
    (∃ e ∈ r.state.entry dirs files, e.Shows path r) ↔
      r.Fits ∧ buildFilePath dirs files (BitVec.ofNat 64 r.file) = path r.file := by
  obtain ⟨q, hq⟩ := Option.isSome_iff_exists.mp hfile
  constructor
  · rintro ⟨e, he, hshow⟩
    obtain ⟨_, hl, hc, hp⟩ := hshow
    rw [LineState.entry] at he
    split at he
    · cases he
    · obtain ⟨f, hf, rfl⟩ := Option.map_eq_some_iff.mp he
      refine ⟨⟨?_, ?_⟩, hf.trans hp.symm⟩
      · rw [← hl]
        exact_mod_cast (BitVec.isLt _)
      · rw [← hc]
        exact BitVec.isLt _
  · rintro ⟨⟨hl, hc⟩, hp⟩
    have hint : r.state.line.toInt = r.line :=
      BitVec.toInt_ofInt_eq_self (by decide) (by omega) (by omega)
    have hbuild : buildFilePath dirs files r.state.fileIndex = some q := hp.trans hq
    refine ⟨⟨r.address, r.state.line.setWidth 32, r.state.column.setWidth 32, q⟩, ?_, rfl, ?_, ?_,
      hq⟩
    · rw [LineState.entry, if_neg (by omega), hbuild]
      rfl
    · have hnat : (BitVec.ofInt 64 r.line).toNat = r.line.toNat := by
        rw [BitVec.toNat_ofInt]
        omega
      simp only [LineRegs.state, BitVec.toNat_setWidth, hnat]
      omega
    · simp only [LineRegs.state, BitVec.toNat_setWidth, BitVec.toNat_ofNat]
      omega

end Rows

/-- The entries of a program that is read as it is meant show its rows exactly if every row
fits and the debugger finds the path of its file. -/
lemma parseLineProgram_shows_iff {h : LineParams} {k : LineHeader} {path : ℕ → Option Str}
    {ops : List LineOp} (dirs : List Str) (files : FileTable) (out : List Byte)
    (hops : h.maxOps = 1) (hall : ∀ op ∈ ops, op.WellFormed h ∧ op.ReadAs h k)
    (hline : ∀ r ∈ h.rows .init ops, -2 ^ 63 ≤ r.line)
    (hfile : ∀ r ∈ h.lineRows ops, (path r.file).isSome) :
    let c : Cursor Byte := ⟨ops.flatMap (LineOp.bytes h), out⟩
    (parseLineProgram k dirs files c).1 = 0 ∧
      (List.Forall₂ (LineEntry.Shows path) (parseLineProgram k dirs files c).2 (h.lineRows ops) ↔
        ∀ r ∈ h.lineRows ops,
          r.Fits ∧ buildFilePath dirs files (BitVec.ofNat 64 r.file) = path r.file) := by
  have hprog := LineHeader.program_eq hops out ops .init _ rfl hall le_rfl
  rw [LineRegs.state_init] at hprog
  simp only [parseLineProgram, hprog, true_and, List.filterMap_map]
  have hshown : ∀ r ∈ h.rows .init ops,
      ((LineState.entry dirs files ∘ LineRegs.state) r).isSome → decide (1 ≤ r.line) :=
    fun r hr hsome => decide_eq_true (entry_isSome (hline r hr) hsome)
  rw [LineParams.lineRows, forall₂_filterMap_iff hshown]
  simp only [List.mem_filter, decide_eq_true_eq, and_imp]
  refine forall₂_congr fun r hr => forall_congr' fun hpos => ?_
  exact entry_shows_iff hpos (hfile r (List.mem_filter.mpr ⟨hr, decide_eq_true hpos⟩))

/-! ### Sections of one unit -/

/-- What the debugger is to make of a section: it is parsed, and leaves one more entry for each
of these rows, in order. -/
def LineRows.Decodes (ln : LineRows) (section_ lineStr : List Byte) (path : ℕ → Option Str)
    (rows : List LineRegs) : Prop :=
  ∃ es ln', parseLineTable ln section_ lineStr = some (0, ln') ∧ ln'.entries = ln.entries ++ es ∧
    List.Forall₂ (LineEntry.Shows path) es rows

lemma LineRows.decodes_iff {ln : LineRows} {section_ lineStr : List Byte}
    {path : ℕ → Option Str} {rows : List LineRegs} {es : List LineEntry} {dir : Str}
    (hrun : parseLineTable ln section_ lineStr = some (0, ⟨ln.entries ++ es, dir⟩)) :
    ln.Decodes section_ lineStr path rows ↔ List.Forall₂ (LineEntry.Shows path) es rows := by
  constructor
  · rintro ⟨es', ln', hrun', hes, hfor⟩
    rw [hrun] at hrun'
    cases hrun'
    rwa [List.append_cancel_left hes]
  · exact fun hfor => ⟨es, _, hrun, rfl, hfor⟩

/-- A unit whose header can be read, up to the program the debugger starts. -/
lemma parseUnit_of_prologue {lineStr prologue program : List Byte} {addressSize : Byte}
    {v5 : Bool} {unit : Cursor Byte} {p : Prologue} (whole : Cursor Byte) (ln : LineRows)
    (hlen : prologue.length < 2 ^ 32)
    (hfields : (readUnitFields v5).run unit =
      some ((addressSize, BitVec.ofNat 32 prologue.length), ⟨prologue ++ program, []⟩))
    (hprologue : (readPrologue lineStr v5 addressSize).run ⟨prologue, program ++ []⟩ =
      some (p, ⟨[], program ++ []⟩)) :
    ∃ dir : Str, parseUnit lineStr v5 whole unit ln =
      let start := if v5 then whole.inside.drop
          (whole.inside.length - (prologue ++ program).length + prologue.length - 1) else program
      let r := parseLineProgram p.header p.dirs p.files ⟨start, whole.outside⟩
      (r.1, ⟨ln.entries ++ r.2, dir⟩) := by
  have hnat : (BitVec.ofNat 32 prologue.length).toNat = prologue.length := by
    rw [BitVec.toNat_ofNat, Nat.mod_eq_of_lt hlen]
  have hge : ¬ (prologue ++ program).length < prologue.length := by
    rw [List.length_append]
    omega
  rw [parseUnit, hfields]
  simp only [hnat, hge, if_false, List.take_left', List.drop_left', hprologue, List.nil_append,
    apply_ite LineRows.entries, ite_self]
  exact ⟨_, rfl⟩

/-- A section that holds one unit. -/
lemma parseLineTable_unit {lineStr body : List Byte} (version : ℕ) (v5 : Bool) (ln : LineRows)
    (hversion : version = if v5 then 5 else 4) (hlen : 2 + body.length < 0xfffffff0) :
    parseLineTable ln (leBytes 4 (2 + body.length) ++ (leBytes 2 version ++ body)) lineStr =
      some (parseUnit lineStr v5 ⟨leBytes 2 version ++ body, []⟩ ⟨body, []⟩ ln) := by
  have hbody : (leBytes 2 version ++ body).length = 2 + body.length := by simp
  have hv16 : version < 2 ^ 16 := by
    rw [hversion]
    split <;> omega
  -- the length of the unit covers the rest of the section
  have hunit : readU32.run ⟨leBytes 4 (2 + body.length) ++ (leBytes 2 version ++ body), []⟩ =
      some (BitVec.ofNat 32 (2 + body.length), ⟨leBytes 2 version ++ body, []⟩) :=
    reads_readU32 (by omega) _ _
  have hnat : (BitVec.ofNat 32 (2 + body.length)).toNat = 2 + body.length := by
    rw [BitVec.toNat_ofNat]
    omega
  have hne : BitVec.ofNat 32 (2 + body.length) ≠ 0xffffffff := by
    intro h
    have hnat' := congrArg BitVec.toNat h
    rw [hnat] at hnat'
    simp at hnat'
    omega
  have htake : (leBytes 2 version ++ body).take (2 + body.length) = leBytes 2 version ++ body :=
    List.take_of_length_le hbody.le
  have hdrop : (leBytes 2 version ++ body).drop (2 + body.length) = [] :=
    List.drop_of_length_le hbody.le
  -- the version is one of the two that are parsed
  have hvers : readU16.run ⟨leBytes 2 version ++ body, []⟩ =
      some (BitVec.ofNat 16 version, ⟨body, []⟩) := reads_readU16 hv16 _ _
  have hsupported : ¬ (BitVec.ofNat 16 version ≠ 5 ∧ BitVec.ofNat 16 version ≠ 4) := by
    rw [hversion]
    cases v5 <;> decide
  have hfive : decide (BitVec.ofNat 16 version = 5) = v5 := by
    rw [hversion]
    cases v5 <;> decide
  rw [parseLineTable]
  have hcons : leBytes 4 (2 + body.length) ++ (leBytes 2 version ++ body) =
      BitVec.ofNat 8 (2 + body.length) ::
        (leBytes 3 ((2 + body.length) / 256) ++ (leBytes 2 version ++ body)) := rfl
  rw [hcons] at hunit ⊢
  rw [List.length_cons, parseLineTableLoop]
  simp only [hunit, hne, if_false, hnat, hbody, lt_irrefl, htake, hdrop, hvers, hsupported, hfive]
  -- behind the unit the section ends, so its result is that of the table
  generalize parseUnit lineStr v5 ⟨leBytes 2 version ++ body, []⟩ ⟨body, []⟩ ln = r
  obtain ⟨rc, ln'⟩ := r
  by_cases hrc : rc = 0
  · rw [if_neg (by simp [hrc]), hrc]
    cases (leBytes 3 ((2 + body.length) / 256) ++ (leBytes 2 version ++ body)).length <;> rfl
  · rw [if_pos hrc]

end Cdbg
