import Cdbg.Dwarf.LineUnit
import Cdbg.Laws.LineProgram

/-!
The opcode loop against the state machine of DWARF, for the header it is given.

A standard opcode that the switch of `parse_line_program` does not name is skipped by as many
bytes as it has operands, so its operands must have one byte each. The line increment of a
special opcode is held in an `int8_t`, and a number is read from ten bytes at most.
-/

namespace Cdbg

open CString Reader

namespace LineHeader

/-- The headers whose opcode lengths the debugger can hold. -/
structure Standard (k : LineHeader) : Prop where
  params : k.params.WellFormed
  opcodeBase_le : k.opcodeBase.toNat ≤ 16

end LineHeader

/-- The operands of an opcode that the debugger reads as they are: it is plain, and a file number
fits the register. -/
def LineOp.InBounds (k : LineHeader) (op : LineOp) : Prop :=
  op.Plain k.params ∧ match op with
    | setFile n => n.unsigned < 2 ^ 64
    | _ => True

instance instDecidableInBounds (k : LineHeader) : (op : LineOp) → Decidable (op.InBounds k)
  | .setFile _ => inferInstanceAs (Decidable (_ ∧ _ < _))
  | .special _ | .other _ _ | .copy | .constAddPc | .fixedAdvancePc _ | .advancePc _
  | .advanceLine _ | .setColumn _ | .endSequence _ | .setAddress _ _ | .defineFile _ _
  | .extended _ _ _ => inferInstanceAs (Decidable (_ ∧ True))

namespace LineHeader

variable {k : LineHeader}

/-- Every file register of a program is one that was set, or the first. -/
lemma file_lt_of_mem_rows {h : LineParams} : ∀ (ops : List LineOp) (r : LineRegs),
    r.file < 2 ^ 64 → (∀ n, LineOp.setFile n ∈ ops → n.unsigned < 2 ^ 64) →
      ∀ x ∈ h.rows r ops, x.file < 2 ^ 64
  | [], _, _, _, x, hx => absurd hx List.not_mem_nil
  | op :: ops, r, hr, hops, x, hx => by
      have hstep : (∀ y ∈ (h.step r op).1, y.file < 2 ^ 64) ∧ (h.step r op).2.file < 2 ^ 64 := by
        cases op with
        | setFile n => exact ⟨nofun, hops n List.mem_cons_self⟩
        | special => exact ⟨fun y hy => by cases hy; exact hr, hr⟩
        | copy => exact ⟨fun y hy => by cases hy; exact hr, hr⟩
        | endSequence =>
            refine ⟨fun y hy => by cases hy; exact hr, ?_⟩
            exact (by decide : LineRegs.init.file < 2 ^ 64)
        | advancePc | advanceLine | setColumn | constAddPc | fixedAdvancePc | other | setAddress
        | defineFile | extended => exact ⟨nofun, hr⟩
      rw [LineParams.rows] at hx
      rcases List.mem_append.mp hx with hx | hx
      · exact hstep.1 x (Option.mem_toList.mp hx)
      · exact file_lt_of_mem_rows ops _ hstep.2
          (fun n hn => hops n (List.mem_cons_of_mem op hn)) x hx

end LineHeader

/-! ### The rows of valid files -/

/-- The path of the file a register selects, none if no file has that number. -/
def filePath (dirs : List Str) (files : FileTable) (file : ℕ) : Option Str :=
  if file = 0 then none
  else files[file]?.map fun f => joinPath (dirs[f.2.toNat]?.getD []) f.1

/-- The rows that a program emits with a line of at least one and a valid file. -/
def LineHeader.validRows (k : LineHeader) (dirs : List Str) (files : FileTable)
    (ops : List LineOp) : List LineRegs :=
  (k.params.rows .init ops).filter fun r => 1 ≤ r.line ∧ (filePath dirs files r.file).isSome

/-- A row the debugger can hold: line and column fit 32 bits, and the path its buffer. -/
def LineRegs.FitsEntry (dirs : List Str) (files : FileTable) (r : LineRegs) : Prop :=
  r.Fits ∧ ∀ p ∈ filePath dirs files r.file, p.length < linenoMaxFile

lemma buildFilePath_eq (dirs : List Str) (files : FileTable) {file : ℕ} (h : file < 2 ^ 64) :
    buildFilePath dirs files (BitVec.ofNat 64 file) =
      (filePath dirs files file).map (truncate linenoMaxFile) := by
  have hnat : (BitVec.ofNat 64 file).toNat = file := by
    rw [BitVec.toNat_ofNat, Nat.mod_eq_of_lt h]
  have hzero : BitVec.ofNat 64 file = 0 ↔ file = 0 := by
    rw [BitVec.toNat_eq, hnat]
    rfl
  rw [buildFilePath, filePath, hnat]
  by_cases h0 : file = 0
  · rw [if_pos (hzero.mpr h0), if_pos h0]
    rfl
  · rw [if_neg (mt hzero.mp h0), if_neg h0, Option.map_map]
    cases files[file]? <;> rfl

lemma truncate_eq_self_iff {n : ℕ} (hn : 0 < n) (s : Str) : truncate n s = s ↔ s.length < n := by
  rw [truncate, List.take_eq_self_iff]
  omega

/-- The entry of a row with a valid file shows it exactly if the row fits. -/
lemma entry_shows_valid {dirs : List Str} {files : FileTable} {r : LineRegs}
    (hfile : r.file < 2 ^ 64) (hline : 1 ≤ r.line) (hvalid : (filePath dirs files r.file).isSome) :
    (∃ e ∈ r.state.entry dirs files, e.Shows (filePath dirs files) r) ↔
      r.FitsEntry dirs files := by
  obtain ⟨p, hp⟩ := Option.isSome_iff_exists.mp hvalid
  rw [entry_shows_iff hline hvalid, LineRegs.FitsEntry, buildFilePath_eq dirs files hfile, hp,
    Option.map_some, Option.some.injEq, truncate_eq_self_iff (by decide)]
  simp

/-- A row that leaves an entry has a line of at least one and a valid file. -/
lemma valid_of_entry {dirs : List Str} {files : FileTable} {r : LineRegs}
    (hfile : r.file < 2 ^ 64) (hline : -2 ^ 63 ≤ r.line)
    (h : (r.state.entry dirs files).isSome) :
    1 ≤ r.line ∧ (filePath dirs files r.file).isSome := by
  refine ⟨entry_isSome hline h, ?_⟩
  rw [LineState.entry] at h
  split at h
  · cases h
  · rw [Option.isSome_map] at h
    have hbuild : (buildFilePath dirs files (BitVec.ofNat 64 r.file)).isSome := h
    rwa [buildFilePath_eq dirs files hfile, Option.isSome_map] at hbuild

/-- **The opcode loop is the state machine** for opcodes with operands in bounds, as long as no
line gets below the least integer: it returns `0`, and its entries show the rows of valid files
exactly if each of these fits. -/
theorem parseLineProgram_rows {k : LineHeader} {ops : List LineOp} (dirs : List Str)
    (files : FileTable) (out : List Byte) (hk : k.Standard)
    (hwf : ∀ op ∈ ops, op.WellFormed k.params) (hbounds : ∀ op ∈ ops, op.InBounds k)
    (hline : ∀ r ∈ k.params.rows .init ops, -2 ^ 63 ≤ r.line) :
    let c : Cursor Byte := ⟨ops.flatMap (LineOp.bytes k.params), out⟩
    (parseLineProgram k dirs files c).1 = 0 ∧
      (List.Forall₂ (LineEntry.Shows (filePath dirs files)) (parseLineProgram k dirs files c).2
          (k.validRows dirs files ops) ↔
        ∀ r ∈ k.validRows dirs files ops, r.FitsEntry dirs files) := by
  have hall : ∀ op ∈ ops, op.WellFormed k.params ∧ op.ReadAs k.params k :=
    fun op hop => ⟨hwf op hop,
      LineHeader.readAs_of_plain hk.params.opcodeBase (hwf op hop) (hbounds op hop).1⟩
  have hprog := LineHeader.program_eq (k := k) rfl out ops .init _ rfl hall le_rfl
  have hfile : ∀ r ∈ k.params.rows .init ops, r.file < 2 ^ 64 :=
    LineHeader.file_lt_of_mem_rows ops .init (by decide) fun n hn => (hbounds _ hn).2
  rw [LineRegs.state_init] at hprog
  simp only [parseLineProgram, hprog, true_and, List.filterMap_map]
  have hshown : ∀ r ∈ k.params.rows .init ops,
      ((LineState.entry dirs files ∘ LineRegs.state) r).isSome →
        decide (1 ≤ r.line ∧ (filePath dirs files r.file).isSome) :=
    fun r hr hsome => decide_eq_true (valid_of_entry (hfile r hr) (hline r hr) hsome)
  rw [LineHeader.validRows, forall₂_filterMap_iff hshown]
  simp only [List.mem_filter, decide_eq_true_eq, and_imp]
  refine forall₂_congr fun r hr => forall_congr' fun hpos => forall_congr' fun hvalid => ?_
  exact entry_shows_valid (hfile r hr) hpos hvalid

/-- A header of version 5 as compilers write it. -/
def usualHeader : LineHeader :=
  ⟨4, 0xfb, 14, 13, 8, [0, 0, 1, 1, 1, 1, 0, 0, 0, 1, 0, 0, 1]⟩

lemma usualHeader_standard : usualHeader.Standard :=
  ⟨⟨by decide, by decide, by decide, by decide, by decide⟩, by decide⟩

/-- A program with a special opcode, an instruction set of one byte, and an end. -/
theorem parseLineProgram_rows_usual :
    let ops : List LineOp :=
      [.setAddress (.single 9) 0x1000, .other 12 [.single 2], .special 33,
        .advancePc (.single 4), .endSequence (.single 1)]
    let c : Cursor Byte := ⟨ops.flatMap (LineOp.bytes usualHeader.params), []⟩
    List.Forall₂ (LineEntry.Shows (filePath [] [([], 0), (['a'], 0)]))
      (parseLineProgram usualHeader [] [([], 0), (['a'], 0)] c).2
      (usualHeader.validRows [] [([], 0), (['a'], 0)] ops) := by
  intro ops c
  refine (parseLineProgram_rows [] [([], 0), (['a'], 0)] [] usualHeader_standard (by decide)
    (by decide) (by decide)).2.mpr ?_
  rintro r hr
  have hrows : ∀ r ∈ usualHeader.validRows [] [([], 0), (['a'], 0)] ops,
      r.Fits ∧ r.file = 1 := by decide
  obtain ⟨hfits, hfile⟩ := hrows r hr
  refine ⟨hfits, fun p hp => ?_⟩
  rw [hfile] at hp
  cases hp
  decide

/-- The second byte of the operand of `DW_LNS_set_isa` is executed as `DW_LNS_copy`, so that an
entry appears for which the state machine emits no row; and a line increment of 198 becomes
`-58`. -/
theorem parseLineProgram_rows_desynchronised :
    let files : FileTable := [([], 0), (['a'], 0)]
    let ops : List LineOp := [.other 12 [⟨[0], 1⟩], .endSequence (.single 1)]
    let c : Cursor Byte := ⟨ops.flatMap (LineOp.bytes usualHeader.params), []⟩
    let wide : LineHeader := { usualHeader with lineBase := 100, lineRange := 100 }
    let d : Cursor Byte := ⟨[111], []⟩
    (∀ op ∈ ops, op.WellFormed usualHeader.params) ∧
      (usualHeader.validRows [] files ops).length = 1 ∧
      (parseLineProgram usualHeader [] files c).2.length = 2 ∧
      (LineOp.special 111).WellFormed wide.params ∧
      (wide.validRows [] files [.special 111]).map LineRegs.line = [199] ∧
      (parseLineProgram wide [] files d).2 = [] := by
  decide

end Cdbg
