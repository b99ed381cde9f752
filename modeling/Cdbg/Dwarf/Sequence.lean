import Cdbg.Dwarf.LineDump
import Cdbg.Dwarf.LineUnit

/-!
The line tables of a program as sequences of rows, each closed by its `end_sequence` row, and
the two forms in which `cdbg_lineno_load` gets them: as `dwarfdump` prints them, and as the
units of the section.
-/

namespace Cdbg

open CString

/-! ### Sequences -/

/-- A row of a line table. It has no file if its register names none. -/
structure LineRow where
  address : Addr
  line : ℤ
  file : Option Str
  endSequence : Bool
  deriving DecidableEq

/-- A row gives this file and line. -/
def LineRow.Says (r : LineRow) (file : Str) (line : BitVec 32) : Prop :=
  r.file = some file ∧ r.line = line.toNat

/-- A sequence of a line table: rows of nondecreasing address, closed by the row of
`DW_LNE_end_sequence`. -/
structure Sequence where
  rows : List LineRow
  stop : LineRow
  sorted : (rows ++ [stop]).Pairwise (fun e e' => e.address ≤ e'.address)
  closed : stop.endSequence = true ∧ ∀ r ∈ rows, r.endSequence = false

namespace Sequence

variable {q : Sequence} {a b : Addr} {r y : LineRow}

/-- The rows that stand in the program for the sequence. -/
def allRows (q : Sequence) : List LineRow := q.rows ++ [q.stop]

/-- The addresses of a sequence: from its first row on and before its end. -/
def Covers (q : Sequence) (a : Addr) : Prop :=
  (∃ first ∈ q.rows.head?, first.address ≤ a) ∧ a < q.stop.address

/-- The last row of a sequence at or below an address. -/
def rowAt (q : Sequence) (a : Addr) : Option LineRow :=
  (q.rows.filter fun e => e.address ≤ a).getLast?

/-- What a sequence says of an address in it. -/
def Gives (q : Sequence) (a : Addr) (file : Str) (line : BitVec 32) : Prop :=
  q.Covers a ∧ ∃ r ∈ q.rowAt a, r.Says file line

lemma head_le (hy : y ∈ q.rows) : ∃ first ∈ q.rows.head?, first.address ≤ y.address := by
  have hsorted := (List.pairwise_append.mp q.sorted).1
  generalize q.rows = rows at hy hsorted
  cases hy with
  | head => exact ⟨y, rfl, BitVec.le_refl _⟩
  | tail e hy => exact ⟨e, rfl, List.rel_of_pairwise_cons hsorted hy⟩

lemma mem_of_rowAt (h : r ∈ q.rowAt a) : r ∈ q.rows ∧ r.address ≤ a := by
  have hr := List.mem_filter.mp (List.mem_of_getLast? h)
  exact ⟨hr.1, of_decide_eq_true hr.2⟩

/-- The last row at or below an address has the highest address of them. -/
lemma le_of_rowAt (h : r ∈ q.rowAt a) (hy : y ∈ q.rows) (hya : y.address ≤ a) :
    y.address ≤ r.address := by
  have hsorted := (List.pairwise_append.mp q.sorted).1.filter fun e => decide (e.address ≤ a)
  have hmem : y ∈ q.rows.filter fun e => e.address ≤ a :=
    List.mem_filter.mpr ⟨hy, decide_eq_true hya⟩
  obtain ⟨init, hinit⟩ := List.getLast?_eq_some_iff.mp h
  rw [hinit] at hsorted hmem
  rcases List.mem_append.mp hmem with hy | hy
  · exact (List.pairwise_append.mp hsorted).2.2 y hy r (List.mem_singleton_self r)
  · rw [List.mem_singleton.mp hy]
    exact BitVec.le_refl _

/-- Down to its own address the last row below stays the last. -/
lemma rowAt_of_le (h : r ∈ q.rowAt a) (hrb : r.address ≤ b) (hba : b ≤ a) : r ∈ q.rowAt b := by
  obtain ⟨init, hinit⟩ := List.getLast?_eq_some_iff.mp h
  -- the rows below `b` are the first of those below `a`, and still end with `r`
  have hsub : q.rows.filter (fun e => e.address ≤ b) =
      (q.rows.filter fun e => e.address ≤ a).filter fun e => e.address ≤ b := by
    rw [List.filter_filter]
    refine List.filter_congr fun e _ => ?_
    have : e.address ≤ b → e.address ≤ a := fun h => BitVec.le_trans h hba
    simpa using this
  have hlast : [r].filter (fun e => e.address ≤ b) = [r] := by simpa using hrb
  rw [rowAt, hsub, hinit, List.filter_append, hlast]
  exact List.getLast?_concat

/-- Up to the next row the last row below stays the last. -/
lemma rowAt_eq_of_gap (hab : a ≤ b)
    (hgap : ∀ y ∈ q.rows, ¬ (a < y.address ∧ y.address ≤ b)) : q.rowAt b = q.rowAt a := by
  rw [rowAt, rowAt]
  congr 1
  refine List.filter_congr fun e he => ?_
  have := hgap e he
  rw [decide_eq_decide]
  constructor
  · intro hb
    by_contra ha
    exact this ⟨BitVec.not_le.mp ha, hb⟩
  · exact fun ha => BitVec.le_trans ha hab

lemma Covers.of_gap (h : q.Covers a) (hab : a ≤ b) (hb : b < q.stop.address) : q.Covers b := by
  obtain ⟨⟨first, hfirst, hle⟩, -⟩ := h
  exact ⟨⟨first, hfirst, BitVec.le_trans hle hab⟩, hb⟩

end Sequence

/-! ### Their forms -/

/-- A printed row. -/
def DumpTable.lineRow (t : DumpTable) (r : DumpRow) : LineRow :=
  ⟨r.address, r.line.toNat, t.path r, hasSubstr r.flags "end_sequence".toList⟩

/-- Whether an opcode ends a sequence. -/
def LineOp.endsSequence : LineOp → Bool
  | .endSequence _ => true
  | _ => false

/-- The rows that a program emits from given registers on, with their files. -/
def LineParams.sequenceRows (h : LineParams) (path : ℕ → Option Str) :
    LineRegs → List LineOp → List LineRow
  | _, [] => []
  | r, op :: ops =>
      ((h.step r op).1.map fun row =>
        (⟨row.address, row.line, path row.file, op.endsSequence⟩ : LineRow)).toList ++
      h.sequenceRows path (h.step r op).2 ops

/-- A unit of the section. -/
inductive LineUnit
  | version4 (u : Unit4)
  | version5 (u : Unit5)
  deriving DecidableEq

namespace LineUnit

/-- The bytes of a unit. -/
def bytes : LineUnit → List Byte
  | version4 u => u.bytes
  | version5 u => u.bytes

/-- The rows of a unit. -/
def rows (lineStr : List Byte) : LineUnit → List LineRow
  | version4 u => u.params.sequenceRows u.path .init u.ops
  | version5 u => u.params.sequenceRows (u.path lineStr) .init u.ops

/-- The units of the standard. -/
def WellFormed : LineUnit → Prop
  | version4 u => u.WellFormed
  | version5 u => u.WellFormed

end LineUnit

/-- Line tables in one of the two forms. -/
inductive LineTables
  | printed (tables : List DumpTable)
  | encoded (units : List LineUnit) (lineStr : List Byte)

namespace LineTables

/-- The rows of all tables, in the order in which they are read. -/
def rows : LineTables → List LineRow
  | printed ts => ts.flatMap fun t => t.rows.map t.lineRow
  | encoded us lineStr => us.flatMap (LineUnit.rows lineStr)

/-- Tables that `dwarfdump` prints, or the standard lays out. -/
def WellFormed : LineTables → Prop
  | printed ts => ∀ t ∈ ts, t.Printable
  | encoded us _ => ∀ u ∈ us, u.WellFormed

/-- The entries that `cdbg_lineno_load` makes of the tables: of the text if `dwarfdump` prints
them, and else of the bytes. A parser that does not end leaves none. -/
def entries : LineTables → List LineEntry
  | printed ts =>
      ((linenoLoad (some ⟨ts.flatMap DumpTable.lines, true⟩) [] []).map LineRows.entries).getD []
  | encoded us lineStr =>
      ((linenoLoad none (us.flatMap LineUnit.bytes) lineStr).map LineRows.entries).getD []

end LineTables

/-- A program: its line tables hold sequences with disjoint ranges of addresses. -/
structure Program where
  tables : LineTables
  wellFormed : tables.WellFormed
  sequences : List Sequence
  rows : sequences.flatMap Sequence.allRows = tables.rows
  disjoint : sequences.Pairwise fun q q' => ∀ a, ¬ (q.Covers a ∧ q'.Covers a)

/-- The table that the debugger loads of a program. -/
def Program.load (p : Program) (linkBase slide : Addr) : LineTable :=
  ⟨p.tables.entries, linkBase, slide⟩

end Cdbg
