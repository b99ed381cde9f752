import Cdbg.Dwarf.Sequence
import Cdbg.Laws.LineLoad
import Cdbg.Laws.LineLookup
import Cdbg.Laws.LineUnit5

/-!
Whether the line table says of a program counter what the sequences of the program say.

The table does not tell the end of a sequence from a row, so up to `128` bytes behind a
sequence the line of its end is still given; of several rows at one address the first is
taken, while the last counts; the loaders put rows under other files than their own; and
where the parser leaves rows out, the row before them stands for theirs.
-/

namespace Cdbg

/-- An address lies above a row and at or below a program counter. -/
def LineTable.Between (ln : LineTable) (x : LineEntry) (pc y : Addr) : Prop :=
  ln.runtimeAddr x.address < ln.runtimeAddr y ∧ ln.runtimeAddr y ≤ pc

namespace Program

variable {p : Program}

/-- A file and line that some sequence of the program gives for a link address. -/
def Located (p : Program) (a : Addr) (file : Str) (line : BitVec 32) : Prop :=
  ∃ q ∈ p.sequences, q.Gives a file line

/-- A row of the table speaks for a sequence up to a program counter: the sequence gives the
row's file and line at its address and has no row from there on. -/
def SpeaksFor (ln : LineTable) (pc : Addr) (x : LineEntry) (q : Sequence) : Prop :=
  q.Gives x.address x.file x.line ∧ ∀ y ∈ q.allRows, ¬ ln.Between x pc y.address

/-- The row of the sequence that counts has been left out of the table, and has the file and
line of the row before it. -/
def Echoes (ln : LineTable) (pc : Addr) (x : LineEntry) (q : Sequence) : Prop :=
  q.Covers (pc - ln.slide) ∧ ∃ r ∈ q.rowAt (pc - ln.slide),
    ln.Between x pc r.address ∧ r.Says x.file x.line

/-- The row nearest below a program counter, if it has a line and reaches up to there, speaks
for a sequence or has the file and line of the row left out behind it. -/
def SpeaksAt (p : Program) (ln : LineTable) (pc : Addr) : Prop :=
  ∀ x, ln.Nearest pc x → x.line ≠ 0 → pc ≤ ln.runtimeAddr x.address + 128 →
    ∃ q ∈ p.sequences, SpeaksFor ln pc x q ∨ Echoes ln pc x q

/-- Between a row at or below a link address and that address, in the order of the running
process, lie only rows between them in the order of the link addresses. -/
lemma between_of_runtime {a x r slide : Addr} (hra : r ≤ a) (hx : x + slide ≤ a + slide)
    (hr : r + slide ≤ a + slide → r + slide ≤ x + slide) : r ≤ x ∧ x ≤ a := by
  bv_omega

variable {ln : LineTable} {x : LineEntry} {q : Sequence} {a : Addr}

/-- A row that speaks for a sequence gives what the sequence gives at the program counter. -/
lemma SpeaksFor.gives (hx : ln.runtimeAddr x.address ≤ a + ln.slide)
    (h : SpeaksFor ln (a + ln.slide) x q) : q.Gives a x.file x.line := by
  obtain ⟨⟨hcov, r, hr, hsays⟩, hgap⟩ := h
  simp only [LineTable.Between, LineTable.runtimeAddr] at hx hgap
  -- the end of the sequence is no row between, so it lies above the program counter
  have hend : x.address ≤ a ∧ a < q.stop.address := by
    have hstop := hgap q.stop (List.mem_append_right _ (List.mem_singleton_self _))
    have := hcov.2
    bv_omega
  have hrows : ∀ y ∈ q.rows, ¬ (x.address < y.address ∧ y.address ≤ a) := by
    rintro y hy ⟨hxy, hya⟩
    have := hgap y (List.mem_append_left _ hy)
    bv_omega
  refine ⟨hcov.of_gap hend.1 hend.2, r, ?_, hsays⟩
  rwa [Sequence.rowAt_eq_of_gap hend.1 hrows]

/-- A row that gives what a sequence gives at the program counter speaks for it, unless the
row that counts there lies between them. -/
lemma speaksFor_or_echoes (hx : ln.runtimeAddr x.address ≤ a + ln.slide)
    (h : q.Gives a x.file x.line) :
    SpeaksFor ln (a + ln.slide) x q ∨ Echoes ln (a + ln.slide) x q := by
  have ha : a + ln.slide - ln.slide = a := by bv_omega
  obtain ⟨hcov, r, hr, hsays⟩ := h
  by_cases hbetween : ln.Between x (a + ln.slide) r.address
  · exact .inr (by rw [Echoes, ha]; exact ⟨hcov, r, hr, hbetween, hsays⟩)
  obtain ⟨hrq, hra⟩ := Sequence.mem_of_rowAt hr
  simp only [LineTable.Between, LineTable.runtimeAddr] at hx hbetween
  obtain ⟨hrx, hxa⟩ := between_of_runtime hra hx fun hle => by bv_omega
  obtain ⟨first, hfirst, hfr⟩ := Sequence.head_le hrq
  have hcovx : q.Covers x.address :=
    ⟨⟨first, hfirst, BitVec.le_trans hfr hrx⟩, by have := hcov.2; bv_omega⟩
  refine .inl ⟨⟨hcovx, r, Sequence.rowAt_of_le hr hrx hxa, hsays⟩, ?_⟩
  -- a row of the sequence above `x` would count instead of `r`, or would be its end
  rintro y hy ⟨hxy, hya⟩
  simp only [LineTable.runtimeAddr] at hxy hya
  have hlink : x.address < y.address ∧ y.address ≤ a := by bv_omega
  rcases List.mem_append.mp hy with hy | hy
  · have := Sequence.le_of_rowAt hr hy hlink.2
    bv_omega
  · obtain rfl := List.mem_singleton.mp hy
    have := hcov.2
    bv_omega

variable {ts : List DumpTable}

lemma entries_printed (hprint : ∀ t ∈ ts, t.Printable) :
    (LineTables.printed ts).entries = (DumpTable.scanned ts).entries := by
  rw [LineTables.entries, linenoLoad_printed hprint, Option.getD_some]

/-- Every printed row has an entry at its address. -/
lemma exists_entry (hprint : ∀ t ∈ ts, t.Printable) {r : LineRow}
    (hr : r ∈ (LineTables.printed ts).rows) :
    ∃ e ∈ (LineTables.printed ts).entries, e.address = r.address := by
  obtain ⟨t, ht, hr⟩ := List.mem_flatMap.mp hr
  obtain ⟨row, hrow, rfl⟩ := List.mem_map.mp hr
  have hmem := List.mem_map_of_mem (f := fun r : DumpRow => (r.address, r.line, r.column))
    (List.mem_flatMap.mpr ⟨t, ht, hrow⟩)
  rw [← DumpTable.scanned_rows] at hmem
  obtain ⟨e, he, heq⟩ := List.mem_map.mp hmem
  exact ⟨e, (entries_printed hprint).symm ▸ he, (Prod.mk.inj heq).1⟩

/-- Of what `dwarfdump` prints no row is left out, so there a row can only speak for a
sequence. -/
theorem speaksAt_printed_iff (htables : p.tables = .printed ts) (linkBase slide pc : Addr) :
    p.SpeaksAt (p.load linkBase slide) pc ↔
      ∀ x, (p.load linkBase slide).Nearest pc x → x.line ≠ 0 →
        pc ≤ (p.load linkBase slide).runtimeAddr x.address + 128 →
          ∃ q ∈ p.sequences, SpeaksFor (p.load linkBase slide) pc x q := by
  have hprint : ∀ t ∈ ts, t.Printable := by
    have h := p.wellFormed
    rwa [htables] at h
  refine forall₄_congr fun x hx hline hreach => exists_congr fun q => and_congr_right fun hq => ?_
  refine or_iff_left ?_
  rintro ⟨-, r, hr, hbetween, -⟩
  have hrow : r ∈ (LineTables.printed ts).rows := by
    rw [← htables, ← p.rows]
    exact List.mem_flatMap.mpr ⟨q, hq, List.mem_append_left _ (Sequence.mem_of_rowAt hr).1⟩
  obtain ⟨e, he, haddr⟩ := exists_entry hprint hrow
  rw [← htables] at he
  exact hx.not_between he (haddr ▸ hbetween)

/-! ### Two programs -/

/-- A function of two lines, as `dwarfdump` prints its table. -/
def twoLines : DumpTable where
  header := []
  base := 1
  dirs := ["/s".toList]
  files := [⟨"a.c".toList, 1, []⟩]
  rows := [⟨0x3f00, 5, 0, 1, []⟩, ⟨0x3f10, 6, 0, 1, []⟩,
    ⟨0x3f20, 6, 0, 1, "  end_sequence".toList⟩]

lemma twoLines_printable : ∀ t ∈ [twoLines], t.Printable := by
  rintro t ht
  obtain rfl := List.mem_singleton.mp ht
  exact ⟨by decide, by decide, by decide, by decide, by decide, by decide⟩

/-- The program of that function. -/
def ofTwoLines : Program where
  tables := .printed [twoLines]
  wellFormed := twoLines_printable
  sequences :=
    [⟨[⟨0x3f00, 5, "/s/a.c".toList, false⟩, ⟨0x3f10, 6, "/s/a.c".toList, false⟩],
      ⟨0x3f20, 6, "/s/a.c".toList, true⟩, by decide, by decide⟩]
  rows := by decide
  disjoint := List.pairwise_singleton _ _

lemma secondFile_wellFormed : ∀ u ∈ [LineUnit.version5 (Unit5.sample 0x62)], u.WellFormed := by
  rintro u hu
  obtain rfl := List.mem_singleton.mp hu
  exact Unit5.sample_wellFormed (by decide)

/-- A unit of version 5 with two files, whose rows lie in the second. -/
def ofSecondFile : Program where
  tables := .encoded [.version5 (Unit5.sample 0x62)] []
  wellFormed := secondFile_wellFormed
  sequences :=
    [⟨[⟨0x1000, 1, "/s/b.c".toList, false⟩, ⟨0x1010, 2, "/s/b.c".toList, false⟩],
      ⟨0x1018, 2, "/s/b.c".toList, true⟩, by decide, by decide⟩]
  rows := by decide
  disjoint := List.pairwise_singleton _ _

end Program

end Cdbg
