import Cdbg.Lib.Extremum
import Cdbg.Source.LineTable

/-!
The searches of the line table, and the way from a line to a program counter and back.

`lookupLine` takes the row of lowest address among the rows of a line, while `lineAtPc`
takes the row listed first among all rows at the address nearest below. Two rows at one
address make them disagree: the later one can be found by its line and is then displayed
as the earlier one.
-/

namespace Cdbg

namespace LineTable

variable {ln : LineTable} {pc : Addr} {x : LineEntry}

/-! ### The row nearest below a program counter -/

/-- A row is the one for a program counter: no other is nearer below, and of the rows at
its address it is the first. -/
def Nearest (ln : LineTable) (pc : Addr) (x : LineEntry) : Prop :=
  ln.runtimeAddr x.address ≤ pc ∧
    (∀ y ∈ ln.entries, ln.runtimeAddr y.address ≤ pc →
      ln.runtimeAddr y.address ≤ ln.runtimeAddr x.address) ∧
    ln.entries.find? (fun y => y.address = x.address) = some x

instance : Decidable (ln.Nearest pc x) := inferInstanceAs (Decidable (_ ∧ _ ∧ _))

lemma address_of_find? {entries : List LineEntry} {addr : Addr}
    (h : entries.find? (fun y => y.address = addr) = some x) : x.address = addr := by
  simpa using List.find?_some h

lemma Nearest.mem (h : ln.Nearest pc x) : x ∈ ln.entries := List.mem_of_find?_eq_some h.2.2

/-- No row lies above the nearest one and at or below the program counter. -/
lemma Nearest.not_between (h : ln.Nearest pc x) {y : LineEntry} (hy : y ∈ ln.entries) :
    ¬ (ln.runtimeAddr x.address < ln.runtimeAddr y.address ∧ ln.runtimeAddr y.address ≤ pc) :=
  fun ⟨hxy, hyp⟩ => absurd (h.2.1 y hy hyp) (BitVec.not_le.mpr hxy)

lemma runtimeAddr_inj {a b : Addr} : ln.runtimeAddr a = ln.runtimeAddr b ↔ a = b := by
  simp [runtimeAddr]

/-- The search keeps the first row of highest address at or below the program counter. -/
lemma lookupPc_eq (ln : LineTable) (pc : Addr) :
    ln.lookupPc pc = (ln.entries.filter (fun e => ln.runtimeAddr e.address ≤ pc)).argmax
      (fun e => (ln.runtimeAddr e.address).toNat) := by
  rw [← List.foldl_max_eq_argmax, lookupPc]
  congr 1
  funext best e
  cases best with
  | none => rfl
  | some b => simp [lookupPcStep, BitVec.lt_def]

lemma lookupPc_eq_some_iff : ln.lookupPc pc = some x ↔ ln.Nearest pc x := by
  have hkey (y : LineEntry) : (ln.runtimeAddr y.address).toNat = (ln.runtimeAddr x.address).toNat ↔
      y.address = x.address := by
    rw [← BitVec.toNat_eq, runtimeAddr_inj]
  have hat (hle : ln.runtimeAddr x.address ≤ pc) :
      (ln.entries.filter (fun e => ln.runtimeAddr e.address ≤ pc)).find? (fun y =>
        (ln.runtimeAddr y.address).toNat = (ln.runtimeAddr x.address).toNat) =
      ln.entries.find? (fun y => y.address = x.address) := by
    rw [List.find?_filter]
    congr 1
    funext y
    have : y.address = x.address → ln.runtimeAddr y.address ≤ pc := fun h => h ▸ hle
    simpa [hkey] using this
  rw [lookupPc_eq]
  constructor
  · intro h
    have hx := List.mem_filter.mp (List.argmax_mem h)
    have hle : ln.runtimeAddr x.address ≤ pc := of_decide_eq_true hx.2
    refine ⟨hle, ?_, ?_⟩
    · intro y hy hyp
      have hmem : y ∈ ln.entries.filter (fun e => ln.runtimeAddr e.address ≤ pc) :=
        List.mem_filter.mpr ⟨hy, decide_eq_true hyp⟩
      exact BitVec.le_def.mpr (List.le_of_mem_argmax
        (f := fun e : LineEntry => (ln.runtimeAddr e.address).toNat) hmem h)
    · rw [← hat hle]
      exact List.find?_of_mem_argmax h
  · rintro ⟨hle, hmax, hfirst⟩
    refine List.mem_argmax_of_find? ?_ ((hat hle).trans hfirst)
    intro y hy
    have hy' := List.mem_filter.mp hy
    exact BitVec.le_def.mp (hmax y hy'.1 (of_decide_eq_true hy'.2))

/-! ### The reach of a row -/

/-- With no row between a row and a program counter above it, the bound of the row is the
one `128` bytes on, as far as that program counter can tell. -/
lemma le_maxPc_iff {start : Addr}
    (h : ∀ y ∈ ln.entries, ¬ (start < ln.runtimeAddr y.address ∧ ln.runtimeAddr y.address ≤ pc)) :
    pc ≤ ln.maxPc start ↔ pc ≤ start + 128 := by
  rw [maxPc]
  generalize start + 128 = bound
  generalize ln.entries = entries at h
  induction entries generalizing bound with
  | nil => rfl
  | cons e entries ih =>
    have hrest := fun bound => ih bound fun y hy => h y (List.mem_cons_of_mem _ hy)
    rw [List.foldl_cons, hrest]
    by_cases hcut : start < ln.runtimeAddr e.address ∧ ln.runtimeAddr e.address < bound
    · rw [if_pos hcut]
      have habove : pc < ln.runtimeAddr e.address := by
        have := h e List.mem_cons_self
        rw [not_and, BitVec.not_le] at this
        exact this hcut.1
      obtain ⟨-, hbound⟩ := hcut
      constructor <;> intro _ <;> bv_omega
    · rw [if_neg hcut]

lemma entryAtPc_eq_some_iff : ln.entryAtPc pc = some x ↔
    ln.Nearest pc x ∧ x.line ≠ 0 ∧ pc ≤ ln.runtimeAddr x.address + 128 := by
  rw [entryAtPc, ← lookupPc_eq_some_iff]
  cases h : ln.lookupPc pc with
  | none => simp
  | some e =>
    have hreach := le_maxPc_iff fun y hy => (lookupPc_eq_some_iff.mp h).not_between hy
    by_cases hline : e.line = 0
    · simp only [hline, if_true, reduceCtorEq, Option.some.injEq, false_iff]
      rintro ⟨rfl, hne, -⟩
      exact hne hline
    · by_cases hpc : pc > ln.maxPc (ln.runtimeAddr e.address)
      · simp only [if_neg hline, if_pos hpc, reduceCtorEq, Option.some.injEq, false_iff]
        rintro ⟨rfl, -, hle⟩
        exact absurd (hreach.mpr hle) (BitVec.not_le.mpr hpc)
      · simp only [if_neg hline, if_neg hpc, Option.some.injEq]
        have hle := hreach.mp (BitVec.not_lt.mp hpc)
        constructor
        · rintro rfl
          exact ⟨rfl, hline, hle⟩
        · exact fun h => h.1

/-- The file and line of a program counter are those of the row nearest below, if that row
has a line and reaches so far. -/
lemma lineAtPc_eq_some_iff {file : Str} {line : BitVec 32} : ln.lineAtPc pc = some (file, line) ↔
    ∃ x, ln.Nearest pc x ∧ x.line ≠ 0 ∧ pc ≤ ln.runtimeAddr x.address + 128 ∧
      x.file = file ∧ x.line = line := by
  simp only [lineAtPc, Option.map_eq_some_iff, entryAtPc_eq_some_iff, Prod.mk.injEq, and_assoc]

/-! ### From a line to its row and back -/

/-- The search by line keeps the first matching row of lowest address. -/
lemma lookupLine_eq (ln : LineTable) (filter : Option Str) (line : BitVec 32) :
    ln.lookupLine filter line =
      (ln.entries.filter (fun e => e.line = line ∧ fileMatches e.file filter)).argmin
        (fun e => e.address.toNat) := by
  rw [← List.foldl_min_eq_argmin, lookupLine]
  congr 1
  funext best e
  by_cases hl : e.line = line
  · by_cases hf : fileMatches e.file filter
    · cases best with
      | none => simp [hl, hf]
      | some b => simp [hl, hf, BitVec.lt_def]
    · simp [hl, hf]
  · simp [hl]

lemma lookupLine_mem {filter : Option Str} {line : BitVec 32} {e : LineEntry}
    (h : ln.lookupLine filter line = some e) : e ∈ ln.entries ∧ e.line = line := by
  rw [lookupLine_eq] at h
  have := List.mem_filter.mp (List.argmin_mem h)
  exact ⟨this.1, (of_decide_eq_true this.2).1⟩

/-- The row for the address of a row is the first of those at its address. -/
lemma nearest_self_iff {e : LineEntry} (he : e ∈ ln.entries) :
    ln.Nearest (ln.runtimeAddr e.address) x ↔
      ln.entries.find? (fun y => y.address = e.address) = some x := by
  constructor
  · rintro ⟨hle, hmax, hfirst⟩
    have haddr : x.address = e.address :=
      runtimeAddr_inj.mp (BitVec.le_antisymm hle (hmax e he (BitVec.le_refl _)))
    rwa [haddr] at hfirst
  · intro h
    have haddr : x.address = e.address := address_of_find? h
    refine ⟨haddr ▸ BitVec.le_refl _, ?_, haddr ▸ h⟩
    intro y _ hy
    rwa [haddr]

/-- **A line found by `break` is the line displayed** exactly if the row listed first at
its address has that file and line, and the address is not among the last `128`. -/
theorem lineAtPc_lookupLine (ln : LineTable) (filter : Option Str) (line : BitVec 32)
    (e : LineEntry) (hline : 1 ≤ line) (h : ln.lookupLine filter line = some e) :
    ln.lineAtPc (ln.runtimeAddr e.address) = some (e.file, line) ↔
      (∃ x, ln.entries.find? (fun y => y.address = e.address) = some x ∧
        x.file = e.file ∧ x.line = line) ∧
      (ln.runtimeAddr e.address).toNat + 128 < 2 ^ 64 := by
  obtain ⟨he, -⟩ := lookupLine_mem h
  have hreach : ln.runtimeAddr e.address ≤ ln.runtimeAddr e.address + 128 ↔
      (ln.runtimeAddr e.address).toNat + 128 < 2 ^ 64 := by
    generalize ln.runtimeAddr e.address = a
    constructor <;> intro _ <;> bv_omega
  have hpos : line ≠ 0 := by
    rintro rfl
    exact absurd hline (by decide)
  rw [lineAtPc_eq_some_iff]
  constructor
  · rintro ⟨x, hx, -, hle, hfile, hxl⟩
    have hfirst := (nearest_self_iff he).mp hx
    have haddr : x.address = e.address := address_of_find? hfirst
    rw [haddr] at hle
    exact ⟨⟨x, hfirst, hfile, hxl⟩, hreach.mp hle⟩
  · rintro ⟨⟨x, hfirst, hfile, hxl⟩, hlt⟩
    have haddr : x.address = e.address := address_of_find? hfirst
    refine ⟨x, (nearest_self_iff he).mpr hfirst, hxl ▸ hpos, ?_, hfile, hxl⟩
    rw [haddr]
    exact hreach.mpr hlt

/-- Two rows at one address: the end of line 5 and the start of line 7. -/
def sharedAddress : LineTable where
  entries :=
    [⟨0x3f00, 5, 0, "a.c".toList⟩, ⟨0x3f10, 5, 0, "a.c".toList⟩, ⟨0x3f10, 7, 0, "a.c".toList⟩]
  linkBase := 0
  slide := 0x100000

theorem lineAtPc_lookupLine_first :
    sharedAddress.lineAtPc (sharedAddress.runtimeAddr 0x3f00) = some ("a.c".toList, 5) :=
  (lineAtPc_lookupLine sharedAddress (some "a.c".toList) 5 ⟨0x3f00, 5, 0, "a.c".toList⟩
    (by decide) (by decide)).mpr ⟨⟨⟨0x3f00, 5, 0, "a.c".toList⟩, by decide, rfl, rfl⟩, by decide⟩

/-- Line 7 is found at an address that is displayed as line 5. -/
theorem lookupLine_displayed_otherwise : ∃ e,
    sharedAddress.lookupLine (some "a.c".toList) 7 = some e ∧
      sharedAddress.lineAtPc (sharedAddress.runtimeAddr e.address) = some ("a.c".toList, 5) :=
  ⟨⟨0x3f10, 7, 0, "a.c".toList⟩, by decide, by decide⟩

end LineTable

end Cdbg
