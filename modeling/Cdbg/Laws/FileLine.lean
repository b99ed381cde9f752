import Cdbg.Laws.LineLookup
import Cdbg.Laws.LineNumbers

/-!
Breakpoints given by file and line.

The text before the colon is compared with the paths of the line table by `strstr`, so any
part of a path names its file, and of all rows that match the one of lowest address is
taken. `list` refuses a text that matches two files; `break` and `dis` do not look.
-/

namespace Cdbg

open CString

/-- A text that is not empty matches the paths it is a part of; the comparison with the last
component adds none. -/
lemma LineTable.fileMatches_iff {path f : Str} (hf : f ≠ []) :
    LineTable.fileMatches path (some f) = true ↔ f <:+: path := by
  obtain ⟨c, f, rfl⟩ := List.exists_cons_of_ne_nil hf
  change (hasSubstr path (c :: f) || decide (_ = c :: f)) = true ↔ _
  rw [Bool.or_eq_true, hasSubstr_iff, decide_eq_true_eq]
  constructor
  · rintro (h | h)
    · exact h
    · rw [← h]
      split
      · exact (suffix_of_strrchr ‹_›).isInfix
      · exact List.infix_rfl
  · exact .inl

namespace Dbg

/-- A row of the line table carries a line, and a text is a part of its path. -/
def Carries (d : Dbg) (f : Str) (line : BitVec 32) (e : LineEntry) : Prop :=
  e ∈ d.lineno.entries ∧ e.line = line ∧ f <:+: e.file

/-- The row of lowest address that carries the line is taken. -/
lemma resolveBreakLine_eq_some {d : Dbg} {f : Str} {line : BitVec 32} {a : Addr} (hf : f ≠ [])
    (h : d.resolveBreakLine (some f) line = some a) :
    ∃ e, d.Carries f line e ∧ a = d.lineno.runtimeAddr e.address ∧
      ∀ e', d.Carries f line e' → e.address ≤ e'.address := by
  obtain ⟨c, f, rfl⟩ := List.exists_cons_of_ne_nil hf
  obtain ⟨e, he, rfl⟩ := Option.map_eq_some_iff.mp h
  change d.lineno.lookupLine (some (c :: f)) line = some e at he
  rw [LineTable.lookupLine_eq] at he
  have hmem := List.mem_filter.mp (List.argmin_mem he)
  obtain ⟨hline, hfile⟩ := of_decide_eq_true hmem.2
  refine ⟨e, ⟨hmem.1, hline, (LineTable.fileMatches_iff hf).mp hfile⟩, rfl, fun e' h' => ?_⟩
  obtain ⟨hin, hline', hfile'⟩ := h'
  refine BitVec.le_def.mpr (List.le_of_mem_argmin (f := fun e : LineEntry => e.address.toNat)
    (List.mem_filter.mpr ⟨hin, decide_eq_true ⟨hline', ?_⟩⟩) he)
  exact (LineTable.fileMatches_iff hf).mpr hfile'

lemma resolveBreakLine_eq_none {d : Dbg} {f : Str} {line : BitVec 32} (hf : f ≠ []) :
    d.resolveBreakLine (some f) line = none ↔ ∀ e, ¬ d.Carries f line e := by
  obtain ⟨c, f, rfl⟩ := List.exists_cons_of_ne_nil hf
  rw [resolveBreakLine, Option.map_eq_none_iff, LineTable.lookupLine_eq, List.argmin_eq_none,
    List.filter_eq_nil_iff]
  constructor
  · rintro h e ⟨hin, hline, hfile⟩
    exact h e hin (decide_eq_true ⟨hline, (LineTable.fileMatches_iff hf).mpr hfile⟩)
  · intro h e hin hmatch
    obtain ⟨hline, hfile⟩ := of_decide_eq_true hmatch
    exact h e ⟨hin, hline, (LineTable.fileMatches_iff hf).mp hfile⟩

/-- **Breakpoints by file and line**: the command fails exactly if no row of that line has the
text in its path. Where all rows that do lie in one file, the address found is that of the
lowest row of the line in it. -/
theorem resolveBreakLine_in_file {d : Dbg} {f : Str} (line : BitVec 32) (hf : f ≠ []) :
    (d.resolveBreakLine (some f) line = none ↔ ∀ e, ¬ d.Carries f line e) ∧
      ∀ a, d.resolveBreakLine (some f) line = some a →
        ∀ file, (∀ e, d.Carries f line e → e.file = file) →
          f <:+: file ∧ ∃ e ∈ d.lineno.entries, e.line = line ∧ e.file = file ∧
            a = d.lineno.runtimeAddr e.address ∧
            ∀ e' ∈ d.lineno.entries, e'.line = line → e'.file = file → e.address ≤ e'.address := by
  refine ⟨resolveBreakLine_eq_none hf, fun a ha file hfile => ?_⟩
  obtain ⟨e, he, haddr, hmin⟩ := resolveBreakLine_eq_some hf ha
  have hef := hfile e he
  have hpart : f <:+: file := hef ▸ he.2.2
  refine ⟨hpart, e, he.1, he.2.1, hef, haddr, fun e' hin hline hsame => ?_⟩
  exact hmin e' ⟨hin, hline, hsame ▸ hpart⟩

/-- The text is the path, or the end of it behind a slash. -/
def Names (f path : Str) : Prop := path = f ∨ '/' :: f <:+ path

instance (f path : Str) : Decidable (Names f path) := inferInstanceAs (Decidable (_ ∨ _))

/-- All rows of a line that match a text belong to one file, and the text names it. -/
def Unambiguous (d : Dbg) (f : Str) (line : BitVec 32) : Prop :=
  ∃ file, Names f file ∧ ∀ e ∈ d.lineno.entries, e.line = line →
    LineTable.fileMatches e.file (some f) = true → e.file = file

variable {d : Dbg} {target f : Str} {line : BitVec 32}

/-- A target with a file and a line is resolved by them, by `break` and by `dis` alike. -/
lemma resolve_fileAndLine (h : fileAndLine target = some (some (f, line))) :
    f ≠ [] ∧ d.resolveBreakTarget target = d.resolveBreakLine (some f) line ∧
      (d.resolveDisTarget target).map Prod.fst = d.resolveBreakLine (some f) line := by
  refine ⟨?_, ?_, ?_⟩
  · rintro rfl
    rw [fileAndLine] at h
    split at h
    · rename_i file c digits _
      by_cases hbad : file = [] ∨ linenoMaxFile ≤ file.length
      · simp [hbad] at h
      · have hempty : file ≠ [] := fun hnil => hbad (.inl hnil)
        rw [if_neg hbad, Option.some.injEq] at h
        split at h
        · cases h
        · split at h
          · cases h
          · exact hempty (Prod.mk.inj (Option.some.inj h)).1
    · cases h
  · rw [resolveBreakTarget_eq, breakPlace, h, resolveBreakLine_eq]
  · rw [resolveDisTarget, h, resolveBreakLine_eq]

/-- **A file and a line are never silently ambiguous**: `break` and `dis` find a place for them
only where one file is meant, exactly if any two rows of the line with the text in their paths
belong to one file, which the text names. -/
theorem resolveFileLine_iff (h : fileAndLine target = some (some (f, line))) :
    ((d.resolveBreakTarget target).isSome ∨ (d.resolveDisTarget target).isSome →
        d.Unambiguous f line) ↔
      ∀ e e', d.Carries f line e → d.Carries f line e' → Names f e.file ∧ e.file = e'.file := by
  obtain ⟨hf, hbreak, hdis⟩ := resolve_fileAndLine (d := d) h
  -- `break` and `dis` resolve as soon as one row matches
  have hresolved : (d.resolveBreakTarget target).isSome ∨ (d.resolveDisTarget target).isSome ↔
      ∃ e, d.Carries f line e := by
    rw [← Option.isSome_map (f := Prod.fst) (x := d.resolveDisTarget target), hdis, hbreak, or_self,
      ← not_iff_not, Option.not_isSome_iff_eq_none, resolveBreakLine_eq_none hf, not_exists]
  have hcarries (e : LineEntry) : d.Carries f line e ↔ e ∈ d.lineno.entries ∧ e.line = line ∧
      LineTable.fileMatches e.file (some f) = true := by
    rw [LineTable.fileMatches_iff hf]
    rfl
  rw [hresolved]
  constructor
  · intro hone e e' he he'
    obtain ⟨file, hnames, hall⟩ := hone ⟨e, he⟩
    obtain ⟨hin, hline, hmatch⟩ := (hcarries e).mp he
    obtain ⟨hin', hline', hmatch'⟩ := (hcarries e').mp he'
    have hfile := hall e hin hline hmatch
    exact ⟨hfile ▸ hnames, hfile.trans (hall e' hin' hline' hmatch').symm⟩
  · rintro hone ⟨e, he⟩
    refine ⟨e.file, (hone e e he he).1, fun e' hin hline hmatch => ?_⟩
    exact (hone e' e ((hcarries e').mpr ⟨hin, hline, hmatch⟩) he).2

/-- Two files, of which the name of the first is a part of that of the second. -/
def sharedName : Dbg :=
  { Dbg.init with
    lineno :=
      { entries := [⟨0x200, 5, 0, "/src/a.c".toList⟩, ⟨0x100, 5, 0, "/src/data.c".toList⟩,
          ⟨0x300, 6, 0, "/src/a.c".toList⟩]
        linkBase := 0
        slide := 0 } }

/-- The name `data.c` is that of one file only. -/
theorem resolveFileLine_data : sharedName.Unambiguous "data.c".toList 5 := by
  have htarget : fileAndLine "data.c:5".toList = some (some ("data.c".toList, 5)) := by
    decide +kernel
  refine (resolveFileLine_iff htarget).mpr ?_ (.inl (by decide +kernel))
  have hall : ∀ e ∈ sharedName.lineno.entries, e.line = 5 →
      hasSubstr e.file "data.c".toList = true → e.file = "/src/data.c".toList := by
    decide +kernel
  rintro e e' ⟨hin, hline, hpart⟩ ⟨hin', hline', hpart'⟩
  have hfile := hall e hin hline (hasSubstr_iff.mpr hpart)
  refine ⟨hfile ▸ .inr (by decide), hfile.trans ?_⟩
  exact (hall e' hin' hline' (hasSubstr_iff.mpr hpart')).symm

/-- `break a.c:5` and `dis a.c:5` resolve to a line of `data.c`, though `a.c` has that line;
`list a.c:5` is refused. -/
theorem resolveBreakLine_ambiguous :
    fileAndLine "a.c:5".toList = some (some ("a.c".toList, 5)) ∧
      sharedName.resolveBreakTarget "a.c:5".toList = some 0x100 ∧
      (sharedName.resolveDisTarget "a.c:5".toList).map Prod.fst = some 0x100 ∧
      ¬ sharedName.Unambiguous "a.c".toList 5 ∧
      ∀ src, sharedName.listWindow src "a.c:5".toList = none := by
  refine ⟨by decide +kernel, by decide +kernel, by decide +kernel, ?_, fun src => ?_⟩
  · rintro ⟨file, -, hall⟩
    have ha := hall ⟨0x200, 5, 0, "/src/a.c".toList⟩ (by decide) rfl (by decide +kernel)
    have hdata := hall ⟨0x100, 5, 0, "/src/data.c".toList⟩ (by decide) rfl (by decide +kernel)
    exact absurd (ha.trans hdata.symm) (by decide)
  · have hmatch : matchFile (some "a.c".toList) none sharedName.lineno.entries = none := by
      decide +kernel
    have htrim : fileAndLine (trimSpace "a.c:5".toList) = some (some ("a.c".toList, 5)) := by
      decide +kernel
    rw [listWindow, htrim]
    simp only [LineTable.printSourceAtLine, hmatch]

end Dbg

end Cdbg
