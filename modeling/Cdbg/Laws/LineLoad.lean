import Cdbg.Dwarf.LineDump

/-!
The line table that is loaded from what `dwarfdump --debug-line` prints.

The scanner keeps one directory and one file. It pushes every row, with its address, line and
column, but with the path that the directory and the file named last make
(`linenoLoadFromDwarfdump_iff`).
-/

namespace Cdbg

open CString

/-! ### Words and numbers in a line -/

lemma notMem_bracketed {word : Str} {n : ℕ} {c : Char} (hw : c ∉ word)
    (hc : c ∉ " []0123456789abcdef".toList) : c ∉ bracketed word n := by
  intro h
  rcases List.mem_append.mp h with h | h
  · exact hw h
  rcases List.mem_cons.mp h with rfl | h
  · exact hc (by decide)
  rcases List.mem_append.mp h with h | h
  · have hsub : " 0123456789abcdef".toList ⊆ " []0123456789abcdef".toList := by decide
    exact hc (hsub (mem_padDec h))
  · exact hc ((by decide : [']'] ⊆ " []0123456789abcdef".toList) h)

/-- Blanks before a padded number are passed over. -/
lemma Directive.blanks_padDec (width n : ℕ) (s : Str) :
    Directive.blanks (' ' :: (padDec width n ++ s)) = some ((), Nat.toDigits 10 n ++ s) := by
  obtain ⟨c, ds, hcs, hc⟩ := toDigits_eq_cons (by decide : 1 < 10) (by decide) n
  have hspace := (not_isspace_of_digitValue (c := c) (by omega)).1
  have hblank : ∀ d ∈ ' ' :: List.replicate (width - (c :: ds).length) ' ',
      isspace d = true := by
    intro d hd
    rcases List.mem_cons.mp hd with rfl | hd
    · rfl
    · rw [List.eq_of_mem_replicate hd]
      rfl
  have h := Directive.blanks_append hblank hspace (ds ++ s)
  rw [padDec, hcs]
  simpa using h

namespace LineScan

variable (s : LineScan)

/-- The addresses, lines and columns of a row are read. -/
lemma scanRow_text {r : DumpRow} :
    ∃ rest, scanRow (ended r.text) = some ((r.address, r.line, r.column), rest) := by
  obtain ⟨rest, hrest⟩ : ∃ rest, ended r.text = '0' :: 'x' :: (padHex 16 r.address.toNat ++
      (' ' :: (padDec 6 r.line.toNat ++ (' ' :: (padDec 6 r.column.toNat ++ (' ' :: rest)))))) :=
    ⟨padDec 6 r.file ++ r.flags ++ ['\n'], by simp [ended, DumpRow.text, hexText]⟩
  have hspace (t : Str) : Directive.AtSpace (' ' :: t) := Directive.atSpace_cons (by decide) t
  have hhex := Directive.reads_hex (by decide : 2 ≤ 16) r.address _
    (hspace (padDec 6 r.line.toNat ++ (' ' :: (padDec 6 r.column.toNat ++ (' ' :: rest)))))
  have hline := Directive.reads_unsigned r.line _
    (hspace (padDec 6 r.column.toNat ++ (' ' :: rest)))
  have hcolumn := Directive.reads_unsigned r.column _ (hspace rest)
  refine ⟨' ' :: rest, ?_⟩
  simp [hrest, scanRow, Directive.literal, hhex, Directive.blanks_padDec, hline, hcolumn]

/-! ### The lines of a table -/

/-- A quiet line says nothing. -/
lemma round_quiet {l : Str} (h : QuietLine l) : s.round (ended l) = s := by
  have hdir : hasSubstr (ended l) "include_directories".toList = false := by
    rw [ended, hasSubstr_concat (by decide) (by decide)]
    exact h.dir
  have hfile : hasSubstr (ended l) nameMarker = false := by
    rw [ended, hasSubstr_concat (by decide) (by decide)]
    exact h.file
  have hrow : (ended l).head? ≠ some '0' := by
    have hne := h.row
    cases l with
    | nil => decide
    | cons c l => exact hne
  rw [round, strstr_eq_none hdir]
  dsimp only
  rw [strstr_eq_none hfile]
  exact if_pos (.inl hrow)

lemma foldl_quiet {ls : List Str} (h : ∀ l ∈ ls, QuietLine l) :
    (ls.map ended).foldl round s = s := by
  induction ls with
  | nil => rfl
  | cons l ls ih =>
      rw [List.map_cons, List.foldl_cons, s.round_quiet (h l List.mem_cons_self)]
      exact ih fun l' hl' => h l' (List.mem_cons_of_mem l hl')

/-- A directory becomes the current one. -/
lemma round_dirLine (n : ℕ) {dir : Str} (hq : '"' ∉ dir)
    (hfits : (dirLine n dir).length + 1 < 512) :
    s.round (ended (dirLine n dir)) = { s with currentDir := dir } := by
  have hfind : strstr (ended (dirLine n dir)) "include_directories".toList =
      some (ended (dirLine n dir)) := by
    rw [ended, dirLine, bracketed, List.append_assoc, List.append_assoc]
    exact strstr_self_append _ _
  have hsplit : ended (dirLine n dir) =
      (bracketed "include_directories".toList n ++ " = ".toList) ++
        '"' :: (dir ++ '"' :: ['\n']) := by
    simp [ended, dirLine]
  have hbefore : '"' ∉ bracketed "include_directories".toList n ++ " = ".toList := by
    rw [List.mem_append, not_or]
    exact ⟨notMem_bracketed (by decide) (by decide), by decide⟩
  have hlen : dir.length < 512 := by
    simp only [dirLine, List.length_append, List.length_cons] at hfits
    omega
  have hvalue : parseQuotedValue (ended (dirLine n dir)) linenoMaxFile = some dir := by
    rw [parseQuotedValue, hsplit, strchr_append hbefore]
    have hmem : '"' ∈ ('"' :: (dir ++ '"' :: ['\n'])).tail := by simp
    dsimp only
    rw [if_pos hmem, List.tail_cons, takeWhile_ne_append hq, truncate, List.take_of_length_le]
    rw [linenoMaxFile]
    omega
  rw [round, hfind]
  dsimp only
  rw [hvalue]

lemma quiet_fileLine (n : ℕ) : QuietLine (bracketed "file_names".toList n ++ [':']) := by
  have hmem {c : Char} (hw : c ∉ "file_names".toList) (hc : c ∉ " []0123456789abcdef".toList)
      (hcolon : c ≠ ':') : c ∉ bracketed "file_names".toList n ++ [':'] := by
    rw [List.mem_append, List.mem_singleton, not_or]
    exact ⟨notMem_bracketed hw hc, hcolon⟩
  refine ⟨hasSubstr_eq_false (c := 'o') (by decide) (hmem (by decide) (by decide) (by decide)),
    hasSubstr_eq_false (c := '"') (by decide) (hmem (by decide) (by decide) (by decide)), ?_⟩
  exact fun h => absurd (Option.some.inj h) (by decide)

lemma quiet_dirIndex (n : ℕ) : QuietLine ("      dir_index: ".toList ++ padDec 0 n) := by
  have hmem {c : Char} (hw : c ∉ "      dir_index: ".toList)
      (hc : c ∉ " 0123456789abcdef".toList) : c ∉ "      dir_index: ".toList ++ padDec 0 n := by
    rw [List.mem_append, not_or]
    exact ⟨hw, fun h => hc (mem_padDec h)⟩
  refine ⟨hasSubstr_eq_false (c := 'o') (by decide) (hmem (by decide) (by decide)),
    hasSubstr_eq_false (c := '"') (by decide) (hmem (by decide) (by decide)), ?_⟩
  exact fun h => absurd (Option.some.inj h) (by decide)

/-- A file becomes the current one. -/
lemma round_nameLine {name : Str} (hq : '"' ∉ name)
    (hdir : hasSubstr name "include_directories".toList = false) (hfits : name.length < 512) :
    s.round (ended (List.replicate 11 ' ' ++ ("name: ".toList ++ '"' :: (name ++ ['"'])))) =
      { s with currentFile := name } := by
  obtain ⟨before, hbefore, hline⟩ : ∃ before : Str, (∀ c ∈ before, c = ' ') ∧
      ended (List.replicate 11 ' ' ++ ("name: ".toList ++ '"' :: (name ++ ['"']))) =
        before ++ (nameMarker ++ (name ++ '"' :: ['\n'])) :=
    ⟨List.replicate 11 ' ', fun c hc => List.eq_of_mem_replicate hc, by
      simp only [ended, nameMarker_eq, List.append_assoc, List.cons_append, List.nil_append]⟩
  have hno : hasSubstr (before ++ (nameMarker ++ (name ++ '"' :: ['\n'])))
      "include_directories".toList = false := by
    rw [← List.append_assoc]
    rw [hasSubstr_append_of_notMem (d := 'i') (by decide), List.append_cons,
      hasSubstr_concat (by decide) (by decide), hasSubstr_concat (by decide) (by decide)]
    · exact hdir
    · rw [List.mem_append, not_or]
      exact ⟨fun h => absurd (hbefore _ h) (by decide), by decide⟩
  have hfind : strstr (before ++ (nameMarker ++ (name ++ '"' :: ['\n']))) nameMarker =
      some (nameMarker ++ (name ++ '"' :: ['\n'])) := by
    rw [strstr_append_of_notMem (d := 'n') (by decide), strstr_self_append]
    exact fun h => absurd (hbefore _ h) (by decide)
  rw [hline, round, strstr_eq_none hno]
  dsimp only
  rw [hfind]
  dsimp only
  rw [List.drop_left, if_pos (by simp), takeWhile_ne_append hq, truncate, List.take_of_length_le]
  rw [linenoMaxFile]
  omega

/-- A row is pushed with the current path. -/
lemma round_row {r : DumpRow} (hdir : hasSubstr r.flags "include_directories".toList = false)
    (hfile : hasSubstr r.flags nameMarker = false) :
    s.round (ended r.text) = { s with
      entries := s.entries ++
        [⟨r.address, r.line, r.column, fullPath s.currentDir s.currentFile⟩] } := by
  obtain ⟨before, hbefore, hline⟩ : ∃ before : Str,
      (∀ c ∈ before, c ∈ " 0123456789abcdefx".toList) ∧ r.text = before ++ r.flags := by
    refine ⟨hexText 16 r.address.toNat ++ (' ' :: (padDec 6 r.line.toNat ++ (' ' ::
      (padDec 6 r.column.toNat ++ (' ' :: padDec 6 r.file))))), ?_, by simp [DumpRow.text]⟩
    have hdec {n : ℕ} {c : Char} (h : c ∈ padDec 6 n) : c ∈ " 0123456789abcdefx".toList :=
      (by decide : " 0123456789abcdef".toList ⊆ " 0123456789abcdefx".toList) (mem_padDec h)
    have hhex {c : Char} (h : c ∈ hexText 16 r.address.toNat) :
        c ∈ " 0123456789abcdefx".toList :=
      (by decide : "0123456789abcdefx".toList ⊆ " 0123456789abcdefx".toList) (mem_hexText h)
    intro c hc
    simp only [List.mem_append, List.mem_cons] at hc
    rcases hc with h | rfl | h | rfl | h | rfl | h
    · exact hhex h
    · decide
    · exact hdec h
    · decide
    · exact hdec h
    · decide
    · exact hdec h
  -- the numbers of a row show neither of the two markers
  have hdir' : hasSubstr (ended r.text) "include_directories".toList = false := by
    rw [ended, hasSubstr_concat (by decide) (by decide), hline,
      hasSubstr_append_of_notMem (d := 'i') (by decide)]
    · exact hdir
    · exact fun h => absurd (hbefore _ h) (by decide)
  have hfile' : hasSubstr (ended r.text) nameMarker = false := by
    rw [ended, hasSubstr_concat (by decide) (by decide), hline,
      hasSubstr_append_of_notMem (d := 'n') (by decide)]
    · exact hfile
    · exact fun h => absurd (hbefore _ h) (by decide)
  -- so the line is scanned as a row
  obtain ⟨rest, hscan⟩ := scanRow_text (r := r)
  have hhead : (ended r.text).head? = some '0' ∧ (ended r.text).tail.head? = some 'x' := ⟨rfl, rfl⟩
  rw [round, strstr_eq_none hdir']
  dsimp only
  rw [strstr_eq_none hfile']
  dsimp only
  rw [if_neg (by simp [hhead]), hscan]

/-- The scan of a file. -/
lemma foldl_file {n : ℕ} {f : DumpFile} (hq : '"' ∉ f.name)
    (hdir : hasSubstr f.name "include_directories".toList = false)
    (hdetails : ∀ l ∈ f.details, QuietLine l) (hfits : ∀ l ∈ f.lines n, l.length + 1 < 512) :
    ((f.lines n).map ended).foldl round s = { s with currentFile := f.name } := by
  have hlen := hfits _ (List.mem_append_left _ (List.mem_cons_of_mem _ List.mem_cons_self))
  simp only [List.length_append, List.length_cons] at hlen
  rw [DumpFile.lines, List.map_append, List.foldl_append, List.map_cons, List.map_cons,
    List.map_cons, List.map_nil, List.foldl_cons, List.foldl_cons, List.foldl_cons,
    List.foldl_nil, s.round_quiet (quiet_fileLine n), s.round_nameLine hq hdir (by omega),
    round_quiet _ (quiet_dirIndex f.dirIndex)]
  exact foldl_quiet _ hdetails

/-- The last of the directories becomes the current one. -/
lemma foldl_dirs {dirs : List Str} (n : ℕ) (hq : ∀ d ∈ dirs, '"' ∉ d)
    (hfits : ∀ l ∈ (dirs.zipIdx n).map fun d => dirLine d.2 d.1, l.length + 1 < 512) :
    (((dirs.zipIdx n).map fun d => dirLine d.2 d.1).map ended).foldl round s =
      { s with currentDir := dirs.getLast?.getD s.currentDir } := by
  induction dirs generalizing n s with
  | nil => rfl
  | cons d ds ih =>
      rw [List.zipIdx_cons, List.map_cons] at hfits ⊢
      rw [List.map_cons, List.foldl_cons, s.round_dirLine n (hq d List.mem_cons_self)
        (hfits _ List.mem_cons_self),
        ih _ (n + 1) (fun d' hd' => hq d' (List.mem_cons_of_mem d hd'))
          fun l hl => hfits l (List.mem_cons_of_mem _ hl),
        List.getLast?_cons, Option.getD_some]

/-- The last of the files becomes the current one. -/
lemma foldl_files {files : List DumpFile} (n : ℕ)
    (hq : ∀ f ∈ files, '"' ∉ f.name ∧ hasSubstr f.name "include_directories".toList = false)
    (hdetails : ∀ f ∈ files, ∀ l ∈ f.details, QuietLine l)
    (hfits : ∀ l ∈ (files.zipIdx n).flatMap fun f => f.1.lines f.2, l.length + 1 < 512) :
    (((files.zipIdx n).flatMap fun f => f.1.lines f.2).map ended).foldl round s =
      { s with currentFile := (files.getLast?.map DumpFile.name).getD s.currentFile } := by
  induction files generalizing n s with
  | nil => rfl
  | cons f fs ih =>
      obtain ⟨hquote, hdir⟩ := hq f List.mem_cons_self
      rw [List.zipIdx_cons, List.flatMap_cons] at hfits ⊢
      rw [List.map_append, List.foldl_append, s.foldl_file hquote hdir
        (hdetails f List.mem_cons_self) fun l hl => hfits l (List.mem_append_left _ hl),
        ih _ (n + 1) (fun f' hf' => hq f' (List.mem_cons_of_mem f hf'))
        (fun f' hf' => hdetails f' (List.mem_cons_of_mem f hf'))
        fun l hl => hfits l (List.mem_append_right _ hl), List.getLast?_cons]
      cases fs.getLast? <;> rfl

/-- Every row is pushed with the current path. -/
lemma foldl_rows {rows : List DumpRow}
    (hquiet : ∀ r ∈ rows, hasSubstr r.flags "include_directories".toList = false ∧
      hasSubstr r.flags nameMarker = false) :
    ((rows.map DumpRow.text).map ended).foldl round s = { s with
      entries := s.entries ++ rows.map fun r =>
        ⟨r.address, r.line, r.column, fullPath s.currentDir s.currentFile⟩ } := by
  induction rows generalizing s with
  | nil => rw [List.map_nil, List.map_nil, List.foldl_nil, List.map_nil, List.append_nil]
  | cons r rs ih =>
      obtain ⟨hdir, hfile⟩ := hquiet r List.mem_cons_self
      rw [List.map_cons, List.map_cons, List.foldl_cons, s.round_row hdir hfile,
        ih _ fun r' hr' => hquiet r' (List.mem_cons_of_mem r hr'), List.map_cons,
        List.append_assoc, List.singleton_append]

/-- The state after a table. -/
def after (t : DumpTable) : LineScan :=
  let dir := t.dirs.getLast?.getD s.currentDir
  let file := (t.files.getLast?.map DumpFile.name).getD s.currentFile
  ⟨dir, file, s.entries ++ t.rows.map fun r => ⟨r.address, r.line, r.column, fullPath dir file⟩⟩

/-- The scan of a table. -/
lemma foldl_table {t : DumpTable} (h : t.Printable) :
    (t.lines.map ended).foldl round s = s.after t := by
  have hheading : ∀ l ∈ DumpTable.heading, QuietLine l := by
    simp only [DumpTable.heading, List.mem_cons, List.not_mem_nil, or_false, forall_eq_or_imp,
      forall_eq]
    refine ⟨⟨?_, ?_, ?_⟩, ⟨?_, ?_, ?_⟩, ⟨?_, ?_, ?_⟩⟩ <;> decide
  have hblank : ∀ l ∈ [([] : Str)], QuietLine l := by
    intro l hl
    exact hheading l (List.mem_singleton.mp hl ▸ List.mem_cons_self)
  have hfits := h.fits
  rw [DumpTable.lines] at hfits ⊢
  simp only [List.mem_append, or_imp, forall_and] at hfits
  obtain ⟨⟨⟨⟨⟨-, hdirs⟩, hfiles⟩, -⟩, -⟩, -⟩ := hfits
  simp only [List.map_append, List.foldl_append]
  rw [foldl_quiet _ h.header, foldl_dirs _ t.base h.dirs hdirs,
    foldl_files _ t.base h.names h.details hfiles, foldl_quiet _ hheading,
    foldl_rows _ fun r hr => (h.flags r hr).2, foldl_quiet _ hblank]
  rfl

end LineScan

namespace DumpTable

/-! ### All tables -/

/-- The directory that has been named last. -/
def lastDir (ts : List DumpTable) : Str := (ts.flatMap DumpTable.dirs).getLast?.getD []

/-- The file that has been named last. -/
def lastFile (ts : List DumpTable) : Str :=
  (ts.flatMap fun t => t.files.map DumpFile.name).getLast?.getD []

/-- Every row selects a file with the path that the directory and the file named last, up to
its table, make. -/
def LastSelected (ts : List DumpTable) : Prop :=
  ∀ before t, before ++ [t] <+: ts → ∀ r ∈ t.rows,
    t.path r = some (LineScan.fullPath (lastDir (before ++ [t])) (lastFile (before ++ [t])))

/-- What the text of some tables is scanned to. -/
def scanned (ts : List DumpTable) : LineScan := ts.foldl LineScan.after ⟨[], [], []⟩

variable {ts : List DumpTable} {t : DumpTable}

lemma lastDir_concat : lastDir (ts ++ [t]) = t.dirs.getLast?.getD (lastDir ts) := by
  rw [lastDir, lastDir, List.flatMap_append, List.flatMap_singleton, List.getLast?_append]
  cases t.dirs.getLast? <;> rfl

lemma lastFile_concat :
    lastFile (ts ++ [t]) = (t.files.getLast?.map DumpFile.name).getD (lastFile ts) := by
  rw [lastFile, lastFile, List.flatMap_append, List.flatMap_singleton, List.getLast?_append,
    List.getLast?_map]
  cases t.files.getLast?.map DumpFile.name <;> rfl

lemma lastSelected_concat : LastSelected (ts ++ [t]) ↔ LastSelected ts ∧ ∀ r ∈ t.rows,
    t.path r = some (LineScan.fullPath (lastDir (ts ++ [t])) (lastFile (ts ++ [t]))) := by
  constructor
  · intro h
    exact ⟨fun before t' hp => h before t' (hp.trans (List.prefix_append ts [t])),
      h ts t (List.prefix_refl _)⟩
  · rintro ⟨hts, ht⟩ before t' hp
    rcases List.prefix_concat_iff.mp hp with heq | hp
    · obtain ⟨rfl, hlast⟩ := List.append_inj' heq rfl
      obtain rfl := List.singleton_inj.mp hlast
      exact ht
    · exact hts before t' hp

/-- The scan of some tables keeps what has been named last. -/
lemma scanned_current (ts : List DumpTable) :
    (scanned ts).currentDir = lastDir ts ∧ (scanned ts).currentFile = lastFile ts := by
  induction ts using List.reverseRecOn with
  | nil => exact ⟨rfl, rfl⟩
  | append_singleton ts t ih =>
      rw [scanned, List.foldl_append, List.foldl_cons, List.foldl_nil, ← scanned, LineScan.after,
        ih.1, ih.2, lastDir_concat, lastFile_concat]
      exact ⟨rfl, rfl⟩

lemma scanned_entries_concat : (scanned (ts ++ [t])).entries = (scanned ts).entries ++
    t.rows.map fun r => ⟨r.address, r.line, r.column,
      LineScan.fullPath (lastDir (ts ++ [t])) (lastFile (ts ++ [t]))⟩ := by
  rw [lastDir_concat, lastFile_concat, ← (scanned_current ts).1, ← (scanned_current ts).2,
    scanned, List.foldl_append]
  rfl

/-- The entries stand for the rows, in their order. -/
lemma scanned_rows (ts : List DumpTable) :
    (scanned ts).entries.map (fun e => (e.address, e.line, e.column)) =
      (ts.flatMap DumpTable.rows).map fun r => (r.address, r.line, r.column) := by
  induction ts using List.reverseRecOn with
  | nil => rfl
  | append_singleton ts t ih =>
      rw [scanned_entries_concat, List.map_append, ih, List.map_map, List.flatMap_append,
        List.flatMap_singleton, List.map_append]
      rfl

lemma scanned_files_iff (ts : List DumpTable) :
    (scanned ts).entries.map (fun e => some e.file) =
      ts.flatMap (fun t => t.rows.map t.path) ↔ LastSelected ts := by
  induction ts using List.reverseRecOn with
  | nil =>
      refine iff_of_true rfl fun before t hp => ?_
      simp at hp
  | append_singleton ts t ih =>
      have hlen : ((scanned ts).entries.map fun e => some e.file).length =
          (ts.flatMap fun t => t.rows.map t.path).length := by
        have h := congrArg List.length (scanned_rows ts)
        simp only [List.length_map, List.length_flatMap] at h ⊢
        exact h
      rw [scanned_entries_concat, List.map_append, List.map_map, List.flatMap_append,
        List.flatMap_singleton, lastSelected_concat, ← ih]
      constructor
      · intro h
        obtain ⟨hts, ht⟩ := List.append_inj h hlen
        exact ⟨hts, fun r hr => (List.map_inj_left.mp ht r hr).symm⟩
      · rintro ⟨hts, ht⟩
        exact congrArg₂ _ hts (List.map_inj_left.mpr fun r hr => (ht r hr).symm)

end DumpTable

variable {ts : List DumpTable}

/-- The text of some tables is scanned table by table. -/
lemma linenoLoadFromDwarfdump_lines (h : ∀ t ∈ ts, t.Printable) (ok : Bool) :
    linenoLoadFromDwarfdump ⟨[], []⟩ (some ⟨ts.flatMap DumpTable.lines, ok⟩) =
      (⟨(DumpTable.scanned ts).entries, DumpTable.lastDir ts⟩,
        ok && ! (DumpTable.scanned ts).entries.isEmpty) := by
  have hlines : fgetsAll 512 (ts.flatMap DumpTable.lines) =
      (ts.flatMap DumpTable.lines).map ended := by
    refine fgetsAll_of_short fun l hl => ?_
    obtain ⟨t, ht, hl⟩ := List.mem_flatMap.mp hl
    exact (h t ht).fits l hl
  have hscan (s : LineScan) :
      ((ts.flatMap DumpTable.lines).map ended).foldl LineScan.round s =
        ts.foldl LineScan.after s := by
    clear hlines
    induction ts generalizing s with
    | nil => rfl
    | cons t ts ih =>
        rw [List.flatMap_cons, List.map_append, List.foldl_append,
          s.foldl_table (h t List.mem_cons_self),
          ih fun t' ht' => h t' (List.mem_cons_of_mem t ht')]
        rfl
  rw [linenoLoadFromDwarfdump, hlines, hscan, ← DumpTable.scanned,
    (DumpTable.scanned_current ts).1, ite_eq_right_iff.mpr fun hnil => hnil.symm]

/-- **Line tables are loaded row by row**: the table gets an entry for each row that is printed,
in order, with its address, line and column, and all of them have the paths of the files that
the rows select exactly if these are always the paths named last. -/
theorem linenoLoadFromDwarfdump_iff {ts : List DumpTable} (h : ∀ t ∈ ts, t.Printable) (ok : Bool) :
    let r := linenoLoadFromDwarfdump ⟨[], []⟩ (some ⟨ts.flatMap DumpTable.lines, ok⟩)
    r.1.entries.map (fun e => (e.address, e.line, e.column)) =
        (ts.flatMap DumpTable.rows).map (fun r => (r.address, r.line, r.column)) ∧
      (r.1.entries.map (fun e => some e.file) = ts.flatMap (fun t => t.rows.map t.path) ↔
        DumpTable.LastSelected ts) ∧
      (r.2 = true ↔ ok = true ∧ ∃ t ∈ ts, t.rows ≠ []) := by
  have hempty : (DumpTable.scanned ts).entries = [] ↔ ∀ t ∈ ts, t.rows = [] := by
    rw [← List.map_eq_nil_iff (f := fun e : LineEntry => (e.address, e.line, e.column)),
      DumpTable.scanned_rows, List.map_eq_nil_iff, List.flatMap_eq_nil_iff]
  rw [linenoLoadFromDwarfdump_lines h ok]
  refine ⟨DumpTable.scanned_rows ts, DumpTable.scanned_files_iff ts, ?_⟩
  rw [Bool.and_eq_true, Bool.not_eq_true', List.isEmpty_eq_false_iff, Ne, hempty]
  simp

/-- What `dwarfdump` prints is the whole table that is loaded; where it prints no row, neither
do the sections hold one. -/
lemma linenoLoad_printed (h : ∀ t ∈ ts, t.Printable) :
    (linenoLoad (some ⟨ts.flatMap DumpTable.lines, true⟩) [] []).map LineRows.entries =
      some (DumpTable.scanned ts).entries := by
  rw [linenoLoad, linenoLoadFromDwarfdump_lines h true, Bool.true_and]
  cases hrows : (DumpTable.scanned ts).entries with
  | nil => rfl
  | cons e es => rfl

/-- A source file with one row, and then a source file and its header with a row of the
source file. -/
def DumpTable.sample : List DumpTable :=
  [⟨["version: 4".toList], 1, ["/s".toList], [⟨"a.c".toList, 1, []⟩],
      [⟨0x100003F00, 7, 0, 1, "   0  is_stmt".toList⟩]⟩,
    ⟨[], 1, ["/s".toList], [⟨"b.c".toList, 1, []⟩, ⟨"b.h".toList, 1, ["length: 0".toList]⟩],
      [⟨0x100003F40, 12, 5, 1, []⟩]⟩]

/-- The row of the second source file gets the path of the header. -/
theorem linenoLoadFromDwarfdump_sample :
    (linenoLoadFromDwarfdump ⟨[], []⟩
        (some ⟨DumpTable.sample.flatMap DumpTable.lines, true⟩)).1.entries.map
          (fun e => some e.file) ≠
      DumpTable.sample.flatMap (fun t => t.rows.map t.path) := by
  refine mt (linenoLoadFromDwarfdump_iff ?_ true).2.1.mp ?_
  · intro t ht
    rcases List.mem_cons.mp ht with rfl | ht
    · exact ⟨by decide, by decide, by decide, by decide, by decide, by decide⟩
    · obtain rfl := List.mem_singleton.mp ht
      exact ⟨by decide, by decide, by decide, by decide, by decide, by decide⟩
  · intro h
    have hlast := h [DumpTable.sample[0]] DumpTable.sample[1] (List.prefix_refl _) _
      List.mem_cons_self
    exact absurd hlast (by decide)

end Cdbg
