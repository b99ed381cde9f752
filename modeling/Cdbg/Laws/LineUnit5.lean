import Cdbg.Dwarf.LineUnit
import Cdbg.Laws.LineProgram

/-!
Units of DWARF 5: where `parse_line_table` decodes them.
-/

namespace Cdbg

open CString Reader

/-! ### The tables -/

/-- The descriptor the debugger makes of an item of a format. -/
def FormatItem.desc (i : FormatItem) : FormatDesc :=
  ⟨BitVec.ofNat 64 i.kind.type, BitVec.ofNat 64 i.kind.form⟩

/-- The numbers of an item can be read. -/
def FormatItem.Readable (i : FormatItem) : Prop := i.type.size ≤ 10 ∧ i.form.size ≤ 10

instance FormatItem.decidableReadable (i : FormatItem) : Decidable i.Readable :=
  inferInstanceAs (Decidable (_ ∧ _))

/-- A field can be read: it holds no offset of `.debug_line_str`. -/
def FieldValue.Readable : FieldValue → Prop
  | .lineStrp _ => False
  | .dirIndex n => n.size ≤ 10
  | _ => True

instance FieldValue.decidableReadable : (v : FieldValue) → Decidable v.Readable
  | .string _ | .md5 _ => .isTrue trivial
  | .lineStrp _ => .isFalse id
  | .dirIndex n => inferInstanceAs (Decidable (n.size ≤ 10))

/-- A table can be read: its numbers can, and its entries. -/
structure EntryTable.Readable (t : EntryTable) : Prop where
  items : ∀ i ∈ t.format, i.Readable
  count : t.count.size ≤ 10
  fields : ∀ e ∈ t.entries, ∀ v ∈ e, v.Readable

lemma FormatItem.reads {i : FormatItem} (hwf : i.WellFormed) (hread : i.Readable) :
    Reads (do
      let type ← readUleb128
      let form ← readUleb128
      return (⟨type, form⟩ : FormatDesc)) i.bytes i.desc := by
  have htype := reads_readUleb128 i.type hread.1
  have hform := reads_readUleb128 i.form hread.2
  rw [hwf.1] at htype
  rw [hwf.2] at hform
  exact htype.bind (hform.bind_nil (Reads.pure _))

lemma EntryTable.reads_format {t : EntryTable} (hwf : t.WellFormed) (hread : t.Readable) :
    Reads readFormatDescriptors
      (BitVec.ofNat 8 t.format.length :: t.format.flatMap FormatItem.bytes)
      (t.format.map FormatItem.desc) := by
  have hcount : (BitVec.ofNat 8 t.format.length).toNat = t.format.length := by
    have := hwf.format_lt
    rw [BitVec.toNat_ofNat]
    omega
  show Reads readFormatDescriptors ([_] ++ t.format.flatMap FormatItem.bytes) _
  refine (reads_readU8 _).bind ?_
  rw [hcount]
  exact Reads.times _ _ _ fun i hi => FormatItem.reads (hwf.items i hi) (hread.items i hi)

/-- What a field adds to the path read so far. -/
def FieldValue.addPath (path : Str) : FieldValue → Str
  | .string s => truncate linenoMaxFile (s.map charOf)
  | _ => path

/-- What a field adds to the directory index read so far. -/
def FieldValue.addDir (dir : BitVec 64) : FieldValue → BitVec 64
  | .dirIndex n => BitVec.ofNat 64 n.unsigned
  | _ => dir

/-- The descriptor of a field. -/
def FieldValue.desc (v : FieldValue) : FormatDesc :=
  ⟨BitVec.ofNat 64 v.kind.type, BitVec.ofNat 64 v.kind.form⟩

lemma FieldValue.reads_dir {lineStr : List Byte} {v : FieldValue} (hwf : v.WellFormed)
    (hread : v.Readable) (path : Str) :
    Reads (readDirField lineStr path v.desc) v.bytes (v.addPath path) := by
  cases v with
  | string s => exact (reads_readCstr hwf).bind_nil (Reads.pure _)
  | lineStrp offset => exact hread.elim
  | dirIndex n =>
      have hskip : Reads (skipFormValue dwFormUdata) n.bytes () :=
        (reads_readUleb128 n hread).bind_nil (Reads.pure ())
      exact Reads.bind_nil (f := fun _ => pure path) hskip (Reads.pure path)
  | md5 digest =>
      have hskip : Reads (skipFormValue dwFormData16) digest () := reads_skip hwf
      exact Reads.bind_nil (f := fun _ => pure path) hskip (Reads.pure path)

lemma FieldValue.reads_file {lineStr : List Byte} {v : FieldValue} (hwf : v.WellFormed)
    (hread : v.Readable) (file : Str × BitVec 64) :
    Reads (readFileField lineStr file v.desc) v.bytes (v.addPath file.1, v.addDir file.2) := by
  cases v with
  | string s =>
      have hname : Reads (readFormString lineStr dwFormString) (s ++ [0])
          (truncate linenoMaxFile (s.map charOf)) := (reads_readCstr hwf).bind_nil (Reads.pure _)
      exact hname.bind_nil (Reads.pure _)
  | lineStrp offset => exact hread.elim
  | dirIndex n => exact (reads_readUleb128 n hread).bind_nil (Reads.pure _)
  | md5 digest =>
      have hskip := Reads.bind_nil (f := fun _ => pure file) (reads_skip hwf) (Reads.pure file)
      rwa [bind_assoc] at hskip

/-- The path the debugger reads in an entry. -/
def TableEntry.readPath (e : TableEntry) : Str := e.foldl FieldValue.addPath []

/-- The directory index the debugger reads in an entry. -/
def TableEntry.readDir (e : TableEntry) : BitVec 64 := e.foldl FieldValue.addDir 0

/-- What the debugger reads in an entry of the table of files. -/
def TableEntry.readFile (e : TableEntry) : Str × BitVec 64 := (e.readPath, e.readDir)

lemma TableEntry.foldl_file (e : TableEntry) : ∀ (path : Str) (dir : BitVec 64),
    e.foldl (fun file v => (v.addPath file.1, v.addDir file.2)) (path, dir) =
      (e.foldl FieldValue.addPath path, e.foldl FieldValue.addDir dir) := by
  induction e with
  | nil => exact fun _ _ => rfl
  | cons v e ih => exact fun path dir => ih _ _

namespace EntryTable

variable {t : EntryTable} (lineStr : List Byte)

/-- The fields of an entry have the descriptors of the format. -/
lemma map_desc (hwf : t.WellFormed) {e : TableEntry} (he : e ∈ t.entries) :
    t.format.map FormatItem.desc = e.map FieldValue.desc := by
  have hkinds := hwf.kinds e he
  calc t.format.map FormatItem.desc
      = (t.format.map FormatItem.kind).map
          (fun kind => ⟨BitVec.ofNat 64 kind.type, BitVec.ofNat 64 kind.form⟩) := by
        rw [List.map_map]
        rfl
    _ = e.map FieldValue.desc := by
        rw [← hkinds, List.map_map]
        rfl

lemma reads_dirEntry (hwf : t.WellFormed) (hread : t.Readable) {e : TableEntry}
    (he : e ∈ t.entries) :
    Reads ((t.format.map FormatItem.desc).foldlM (readDirField lineStr) []) e.bytes
      e.readPath := by
  rw [map_desc hwf he]
  refine Reads.foldlM FieldValue.bytes FieldValue.addPath _ e ?_ []
  rw [List.forall₂_map_left_iff, List.forall₂_same]
  exact fun v hv => FieldValue.reads_dir (hwf.fields e he v hv) (hread.fields e he v hv)

lemma reads_fileEntry (hwf : t.WellFormed) (hread : t.Readable) {e : TableEntry}
    (he : e ∈ t.entries) :
    Reads ((t.format.map FormatItem.desc).foldlM (readFileField lineStr) ([], 0)) e.bytes
      e.readFile := by
  rw [map_desc hwf he, TableEntry.readFile, TableEntry.readPath, TableEntry.readDir,
    ← TableEntry.foldl_file]
  refine Reads.foldlM FieldValue.bytes _ _ e ?_ _
  rw [List.forall₂_map_left_iff, List.forall₂_same]
  exact fun v hv => FieldValue.reads_file (hwf.fields e he v hv) (hread.fields e he v hv)

lemma format_ne_nil (hwf : t.WellFormed) : t.format.map FormatItem.desc ≠ [] := by
  obtain ⟨i, hi, _⟩ := hwf.path
  exact List.ne_nil_of_mem (List.mem_map_of_mem hi)

/-- A format is not empty, so its count is no padding. -/
lemma count_ne_zero (hwf : t.WellFormed) : BitVec.ofNat 8 t.format.length ≠ 0 := by
  obtain ⟨i, hi, _⟩ := hwf.path
  have hpos := List.length_pos_of_mem hi
  have hlt := hwf.format_lt
  intro h
  have hnat : t.format.length % 2 ^ 8 = 0 := by
    rw [← BitVec.toNat_ofNat, h]
    rfl
  omega

lemma reads_count (hwf : t.WellFormed) (hread : t.Readable) :
    Reads readUleb128 t.count.bytes (BitVec.ofNat 64 t.entries.length) := by
  have h := reads_readUleb128 t.count hread.count
  rwa [hwf.count] at h

/-- The entries of a table, read one by one. -/
lemma reads_entries {α : Type} {m : ByteReader α} {value : TableEntry → α} (hwf : t.WellFormed)
    (hm : ∀ e ∈ t.entries, Reads m e.bytes (value e)) :
    Reads (times (BitVec.ofNat 64 t.entries.length).toNat m)
      (t.entries.flatMap TableEntry.bytes) (t.entries.map value) := by
  have hnat : (BitVec.ofNat 64 t.entries.length).toNat = t.entries.length := by
    rw [BitVec.toNat_ofNat, Nat.mod_eq_of_lt hwf.count_lt]
  rw [hnat]
  exact Reads.times _ _ _ hm

lemma reads_files (hwf : t.WellFormed) (hread : t.Readable) :
    Reads (parseV5FileNames lineStr) t.bytes (t.entries.map TableEntry.readFile) := by
  have hformat := reads_format hwf hread
  have hentries := reads_entries hwf fun e he => reads_fileEntry lineStr hwf hread he
  rw [bytes, ← List.cons_append]
  refine hformat.bind ?_
  rw [if_neg (format_ne_nil hwf)]
  exact (reads_count hwf hread).bind hentries

/-- The directories end before a byte that is no padding. -/
lemma run_directories (hwf : t.WellFormed) (hread : t.Readable) {b : Byte} (hb : b ≠ 0)
    (rest out : List Byte) :
    (parseV5Directories lineStr).run ⟨t.bytes ++ b :: rest, out⟩ =
      some (t.entries.map TableEntry.readPath, ⟨b :: rest, out⟩) := by
  have hformat := reads_format hwf hread
  have hentries := reads_entries hwf fun e he => reads_dirEntry lineStr hwf hread he
  have hpad : skipPaddingZeros.run ⟨b :: rest, out⟩ = some ((), ⟨b :: rest, out⟩) := by
    have hdrop : (b :: rest).dropWhile (fun x => decide (x = 0)) = b :: rest :=
      List.dropWhile_cons_of_neg (by simpa using hb)
    rw [StateT.run, skipPaddingZeros, hdrop]
  rw [bytes, ← List.cons_append, List.append_assoc, List.append_assoc, parseV5Directories,
    StateT.run_bind, hformat]
  simp only [Option.bind_eq_bind, Option.bind_some, if_neg (format_ne_nil hwf), StateT.run_bind]
  rw [reads_count hwf hread]
  simp only [Option.bind_some]
  rw [hentries]
  simp only [Option.bind_some, hpad]
  rfl

end EntryTable

/-! ### Paths -/

/-- Cutting the parts of a path to the buffer first changes nothing. -/
lemma join_truncate (dir file : Str) :
    truncate linenoMaxFile (if truncate linenoMaxFile dir = [] then truncate linenoMaxFile file
      else truncate linenoMaxFile dir ++ '/' :: truncate linenoMaxFile file) =
      truncate linenoMaxFile (joinPath dir file) := by
  have hsize : linenoMaxFile - 1 = 511 := rfl
  have hnil : truncate linenoMaxFile dir = [] ↔ dir = [] := by
    rw [truncate, hsize, List.take_eq_nil_iff]
    simp
  unfold joinPath
  rcases eq_or_ne dir [] with rfl | hdir
  · rw [if_pos (hnil.mpr rfl), if_pos rfl, truncate, truncate, List.take_take, Nat.min_self]
  · rw [if_neg (mt hnil.mp hdir), if_neg hdir]
    simp only [truncate, hsize, List.take_append, List.take_take, Nat.min_self,
      List.length_take]
    congr 1
    rcases Nat.lt_or_ge dir.length 511 with hlt | hge
    · obtain ⟨n, hn⟩ : ∃ n, 511 - dir.length = n + 1 := ⟨510 - dir.length, by omega⟩
      rw [Nat.min_eq_right hlt.le, hn, List.take_succ_cons, List.take_succ_cons, List.take_take,
        Nat.min_eq_left (by omega)]
    · rw [Nat.min_eq_left hge, Nat.sub_self, Nat.sub_eq_zero_of_le hge]
      rfl

namespace TableEntry

variable {e : TableEntry} (lineStr : List Byte)

/-- The fields of an entry go one by one over the path, which stays cut to the buffer. -/
lemma foldl_addPath (h : ∀ v ∈ e, v.Readable) (acc : Str) :
    e.foldl FieldValue.addPath (truncate linenoMaxFile acc) =
      truncate linenoMaxFile (e.foldl (fun acc v =>
        match v with
        | .string s => s.map charOf
        | .lineStrp offset => cstrOf (lineStr.drop offset)
        | _ => acc) acc) := by
  induction e generalizing acc with
  | nil => rfl
  | cons v e ih =>
      have hrest := ih fun u hu => h u (List.mem_cons_of_mem v hu)
      cases v with
      | lineStrp offset => exact (h _ List.mem_cons_self).elim
      | string s => exact hrest (s.map charOf)
      | dirIndex n => exact hrest acc
      | md5 digest => exact hrest acc

/-- The path read is the path of the entry, cut to the buffer. -/
lemma readPath_eq (h : ∀ v ∈ e, v.Readable) :
    e.readPath = truncate linenoMaxFile (e.path lineStr) :=
  foldl_addPath lineStr h []

lemma readDir_eq : e.readDir = BitVec.ofNat 64 e.dir := by
  have key : ∀ acc : ℕ, e.foldl FieldValue.addDir (BitVec.ofNat 64 acc) =
      BitVec.ofNat 64 (e.foldl (fun acc v =>
        match v with
        | .dirIndex n => n.unsigned
        | _ => acc) acc) := by
    induction e with
    | nil => exact fun _ => rfl
    | cons v e ih => cases v <;> exact fun acc => ih _
  exact key 0

end TableEntry

namespace Unit5

variable {u : Unit5} {lineStr : List Byte}

/-- The path of a file that is there. -/
lemma path_eq (hwf : u.WellFormed) (lineStr : List Byte) {k : ℕ}
    (hk : k < u.files.entries.length) :
    ∃ f d, u.files.entries[k]? = some f ∧ u.dirs.entries[f.dir]? = some d ∧
      f ∈ u.files.entries ∧ d ∈ u.dirs.entries ∧
      u.path lineStr k = some (joinPath (d.path lineStr) (f.path lineStr)) := by
  have hf := List.getElem?_eq_getElem hk
  have hmem := List.getElem_mem hk
  have hd := List.getElem?_eq_getElem (hwf.dirIndex _ hmem)
  refine ⟨_, _, hf, hd, hmem, List.getElem_mem _, ?_⟩
  rw [path, hf, Option.bind_some, hd]
  rfl

/-- The directories and the files the debugger reads. -/
def readDirs (u : Unit5) : List Str := u.dirs.entries.map TableEntry.readPath

/-- The table of files the debugger makes: its entry `0` is no file. -/
def readFiles (u : Unit5) : FileTable := ([], 0) :: u.files.entries.map TableEntry.readFile

/-- The debugger finds under an index the file before, its path cut to the buffer. -/
lemma buildFilePath_succ (hwf : u.WellFormed) (hdirs : u.dirs.Readable) (hfiles : u.files.Readable)
    (lineStr : List Byte) {k : ℕ} (hk : k < u.files.entries.length) :
    buildFilePath u.readDirs u.readFiles (BitVec.ofNat 64 (k + 1)) =
      (u.path lineStr k).map (truncate linenoMaxFile) := by
  obtain ⟨f, d, hf, hd, hfmem, hdmem, hpath⟩ := path_eq hwf lineStr hk
  have hfiles64 := hwf.files.count_lt
  have hdirs64 := hwf.dirs.count_lt
  have hdir64 := hwf.dirIndex f hfmem
  have hindex : (BitVec.ofNat 64 (k + 1)).toNat = k + 1 := by
    rw [BitVec.toNat_ofNat]
    omega
  have hne : BitVec.ofNat 64 (k + 1) ≠ 0 := by
    intro h
    rw [h] at hindex
    cases hindex
  have hdirNat : f.readDir.toNat = f.dir := by
    rw [TableEntry.readDir_eq, BitVec.toNat_ofNat]
    omega
  rw [buildFilePath, if_neg hne, hindex, readFiles, List.getElem?_cons_succ, List.getElem?_map, hf]
  simp only [Option.map_some, TableEntry.readFile, readDirs, hdirNat, List.getElem?_map, hd,
    Option.getD_some]
  rw [TableEntry.readPath_eq lineStr (hdirs.fields d hdmem),
    TableEntry.readPath_eq lineStr (hfiles.fields f hfmem), hpath, join_truncate]
  rfl

/-- The path the debugger finds for a row is the path of its file exactly if that is the path
of the file before, cut to the buffer. -/
lemma buildFilePath_iff (hwf : u.WellFormed) (hdirs : u.dirs.Readable) (hfiles : u.files.Readable)
    {k : ℕ} (hk : k < u.files.entries.length) :
    buildFilePath u.readDirs u.readFiles (BitVec.ofNat 64 k) = u.path lineStr k ↔
      1 ≤ k ∧ (u.path lineStr (k - 1)).map (truncate linenoMaxFile) = u.path lineStr k := by
  cases k with
  | zero =>
      obtain ⟨f, d, _, _, _, _, hpath⟩ := path_eq hwf lineStr hk
      have hzero : BitVec.ofNat 64 0 = 0 := rfl
      rw [hpath, buildFilePath, if_pos hzero]
      simp
  | succ k =>
      rw [buildFilePath_succ hwf hdirs hfiles lineStr (Nat.lt_of_succ_lt hk)]
      simp

end Unit5

/-! ### Header and program -/

namespace Unit5

variable {u : Unit5} {lineStr : List Byte}

/-- The header the debugger reads. -/
def header (u : Unit5) : LineHeader :=
  ⟨u.minInstLength, u.lineBase, u.lineRange, u.opcodeBase, u.addressSize, 0 :: u.lengths⟩

/-- With one operation for each instruction it is the header of the unit. -/
lemma params_header (hmax : u.maxOps = 1) : u.header.params = u.params := by
  rw [LineHeader.params, Unit5.params, hmax]
  rfl

/-- The header of a unit, read with its tables. -/
lemma run_prologue (hwf : u.WellFormed) (lineStr : List Byte) (hbase : u.opcodeBase.toNat ≤ 16)
    (hdirs : u.dirs.Readable) (hfiles : u.files.Readable) (out : List Byte) :
    (readPrologue lineStr true u.addressSize).run ⟨u.prologue, out⟩ =
      some (⟨u.header, u.readDirs, u.readFiles⟩, ⟨[], out⟩) := by
  have hcount : min u.opcodeBase.toNat 16 - 1 = u.lengths.length := by
    rw [Nat.min_eq_left hbase]
    exact hwf.params.lengths.symm
  have hlengths : Reads (times u.lengths.length readU8) u.lengths u.lengths := by
    have h := Reads.times (fun b => [b]) id u.lengths fun b _ => reads_readU8 b
    rwa [List.flatMap_singleton', List.map_id] at h
  have hb := EntryTable.count_ne_zero hwf.files
  have hfilesRun := EntryTable.reads_files lineStr hwf.files hfiles [] out
  have hdirsRun := EntryTable.run_directories lineStr hwf.dirs hdirs hb
    (u.files.format.flatMap FormatItem.bytes ++
      (u.files.count.bytes ++ u.files.entries.flatMap TableEntry.bytes)) out
  have htables : (readTables lineStr true u.header).run ⟨u.dirs.bytes ++ u.files.bytes, out⟩ =
      some (⟨u.header, u.readDirs, u.readFiles⟩, ⟨[], out⟩) := by
    rw [List.append_nil] at hfilesRun
    rw [readTables, if_pos rfl, StateT.run_bind]
    simp only [EntryTable.bytes] at hdirsRun hfilesRun ⊢
    rw [hdirsRun]
    simp only [Option.bind_eq_bind, Option.bind_some, StateT.run_bind, hfilesRun]
    rfl
  have hlengthsRun := hlengths (u.dirs.bytes ++ u.files.bytes) out
  show ((times (min u.opcodeBase.toNat 16 - 1) readU8 >>= fun lengths =>
    readTables lineStr true ⟨u.minInstLength, u.lineBase, u.lineRange, u.opcodeBase, u.addressSize,
      0 :: lengths⟩ : ByteReader Prologue)).run
    ⟨u.lengths ++ (u.dirs.bytes ++ u.files.bytes), out⟩ = _
  rw [hcount, StateT.run_bind, hlengthsRun]
  exact htables

/-- The byte before the program: the last of the header. -/
def lastByte (u : Unit5) : Byte := u.prologue.getLastD 0

lemma prologue_eq (u : Unit5) : ∃ xs, u.prologue = xs ++ [u.lastByte] := by
  have hne : u.prologue ≠ [] := List.cons_ne_nil _ _
  refine ⟨u.prologue.dropLast, ?_⟩
  rw [lastByte, List.getLastD_eq_getLast?, List.getLast?_eq_some_getLast hne, Option.getD_some,
    List.dropLast_concat_getLast]

/-- The debugger executes the last byte of the header as this opcode, and its rows are those
of the unit nevertheless. -/
structure LedBy (u : Unit5) (op : LineOp) : Prop where
  bytes : op.bytes u.params = [u.lastByte]
  wellFormed : op.WellFormed u.params
  plain : op.Plain u.params
  rows : u.params.lineRows (op :: u.ops) = u.params.lineRows u.ops
  lines : ∀ r ∈ u.params.rows .init (op :: u.ops), -2 ^ 63 ≤ r.line

/-- The units that the debugger can take apart. -/
structure Readable (u : Unit5) : Prop where
  maxOps : u.maxOps = 1
  opcodeBase : u.opcodeBase.toNat ≤ 16
  dirs : u.dirs.Readable
  files : u.files.Readable
  led : ∃ op, u.LedBy op
  plain : ∀ op ∈ u.ops, op.Plain u.params

/-- The debugger makes of a section that holds the unit one entry for each row of a line. -/
def Decoded (u : Unit5) (lineStr : List Byte) (ln : LineRows) : Prop :=
  ln.Decodes u.bytes lineStr (u.path lineStr) (u.params.lineRows u.ops)

/-- A unit is parsed as the program that starts with the last byte of its header. -/
lemma parseUnit_eq (hwf : u.WellFormed) (hread : u.Readable) (lineStr : List Byte)
    (ln : LineRows) :
    ∃ dir, parseUnit lineStr true ⟨leBytes 2 5 ++ u.body, []⟩ ⟨u.body, []⟩ ln =
      let r := parseLineProgram u.header u.readDirs u.readFiles ⟨u.lastByte :: u.program, []⟩
      (r.1, ⟨ln.entries ++ r.2, dir⟩) := by
  obtain ⟨xs, hxs⟩ := u.prologue_eq
  have hlen : u.prologue.length < 2 ^ 32 := by
    have hbody := hwf.length_lt
    simp only [body, List.length_append, List.length_cons, length_leBytes] at hbody
    omega
  have hfields : (readUnitFields true).run ⟨u.body, []⟩ =
      some ((u.addressSize, BitVec.ofNat 32 u.prologue.length), ⟨u.prologue ++ u.program, []⟩) := by
    have hread32 : Reads (readUnitFields true)
        ([u.addressSize] ++ ([u.segmentSize] ++ leBytes 4 u.prologue.length))
        (u.addressSize, BitVec.ofNat 32 u.prologue.length) := by
      refine (reads_readU8 _).bind ((reads_readU8 _).bind ?_)
      exact (reads_readU32 hlen).bind_nil (Reads.pure _)
    have h := hread32 (u.prologue ++ u.program) []
    rwa [List.append_assoc, List.append_assoc] at h
  have hprologue := run_prologue hwf lineStr hread.opcodeBase hread.dirs hread.files
    (u.program ++ [])
  have hstart : (leBytes 2 5 ++ u.body).drop ((leBytes 2 5 ++ u.body).length -
      (u.prologue ++ u.program).length + u.prologue.length - 1) = u.lastByte :: u.program := by
    have hsplit : leBytes 2 5 ++ u.body =
        (leBytes 2 5 ++ ([u.addressSize, u.segmentSize] ++ leBytes 4 u.prologue.length) ++ xs) ++
          u.lastByte :: u.program := by
      rw [body]
      nth_rewrite 2 [hxs]
      simp only [List.append_assoc, List.singleton_append]
    rw [hsplit]
    apply List.drop_left'
    rw [hxs]
    simp only [List.length_append, List.length_cons, List.length_nil, length_leBytes]
    omega
  obtain ⟨dir, hunit⟩ := parseUnit_of_prologue ⟨leBytes 2 5 ++ u.body, []⟩ ln hlen hfields
    hprologue
  simp only [if_true, hstart] at hunit
  exact ⟨dir, hunit⟩

/-- **Units of version 5**: a unit that can be taken apart is decoded exactly if its rows fit
and every row selects a file that has the path of the file before. -/
theorem decoded_version5_iff (u : Unit5) (lineStr : List Byte) (ln : LineRows) (hwf : u.WellFormed)
    (hread : u.Readable) :
    u.Decoded lineStr ln ↔ ∀ r ∈ u.params.lineRows u.ops, r.Fits ∧ 1 ≤ r.file ∧
      (u.path lineStr (r.file - 1)).map (truncate linenoMaxFile) = u.path lineStr r.file := by
  obtain ⟨op, hled⟩ := hread.led
  have hops : u.params.maxOps = 1 := congrArg BitVec.toNat hread.maxOps
  have hplain : ∀ o : LineOp, o.WellFormed u.params → o.Plain u.params →
      o.ReadAs u.params u.header := by
    rw [← params_header hread.maxOps]
    exact fun o => LineHeader.readAs_of_plain (k := u.header) hwf.params.opcodeBase
  have hall : ∀ o ∈ op :: u.ops, o.WellFormed u.params ∧ o.ReadAs u.params u.header := by
    intro o ho
    rcases List.mem_cons.mp ho with rfl | ho
    · exact ⟨hled.wellFormed, hplain o hled.wellFormed hled.plain⟩
    · exact ⟨hwf.ops o ho, hplain o (hwf.ops o ho) (hread.plain o ho)⟩
  have hfile : ∀ r ∈ u.params.lineRows (op :: u.ops), (u.path lineStr r.file).isSome := by
    intro r hr
    rw [hled.rows] at hr
    obtain ⟨_, _, _, _, _, _, hpath⟩ := path_eq hwf lineStr (hwf.selected r hr)
    exact Option.isSome_of_eq_some hpath
  have hbytes : (op :: u.ops).flatMap (LineOp.bytes u.params) = u.lastByte :: u.program := by
    rw [List.flatMap_cons, hled.bytes]
    rfl
  have hshows := parseLineProgram_shows_iff u.readDirs u.readFiles [] hops hall hled.lines hfile
  obtain ⟨dir, hunit⟩ := parseUnit_eq hwf hread lineStr ln
  rw [hled.rows] at hshows
  simp only [hbytes] at hshows
  have htable : parseLineTable ln u.bytes lineStr = some (0, ⟨ln.entries ++
      (parseLineProgram u.header u.readDirs u.readFiles ⟨u.lastByte :: u.program, []⟩).2,
      dir⟩) := by
    rw [bytes, parseLineTable_unit 5 true ln rfl hwf.length_lt, hunit]
    simp only [hshows.1]
  have hpaths : ∀ r ∈ u.params.lineRows u.ops,
      (buildFilePath u.readDirs u.readFiles (BitVec.ofNat 64 r.file) = u.path lineStr r.file ↔
        1 ≤ r.file ∧
          (u.path lineStr (r.file - 1)).map (truncate linenoMaxFile) = u.path lineStr r.file) :=
    fun r hr => buildFilePath_iff hwf hread.dirs hread.files (hwf.selected r hr)
  rw [Decoded, LineRows.decodes_iff htable, hshows.2]
  exact forall₂_congr fun r hr => and_congr_right fun _ => hpaths r hr

/-- A unit of two files in one directory, with checksums, and a program of three rows. -/
def sample (name : Byte) : Unit5 where
  addressSize := 8
  segmentSize := 0
  minInstLength := 4
  maxOps := 1
  defaultIsStmt := 1
  lineBase := 0xfb
  lineRange := 14
  opcodeBase := 13
  lengths := [0, 1, 1, 1, 1, 0, 0, 0, 1, 0, 0, 1]
  dirs := ⟨[⟨.string, .single 1, .single 8⟩], .single 1, [[.string [0x2f, 0x73]]]⟩
  files :=
    ⟨[⟨.string, .single 1, .single 8⟩, ⟨.dirIndex, .single 2, .single 15⟩,
        ⟨.md5, .single 5, .single 30⟩], .single 2,
      [[.string [0x61, 0x2e, 0x63], .dirIndex (.single 0), .md5 (List.replicate 16 0x0a)],
        [.string [name, 0x2e, 0x63], .dirIndex (.single 0), .md5 (List.replicate 16 0x0a)]]⟩
  ops := [.setAddress (.single 9) 0x1000, .copy, .special 75, .advancePc (.single 2),
    .endSequence (.single 1)]

lemma sample_wellFormed {name : Byte} (h : name ∈ [0x61, 0x62]) : (sample name).WellFormed := by
  simp only [List.mem_cons, List.not_mem_nil, or_false] at h
  rcases h with rfl | rfl
  all_goals
    refine ⟨⟨?_, ?_, ?_, ?_, ?_⟩, ⟨?_, ?_, ?_, ?_, ?_, ?_, ?_, ?_⟩,
      ⟨?_, ?_, ?_, ?_, ?_, ?_, ?_, ?_⟩, ?_, ?_, ?_, ?_⟩
    all_goals decide

/-- The rows of the sample select the second file, which has the name of the first. -/
theorem sample_version5_decoded : (sample 0x61).Decoded [] ⟨[], []⟩ := by
  refine (decoded_version5_iff _ _ _ (sample_wellFormed (by decide)) ?_).mpr (by decide)
  refine ⟨by decide, by decide, ⟨by decide, by decide, by decide⟩,
    ⟨by decide, by decide, by decide⟩, ⟨.other 0x0a [], ?_⟩, by decide⟩
  exact ⟨by decide, by decide, by decide, by decide, by decide⟩

/-- With another name the rows get the path of the first file. -/
theorem sample_version5_not_decoded :
    (sample 0x62).WellFormed ∧ ¬ (sample 0x62).Decoded [] ⟨[], []⟩ := by
  refine ⟨sample_wellFormed (by decide), ?_⟩
  rintro ⟨es, ln', hrun, hes, hfor⟩
  have hentries : (parseLineTable ⟨[], []⟩ (sample 0x62).bytes []).map (fun r => r.2.entries) =
      some ([(0x1000, 1), (0x1010, 2), (0x1018, 2)].map
        fun a => ⟨a.1, a.2, 0, "/s/a.c".toList⟩) := by
    decide
  rw [hrun, Option.map_some, hes, Option.some_inj, List.nil_append] at hentries
  subst hentries
  exact absurd hfor (by decide)

end Unit5

end Cdbg
