import Cdbg.Dwarf.LineUnit
import Cdbg.Laws.LineProgram

/-!
Units of DWARF 4: where `parse_line_table` decodes them.

The debugger does not read `maximum_operations_per_instruction`, so every later field of the
header is taken for the one before; `Unit4.header` is what it reads instead. Of a file it skips
sixteen bytes for the time and the length.
-/

namespace Cdbg

open CString Reader

/-! ### The tables -/

lemma reads_dirsV4 : ∀ {dirs : List (List Byte)}, (∀ d ∈ dirs, d ≠ [] ∧ ∀ b ∈ d, b ≠ 0) →
    ∀ n, (dirs.flatMap (· ++ [0]) ++ [0]).length ≤ n →
      Reads (parseDirsV4 n) (dirs.flatMap (· ++ [0]) ++ [0]) (dirs.map (List.map charOf)) := by
  intro dirs
  induction dirs with
  | nil =>
      intro _ n hn
      obtain ⟨m, rfl⟩ : ∃ m, n = m + 1 := ⟨n - 1, (Nat.succ_pred_eq_of_pos hn).symm⟩
      have hend : Reads readCstr ([] ++ [0]) ([].map charOf) := reads_readCstr (by simp)
      refine Reads.unless_end (by simp) (hend.bind_nil ?_)
      rw [List.map_nil, if_pos rfl]
      exact Reads.pure []
  | cons d dirs ih =>
      intro hall n hn
      obtain ⟨hne, hd⟩ := hall d List.mem_cons_self
      rw [List.flatMap_cons, List.append_assoc] at hn ⊢
      simp only [List.length_append] at hn
      obtain ⟨m, rfl⟩ : ∃ m, n = m + 1 := ⟨n - 1, by simp at hn; omega⟩
      have hrest := ih (fun e he => hall e (List.mem_cons_of_mem d he)) m (by simp at hn ⊢; omega)
      refine Reads.unless_end (by simp) ((reads_readCstr hd).bind ?_)
      rw [if_neg (by simpa using hne)]
      exact hrest.bind_nil (Reads.pure _)

/-- A file can be read: its index can, and what follows it has the sixteen bytes skipped. -/
def FileEntry.Readable (f : FileEntry) : Prop :=
  f.dirIndex.size ≤ 10 ∧ f.time.size + f.length.size = 16

instance FileEntry.decidableReadable (f : FileEntry) : Decidable f.Readable :=
  inferInstanceAs (Decidable (_ ∧ _))

/-- What the debugger reads in a file. -/
def FileEntry.readFile (f : FileEntry) : Str × BitVec 64 :=
  (f.name.map charOf, BitVec.ofNat 64 f.dirIndex.unsigned)

lemma reads_filesV4 : ∀ {files : List FileEntry},
    (∀ f ∈ files, f.WellFormed ∧ f.Readable) →
    ∀ n, (files.flatMap FileEntry.bytes ++ [0]).length ≤ n →
      Reads (fileNamesV4Loop n) (files.flatMap FileEntry.bytes ++ [0])
        (files.map FileEntry.readFile) := by
  intro files
  induction files with
  | nil =>
      intro _ n hn
      obtain ⟨m, rfl⟩ : ∃ m, n = m + 1 := ⟨n - 1, (Nat.succ_pred_eq_of_pos hn).symm⟩
      have hend : Reads readCstr ([] ++ [0]) ([].map charOf) := reads_readCstr (by simp)
      refine Reads.unless_end (by simp) (hend.bind_nil ?_)
      rw [List.map_nil, if_pos rfl]
      exact Reads.pure []
  | cons f files ih =>
      intro hall n hn
      obtain ⟨⟨hne, hname⟩, hindex, hskip⟩ := hall f List.mem_cons_self
      have hbytes : (f :: files).flatMap FileEntry.bytes ++ [0] =
          (f.name ++ [0]) ++ (f.dirIndex.bytes ++ ((f.time.bytes ++ f.length.bytes) ++
            (files.flatMap FileEntry.bytes ++ [0]))) := by
        simp [FileEntry.bytes]
      have hsixteen : (f.time.bytes ++ f.length.bytes).length = 16 := by
        rw [List.length_append, Leb.length_bytes, Leb.length_bytes, hskip]
      rw [hbytes] at hn ⊢
      simp only [List.length_append] at hn
      obtain ⟨m, rfl⟩ : ∃ m, n = m + 1 := ⟨n - 1, by simp at hn; omega⟩
      have hrest := ih (fun e he => hall e (List.mem_cons_of_mem f he)) m (by simp at hn ⊢; omega)
      refine Reads.unless_end (by simp) ((reads_readCstr hname).bind ?_)
      rw [if_neg (by simpa using hne)]
      refine (reads_readUleb128 _ hindex).bind ?_
      have hmove := reads_skip hsixteen
      have htail := Reads.bind (f := fun _ => do
        let rest ← fileNamesV4Loop m
        return f.readFile :: rest) hmove (hrest.bind_nil (Reads.pure _))
      rwa [bind_assoc] at htail

namespace Unit4

variable {u : Unit4}

/-- The header the debugger reads: each field but the first is the one before it, and the list
of lengths starts with the first special opcode. -/
def header (u : Unit4) : LineHeader :=
  ⟨u.minInstLength, u.defaultIsStmt, u.lineBase, u.lineRange, 8, 0 :: u.opcodeBase :: u.lengths⟩

/-- The directories the debugger reads, behind that of the compilation. -/
def readDirs (u : Unit4) : List Str := [] :: u.dirs.map (List.map charOf)

/-- The files of the header as the debugger reads them; its entry `0` is no file. -/
def readFiles (u : Unit4) : FileTable := ([], 0) :: u.files.map FileEntry.readFile

/-- The units that the debugger can take apart: it reads as many lengths as bring it back to
the tables, it can read the files, and each opcode means under the header it reads what it
means under that of the unit. -/
structure Readable (u : Unit4) : Prop where
  lengths : min u.lineRange.toNat 16 - 1 = u.opcodeBase.toNat
  files : ∀ f ∈ u.files, f.Readable
  ops : ∀ op ∈ u.ops, op.ReadAs u.params u.header
  lines : ∀ r ∈ u.params.rows .init u.ops, -2 ^ 63 ≤ r.line

/-- The files of the header are well formed. -/
lemma file_wellFormed (hwf : u.WellFormed) {f : FileEntry} (hf : f ∈ u.files) : f.WellFormed :=
  hwf.files f (List.mem_append_left _ hf)

lemma reads_tables (hwf : u.WellFormed) (hread : u.Readable) (lineStr : List Byte) :
    Reads (readTables lineStr false u.header)
      ((u.dirs.flatMap (· ++ [0]) ++ [0]) ++ (u.files.flatMap FileEntry.bytes ++ [0]))
      ⟨u.header, u.readDirs, u.readFiles⟩ := by
  have hfiles : Reads parseFileNamesV4 (u.files.flatMap FileEntry.bytes ++ [0])
      (u.files.map FileEntry.readFile) :=
    Reads.rounds (reads_filesV4 fun f hf => ⟨file_wellFormed hwf hf, hread.files f hf⟩)
  refine Reads.rounds (m := fun n => do
    let dirs ← parseDirsV4 n
    let files ← parseFileNamesV4
    return (⟨u.header, [] :: dirs, ([], 0) :: files⟩ : Prologue)) fun n hn => ?_
  rw [List.length_append] at hn
  exact (reads_dirsV4 hwf.dirs n (by omega)).bind (hfiles.bind_nil (Reads.pure _))

lemma reads_prologue (hwf : u.WellFormed) (hread : u.Readable) (lineStr : List Byte) :
    Reads (readPrologue lineStr false 8) u.prologue ⟨u.header, u.readDirs, u.readFiles⟩ := by
  have hcount : min u.lineRange.toNat 16 - 1 = (u.opcodeBase :: u.lengths).length := by
    have hbase : 1 ≤ u.opcodeBase.toNat := hwf.params.opcodeBase
    have hlengths : u.lengths.length = u.opcodeBase.toNat - 1 := hwf.params.lengths
    rw [hread.lengths, List.length_cons]
    omega
  have hlengths : Reads (times (min u.lineRange.toNat 16 - 1) readU8) (u.opcodeBase :: u.lengths)
      (u.opcodeBase :: u.lengths) := by
    have h := Reads.times (fun b => [b]) id (u.opcodeBase :: u.lengths) fun b _ => reads_readU8 b
    rwa [List.flatMap_singleton', List.map_id, ← hcount] at h
  show Reads _ ([u.minInstLength] ++ ([] ++ ([u.maxOps] ++ ([u.defaultIsStmt] ++ ([u.lineBase] ++
    ([u.lineRange] ++ ((u.opcodeBase :: u.lengths) ++ _))))))) _
  refine (reads_readU8 _).bind ((Reads.pure 1).bind ((reads_readU8 _).bind ?_))
  refine (reads_readU8 _).bind ((reads_readU8 _).bind ((reads_readU8 _).bind ?_))
  exact hlengths.bind (reads_tables hwf hread lineStr)

/-- Items that have letters are no more than their letters. -/
lemma length_le_flatMap {α β : Type} {f : α → List β} : ∀ {l : List α}, (∀ x ∈ l, f x ≠ []) →
    l.length ≤ (l.flatMap f).length
  | [], _ => le_rfl
  | x :: l, h => by
      have ih := length_le_flatMap fun y hy => h y (List.mem_cons_of_mem x hy)
      have hpos := List.length_pos_of_ne_nil (h x List.mem_cons_self)
      rw [List.flatMap_cons, List.length_append, List.length_cons]
      omega

/-- The counts of directories and files fit their words. -/
lemma counts_lt (hwf : u.WellFormed) : u.dirs.length < 2 ^ 32 ∧ u.allFiles.length < 2 ^ 32 := by
  have hdirs : u.dirs.length ≤ (u.dirs.flatMap (· ++ [0])).length :=
    length_le_flatMap fun d _ => by simp
  have hfiles : u.files.length ≤ (u.files.flatMap FileEntry.bytes).length :=
    length_le_flatMap fun f _ => by simp [FileEntry.bytes]
  have hops : u.ops.length ≤ u.program.length :=
    length_le_flatMap fun op _ => LineOp.bytes_ne_nil u.params op
  have hlen := hwf.length_lt
  simp only [body, prologue, List.length_append, length_leBytes] at hlen
  rw [allFiles, List.length_append]
  constructor
  · omega
  · exact lt_of_le_of_lt (Nat.add_le_add_left (List.length_filterMap_le _ _) _) (by omega)

/-- The path of a file that is there. -/
lemma path_eq (hwf : u.WellFormed) {k : ℕ} (hk : k < u.allFiles.length) :
    ∃ f d, u.allFiles[k]? = some f ∧ u.dir f.dirIndex.unsigned = some d ∧
      f.dirIndex.unsigned ≤ u.dirs.length ∧
      u.path (k + 1) = some (joinPath d (f.name.map charOf)) := by
  have hf := List.getElem?_eq_getElem hk
  have hindex := hwf.dirIndex _ (List.getElem_mem hk)
  have hdir : (u.dir u.allFiles[k].dirIndex.unsigned).isSome := by
    cases hn : u.allFiles[k].dirIndex.unsigned with
    | zero => rfl
    | succ n =>
        rw [hn] at hindex
        rw [dir, List.getElem?_eq_getElem hindex]
        rfl
  obtain ⟨d, hd⟩ := Option.isSome_iff_exists.mp hdir
  refine ⟨_, d, hf, hd, hindex, ?_⟩
  rw [path, hf, Option.bind_some, hd]
  rfl

/-- The directory the debugger has under an index. -/
lemma readDirs_getD {n : ℕ} {d : Str} (hd : u.dir n = some d) : u.readDirs[n]?.getD [] = d := by
  cases n with
  | zero => exact Option.some.inj hd
  | succ n =>
      rw [dir] at hd
      rw [readDirs, List.getElem?_cons_succ, List.getElem?_map, hd]
      rfl

/-- The debugger finds for a row the path of its file exactly if that is a file of the header
with a path that fits the buffer. -/
lemma buildFilePath_iff (hwf : u.WellFormed) {n : ℕ} (hpos : 1 ≤ n) (hn : n ≤ u.allFiles.length) :
    buildFilePath u.readDirs u.readFiles (BitVec.ofNat 64 n) = u.path n ↔
      n ≤ u.files.length ∧ (u.path n).map (truncate linenoMaxFile) = u.path n := by
  obtain ⟨k, rfl⟩ : ∃ k, n = k + 1 := ⟨n - 1, (Nat.succ_pred_eq_of_pos hpos).symm⟩
  obtain ⟨f, d, hf, hd, hindex, hpath⟩ := path_eq hwf hn
  obtain ⟨hdirs64, hfiles64⟩ := counts_lt hwf
  have hnat : (BitVec.ofNat 64 (k + 1)).toNat = k + 1 := by
    rw [BitVec.toNat_ofNat]
    omega
  have hne : BitVec.ofNat 64 (k + 1) ≠ 0 := by
    intro h
    rw [h] at hnat
    cases hnat
  rw [buildFilePath, if_neg hne, hnat, readFiles, List.getElem?_cons_succ, List.getElem?_map]
  rcases Nat.lt_or_ge k u.files.length with hk | hk
  · have hfile : u.files[k]? = some f := by
      rw [← hf, allFiles, List.getElem?_append_left hk]
    have hdirNat : (BitVec.ofNat 64 f.dirIndex.unsigned).toNat = f.dirIndex.unsigned := by
      rw [BitVec.toNat_ofNat]
      omega
    rw [hfile]
    simp only [Option.map_some, FileEntry.readFile, hdirNat, readDirs_getD hd, hpath]
    exact (and_iff_right hk).symm
  · rw [List.getElem?_eq_none hk, hpath]
    constructor
    · intro h
      cases h
    · intro h
      exact absurd h.1 (by omega)

/-- The debugger makes of a section that holds the unit one entry for each row of a line. -/
def Decoded (u : Unit4) (lineStr : List Byte) (ln : LineRows) : Prop :=
  ln.Decodes u.bytes lineStr u.path (u.params.lineRows u.ops)

/-- **Units of version 4**: a unit that can be taken apart is decoded exactly if its rows fit
and select files of the header whose paths fit the buffer. -/
theorem decoded_version4_iff (u : Unit4) (lineStr : List Byte) (ln : LineRows) (hwf : u.WellFormed)
    (hread : u.Readable) :
    u.Decoded lineStr ln ↔ ∀ r ∈ u.params.lineRows u.ops, r.Fits ∧ r.file ≤ u.files.length ∧
      (u.path r.file).map (truncate linenoMaxFile) = u.path r.file := by
  have hops : u.params.maxOps = 1 := congrArg BitVec.toNat hwf.maxOps
  have hall : ∀ op ∈ u.ops, op.WellFormed u.params ∧ op.ReadAs u.params u.header :=
    fun op hop => ⟨hwf.ops op hop, hread.ops op hop⟩
  have hfile : ∀ r ∈ u.params.lineRows u.ops, (u.path r.file).isSome := by
    intro r hr
    obtain ⟨hpos, hle⟩ := hwf.selected r hr
    obtain ⟨k, hk⟩ : ∃ k, r.file = k + 1 := ⟨r.file - 1, (Nat.succ_pred_eq_of_pos hpos).symm⟩
    rw [hk] at hle ⊢
    obtain ⟨_, _, _, _, _, hpath⟩ := path_eq hwf hle
    exact Option.isSome_of_eq_some hpath
  have hshows := parseLineProgram_shows_iff u.readDirs u.readFiles [] hops hall hread.lines
    hfile
  have hlen : u.prologue.length < 2 ^ 32 := by
    have hbody := hwf.length_lt
    simp only [body, List.length_append, length_leBytes] at hbody
    omega
  have hfields : (readUnitFields false).run ⟨u.body, []⟩ =
      some ((8, BitVec.ofNat 32 u.prologue.length), ⟨u.prologue ++ u.program, []⟩) := by
    have hread32 : Reads (readUnitFields false) (leBytes 4 u.prologue.length)
        (8, BitVec.ofNat 32 u.prologue.length) := (reads_readU32 hlen).bind_nil (Reads.pure _)
    exact hread32 (u.prologue ++ u.program) []
  have hprologue := reads_prologue hwf hread lineStr [] (u.program ++ [])
  rw [List.append_nil] at hprologue
  obtain ⟨dir, hunit⟩ := parseUnit_of_prologue ⟨leBytes 2 4 ++ u.body, []⟩ ln hlen hfields
    hprologue
  have htable : parseLineTable ln u.bytes lineStr = some (0, ⟨ln.entries ++
      (parseLineProgram u.header u.readDirs u.readFiles ⟨u.program, []⟩).2, dir⟩) := by
    rw [bytes, parseLineTable_unit 4 false ln rfl hwf.length_lt, hunit]
    simp only [Bool.false_eq_true, if_false, program, hshows.1]
  rw [Decoded, LineRows.decodes_iff htable, program, hshows.2]
  refine forall₂_congr fun r hr => and_congr_right fun _ => ?_
  obtain ⟨hpos, hle⟩ := hwf.selected r hr
  exact buildFilePath_iff hwf hpos hle

/-- A unit of one file, with its time and its length written in these bytes, and a program of
three rows. -/
def sample (stamp : Leb) : Unit4 where
  minInstLength := 4
  maxOps := 1
  defaultIsStmt := 1
  lineBase := 0xfd
  lineRange := 11
  opcodeBase := 10
  lengths := [0, 1, 1, 1, 1, 0, 0, 0, 1]
  dirs := [[0x2f, 0x73]]
  files := [⟨[0x61, 0x2e, 0x63], .single 1, stamp, stamp⟩]
  ops := [.setAddress (.single 9) 0x1000, .copy, .advanceLine (.single 2), .advancePc (.single 1),
    .copy, .advancePc (.single 2), .endSequence (.single 1)]

/-- A zero in eight bytes. -/
def wideZero : Leb := ⟨List.replicate 7 0, 0⟩

lemma sample_wellFormed {stamp : Leb} (h : stamp ∈ [wideZero, .single 0]) :
    (sample stamp).WellFormed := by
  simp only [List.mem_cons, List.not_mem_nil, or_false] at h
  rcases h with rfl | rfl
  all_goals
    refine ⟨⟨?_, ?_, ?_, ?_, ?_⟩, ?_, ?_, ?_, ?_, ?_, ?_, ?_⟩
    all_goals decide

/-- With sixteen bytes of time and length the rows of the sample are decoded. -/
theorem sample_version4_decoded : (sample wideZero).Decoded [] ⟨[], []⟩ := by
  refine (decoded_version4_iff _ _ _ (sample_wellFormed (by decide)) ?_).mpr (by decide)
  exact ⟨by decide, by decide, by decide, by decide⟩

/-- With a time and a length of one byte each the parser fails. -/
theorem sample_version4_not_decoded :
    (sample (.single 0)).WellFormed ∧ ¬ (sample (.single 0)).Decoded [] ⟨[], []⟩ := by
  refine ⟨sample_wellFormed (by decide), ?_⟩
  rintro ⟨es, ln', hrun, _⟩
  have hfail : (parseLineTable ⟨[], []⟩ (sample (.single 0)).bytes []).map (fun r => r.1) =
      some (-1) := by decide
  rw [hrun] at hfail
  cases hfail

end Unit4

end Cdbg
