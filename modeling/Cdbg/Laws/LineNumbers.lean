import Cdbg.Laws.FunctionBreak
import Cdbg.Lib.Numeral
import Cdbg.Lib.Trim
import Cdbg.Repl.Listing

/-!
Line numbers: which line `break`, `dis` and `list` take a text of decimal digits for.

The digits go through `strtoull` with the base left open, and of the number it returns the
lower 32 bits are the line. So a leading zero makes the digits octal, and from `2^32` on the
numbers wrap around. The other texts are understood (`PlainLine`), and these are wrong
whenever there is something to be found under the number read instead.
-/

namespace Cdbg

open CString

/-! ### Digits -/

/-- A text of decimal digits. -/
def DecimalText (N : Str) : Prop := N ≠ [] ∧ ∀ c ∈ N, isdigit c = true

instance (N : Str) : Decidable (DecimalText N) :=
  decidable_of_iff (N ≠ [] ∧ N.all isdigit = true) (and_congr_right' List.all_eq_true)

/-- Digits without a leading zero that write a 32-bit number, or any that write one below 8. -/
def PlainLine (N : Str) : Prop := numeral 10 N < 8 ∨ N.head? ≠ some '0' ∧ numeral 10 N < 2 ^ 32

lemma digitValue_of_isdigit {c : Char} (h : isdigit c = true) : digitValue c < 10 := by
  have hval : digitValue c = c.toNat - '0'.toNat := by rw [digitValue, if_pos h]
  simp only [isdigit, Bool.and_eq_true, decide_eq_true_eq] at h
  have hhigh : c.toNat ≤ '9'.toNat := h.2
  have h9 : '9'.toNat = '0'.toNat + 9 := by decide
  omega

lemma digitValue_le_numeral {ds : Str} : ∀ c ∈ ds, digitValue c ≤ numeral 10 ds := by
  induction ds using List.reverseRecOn with
  | nil => simp
  | append_singleton ds d ih =>
      intro c hc
      rw [numeral_append_singleton]
      rcases List.mem_append.mp hc with hc | hc
      · have := ih c hc
        omega
      · rw [List.mem_singleton.mp hc]
        omega

variable {N : Str}

/-- The base in which the digits are read. -/
def openBase (N : Str) : ℕ := if N.head? = some '0' then 8 else 10

lemma strtoull_open (hN : DecimalText N) : ∃ m rest, digits (openBase N) 0 N = (m, rest) ∧
    strtoull 0 N = some (if 2 ^ 64 ≤ m then BitVec.allOnes 64 else BitVec.ofNat 64 m, rest) := by
  obtain ⟨hne, hall⟩ := hN
  obtain ⟨c, ds, rfl⟩ := List.exists_cons_of_ne_nil hne
  have hbase : openBase (c :: ds) = if c = '0' then 8 else 10 := by simp [openBase]
  cases hread : digits (openBase (c :: ds)) 0 (c :: ds) with
  | mk m rest =>
      refine ⟨m, rest, rfl, ?_⟩
      rw [strtoull, scanNumber_open fun d hd => digitValue_of_isdigit (hall d hd), ← hbase, hread]
      simp only [Bool.false_eq_true, if_false]
      split <;> rfl

/-- Digits that are read are digits of the base, and the number is cut at 64 bits. -/
lemma parseU64_eq_some (hN : DecimalText N) {v : BitVec 64} (h : parseU64 N = some v) :
    (∀ c ∈ N, digitValue c < openBase N) ∧
      v.toNat = min (numeral (openBase N) N) (2 ^ 64 - 1) := by
  obtain ⟨m, rest, hdigits, hread⟩ := strtoull_open hN
  rw [parseU64, hread] at h
  cases rest with
  | cons c rest => cases h
  | nil =>
      obtain ⟨hall, rfl⟩ := eq_numeral_of_digits hdigits
      refine ⟨hall, ?_⟩
      rw [← Option.some.inj h]
      split
      next hbig =>
        rw [BitVec.toNat_allOnes]
        omega
      next hsmall =>
        rw [BitVec.toNat_ofNat, Nat.mod_eq_of_lt (by omega)]
        omega

/-- Digits of the base are read. -/
lemma parseU64_ne_none (hN : DecimalText N) (h : ∀ c ∈ N, digitValue c < openBase N) :
    parseU64 N ≠ none := by
  obtain ⟨m, rest, hdigits, hread⟩ := strtoull_open hN
  rw [digits_eq_numeral h] at hdigits
  obtain ⟨-, rfl⟩ := Prod.mk.inj hdigits
  rw [parseU64, hread]
  exact Option.some_ne_none _

lemma parseU64_of_plain (hN : DecimalText N) (h : PlainLine N) : parseU64 N ≠ none := by
  refine parseU64_ne_none hN fun c hc => ?_
  have hten := digitValue_of_isdigit (hN.2 c hc)
  rw [openBase]
  split
  next hzero =>
    rcases h with h | h
    · exact lt_of_le_of_lt (digitValue_le_numeral c hc) h
    · exact absurd hzero h.1
  next => exact hten

/-- The line read is the number written exactly if the digits are plain. -/
lemma lineRead_iff (hN : DecimalText N) {v : BitVec 64} (h : parseU64 N = some v) :
    (v.setWidth 32).toNat = numeral 10 N ↔ PlainLine N := by
  obtain ⟨hall, hv⟩ := parseU64_eq_some hN h
  have hmod : (v.setWidth 32).toNat = v.toNat % 2 ^ 32 := BitVec.toNat_setWidth 32 v
  rw [hmod, hv]
  by_cases hzero : N.head? = some '0'
  · have hbase : openBase N = 8 := if_pos hzero
    rw [hbase] at hall ⊢
    obtain ⟨hle, -, hsame, hless⟩ := numeral_lt_numeral (by decide) (show 8 < 10 by decide) hall
    have hplain : PlainLine N ↔ numeral 10 N < 8 := by simp [PlainLine, hzero]
    rw [hplain]
    constructor
    · intro heq
      by_contra hge
      have := hless (by omega)
      omega
    · intro hlt
      rw [hsame hlt]
      omega
  · have hbase : openBase N = 10 := if_neg hzero
    rw [hbase]
    have hplain : PlainLine N ↔ numeral 10 N < 2 ^ 32 := by
      rw [PlainLine]
      constructor
      · rintro (h | h)
        · omega
        · exact h.2
      · exact fun h => .inr ⟨hzero, h⟩
    rw [hplain]
    constructor
    · intro heq
      omega
    · intro hlt
      omega

lemma parseU64_ne_zero (hN : DecimalText N) (hpos : 1 ≤ numeral 10 N) {v : BitVec 64}
    (h : parseU64 N = some v) : v ≠ 0 := by
  rintro rfl
  obtain ⟨hall, hv⟩ := parseU64_eq_some hN h
  change 0 = _ at hv
  rw [openBase] at hall hv
  split at hall
  next hzero =>
    rw [if_pos hzero] at hv
    have := (numeral_lt_numeral (by decide) (show 8 < 10 by decide) hall).2.1 hpos
    omega
  next hzero =>
    rw [if_neg hzero] at hv
    omega

/-! ### Targets -/

lemma strrchr_append {t : Str} {d : Char} (h : d ∉ t) (s : Str) :
    strrchr (s ++ d :: t) d = some (s, t) := by
  have hrev : (s ++ d :: t).reverse = t.reverse ++ d :: s.reverse := by simp
  have hmem : d ∉ t.reverse := by simpa using h
  rw [strrchr, hrev, strchr_append hmem, takeWhile_ne_append hmem]
  simp

lemma strrchr_eq_none {s : Str} {d : Char} (h : d ∉ s) : strrchr s d = none := by
  rw [strrchr, strchr_eq_none (by simpa using h)]

/-- What the digits of a line follow: the file and a colon, or nothing. -/
def lineTarget (file : Option Str) (N : Str) : Str :=
  match file with
  | some f => f ++ ':' :: N
  | none => N

lemma DecimalText.colon (hN : DecimalText N) : ':' ∉ N := fun h =>
  absurd (hN.2 _ h) (by decide)

lemma DecimalText.nonBlank (hN : DecimalText N) : ∀ c ∈ N, isspace c = false := fun c hc =>
  (not_isspace_of_digitValue (lt_trans (digitValue_of_isdigit (hN.2 c hc)) (by decide))).1

lemma DecimalText.trimEnd (hN : DecimalText N) (s : Str) : trimEnd (s ++ N) = s ++ N := by
  obtain ⟨ds, c, rfl⟩ := List.eq_nil_or_concat' N |>.resolve_left hN.1
  have hc := hN.nonBlank c (by simp)
  rw [CString.trimEnd, ← List.append_assoc, List.rdropWhile_concat_neg _ _ _ (by simp [hc])]

lemma DecimalText.trimSpace (hN : DecimalText N) : trimSpace N = N := by
  obtain ⟨c, ds, rfl⟩ := List.exists_cons_of_ne_nil hN.1
  have hc := hN.nonBlank c List.mem_cons_self
  rw [trimSpace_eq, List.dropWhile_cons_of_neg (by simp [hc])]
  exact hN.trimEnd []

lemma DecimalText.trimSpace_file (hN : DecimalText N) (f : Str) :
    CString.trimSpace (f ++ ':' :: N) = f.dropWhile isspace ++ ':' :: N := by
  have hdrop : (f ++ ':' :: N).dropWhile isspace = f.dropWhile isspace ++ ':' :: N := by
    by_cases hf : NonBlank f
    · exact dropWhile_append_of_nonBlank hf _
    · rw [dropWhile_of_not_nonBlank hf, List.nil_append,
        List.dropWhile_append_of_pos (not_nonBlank.mp hf)]
      rfl
  rw [trimSpace_eq, hdrop]
  have hend := hN.trimEnd (f.dropWhile isspace ++ [':'])
  rwa [List.append_assoc] at hend

/-- A file that the commands refuse. -/
def BadFile (f : Str) : Prop := f = [] ∨ linenoMaxFile ≤ f.length

instance (f : Str) : Decidable (BadFile f) := inferInstanceAs (Decidable (_ ∨ _))

lemma fileAndLine_file (hN : DecimalText N) (f : Str) : fileAndLine (f ++ ':' :: N) =
    some (if BadFile f then none
      else (parseU64 N).bind fun v => if v = 0 then none else some (f, v.setWidth 32)) := by
  rw [fileAndLine, strrchr_append hN.colon]
  obtain ⟨c, ds, rfl⟩ := List.exists_cons_of_ne_nil hN.1
  cases h : parseU64 (c :: ds) <;> simp [h, BadFile]

lemma fileAndLine_none (hN : DecimalText N) : fileAndLine N = none := by
  rw [fileAndLine, strrchr_eq_none hN.colon]

lemma not_hexPrefix (hN : DecimalText N) :
    ¬ ("0x".toList.isPrefixOf N ∨ "0X".toList.isPrefixOf N) := by
  have hno : ∀ x, isdigit x = false → ¬ ['0', x] <+: N := fun x hx h => by
    have := hN.2 x (h.subset (by simp))
    rw [hx] at this
    exact absurd this (by decide)
  simp only [List.isPrefixOf_iff_prefix, not_or]
  exact ⟨hno 'x' (by decide), hno 'X' (by decide)⟩

/-! ### The files of a filter -/

/-- The rows that match a filter are those of one file. -/
def LineTable.OnlyFile (ln : LineTable) (filter : Option Str) (f : Str) : Prop :=
  (∃ e ∈ ln.entries, LineTable.fileMatches e.file filter = true ∧ e.file = f) ∧
    ∀ e ∈ ln.entries, LineTable.fileMatches e.file filter = true → e.file = f

lemma matchFile_some {filter : Option Str} {f g : Str} {es : List LineEntry} :
    matchFile filter (some f) es = some g ↔
      g = f ∧ ∀ e ∈ es, LineTable.fileMatches e.file filter = true → e.file = f := by
  induction es with
  | nil =>
      simp only [matchFile, Option.some.injEq, List.not_mem_nil, false_implies, implies_true,
        and_true]
      exact eq_comm
  | cons e es ih =>
      rw [matchFile]
      by_cases hm : LineTable.fileMatches e.file filter = false
      · rw [if_pos hm, ih]
        simp [hm]
      · by_cases hf : f = e.file
        · rw [if_neg hm, if_neg (not_not.mpr hf), ih]
          simp [hf]
        · have hne : ¬ e.file = f := fun h => hf h.symm
          rw [if_neg hm, if_pos hf]
          simp [hm, hne]

lemma matchFile_none {filter : Option Str} {g : Str} {ln : LineTable} :
    matchFile filter none ln.entries = some g ↔ ln.OnlyFile filter g := by
  rw [LineTable.OnlyFile]
  induction ln.entries with
  | nil => simp [matchFile]
  | cons e es ih =>
      rw [matchFile]
      by_cases hm : LineTable.fileMatches e.file filter = false
      · rw [if_pos hm, ih]
        simp [hm]
      · rw [if_neg hm, matchFile_some]
        simp only [Bool.not_eq_false] at hm
        constructor
        · rintro ⟨rfl, hall⟩
          refine ⟨⟨e, List.mem_cons_self, hm, rfl⟩, fun e' he' hm' => ?_⟩
          rcases List.mem_cons.mp he' with rfl | he'
          · rfl
          · exact hall e' he' hm'
        · rintro ⟨-, hall⟩
          have hfirst := hall e List.mem_cons_self hm
          exact ⟨hfirst.symm, fun e' he' hm' =>
            (hall e' (List.mem_cons_of_mem e he') hm').trans hfirst.symm⟩

/-! ### The commands -/

/-- The commands that take a line. -/
inductive LineCommand
  | break_
  | dis
  | list

/-- The line by which a place was found. -/
def Label.line : Label → Option (BitVec 32)
  | .row e => some e.line
  | .text _ => none

namespace LineCommand

/-- The text of a command's target, of which `list` drops the blanks around it. -/
def trimmed : LineCommand → Str → Str
  | list, t => trimSpace t
  | _, t => t

/-- The file of a target. -/
def fileText : LineCommand → Str → Str
  | list, f => f.dropWhile isspace
  | _, f => f

lemma trimmed_file (cmd : LineCommand) (hN : DecimalText N) (f : Str) :
    cmd.trimmed (f ++ ':' :: N) = cmd.fileText f ++ ':' :: N := by
  cases cmd with
  | list => exact hN.trimSpace_file f
  | _ => rfl

end LineCommand

namespace Dbg

/-- The line a command uses: the one by which it found the place, or around which it prints. -/
def lineUsed (d : Dbg) (src : Sources) : LineCommand → Str → Option (BitVec 32)
  | .break_, target => (d.breakPlace target).bind fun place => place.2.line
  | .dis, target => (d.resolveDisTarget target).bind fun place => place.2.line
  | .list, target => (d.listWindow src target).map Window.target

/-- There is nothing to be found under a line: no row of it in the file, or none in only one
file; or, for a window, no one file or no source. -/
def NoLine (d : Dbg) (src : Sources) : LineCommand → Option Str → BitVec 32 → Prop
  | .list, file, _ => ∀ f, d.lineno.OnlyFile file f → src.openSource f = none
  | _, some f, line => ∀ e ∈ d.lineno.entries, e.line = line →
      LineTable.fileMatches e.file (some f) = false
  | _, none, line => d.lineno.Ambiguous line

/-- What a command does with a line. -/
def useLine (d : Dbg) (src : Sources) (cmd : LineCommand) (file : Option Str) (line : BitVec 32) :
    Option (BitVec 32) :=
  match cmd with
  | .list => (d.lineno.printSourceAtLine src file line).map Window.target
  | _ => (d.resolveLine file line).bind fun place => place.2.line

variable {d : Dbg} {src : Sources} {line : BitVec 32}

/-- A place is found by the line asked for, if there is one in the table. -/
lemma resolveLine_cases (d : Dbg) (src : Sources) {file : Option Str} (hfile : file ≠ some [])
    (line : BitVec 32) :
    (d.resolveLine file line = none ∧ d.NoLine src .dis file line) ∨
      ∃ e, d.resolveLine file line = some (d.lineno.runtimeAddr e.address, .row e) ∧
        e.line = line ∧ ¬ d.NoLine src .dis file line := by
  rcases file with _ | _ | ⟨c, f⟩
  · have hlook := LineTable.lookupLineUnique_eq d.lineno line
    -- without a file the line has to be that of one file
    by_cases hamb : d.lineno.Ambiguous line
    · rw [if_pos hamb] at hlook
      exact .inl ⟨by simp [resolveLine, hlook], hamb⟩
    · rw [if_neg hamb] at hlook
      have hex : ∃ e ∈ d.lineno.entries, e.line = line := by
        by_contra hno
        push Not at hno
        exact hamb fun e he hl => absurd hl (hno e he)
      cases hmin : (d.lineno.entries.filter fun e => e.line = line).argmin
          (fun e => e.address.toNat) with
      | none =>
          obtain ⟨e, he, hl⟩ := hex
          have hnil := List.argmin_eq_none.mp hmin
          exact absurd (List.mem_filter.mpr ⟨he, decide_eq_true hl⟩) (hnil ▸ List.not_mem_nil)
      | some e =>
          have hmem := List.mem_filter.mp (List.argmin_mem hmin)
          exact .inr ⟨e, by simp [resolveLine, hlook, hmin], of_decide_eq_true hmem.2, hamb⟩
  · exact absurd rfl hfile
  -- with a file the rows whose path contains it count
  · have hlook := LineTable.lookupLine_eq d.lineno (some (c :: f)) line
    cases hmin : (d.lineno.entries.filter fun e =>
        e.line = line ∧ LineTable.fileMatches e.file (some (c :: f))).argmin
          (fun e => e.address.toNat) with
    | none =>
        refine .inl ⟨by simp only [resolveLine, hlook, hmin, Option.map_none], fun e he hl => ?_⟩
        have hnot := List.filter_eq_nil_iff.mp (List.argmin_eq_none.mp hmin) e he
        rw [decide_eq_true_eq] at hnot
        exact Bool.eq_false_iff.mpr fun hm => hnot ⟨hl, hm⟩
    | some e =>
        have hmem := List.mem_filter.mp (List.argmin_mem hmin)
        obtain ⟨hl, hm⟩ := of_decide_eq_true hmem.2
        refine .inr ⟨e, by simp only [resolveLine, hlook, hmin, Option.map_some], hl, fun hno => ?_⟩
        rw [hno e hmem.1 hl] at hm
        exact absurd hm (by decide)

lemma printSourceWindow_of_open {f : Str} {lines : List Str} (h : src.openSource f = some lines)
    (line total : BitVec 32) :
    ∃ rows, printSourceWindow src f line total = some ⟨f, line, rows⟩ := by
  rw [printSourceWindow, h]
  exact ⟨_, rfl⟩

/-- A window is about the line asked for, if it is printed. -/
lemma printSourceAtLine_cases (d : Dbg) (src : Sources) (file : Option Str) (line : BitVec 32) :
    (d.lineno.printSourceAtLine src file line = none ∧ d.NoLine src .list file line) ∨
      ∃ w, d.lineno.printSourceAtLine src file line = some w ∧ w.target = line ∧
        ¬ d.NoLine src .list file line := by
  rw [LineTable.printSourceAtLine]
  cases hmatch : matchFile file none d.lineno.entries with
  | none =>
      refine .inl ⟨rfl, fun f hf => ?_⟩
      rw [matchFile_none.mpr hf] at hmatch
      cases hmatch
  | some f =>
      have hf := matchFile_none.mp hmatch
      cases hopen : src.openSource f with
      | none =>
          refine .inl ⟨by simp [printSourceWindow, hopen], fun g hg => ?_⟩
          rw [matchFile_none.mpr hg, Option.some.injEq] at hmatch
          rw [hmatch, hopen]
      | some lines =>
          obtain ⟨rows, hrows⟩ := printSourceWindow_of_open hopen line listSourceLines
          refine .inr ⟨_, hrows, rfl, fun hno => ?_⟩
          rw [hno f hf] at hopen
          cases hopen

/-- A command uses the line it looks for, unless there is nothing to be found under it. -/
lemma useLine_cases (d : Dbg) (src : Sources) (cmd : LineCommand) {file : Option Str}
    (hfile : file ≠ some []) (line : BitVec 32) :
    (d.useLine src cmd file line = none ∧ d.NoLine src cmd file line) ∨
      d.useLine src cmd file line = some line ∧ ¬ d.NoLine src cmd file line := by
  cases cmd with
  | list =>
      rcases d.printSourceAtLine_cases src file line with ⟨h, hno⟩ | ⟨w, h, hw, hno⟩
      · exact .inl ⟨by rw [useLine, h, Option.map_none], hno⟩
      · exact .inr ⟨by rw [useLine, h, Option.map_some, hw], hno⟩
  | _ =>
      rcases d.resolveLine_cases src hfile line with ⟨h, hno⟩ | ⟨e, h, he, hno⟩
      · refine .inl ⟨by rw [useLine, h, Option.bind_none]; nofun, ?_⟩
        cases file <;> exact hno
      · refine .inr ⟨?_, ?_⟩
        · rw [useLine, h, Option.bind_some, Label.line, he]
          nofun
        · cases file <;> exact hno

lemma resolveBreakLine_eq (d : Dbg) (file : Option Str) (line : BitVec 32) :
    d.resolveBreakLine file line = (d.resolveLine file line).map Prod.fst := by
  rcases file with _ | _ | ⟨c, f⟩ <;> simp [resolveBreakLine, resolveLine, Function.comp_def]

/-- An argument that names no file is a number or a symbol. -/
lemma resolveBreakNumber_eq (d : Dbg) (target : Str) :
    (match parseU64 target with
      | some parsed =>
          if "0x".toList.isPrefixOf target ∨ "0X".toList.isPrefixOf target then some parsed
          else match d.resolveBreakLine none (parsed.setWidth 32) with
            | some addr => some addr
            | none => some parsed
      | none => d.resolveBreakSymbol target) =
    (match parseU64 target with
      | some parsed =>
          if "0x".toList.isPrefixOf target ∨ "0X".toList.isPrefixOf target then
            some (parsed, Label.text target)
          else match d.resolveLine none (parsed.setWidth 32) with
            | some place => some place
            | none => some (parsed, .text target)
      | none => (d.resolveBreakSymbol target).map fun addr => (addr, .text target)).map
          Prod.fst := by
  cases parseU64 target with
  | none => cases d.resolveBreakSymbol target <;> rfl
  | some parsed =>
      simp only [resolveBreakLine_eq]
      split
      · rfl
      · cases d.resolveLine none (parsed.setWidth 32) <;> rfl

/-- The address of the place is where `break` plants its breakpoint. -/
lemma resolveBreakTarget_eq (d : Dbg) (target : Str) :
    d.resolveBreakTarget target = (d.breakPlace target).map Prod.fst := by
  rw [resolveBreakTarget, breakPlace, fileAndLine]
  rcases hcolon : strrchr target ':' with _ | ⟨file, _ | ⟨c, line⟩⟩
  · exact d.resolveBreakNumber_eq target
  · exact d.resolveBreakNumber_eq target
  · by_cases hbad : file = [] ∨ linenoMaxFile ≤ file.length
    · simp only [if_pos hbad, Option.map_none]
    · simp only [if_neg hbad]
      cases hparse : parseU64 (c :: line) with
      | none => rfl
      | some v =>
          by_cases hv : v = 0
          · simp only [if_pos hv, Option.map_none]
          · simp only [if_neg hv, resolveBreakLine_eq]

/-! ### What the commands do with digits -/

/-- With a colon in its target a command looks for the line after it. -/
lemma lineUsed_of_file (d : Dbg) (src : Sources) (cmd : LineCommand) {target : Str}
    {r : Option (Str × BitVec 32)} (h : fileAndLine (cmd.trimmed target) = some r) :
    d.lineUsed src cmd target = r.bind fun p => d.useLine src cmd (some p.1) p.2 := by
  cases cmd <;> simp only [LineCommand.trimmed] at h <;> cases r <;>
    simp [lineUsed, breakPlace, resolveDisTarget, listWindow, h, useLine]

/-- Without one it looks for the number of its target. -/
lemma lineUsed_of_number (d : Dbg) (src : Sources) (cmd : LineCommand) (hN : DecimalText N)
    {v : BitVec 64} (h : parseU64 N = some v) (hv : v ≠ 0) :
    d.lineUsed src cmd N = d.useLine src cmd none (v.setWidth 32) := by
  have hfile := fileAndLine_none hN
  have hhex := not_hexPrefix hN
  cases cmd with
  | break_ =>
      rw [lineUsed, breakPlace, hfile]
      simp only [h, if_neg hhex, useLine]
      cases hres : d.resolveLine none (v.setWidth 32) <;> simp [Label.line]
  | dis =>
      rw [lineUsed, resolveDisTarget, hfile]
      simp only [h, if_neg hv, useLine]
  | list =>
      rw [lineUsed, listWindow, hN.trimSpace, hfile]
      simp only [h, if_neg hv, useLine]

/-- The line of the function whose name the digits are, which `list` shows. -/
def NamesLine (d : Dbg) (src : Sources) (N : Str) (line : BitVec 32) : Prop :=
  ∃ sym file, d.syms.lookupName N = some sym ∧ sym.isDefined = true ∧
    d.lineno.lineAtPc (d.syms.runtimeAddr sym.address) = some (file, line) ∧
    ¬ d.NoLine src .list (some (truncate linenoMaxFile file)) line

/-- Digits that are no number are taken for a name. -/
lemma mem_lineUsed_of_name (d : Dbg) (src : Sources) (cmd : LineCommand) (hN : DecimalText N)
    (h : parseU64 N = none) {line : BitVec 32} :
    d.lineUsed src cmd N = some line ↔ cmd = .list ∧ d.NamesLine src N line := by
  have hfile := fileAndLine_none hN
  cases cmd with
  | break_ =>
      simp only [lineUsed, breakPlace, hfile, h, reduceCtorEq, false_and, iff_false]
      cases d.resolveBreakSymbol N <;> simp [Label.line]
  | dis =>
      simp only [lineUsed, resolveDisTarget, hfile, h, reduceCtorEq, false_and, iff_false]
      cases hsym : d.syms.lookupName N with
      | none => simp
      | some sym => cases hdef : sym.isDefined <;> simp [Label.line, hdef]
  | list =>
      simp only [lineUsed, listWindow, hN.trimSpace, hfile, h, true_and, NamesLine]
      cases hsym : d.syms.lookupName N with
      | none => simp
      | some sym =>
          cases hdef : sym.isDefined with
          | false => simp [hdef]
          | true =>
              cases hline : d.lineno.lineAtPc (d.syms.runtimeAddr sym.address) with
              | none => simp [hdef, hline]
              | some p =>
                  obtain ⟨file, l⟩ := p
                  rcases d.printSourceAtLine_cases src
                    (some (truncate linenoMaxFile file)) l with ⟨hw, hno⟩ | ⟨w, hw, rfl, hno⟩
                  · simp only [hdef, Bool.true_eq_false, if_false, hline, hw, Option.map_none,
                      reduceCtorEq, Option.some.injEq, exists_and_left, exists_eq_left',
                      Prod.mk.injEq, existsAndEq, true_and, false_iff, not_and, not_not]
                    rintro rfl
                    exact hno
                  · simp only [hdef, Bool.true_eq_false, if_false, hline, hw, Option.map_some,
                      Option.some.injEq, exists_and_left, exists_eq_left', Prod.mk.injEq,
                      existsAndEq, true_and, iff_self_and]
                    rintro rfl
                    exact hno

/-- A line number is taken at its word: the line a command uses is the number written, and a
number that is no line is refused as one. -/
structure MeansLine (d : Dbg) (src : Sources) (cmd : LineCommand) (file : Option Str) (N : Str) :
    Prop where
  used : ∀ line, d.lineUsed src cmd (lineTarget file N) = some line → line.toNat = numeral 10 N
  refused : 2 ^ 32 ≤ numeral 10 N → d.lineUsed src cmd (lineTarget file N) = none

/-- There is nothing to be found under the number that the digits are read as. Where they are
read as none, `list` shows no function of that name, or shows the very line. -/
def Spared (d : Dbg) (src : Sources) (cmd : LineCommand) (file : Option Str) (N : Str) : Prop :=
  match file with
  | some f => BadFile (cmd.fileText f) ∨
      ∀ v, parseU64 N = some v → d.NoLine src cmd (some (cmd.fileText f)) (v.setWidth 32)
  | none => (∀ v, parseU64 N = some v → d.NoLine src cmd none (v.setWidth 32)) ∧
      (cmd = .list → parseU64 N = none →
        ∀ line, d.NamesLine src N line → line.toNat = numeral 10 N)

lemma meansLine_of_used {cmd : LineCommand} {file : Option Str}
    (h : ∀ line, d.lineUsed src cmd (lineTarget file N) = some line →
      line.toNat = numeral 10 N) : d.MeansLine src cmd file N := by
  refine ⟨h, fun hbig => ?_⟩
  cases hline : d.lineUsed src cmd (lineTarget file N) with
  | none => rfl
  | some line =>
      have hval := h line hline
      have hlt := line.isLt
      omega

/-- A line in a file, if there is one in it under the number read. -/
lemma mem_lineUsed_file {cmd : LineCommand} {f : Str} (hN : DecimalText N)
    (hpos : 1 ≤ numeral 10 N) {line : BitVec 32} :
    d.lineUsed src cmd (f ++ ':' :: N) = some line ↔ ¬ BadFile (cmd.fileText f) ∧
      ∃ v, parseU64 N = some v ∧ line = v.setWidth 32 ∧
        ¬ d.NoLine src cmd (some (cmd.fileText f)) line := by
  have htarget := fileAndLine_file hN (cmd.fileText f)
  rw [← cmd.trimmed_file hN] at htarget
  rw [d.lineUsed_of_file src cmd htarget]
  by_cases hbad : BadFile (cmd.fileText f)
  · simp [hbad]
  · rw [if_neg hbad]
    cases hparse : parseU64 N with
    | none => simp
    | some v =>
        have hv := parseU64_ne_zero hN hpos hparse
        have hfile : some (cmd.fileText f) ≠ some [] := fun h =>
          hbad (.inl (Option.some.inj h))
        rw [Option.bind_some, if_neg hv, Option.bind_some]
        rcases d.useLine_cases src cmd hfile (v.setWidth 32) with ⟨huse, hno⟩ | ⟨huse, hno⟩
        · rw [huse]
          refine ⟨nofun, ?_⟩
          rintro ⟨-, v', hv', rfl, hline⟩
          obtain rfl := Option.some.inj hv'
          exact absurd hno hline
        · rw [huse, Option.some.injEq]
          constructor
          · rintro rfl
            exact ⟨hbad, v, rfl, rfl, hno⟩
          · rintro ⟨-, v', hv', rfl, -⟩
            obtain rfl := Option.some.inj hv'
            rfl

/-- A line without a file, if there is one under the number read, or under the name. -/
lemma mem_lineUsed_none {cmd : LineCommand} (hN : DecimalText N) (hpos : 1 ≤ numeral 10 N)
    {line : BitVec 32} : d.lineUsed src cmd N = some line ↔
      (∃ v, parseU64 N = some v ∧ line = v.setWidth 32 ∧ ¬ d.NoLine src cmd none line) ∨
        parseU64 N = none ∧ cmd = .list ∧ d.NamesLine src N line := by
  cases hparse : parseU64 N with
  | none => simp [d.mem_lineUsed_of_name src cmd hN hparse]
  | some v =>
      rw [d.lineUsed_of_number src cmd hN hparse (parseU64_ne_zero hN hpos hparse)]
      simp only [Option.some.injEq, reduceCtorEq, false_and, or_false, exists_eq_left']
      have hnone : (none : Option Str) ≠ some [] := nofun
      rcases d.useLine_cases src cmd hnone (v.setWidth 32) with ⟨huse, hno⟩ | ⟨huse, hno⟩
      · rw [huse]
        refine ⟨nofun, ?_⟩
        rintro ⟨rfl, hline⟩
        exact absurd hno hline
      · rw [huse, Option.some.injEq]
        constructor
        · rintro rfl
          exact ⟨rfl, hno⟩
        · exact fun h => h.1.symm

/-- **Line numbers**: a text of decimal digits is taken at its word by `break`, `dis` and `list`,
with a file or without, exactly if it is plain or there is nothing to be found under the number
read instead. -/
theorem meansLine_iff (d : Dbg) (src : Sources) (cmd : LineCommand) (file : Option Str)
    (hN : DecimalText N) (hpos : 1 ≤ numeral 10 N) :
    d.MeansLine src cmd file N ↔ PlainLine N ∨ d.Spared src cmd file N := by
  constructor
  · intro h
    by_contra hnot
    obtain ⟨hplain, hspared⟩ := not_or.mp hnot
    -- a line that is found under the number read is the one written only if it is plain
    have hread : ∀ line v, d.lineUsed src cmd (lineTarget file N) = some line →
        parseU64 N = some v → line ≠ v.setWidth 32 := by
      rintro line v hused hparse rfl
      exact hplain ((lineRead_iff hN hparse).mp (h.used _ hused))
    cases file with
    | some f =>
        simp only [Spared, not_or] at hspared
        obtain ⟨hbad, hline⟩ := hspared
        push Not at hline
        obtain ⟨v, hparse, hno⟩ := hline
        exact hread _ v ((mem_lineUsed_file hN hpos).mpr ⟨hbad, v, hparse, rfl, hno⟩) hparse rfl
    | none =>
        refine hspared ⟨fun v hparse => ?_, fun hcmd hparse line hname => ?_⟩
        · by_contra hno
          exact hread _ v ((mem_lineUsed_none hN hpos).mpr (.inl ⟨v, hparse, rfl, hno⟩)) hparse rfl
        · exact h.used line ((mem_lineUsed_none hN hpos).mpr (.inr ⟨hparse, hcmd, hname⟩))
  · intro h
    refine meansLine_of_used fun line hused => ?_
    -- the number read is the one written, or nothing is found under it
    have hfound : ∀ f v, parseU64 N = some v → ¬ d.NoLine src cmd f (v.setWidth 32) →
        (d.Spared src cmd file N → d.NoLine src cmd f (v.setWidth 32)) →
        (v.setWidth 32).toNat = numeral 10 N := by
      intro f v hparse hno hsp
      rcases h with hplain | hspared
      · exact (lineRead_iff hN hparse).mpr hplain
      · exact absurd (hsp hspared) hno
    cases file with
    | some f =>
        obtain ⟨hbad, v, hparse, rfl, hno⟩ := (mem_lineUsed_file hN hpos).mp hused
        exact hfound _ v hparse hno fun hspared => hspared.resolve_left hbad v hparse
    | none =>
        rcases (mem_lineUsed_none hN hpos).mp hused with
          ⟨v, hparse, rfl, hno⟩ | ⟨hparse, hcmd, hname⟩
        · exact hfound _ v hparse hno fun hspared => hspared.1 v hparse
        · rcases h with hplain | hspared
          · exact absurd hparse (parseU64_of_plain hN hplain)
          · exact hspared.2 hcmd hparse line hname

/-- A file with lines 5 and 8, and its source. -/
def twoLines : Dbg :=
  { Dbg.init with
    lineno :=
      { entries := [⟨0x100, 5, 0, "/src/a.c".toList⟩, ⟨0x200, 8, 0, "/src/a.c".toList⟩]
        linkBase := 0
        slide := 0 } }

/-- A source of ten lines. -/
def tenLines : Sources := ⟨fun _ => some (List.replicate 10 "x".toList), [], []⟩

/-- The plain number 8 is understood. -/
theorem meansLine_eight : twoLines.MeansLine tenLines .list (some "a.c".toList) "8".toList :=
  (meansLine_iff twoLines tenLines .list (some "a.c".toList) (by decide) (by decide)).mpr
    (.inl (.inr ⟨by decide, by decide⟩))

/-- `break 4294967301` plants its breakpoint at line 5, and `list 010` shows line 8. -/
theorem meansLine_wrapped :
    DecimalText "4294967301".toList ∧ numeral 10 "4294967301".toList = 2 ^ 32 + 5 ∧
      twoLines.resolveBreakTarget "4294967301".toList = some 0x100 ∧
      ¬ twoLines.MeansLine tenLines .break_ none "4294967301".toList ∧
      ¬ twoLines.MeansLine tenLines .list none "010".toList := by
  refine ⟨by decide, by decide, by decide +kernel, fun h => ?_, fun h => ?_⟩
  · have hused : twoLines.lineUsed tenLines .break_ "4294967301".toList = some 5 := by
      decide +kernel
    exact absurd (h.used 5 hused) (by decide)
  · have hused : twoLines.lineUsed tenLines .list "010".toList = some 8 := by decide +kernel
    exact absurd (h.used 8 hused) (by decide)

end Dbg

end Cdbg
