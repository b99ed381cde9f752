import Cdbg.Laws.FunctionBreak
import Cdbg.Source.SymbolLoad

/-!
The symbols that are loaded, shown and looked up.

What `nm -n` prints for a list of symbols is read back entry by entry, a name up to its first
blank (`symsLoad_nm`). The symbol shown for a program counter is the function it lies in
(`lookupSymbolForPc_iff`). The name that is shown finds the symbol again if a single
underscore has been dropped, and not if the name began otherwise (`lookupName_shown_iff`).
-/

namespace Cdbg

open CString

/-- A symbol as `nm` knows it. -/
structure NmSymbol where
  address : Option Addr
  type : Char
  name : Str
  deriving DecidableEq

namespace NmSymbol

/-- The line that `nm` prints for a symbol. -/
def text (s : NmSymbol) : Str :=
  (match s.address with
    | some a => padHex 16 a.toNat
    | none => List.replicate 16 ' ') ++ ' ' :: s.type :: ' ' :: s.name

/-- What `%255s` reads of a name. -/
def shownName (s : NmSymbol) : Str := (s.name.takeWhile fun c => ! isspace c).take 255

/-- The entries that a symbol gives: none if it is of no interest. -/
def entries (s : NmSymbol) : List SymEntry :=
  pushSymbol [] (s.address.getD 0) s.type s.shownName

/-- A symbol whose line fits the buffer, with a name that begins with no blank, and, without
an address, with a type that is no hexadecimal digit. -/
structure Printable (s : NmSymbol) : Prop where
  type : isspace s.type = false
  undefined : s.address = none → 16 ≤ digitValue s.type ∧ s.type ≠ '-' ∧ s.type ≠ '+'
  name : ∃ c name, s.name = c :: name ∧ isspace c = false
  fits : s.name.length ≤ 491

end NmSymbol

/-! ### What `nm` prints -/

lemma pushSymbol_eq (entries : List SymEntry) (addr : Addr) (type : Char) (name : Str) :
    pushSymbol entries addr type name = entries ++ pushSymbol [] addr type name := by
  rw [pushSymbol, pushSymbol]
  split
  · rfl
  · rw [List.append_nil]

namespace NmSymbol

variable {s : NmSymbol}

/-- The type and the name are read. -/
lemma scanUnaddressed_text (h : s.Printable) :
    ∃ rest, scanUnaddressed (s.type :: ' ' :: ended s.name) =
      some ((s.type, s.shownName), rest) := by
  obtain ⟨c, name, hname, hc⟩ := h.name
  have hended : ended s.name = c :: ended name := by rw [hname]; rfl
  have hblank : Directive.blanks (' ' :: ended s.name) = some ((), ended s.name) := by
    rw [hended]
    exact Directive.blanks_append (t := [' ']) (by simp [isspace]) hc _
  obtain ⟨rest, hword⟩ := Directive.word_cons hc 254 (ended name)
  rw [← hended, Directive.takeWhile_ended] at hword
  exact ⟨rest, by simp [scanUnaddressed, Directive.char, hblank, hword, shownName]⟩

/-- The address, the type and the name are read. -/
lemma scanAddressed_text (h : s.Printable) (a : Addr) :
    ∃ rest, scanAddressed (padHex 16 a.toNat ++ ' ' :: s.type :: ' ' :: ended s.name) =
      some ((a, s.type, s.shownName), rest) := by
  have hhex := Directive.reads_hex (by decide : 2 ≤ 16) a (' ' :: s.type :: ' ' :: ended s.name)
    (Directive.atSpace_cons (by decide) _)
  have hblank : Directive.blanks (' ' :: s.type :: ' ' :: ended s.name) =
      some ((), s.type :: ' ' :: ended s.name) :=
    Directive.blanks_append (t := [' ']) (by simp [isspace]) h.type _
  obtain ⟨rest, htail⟩ := scanUnaddressed_text h
  refine ⟨rest, ?_⟩
  have hsplit : scanAddressed = (do
      let addr ← Directive.hex
      Directive.blanks
      let r ← scanUnaddressed
      return (addr, r.1, r.2)) := by
    simp [scanAddressed, scanUnaddressed]
  rw [hsplit]
  simp [hhex, hblank, htail]

/-- A line gives the entries of its symbol. -/
lemma nmRound_text (h : s.Printable) (entries : List SymEntry) :
    nmRound entries (ended s.text) = entries ++ s.entries := by
  have hblank {c : Char} (hc : isspace c = false) : ¬ (c = ' ' ∨ c = '\t') := by
    rintro (rfl | rfl) <;> cases hc
  cases ha : s.address with
  -- the address comes first, and nothing is skipped
  | some a =>
      obtain ⟨c, ds, hcs, hc⟩ := padHex_eq_cons 16 a.toNat
      have hspace := (not_isspace_of_digitValue (c := c) (by omega)).1
      have hline : ended s.text = padHex 16 a.toNat ++ ' ' :: s.type :: ' ' :: ended s.name := by
        rw [ended, text, ha, ended]
        simp
      have hdrop : (ended s.text).dropWhile (fun c => c = ' ' || c = '\t') = ended s.text := by
        rw [hline, hcs, List.cons_append, List.dropWhile_cons_of_neg]
        simpa using hblank hspace
      obtain ⟨rest, hscan⟩ := scanAddressed_text h a
      rw [nmRound, hdrop, if_neg, hline, hscan]
      · rw [NmSymbol.entries, ha]
        exact pushSymbol_eq _ _ _ _
      · rw [hline, hcs, List.cons_append]
        rintro (hnil | hhead)
        · cases hnil
        · rw [Option.some.inj hhead] at hspace
          cases hspace
  -- the blanks in place of the address are skipped, and the type is no hexadecimal digit
  | none =>
      obtain ⟨hdigit, hminus, hplus⟩ := h.undefined ha
      have hline : ended s.text =
          List.replicate 17 ' ' ++ s.type :: ' ' :: ended s.name := by
        rw [ended, text, ha, ended]
        rfl
      have hdrop : (ended s.text).dropWhile (fun c => c = ' ' || c = '\t') =
          s.type :: ' ' :: ended s.name := by
        rw [hline, List.dropWhile_append_of_pos (by simp), List.dropWhile_cons_of_neg]
        simpa using hblank h.type
      have hno : scanAddressed (s.type :: ' ' :: ended s.name) = none := by
        have hhex : Directive.hex (s.type :: ' ' :: ended s.name) = none := by
          have hx : hexPrefixed (s.type :: ' ' :: ended s.name) = none := by
            refine hexPrefixed_eq_none (fun h0 => ?_) _
            rw [h0] at hdigit
            exact absurd hdigit (by decide)
          simp [Directive.hex, strtoull, scanNumber, h.type, hminus, hplus, baseOf, hx,
            not_lt.mpr hdigit]
        simp [scanAddressed, hhex]
      obtain ⟨rest, hscan⟩ := scanUnaddressed_text h
      rw [nmRound, hdrop, if_neg, hno, hscan]
      · rw [NmSymbol.entries, ha]
        exact pushSymbol_eq _ _ _ _
      · rintro (hnil | hhead)
        · cases hnil
        · have htype := h.type
          rw [Option.some.inj hhead] at htype
          cases htype

/-- The length of a line. -/
lemma length_text (h : s.Printable) : s.text.length + 1 < 512 := by
  have hname := h.fits
  have hhex (a : Addr) : (padHex 16 a.toNat).length = 16 := length_padHex (by decide) a.isLt
  rw [text]
  cases s.address with
  | some a =>
      simp only [List.length_append, hhex, List.length_cons]
      omega
  | none =>
      simp only [List.length_append, List.length_replicate, List.length_cons]
      omega

end NmSymbol

/-- What `nm` prints gives the entries of its symbols, in their order. -/
lemma symsLoadFromNm_text {syms : List NmSymbol} (h : ∀ s ∈ syms, s.Printable)
    (entries : List SymEntry) (ok : Bool) :
    symsLoadFromNm entries (some ⟨syms.map NmSymbol.text, ok⟩) =
      (entries ++ syms.flatMap NmSymbol.entries,
        ok && ! (entries ++ syms.flatMap NmSymbol.entries).isEmpty) := by
  have hlines : fgetsAll 512 (syms.map NmSymbol.text) = (syms.map NmSymbol.text).map ended := by
    refine fgetsAll_of_short fun l hl => ?_
    obtain ⟨s, hs, rfl⟩ := List.mem_map.mp hl
    exact NmSymbol.length_text (h s hs)
  have hfold (entries : List SymEntry) :
      ((syms.map NmSymbol.text).map ended).foldl nmRound entries =
        entries ++ syms.flatMap NmSymbol.entries := by
    clear hlines
    induction syms generalizing entries with
    | nil => simp
    | cons s syms ih =>
        rw [List.map_cons, List.map_cons, List.foldl_cons,
          NmSymbol.nmRound_text (h s List.mem_cons_self),
          ih (fun t ht => h t (List.mem_cons_of_mem s ht)), List.flatMap_cons, List.append_assoc]
  rw [symsLoadFromNm, hlines]
  dsimp only
  rw [hfold]

/-- **Symbols are loaded as `nm` prints them**: one entry for each symbol of interest, in order,
with its address, its type and its name up to the first blank and as far as it fits. -/
theorem symsLoad_nm {syms : List NmSymbol} (h : ∀ s ∈ syms, s.Printable)
    (hne : syms.flatMap NmSymbol.entries ≠ []) (image : Option MachImage)
    (dsym : Option SymObject) :
    symsLoad ⟨some ⟨syms.map NmSymbol.text, true⟩, image⟩ dsym =
      some ⟨syms.flatMap NmSymbol.entries, (image.map fun m => m.machoTextVmaddr.value).getD 0,
        0⟩ := by
  have hload := symsLoadFromNm_text h [] true
  rw [List.nil_append] at hload
  have hsome : loadFromObjects [] (⟨some ⟨syms.map NmSymbol.text, true⟩, image⟩ :: dsym.toList) =
      some (syms.flatMap NmSymbol.entries) := by
    rw [loadFromObjects, hload]
    exact if_pos (by simpa using hne)
  rw [symsLoad, hsome]
  rfl

/-- A function, a method whose name has a blank in it, an imported function and a label of
the compiler. -/
theorem symsLoad_nm_sample :
    symsLoad ⟨some ⟨[⟨some 0x100003F00, 'T', "_main".toList⟩,
        ⟨some 0x100003F40, 't', "-[Foo bar]".toList⟩, ⟨none, 'U', "_printf".toList⟩,
        ⟨some 0x100003F50, 't', "Ltmp0".toList⟩].map NmSymbol.text, true⟩, none⟩ none =
      some ⟨[⟨0x100003F00, 'T', "_main".toList⟩, ⟨0x100003F40, 't', "-[Foo".toList⟩,
        ⟨0, 'U', "_printf".toList⟩], 0, 0⟩ := by
  refine (symsLoad_nm ?_ (by decide) none none).trans (by decide)
  intro s hs
  rcases List.mem_cons.mp hs with rfl | hs
  · exact ⟨by decide, nofun, ⟨_, _, rfl, by decide⟩, by decide⟩
  rcases List.mem_cons.mp hs with rfl | hs
  · exact ⟨by decide, nofun, ⟨_, _, rfl, by decide⟩, by decide⟩
  rcases List.mem_cons.mp hs with rfl | hs
  · exact ⟨by decide, fun _ => by decide, ⟨_, _, rfl, by decide⟩, by decide⟩
  · obtain rfl := List.mem_singleton.mp hs
    exact ⟨by decide, nofun, ⟨_, _, rfl, by decide⟩, by decide⟩

/-! ### Symbols for a program counter -/

namespace SymTable

variable {syms : SymTable} {pc : Addr} {e : SymEntry}

lemma runtimeAddr_inj {a b : Addr} : syms.runtimeAddr a = syms.runtimeAddr b ↔ a = b := by
  simp [runtimeAddr]

lemma isText_iff {e : SymEntry} :
    e.isText = true ↔ ¬ (e.address = 0 ∨ e.type ≠ 'T' ∧ e.type ≠ 't') := by
  rw [SymEntry.isText, SymEntry.isDefined]
  by_cases hT : e.type = 'T'
  · simp [hT]
  · by_cases ht : e.type = 't'
    · simp [ht]
    · simp [hT, ht]

/-- The search keeps the first text symbol of highest address at or below the program
counter. -/
lemma symbolForPc_eq (syms : SymTable) (pc : Addr) :
    syms.entries.foldl (syms.symbolForPcStep pc) none =
      (syms.entries.filter fun e => e.isText = true ∧ syms.runtimeAddr e.address ≤ pc).argmax
        fun e => (syms.runtimeAddr e.address).toNat := by
  rw [← List.foldl_max_eq_argmax]
  congr 1
  funext best e
  unfold symbolForPcStep
  by_cases htext : e.isText = true
  · rw [if_neg (isText_iff.mp htext)]
    cases best <;> simp [htext, BitVec.lt_def]
  · rw [if_pos (not_not.mp (mt isText_iff.mpr htext)), if_neg fun h => htext h.1]

/-- The search finds the symbol of the function that a program counter lies in. -/
lemma symbolForPc_iff :
    syms.entries.foldl (syms.symbolForPcStep pc) none = some e ↔
      syms.InFunction e pc ∧
        syms.entries.find? (fun s => s.isText = true ∧ s.address = e.address) = some e := by
  have hkey (s : SymEntry) : (syms.runtimeAddr s.address).toNat = (syms.runtimeAddr e.address).toNat
      ↔ s.address = e.address := by
    rw [← BitVec.toNat_eq, runtimeAddr_inj]
  -- among the symbols at or below `pc`, those of one address are found in the same order
  have hat (hle : syms.runtimeAddr e.address ≤ pc) :
      (syms.entries.filter fun s => s.isText = true ∧ syms.runtimeAddr s.address ≤ pc).find?
          (fun s => (syms.runtimeAddr s.address).toNat = (syms.runtimeAddr e.address).toNat) =
        syms.entries.find? (fun s => s.isText = true ∧ s.address = e.address) := by
    rw [List.find?_filter]
    congr 1
    funext s
    have hs : s.address = e.address → syms.runtimeAddr s.address ≤ pc := fun h => h ▸ hle
    simp only [hkey]
    by_cases haddr : s.address = e.address
    · simp [haddr, hle]
    · simp [haddr]
  rw [symbolForPc_eq]
  constructor
  · intro h
    obtain ⟨-, he⟩ := List.mem_filter.mp (List.argmax_mem h)
    obtain ⟨-, hle⟩ := of_decide_eq_true he
    refine ⟨⟨hle, fun s hs htext hlt => ?_⟩, ?_⟩
    · by_contra hpc
      have hmem : s ∈ syms.entries.filter
          fun s => s.isText = true ∧ syms.runtimeAddr s.address ≤ pc :=
        List.mem_filter.mpr ⟨hs, decide_eq_true ⟨htext, BitVec.not_lt.mp hpc⟩⟩
      have hmax := List.le_of_mem_argmax
        (f := fun s : SymEntry => (syms.runtimeAddr s.address).toNat) hmem h
      exact absurd (BitVec.lt_def.mp hlt) (not_lt.mpr hmax)
    · rw [← hat hle]
      exact List.find?_of_mem_argmax h
  · rintro ⟨⟨hle, hnext⟩, hfirst⟩
    refine List.mem_argmax_of_find? (fun s hs => ?_) ((hat hle).trans hfirst)
    obtain ⟨hmem, hs⟩ := List.mem_filter.mp hs
    obtain ⟨htext, hsle⟩ := of_decide_eq_true hs
    by_contra hlt
    exact absurd hsle (BitVec.not_le.mpr (hnext s hmem htext (BitVec.lt_def.mpr (not_le.mp hlt))))

/-- **The symbol of a frame is the function its program counter lies in**, the first of that
address, as long as it is not too far above the start. -/
theorem lookupSymbolForPc_iff {offset : Addr} :
    syms.lookupSymbolForPc pc = some (e, offset) ↔
      syms.InFunction e pc ∧
        syms.entries.find? (fun s => s.isText = true ∧ s.address = e.address) = some e ∧
        offset = pc - syms.runtimeAddr e.address ∧ offset ≤ maxSymbolOffset := by
  rw [← and_assoc, ← symbolForPc_iff, lookupSymbolForPc]
  cases syms.entries.foldl (syms.symbolForPcStep pc) none with
  | none => simp
  | some best =>
      dsimp only
      split
      next hfar =>
        simp only [reduceCtorEq, Option.some.injEq, false_iff, not_and]
        rintro rfl rfl
        exact BitVec.not_le.mpr hfar
      next hnear =>
        simp only [Option.some.injEq, Prod.mk.injEq]
        constructor
        · rintro ⟨rfl, rfl⟩
          exact ⟨rfl, rfl, BitVec.not_lt.mp hnear⟩
        · rintro ⟨rfl, rfl, -⟩
          exact ⟨rfl, rfl⟩

/-! ### Names -/

/-- **The name shown finds the symbol again** exactly if one underscore has been dropped from
it, or if it is just an underscore. -/
theorem lookupName_shown_iff (he : e ∈ syms.entries)
    (honly : ∀ s ∈ syms.entries, s.name = e.name → s = e) (hfits : e.name.length < symMaxName) :
    syms.lookupName (displaySymName (some e)) = some e ↔
      e.name = ['_'] ∨ ∃ c name, e.name = '_' :: c :: name ∧ c ≠ '_' := by
  -- the search finds the entry if it looks for its name
  have hfind (lookup : Str) :
      syms.entries.find? (fun s => s.name = lookup) = some e ↔ e.name = lookup := by
    constructor
    · intro h
      simpa using List.find?_some h
    · rintro rfl
      cases hf : syms.entries.find? (fun s => s.name = e.name) with
      | none => exact absurd (List.find?_eq_none.mp hf e he) (by simp)
      | some s =>
          rw [honly s (List.mem_of_find?_eq_some hf) (by simpa using List.find?_some hf)]
  rw [lookupName, displaySymName, hfind]
  rcases hname : e.name with _ | ⟨a, _ | ⟨c, name⟩⟩
  · simp [truncate, symMaxName]
  · by_cases ha : a = '_'
    · subst ha
      simp
    · simp [ha, truncate, symMaxName]
  · rw [hname] at hfits
    by_cases ha : a = '_'
    · subst ha
      by_cases hc : c = '_'
      · subst hc
        simp
      · have htrunc : truncate symMaxName ('_' :: c :: name) = '_' :: c :: name :=
          List.take_of_length_le (by simp [symMaxName] at hfits ⊢; omega)
        simp [hc, htrunc]
    · simp [ha, truncate, symMaxName]

/-- `main` is found again, the header of the executable is not. -/
theorem lookupName_shown_main :
    let main : SymEntry := ⟨0x100003F00, 'T', "_main".toList⟩
    let header : SymEntry := ⟨0x100000000, 'T', "__mh_execute_header".toList⟩
    let syms : SymTable := ⟨[header, main], 0x100000000, 0⟩
    syms.lookupName (displaySymName (some main)) = some main ∧
      syms.lookupName (displaySymName (some header)) ≠ some header := by
  constructor
  · exact (lookupName_shown_iff (by decide) (by decide) (by decide)).mpr
      (.inr ⟨_, _, rfl, by decide⟩)
  · refine mt (lookupName_shown_iff (by decide) (by decide) (by decide)).mp ?_
    rintro (h | ⟨c, name, h, hc⟩)
    · exact absurd h (by decide)
    · cases h
      exact hc rfl

/-- **A symbol found by a name is listed under it**: `symbols` with that name prints its row. -/
theorem lookupName_listed {name : Str} (h : syms.lookupName name = some e)
    (hfits : name.length + 1 < symMaxName) :
    (if e.address = 0 then none else some (syms.runtimeAddr e.address), e.type, e.name) ∈
      syms.printList (some name) := by
  rw [lookupName] at h
  have hin := List.mem_of_find?_eq_some h
  have hname : e.name = name ∨ e.name = '_' :: name := by
    have hfound := List.find?_some h
    split at hfound
    · exact .inl (by simpa using hfound)
    · have htrunc : truncate symMaxName ('_' :: name) = '_' :: name :=
        List.take_of_length_le (by rw [List.length_cons]; omega)
      exact .inr (by simpa [htrunc] using hfound)
  have hpart : name <:+: e.name := by
    rcases hname with heq | heq
    · exact heq ▸ List.infix_rfl
    · exact heq ▸ (List.suffix_cons '_' name).isInfix
  have hmatch : symMatches e.name (some name) = true := by
    cases name with
    | nil => rfl
    | cons c name => simp [symMatches, hasSubstr_iff.mpr hpart]
  exact List.mem_map_of_mem (f := fun e : SymEntry =>
    (if e.address = 0 then none else some (syms.runtimeAddr e.address), e.type, e.name))
    (List.mem_filter.mpr ⟨hin, hmatch⟩)

end SymTable

end Cdbg
