import Cdbg.Dwarf.Local
import Cdbg.Dwarf.Scope
import Cdbg.Laws.DieLines

/-!
`find_local_var` on what `dwarfdump` prints.

The scanner keeps one range, that of the subprogram or block printed last. Where declarations
come before blocks this is the range of the block they belong to, and so the scanner finds the
first declaration of the name that is visible, in the order of the dump
(`findLocalVar_dump`): an outer one before those that shadow it. The address that is then
computed is that of the variable where the frame base is the frame pointer, but of a location
relative to `x29` only the number of the register is read (`resolveVariableAddress_dump`).
-/

namespace Cdbg

open CString

namespace VarScan

variable {pc : Addr} {name : Str} {s : VarScan} {rest : List Str}

/-! ### The lines of an item -/

/-- What an attribute says of a variable. -/
def fill (var : VarInfo) : Attr → VarInfo
  | .name n => { var with name := truncate 128 n }
  | .type _ t => { var with type := truncate 128 t }
  | .location p =>
      match p.read with
      | some (base, offset) => { var with base := base, fbregOffset := offset, hasLocation := true }
      | none => var
  | _ => var

/-- What an attribute does. -/
def read (pc : Addr) (s : VarScan) : Attr → VarScan
  | .lowPc a =>
      if s.inFunc = true then
        { s with funcLow := a, funcMatches := pcInRange pc a s.funcHigh } else s
  | .highPc a =>
      if s.inFunc = true then
        { s with funcHigh := a, funcMatches := pcInRange pc s.funcLow a } else s
  | a => if s.readingVar = true then { s with var := fill s.var a } else s

/-- A subprogram is left at an entry that is not below it. -/
def leave (depth : ℕ) (s : VarScan) : VarScan :=
  if s.inFunc = true ∧ 2 * depth + 1 ≤ s.funcDepth then
    { s with inFunc := false, funcMatches := false } else s

/-- What the tag of an entry does. -/
def enter (depth : ℕ) (s : VarScan) (h : DieHead) : VarScan :=
  if h.tag = .subprogram then
    { s with inFunc := true, funcMatches := false, funcDepth := 2 * depth + 1,
             funcLow := 0, funcHigh := 0 }
  else if (s.leave depth).inFunc = true ∧ (s.leave depth).funcMatches = true ∧
      h.isVariable = true then
    { s.leave depth with var := .zero, readingVar := true }
  else s.leave depth

/-- The variable read last is done with. -/
def forget (s : VarScan) : VarScan :=
  if s.readingVar = true then { s with var := .zero, readingVar := false } else s

/-- The variable read last, if it is the one that is looked for. -/
def found (name : Str) (s : VarScan) : Option VarInfo :=
  if s.readingVar = true ∧ s.var.ready name = true then some s.var else none

lemma run_cons (line : Str) (lines : List Str) :
    s.run pc name (line :: lines) =
      if dwarfStartsDie line = true then
        (s.found name).or ((s.forget.entry pc line).run pc name lines)
      else (s.attr pc line).run pc name lines := by
  rw [run, found, forget]
  split
  · split <;> rfl
  · rfl

lemma run_line {line : Str} (hl : dwarfStartsDie line = false) (s : VarScan) (rest : List Str) :
    s.run pc name (line :: rest) = (s.attr pc line).run pc name rest := by
  rw [run_cons, hl]
  rfl

lemma run_nil : s.run pc name [] = s.found name := by
  rw [run, found]

/-- A line without attributes. -/
lemma attr_quiet {line : Str}
    (h : ∀ w : Str, '\n' ∉ w → hasSubstr line ("DW_AT_".toList ++ w) = false) (s : VarScan) :
    s.attr pc line = s := by
  have hword {w : Str} {k : Str} (hw : w = "DW_AT_".toList ++ k) (hk : '\n' ∉ k) :
      hasSubstr line w = false := hw ▸ h k hk
  have hlow := hword (w := "DW_AT_low_pc".toList) (k := "low_pc".toList) (by decide) (by decide)
  have hhigh := hword (w := "DW_AT_high_pc".toList) (k := "high_pc".toList) (by decide) (by decide)
  have hloc := hword (w := "DW_AT_location".toList) (k := "location".toList) (by decide) (by decide)
  have hname := hword (w := "DW_AT_name".toList) (k := "name".toList) (by decide) (by decide)
  have htype := hword (w := "DW_AT_type".toList) (k := "type".toList) (by decide) (by decide)
  rw [attr, hlow, hhigh, hloc, hname, htype]
  simp

lemma attr_blank (s : VarScan) : s.attr pc (ended []) = s :=
  attr_quiet (fun w _ => hasSubstr_note (by decide) (by decide) w) s

lemma attr_line {a : Attr} (h : a.Plain) (depth : ℕ) (s : VarScan) :
    s.attr pc (ended (a.line depth)) = s.read pc a := by
  have hword {w : Str} (k : AttrKind) (hw : w = "DW_AT_".toList ++ k.text) :
      hasSubstr (ended (a.line depth)) w = decide (a.kind = some k) :=
    hw ▸ Attr.hasSubstr_attrLine depth h k
  have hlow := hword (w := "DW_AT_low_pc".toList) .lowPc (by decide)
  have hhigh := hword (w := "DW_AT_high_pc".toList) .highPc (by decide)
  have hloc := hword (w := "DW_AT_location".toList) .location (by decide)
  have hname := hword (w := "DW_AT_name".toList) .name (by decide)
  have htype := hword (w := "DW_AT_type".toList) .type (by decide)
  rw [attr, hlow, hhigh, hloc, hname, htype]
  obtain ⟨inFunc, funcMatches, funcDepth, funcLow, funcHigh, readingVar, var⟩ := s
  cases a with
  | name n =>
      rw [Attr.parseQuotedValue_name depth h 128]
      cases readingVar <;> simp [read, fill, Attr.kind]
  | type ref t =>
      rw [Attr.parseQuotedValue_type depth h 128]
      cases readingVar <;> simp [read, fill, Attr.kind]
  | lowPc a =>
      rw [Attr.parseHexValue_lowPc]
      cases inFunc <;> simp [read, Attr.kind]
  | highPc a =>
      rw [Attr.parseHexValue_highPc]
      cases inFunc <;> simp [read, Attr.kind]
  | location p =>
      rw [p.parseFbregOffset_read]
      cases hp : p.read <;> cases readingVar <;> simp [read, fill, Attr.kind, hp]
  | _ => simp [read, fill, Attr.kind]

/-- The lines of an entry. -/
lemma run_die (depth : ℕ) (h : DieHead) :
    s.run pc name ((Item.die depth h).lines.map ended ++ rest) =
      (s.found name).or
        ((h.attrs.list.foldl (read pc) (s.forget.enter depth h)).run pc name rest) := by
  have htag {w : Str} (k : Tag) (hw : w = k.text) (hk : k.name ∈ tagNames) :
      hasSubstr (ended (headLine depth h.offset h.tag.text)) w = decide (h.tag = k) :=
    hw ▸ hasSubstr_tagLine depth h.offset h.tag hk
  have hsub := htag (w := "DW_TAG_subprogram".toList) .subprogram (by decide) (by decide)
  have hvar := htag (w := "DW_TAG_variable".toList) .variable_ (by decide) (by decide)
  have hformal :=
    htag (w := "DW_TAG_formal_parameter".toList) .formalParameter (by decide) (by decide)
  have hdepth : dwarfLineDepth (ended (headLine depth h.offset h.tag.text)) = 2 * depth + 1 :=
    dwarfLineDepth_headLine depth h.offset (c := 'D') rfl (by decide)
  have hquiet (s : VarScan) : s.attr pc (ended (headLine depth h.offset h.tag.text)) = s :=
    attr_quiet (hasSubstr_tagLine_attr depth h.offset h.tag) s
  have hentry (s : VarScan) :
      s.entry pc (ended (headLine depth h.offset h.tag.text)) = s.enter depth h := by
    rw [entry, hsub, hvar, hformal, hdepth]
    dsimp only
    rw [hquiet, enter, leave, DieHead.isVariable]
    simp only [decide_eq_true_eq, Bool.or_eq_true]
  rw [Item.lines, List.map_cons, List.cons_append, run_cons, startsDie_tagLine, if_pos rfl, hentry,
    List.map_append, List.append_assoc]
  exact congrArg _ (run_attrs (fun s _ rest hl => run_line hl s rest)
    (fun a ha depth s => attr_line ha depth s) attr_blank depth h.attrs.plain _ rest)

/-- The line that closes a list. -/
lemma run_null (depth offset : ℕ) :
    s.run pc name ((Item.null depth offset).lines.map ended ++ rest) =
      (s.found name).or ((s.forget.leave depth).run pc name rest) := by
  have hword {w : Str} (hw : w.head? = some 'D') (hnl : '\n' ∉ w) :
      hasSubstr (ended (headLine depth offset "NULL".toList)) w = false :=
    hasSubstr_nullLine depth offset hw hnl
  have hdepth : dwarfLineDepth (ended (headLine depth offset "NULL".toList)) = 2 * depth + 1 :=
    dwarfLineDepth_headLine depth offset (c := 'N') (by decide) (by decide)
  have hnull (s : VarScan) : s.attr pc (ended (headLine depth offset "NULL".toList)) = s :=
    attr_quiet (hasSubstr_nullLine_attr depth offset) s
  have hentry (s : VarScan) :
      s.entry pc (ended (headLine depth offset "NULL".toList)) = s.leave depth := by
    rw [entry, hword (w := "DW_TAG_subprogram".toList) (by decide) (by decide),
      hword (w := "DW_TAG_variable".toList) (by decide) (by decide),
      hword (w := "DW_TAG_formal_parameter".toList) (by decide) (by decide), hdepth]
    dsimp only
    rw [hnull, leave]
    simp
  rw [Item.lines, List.map_cons, List.map_singleton, List.cons_append, List.singleton_append,
    run_cons, startsDie_nullLine, if_pos rfl, hentry, run_line (startsDie_note (by decide)),
    attr_blank]

/-- Other lines are passed over. -/
lemma run_note {text : Str} (quiet : Unmarked text) :
    s.run pc name ((Item.note text quiet).lines.map ended ++ rest) = s.run pc name rest := by
  rw [Item.lines, List.map_singleton, List.singleton_append, run_line (startsDie_note quiet),
    attr_quiet fun w _ => hasSubstr_note quiet (by decide) w]

/-! ### Entries -/

/-- The scanner is in a subprogram of this depth, where the range printed last covers the
program counter or not. -/
structure In (pc : Addr) (depth : ℕ) (visible : Bool) (s : VarScan) : Prop where
  inFunc : s.inFunc = true
  funcDepth : s.funcDepth = 2 * depth + 1
  funcMatches : s.funcMatches = visible
  range : s.funcMatches = pcInRange pc s.funcLow s.funcHigh
  readingVar : s.readingVar = false

/-- Attributes without a range. -/
lemma read_other {a : Attr} (hlow : a.lowPc? = none) (hhigh : a.highPc? = none) (s : VarScan) :
    s.read pc a = if s.readingVar = true then { s with var := fill s.var a } else s := by
  cases a with
  | lowPc b => cases hlow
  | highPc b => cases hhigh
  | _ => rfl

/-- A simple entry says nothing, unless it is a variable that is being read. -/
lemma foldl_simple {h : DieHead} (hs : h.IsSimple) (hread : s.readingVar = false) :
    h.attrs.list.foldl (read pc) s = s := by
  refine List.foldlRecOn (motive := fun t => t = s) h.attrs.list (read pc) rfl ?_
  rintro _ rfl a ha
  rw [read_other (List.findSome?_eq_none_iff.mp hs.low a ha)
    (List.findSome?_eq_none_iff.mp hs.high a ha), if_neg (by simp [hread])]

section

variable (var : VarInfo) (a : Attr)

lemma fill_name : (fill var a).name = a.name?.elim var.name (truncate 128) := by
  cases a with
  | location p =>
      rw [fill]
      split <;> rfl
  | _ => rfl

lemma fill_type : (fill var a).type = a.type?.elim var.type (truncate 128) := by
  cases a with
  | location p =>
      rw [fill]
      split <;> rfl
  | _ => rfl

lemma fill_place : ((fill var a).base, (fill var a).fbregOffset, (fill var a).hasLocation) =
    a.place?.elim (var.base, var.fbregOffset, var.hasLocation) fun p =>
      p.read.elim (var.base, var.fbregOffset, var.hasLocation) fun q => (q.1, q.2, true) := by
  cases a with
  | location p =>
      rw [fill]
      cases hp : p.read <;> simp [Attr.place?, hp]
  | _ => rfl

/-- What no attribute says. -/
lemma fill_rest {name type : Str} {base : VarBase} {offset : ℤ} {located : Bool} :
    { fill var a with name := name, type := type, base := base, fbregOffset := offset,
                      hasLocation := located } =
      { var with name := name, type := type, base := base, fbregOffset := offset,
                 hasLocation := located } := by
  cases a with
  | location p =>
      rw [fill]
      split <;> rfl
  | _ => rfl

end

/-- What the attributes of an entry say of the variable. -/
lemma foldl_fill (h : DieHead) : h.attrs.list.foldl fill .zero = h.var := by
  -- each attribute fills a field of its own
  have hkeep : ∀ v : VarInfo, ∀ a ∈ h.attrs.list,
      { v with name := [], type := [], base := .fb, fbregOffset := 0, hasLocation := false } =
        VarInfo.zero →
      { fill v a with name := [], type := [], base := .fb, fbregOffset := 0,
                      hasLocation := false } = VarInfo.zero :=
    fun v a _ hv => (fill_rest v a).trans hv
  obtain ⟨hrest, hname⟩ := h.attrs.foldl_get fill VarInfo.name (s := .zero)
    (g := fun n _ => truncate 128 n) (fun _ => Attr.kind_of_name) hkeep
    (fun v a _ _ => fill_name v a) rfl
  obtain ⟨-, htype⟩ := h.attrs.foldl_get fill VarInfo.type (s := .zero)
    (g := fun t _ => truncate 128 t) (fun _ => Attr.kind_of_type) hkeep
    (fun v a _ _ => fill_type v a) rfl
  obtain ⟨-, hplace⟩ := h.attrs.foldl_get fill
    (fun v => (v.base, v.fbregOffset, v.hasLocation)) (s := .zero)
    (g := fun p v => p.read.elim v fun q => (q.1, q.2, true)) (fun _ => Attr.kind_of_place) hkeep
    (fun v a _ _ => fill_place v a) rfl
  -- the fields together are the variable
  generalize h.attrs.list.foldl fill .zero = v at *
  have hv : v = { VarInfo.zero with
      name := v.name, type := v.type, base := v.base, fbregOffset := v.fbregOffset,
      hasLocation := v.hasLocation } := by
    rw [← hrest]
  have hname : v.name = truncate 128 ((h.get Attr.name?).getD []) := by
    rw [hname, DieHead.get]
    cases h.attrs.list.findSome? Attr.name? <;> rfl
  have htype : v.type = truncate 128 ((h.get Attr.type?).getD []) := by
    rw [htype, DieHead.get]
    cases h.attrs.list.findSome? Attr.type? <;> rfl
  have hplace : (v.base, v.fbregOffset, v.hasLocation) =
      ((h.get Attr.place?).bind Place.read).elim (.fb, 0, false) fun q => (q.1, q.2, true) := by
    rw [hplace, DieHead.get]
    cases h.attrs.list.findSome? Attr.place? <;> rfl
  rw [hv, hname, htype, DieHead.var]
  generalize (h.get Attr.place?).bind Place.read = place at *
  cases place with
  | none =>
      obtain ⟨hbase, hoffset, hlocated⟩ : v.base = .fb ∧ v.fbregOffset = 0 ∧
        v.hasLocation = false := by simpa using hplace
      rw [hbase, hoffset, hlocated]
      rfl
  | some q =>
      obtain ⟨hbase, hoffset, hlocated⟩ : v.base = q.1 ∧ v.fbregOffset = q.2 ∧
        v.hasLocation = true := by simpa using hplace
      rw [hbase, hoffset, hlocated]
      rfl

/-- The attributes of a variable are those it is found with. -/
lemma foldl_var {h : DieHead} (hs : h.IsSimple) :
    h.attrs.list.foldl (read pc) { s with var := .zero, readingVar := true } =
      { s with var := h.var, readingVar := true } := by
  rw [← foldl_fill]
  generalize VarInfo.zero = var
  have hall : ∀ a ∈ h.attrs.list, ∀ t : VarScan, t.read pc a =
      if t.readingVar = true then { t with var := fill t.var a } else t :=
    fun a ha t => read_other (List.findSome?_eq_none_iff.mp hs.low a ha)
      (List.findSome?_eq_none_iff.mp hs.high a ha) t
  generalize h.attrs.list = as at hall ⊢
  induction as generalizing var with
  | nil => rfl
  | cons a as ih =>
      rw [List.foldl_cons, hall a List.mem_cons_self, if_pos rfl]
      exact ih (fill var a) fun b hb => hall b (List.mem_cons_of_mem a hb)

/-- A range is that of the entry, as far as it has one. -/
lemma foldl_range {h : DieHead} {depth : ℕ} (hin : s.inFunc = true)
    (hdepth : s.funcDepth = 2 * depth + 1)
    (hrange : s.funcMatches = pcInRange pc s.funcLow s.funcHigh) (hread : s.readingVar = false) :
    In pc depth (pcInRange pc ((h.get Attr.lowPc?).getD s.funcLow)
      ((h.get Attr.highPc?).getD s.funcHigh)) (h.attrs.list.foldl (read pc) s) := by
  have hkeep : ∀ t : VarScan, ∀ a ∈ h.attrs.list,
      In pc depth t.funcMatches t → In pc depth (t.read pc a).funcMatches (t.read pc a) := by
    rintro t a - ⟨hin, hdepth, -, hrange, hread⟩
    cases a with
    | lowPc b =>
        rw [read, if_pos hin]
        exact ⟨hin, hdepth, rfl, rfl, hread⟩
    | highPc b =>
        rw [read, if_pos hin]
        exact ⟨hin, hdepth, rfl, rfl, hread⟩
    | _ =>
        rw [read_other rfl rfl, if_neg (by simp [hread])]
        exact ⟨hin, hdepth, rfl, hrange, hread⟩
  have hs : In pc depth s.funcMatches s := ⟨hin, hdepth, rfl, hrange, hread⟩
  obtain ⟨hfold, hlow⟩ := h.attrs.foldl_get (read pc) VarScan.funcLow
    (g := fun a _ => a) (fun _ => Attr.kind_of_lowPc) hkeep
    (by rintro t a - ⟨hin, -, -, -, hread⟩; cases a <;> simp [read, hin, hread, Attr.lowPc?]) hs
  obtain ⟨-, hhigh⟩ := h.attrs.foldl_get (read pc) VarScan.funcHigh
    (g := fun a _ => a) (fun _ => Attr.kind_of_highPc) hkeep
    (by rintro t a - ⟨hin, -, -, -, hread⟩; cases a <;> simp [read, hin, hread, Attr.highPc?]) hs
  refine ⟨hfold.inFunc, hfold.funcDepth, ?_, hfold.range, hfold.readingVar⟩
  rw [hfold.range, hlow, hhigh, DieHead.get, DieHead.get]
  cases h.attrs.list.findSome? Attr.lowPc? <;> cases h.attrs.list.findSome? Attr.highPc? <;> rfl

/-! ### The search -/

/-- The variable read last is done with where these lines begin. -/
def Settles (pc : Addr) (name : Str) (lines : List Str) : Prop :=
  ∀ s : VarScan, s.run pc name lines = (s.found name).or (s.forget.run pc name lines)

lemma forget_readingVar (s : VarScan) : s.forget.readingVar = false := by
  rw [forget]
  split
  · rfl
  · exact Bool.eq_false_iff.mpr ‹_›

lemma found_of_not (h : s.readingVar = false) : s.found name = none := by
  rw [found, if_neg (by simp [h])]

lemma forget_of_not (h : s.readingVar = false) : s.forget = s := by
  rw [forget, if_neg (by simp [h])]

lemma found_forget (s : VarScan) : s.forget.found name = none := found_of_not s.forget_readingVar

lemma forget_forget (s : VarScan) : s.forget.forget = s.forget := forget_of_not s.forget_readingVar

lemma settles_nil : Settles pc name [] := by
  intro s
  rw [run_nil, run_nil, found_forget, Option.or_none]

lemma settles_die (depth : ℕ) (h : DieHead) :
    Settles pc name ((Item.die depth h).lines.map ended ++ rest) := by
  intro s
  rw [run_die, run_die, found_forget, forget_forget, Option.none_or]

lemma settles_null (depth offset : ℕ) :
    Settles pc name ((Item.null depth offset).lines.map ended ++ rest) := by
  intro s
  rw [run_null, run_null, found_forget, forget_forget, Option.none_or]

lemma settles_note {text : Str} (quiet : Unmarked text) (h : Settles pc name rest) :
    Settles pc name ((Item.note text quiet).lines.map ended ++ rest) := by
  intro s
  rw [run_note, run_note, h]

/-- The first of some declarations that is ready under a name. -/
def first (name : Str) (hs : List DieHead) : Option VarInfo :=
  (hs.map DieHead.var).find? fun v => v.ready name

lemma first_append (hs hs' : List DieHead) :
    first name (hs ++ hs') = (first name hs).or (first name hs') := by
  rw [first, List.map_append, List.find?_append]
  rfl

/-- A declaration that has been read. -/
lemma found_var (h : DieHead) (s : VarScan) :
    found name { s with var := h.var, readingVar := true } = first name [h] := by
  rw [found, first, List.map_singleton, List.find?_singleton]
  simp only [true_and]

/-- What the scanner does on some lines with these declarations: it stops at the first that is
looked for, and goes on behind the lines if there is none. -/
structure Reads (pc : Addr) (name : Str) (I J : VarScan → Prop) (hs : List DieHead)
    (lines : List Str) : Prop where
  settles : ∀ rest, Settles pc name rest → Settles pc name (lines ++ rest)
  run : ∀ s rest, I s → Settles pc name rest → ∃ s', J s' ∧
    s.run pc name (lines ++ rest) = (first name hs).or (s'.run pc name rest)

section

variable {I J K : VarScan → Prop} {hs hs' : List DieHead} {lines lines' : List Str}

lemma Reads.append (h : Reads pc name I J hs lines) (h' : Reads pc name J K hs' lines') :
    Reads pc name I K (hs ++ hs') (lines ++ lines') := by
  constructor
  · intro rest hrest
    rw [List.append_assoc]
    exact h.settles _ (h'.settles rest hrest)
  · intro s rest hs hrest
    obtain ⟨s', hs', hrun⟩ := h.run s (lines' ++ rest) hs (h'.settles rest hrest)
    obtain ⟨s'', hs'', hrun'⟩ := h'.run s' rest hs' hrest
    exact ⟨s'', hs'', by rw [List.append_assoc, hrun, hrun', first_append, Option.or_assoc]⟩

lemma Reads.mono (h : Reads pc name I J hs lines) {I' J' : VarScan → Prop}
    (hI : ∀ s, I' s → I s) (hJ : ∀ s, J s → J' s) : Reads pc name I' J' hs lines := by
  refine ⟨h.settles, fun s rest hs hrest => ?_⟩
  obtain ⟨s', hs', hrun⟩ := h.run s rest (hI s hs) hrest
  exact ⟨s', hJ s' hs', hrun⟩

lemma reads_nil : Reads pc name I I [] [] :=
  ⟨fun _ hrest => hrest, fun s _ hs _ => ⟨s, hs, rfl⟩⟩

end

/-- The lines that are printed of some items. -/
def printed (is : List Item) : List Str := (is.flatMap Item.lines).map ended

lemma printed_append (is is' : List Item) : printed (is ++ is') = printed is ++ printed is' := by
  rw [printed, List.flatMap_append, List.map_append]
  rfl

lemma printed_cons (i : Item) (is : List Item) :
    printed (i :: is) = i.lines.map ended ++ printed is := by
  rw [printed, List.flatMap_cons, List.map_append]
  rfl

/-! ### Inside a subprogram -/

/-- The scanner is in a subprogram of this depth. -/
def Inside (pc : Addr) (depth : ℕ) (s : VarScan) : Prop := ∃ visible, In pc depth visible s

section

variable {depth outer : ℕ} {visible : Bool} {h : DieHead}

/-- What is below a subprogram does not leave it. -/
lemma In.leave (hs : In pc outer visible s) (hlt : outer < depth) : s.leave depth = s := by
  rw [VarScan.leave, if_neg (fun hand => ?_)]
  have hdepth := hs.funcDepth
  have hle := hand.2
  omega

lemma reads_simple (hh : h.IsSimple) (hlt : outer < depth) :
    Reads pc name (In pc outer visible) (In pc outer visible)
      (if h.isVariable && visible then [h] else []) ((Item.die depth h).lines.map ended) := by
  refine ⟨fun rest _ => settles_die depth h, fun s rest hs hrest => ?_⟩
  rw [run_die, found_of_not hs.readingVar, forget_of_not hs.readingVar, Option.none_or, enter,
    if_neg hh.subprogram, hs.leave hlt, hs.funcMatches]
  by_cases hvar : h.isVariable = true ∧ visible = true
  · rw [if_pos ⟨hs.inFunc, hvar.2, hvar.1⟩, foldl_var hh, hrest, found_var,
      if_pos (by simp [hvar])]
    refine ⟨_, ?_, rfl⟩
    exact ⟨hs.inFunc, hs.funcDepth, hs.funcMatches, hs.range, rfl⟩
  · rw [if_neg (fun hand => hvar ⟨hand.2.2, hand.2.1⟩), foldl_simple hh hs.readingVar,
      if_neg (by simpa using hvar)]
    exact ⟨s, hs, rfl⟩

/-- A block has a range of its own. -/
lemma reads_blockHead (hh : h.IsBlock) (hlt : outer < depth) :
    Reads pc name (Inside pc outer) (In pc outer (h.covers pc)) []
      ((Item.die depth h).lines.map ended) := by
  refine ⟨fun rest _ => settles_die depth h, fun s rest hs hrest => ?_⟩
  obtain ⟨visible, hs⟩ := hs
  have hrange : s.funcMatches = pcInRange pc s.funcLow s.funcHigh := hs.range
  obtain ⟨low, hlow⟩ := Option.isSome_iff_exists.mp hh.low
  obtain ⟨high, hhigh⟩ := Option.isSome_iff_exists.mp hh.high
  have hfold := foldl_range (h := h) hs.inFunc hs.funcDepth hrange hs.readingVar
  rw [hlow, hhigh] at hfold
  rw [run_die, found_of_not hs.readingVar, forget_of_not hs.readingVar, Option.none_or, enter,
    if_neg (by simp [hh.tag]), hs.leave hlt, if_neg (by simp [hh.isVariable])]
  refine ⟨_, ?_, rfl⟩
  rw [DieHead.covers, hlow, hhigh]
  exact hfold

lemma reads_null (offset : ℕ) (hlt : outer < depth) :
    Reads pc name (In pc outer visible) (In pc outer visible) []
      ((Item.null depth offset).lines.map ended) := by
  refine ⟨fun rest _ => settles_null depth offset, fun s rest hs hrest => ?_⟩
  rw [run_null, found_of_not hs.readingVar, forget_of_not hs.readingVar, hs.leave hlt]
  exact ⟨s, hs, rfl⟩

lemma reads_nullInside (offset : ℕ) (hlt : outer < depth) :
    Reads pc name (Inside pc outer) (Inside pc outer) []
      ((Item.null depth offset).lines.map ended) := by
  refine ⟨fun rest _ => settles_null depth offset, fun s rest hs hrest => ?_⟩
  obtain ⟨visible, hs⟩ := hs
  obtain ⟨s', hs', hrun⟩ := (reads_null offset hlt).run s rest hs hrest
  exact ⟨s', ⟨visible, hs'⟩, hrun⟩

end

variable {outer : ℕ}

mutual

/-- A tree of simple entries. -/
lemma reads_simpleTree (visible : Bool) {depth : ℕ} (hlt : outer < depth) : ∀ d : Die, d.Simple →
    Reads pc name (In pc outer visible) (In pc outer visible) (d.locals pc visible)
      (printed (d.items depth))
  | .mk h none => by
      intro hd
      rw [Die.Simple] at hd
      have hhead : Reads pc name (In pc outer visible) (In pc outer visible)
          (if h.isVariable && visible then [h] else []) ((Item.die depth h).lines.map ended) :=
        reads_simple hd hlt
      have hall := hhead.append reads_nil
      rw [Die.locals, Die.items, printed_cons]
      rwa [List.append_nil] at hall
  | .mk h (some cs) => by
      intro hd
      rw [Die.Simple] at hd
      have hhead : Reads pc name (In pc outer visible) (In pc outer visible)
          (if h.isVariable && visible then [h] else []) ((Item.die depth h).lines.map ended) :=
        reads_simple hd.1 hlt
      have hall := hhead.append ((reads_simpleTrees visible (Nat.lt_succ_of_lt hlt) cs hd.2).append
        (reads_null h.close (Nat.lt_succ_of_lt hlt)))
      rw [Die.locals, if_neg hd.1.block, Die.items, printed_cons, printed_append, printed_cons]
      rwa [List.append_nil] at hall

/-- A list of such trees. -/
lemma reads_simpleTrees (visible : Bool) {depth : ℕ} (hlt : outer < depth) :
    ∀ ds : List Die, Die.SimpleList ds →
      Reads pc name (In pc outer visible) (In pc outer visible) (Die.localsList pc visible ds)
        (printed (Die.itemsList depth ds))
  | [] => by
      intro _
      rw [Die.localsList, Die.itemsList]
      exact reads_nil
  | d :: ds => by
      intro hds
      rw [Die.SimpleList] at hds
      rw [Die.localsList, Die.itemsList, printed_append]
      exact (reads_simpleTree visible hlt d hds.1).append (reads_simpleTrees visible hlt ds hds.2)

end

mutual

/-- A block. What is visible around it does not matter to it. -/
lemma reads_block (visible : Bool) {depth : ℕ} (hlt : outer < depth) : ∀ d : Die, d.Block →
    Reads pc name (Inside pc outer) (Inside pc outer) (d.locals pc visible)
      (printed (d.items depth))
  | .mk h none => by
      intro hd
      rw [Die.Block] at hd
      have hall : Reads pc name (Inside pc outer) (Inside pc outer) []
          ((Item.die depth h).lines.map ended) :=
        (reads_blockHead hd hlt).mono (fun _ hs => hs) fun _ hs => ⟨_, hs⟩
      rw [Die.locals, hd.isVariable, Bool.false_and, if_neg Bool.false_ne_true, Die.items,
        printed_cons]
      exact hall.append reads_nil
  | .mk h (some cs) => by
      intro hd
      rw [Die.Block] at hd
      have hhead : Reads pc name (Inside pc outer) (In pc outer (h.covers pc)) []
          ((Item.die depth h).lines.map ended) := reads_blockHead hd.1 hlt
      have hall := hhead.append ((reads_body (h.covers pc) (Nat.lt_succ_of_lt hlt) cs hd.2).append
        (reads_nullInside h.close (Nat.lt_succ_of_lt hlt)))
      rw [Die.locals, hd.1.isVariable, Bool.false_and, if_neg Bool.false_ne_true, if_pos hd.1.tag,
        Die.items, printed_cons, printed_append, printed_cons]
      rwa [List.append_nil] at hall

/-- Declarations, and behind them blocks. -/
lemma reads_body (visible : Bool) {depth : ℕ} (hlt : outer < depth) :
    ∀ ds : List Die, Die.Body ds →
      Reads pc name (In pc outer visible) (Inside pc outer) (Die.localsList pc visible ds)
        (printed (Die.itemsList depth ds))
  | [] => by
      intro _
      rw [Die.localsList, Die.itemsList]
      exact reads_nil.mono (fun _ hs => hs) fun _ hs => ⟨visible, hs⟩
  | d :: ds => by
      intro hds
      rw [Die.Body] at hds
      rw [Die.localsList, Die.itemsList, printed_append]
      cases hds with
      | inl hds =>
          exact (reads_simpleTree visible hlt d hds.1).append (reads_body visible hlt ds hds.2)
      | inr hds =>
          have hblock : Reads pc name (In pc outer visible) (Inside pc outer) (d.locals pc visible)
              (printed (d.items depth)) :=
            (reads_block visible hlt d hds.1).mono (fun _ hs => ⟨visible, hs⟩) fun _ hs => hs
          exact hblock.append (reads_blocks visible hlt ds hds.2)

/-- A list of blocks. -/
lemma reads_blocks (visible : Bool) {depth : ℕ} (hlt : outer < depth) :
    ∀ ds : List Die, Die.Blocks ds →
      Reads pc name (Inside pc outer) (Inside pc outer) (Die.localsList pc visible ds)
        (printed (Die.itemsList depth ds))
  | [] => by
      intro _
      rw [Die.localsList, Die.itemsList]
      exact reads_nil
  | d :: ds => by
      intro hds
      rw [Die.Blocks] at hds
      rw [Die.localsList, Die.itemsList, printed_append]
      exact (reads_block visible hlt d hds.1).append (reads_blocks visible hlt ds hds.2)

end

/-! ### Outside -/

/-- The scanner is in no subprogram that goes on at this depth. -/
structure Out (depth : ℕ) (s : VarScan) : Prop where
  readingVar : s.readingVar = false
  funcDepth : s.inFunc = true → 2 * depth + 1 ≤ s.funcDepth

section

variable {depth : ℕ} {h : DieHead}

lemma Inside.out (hs : Inside pc depth s) : s.Out depth := by
  obtain ⟨visible, hs⟩ := hs
  exact ⟨hs.readingVar, fun _ => hs.funcDepth.ge⟩

/-- It is left at the next entry. -/
lemma Out.inFunc_leave (hs : s.Out depth) : (s.leave depth).inFunc = false := by
  rw [leave]
  split_ifs with h
  · rfl
  · exact Bool.eq_false_iff.mpr fun hin => h ⟨hin, hs.funcDepth hin⟩

lemma readingVar_leave (s : VarScan) : (s.leave depth).readingVar = s.readingVar := by
  rw [leave]
  split <;> rfl

lemma Out.leave (hs : s.Out depth) (depth' : ℕ) : (s.leave depth).Out depth' := by
  refine ⟨(readingVar_leave s).trans hs.readingVar, fun hin => ?_⟩
  rw [hs.inFunc_leave] at hin
  cases hin

lemma reads_nullOut (offset depth' : ℕ) :
    Reads pc name (Out depth) (Out depth') [] ((Item.null depth offset).lines.map ended) := by
  refine ⟨fun rest _ => settles_null depth offset, fun s rest hs _ => ?_⟩
  rw [run_null, found_of_not hs.readingVar, forget_of_not hs.readingVar]
  exact ⟨_, hs.leave depth', rfl⟩

/-- An entry that is no subprogram. -/
lemma reads_other (hh : h.tag ≠ .subprogram) (depth' : ℕ) :
    Reads pc name (Out depth) (Out depth') [] ((Item.die depth h).lines.map ended) := by
  refine ⟨fun rest _ => settles_die depth h, fun s rest hs _ => ?_⟩
  have hout := hs.leave depth'
  have hin := hs.inFunc_leave
  have hfold : h.attrs.list.foldl (read pc) (s.leave depth) = s.leave depth := by
    refine List.foldlRecOn (motive := fun t => t = s.leave depth) h.attrs.list (read pc) rfl ?_
    rintro _ rfl a -
    cases a <;> simp [read, hin, hout.readingVar]
  rw [run_die, found_of_not hs.readingVar, forget_of_not hs.readingVar, Option.none_or, enter,
    if_neg hh, if_neg (by simp [hin]), hfold]
  exact ⟨_, hout, rfl⟩

/-- The entry of a subprogram, with its range. -/
lemma reads_subprogram (hh : h.tag = .subprogram) :
    Reads pc name (Out depth) (In pc depth (h.covers pc)) []
      ((Item.die depth h).lines.map ended) := by
  refine ⟨fun rest _ => settles_die depth h, fun s rest hs _ => ?_⟩
  have hnone : false = pcInRange pc 0 0 := by simp [pcInRange]
  let s' : VarScan := { s with
    inFunc := true, funcMatches := false, funcDepth := 2 * depth + 1, funcLow := 0, funcHigh := 0 }
  have hfold : In pc depth (h.covers pc) (h.attrs.list.foldl (read pc) s') :=
    foldl_range (s := s') rfl rfl hnone hs.readingVar
  rw [run_die, found_of_not hs.readingVar, forget_of_not hs.readingVar, Option.none_or, enter,
    if_pos hh]
  exact ⟨_, hfold, rfl⟩

end

mutual

/-- A tree outside of subprograms. -/
lemma reads_tree (depth : ℕ) : ∀ d : Die, d.Scoped →
    Reads pc name (Out depth) (Out depth) (d.visibleLocals pc) (printed (d.items depth))
  | .mk h none => by
      intro _
      rw [Die.visibleLocals, Die.items, printed_cons]
      by_cases hh : h.tag = .subprogram
      · exact ((reads_subprogram hh).mono (fun _ hs => hs)
          fun _ hs => Inside.out ⟨_, hs⟩).append reads_nil
      · exact (reads_other hh depth).append reads_nil
  | .mk h (some cs) => by
      intro hd
      rw [Die.Scoped] at hd
      rw [Die.visibleLocals, Die.items, printed_cons, printed_append, printed_cons]
      by_cases hh : h.tag = .subprogram
      · rw [if_pos hh] at hd
        have hhead : Reads pc name (Out depth) (In pc depth (h.covers pc)) []
            ((Item.die depth h).lines.map ended) := reads_subprogram hh
        have hall := hhead.append ((reads_body (h.covers pc) (Nat.lt_succ_self depth) cs hd).append
          (reads_nullInside h.close (Nat.lt_succ_self depth)))
        rw [List.append_nil] at hall
        rw [if_pos hh]
        exact hall.mono (fun _ hs => hs) fun _ hs => hs.out
      · rw [if_neg hh] at hd
        have hhead : Reads pc name (Out depth) (Out (depth + 1)) []
            ((Item.die depth h).lines.map ended) := reads_other hh (depth + 1)
        have hall := hhead.append
          ((reads_trees (depth + 1) cs hd).append (reads_nullOut h.close depth))
        rw [List.append_nil] at hall
        rw [if_neg hh]
        exact hall

/-- A list of such trees. -/
lemma reads_trees (depth : ℕ) : ∀ ds : List Die, Die.ScopedList ds →
    Reads pc name (Out depth) (Out depth) (Die.visibleLocalsList pc ds)
      (printed (Die.itemsList depth ds))
  | [] => by
      intro _
      rw [Die.visibleLocalsList, Die.itemsList]
      exact reads_nil
  | d :: ds => by
      intro hds
      rw [Die.ScopedList] at hds
      rw [Die.visibleLocalsList, Die.itemsList, printed_append]
      exact (reads_tree depth d hds.1).append (reads_trees depth ds hds.2)

end

lemma reads_note {text : Str} (quiet : Unmarked text) (I : VarScan → Prop) :
    Reads pc name I I [] ((Item.note text quiet).lines.map ended) := by
  refine ⟨fun rest hrest => settles_note quiet hrest, fun s rest hs _ => ?_⟩
  rw [run_note]
  exact ⟨s, hs, rfl⟩

/-- A compile unit. -/
lemma reads_unit (u : DumpUnit) (hu : u.root.Scoped) :
    Reads pc name (Out 0) (Out 0) (u.root.visibleLocals pc) (printed u.items) := by
  have hnotes (ls : List {l // l ∈ u.header}) : Reads pc name (Out 0) (Out 0) []
      (printed (ls.map fun l => .note l.1 (u.quiet l.1 l.2))) := by
    induction ls with
    | nil => exact reads_nil
    | cons l ls ih =>
        rw [List.map_cons, printed_cons]
        exact (reads_note (u.quiet l.1 l.2) (Out 0)).append ih
  rw [DumpUnit.items, printed_append]
  exact (hnotes u.header.attach).append (reads_tree 0 u.root hu)

lemma reads_units (us : List DumpUnit) (hus : ∀ u ∈ us, u.root.Scoped) :
    Reads pc name (Out 0) (Out 0) (DumpUnit.visibleLocals pc us) ((dumpText us).map ended) := by
  induction us with
  | nil => exact reads_nil
  | cons u us ih =>
      rw [dumpText, List.flatMap_cons, List.flatMap_append, List.map_append]
      exact (reads_unit u (hus u List.mem_cons_self)).append
        (ih fun v hv => hus v (List.mem_cons_of_mem u hv))

end VarScan

/-- **A local variable is looked up as the dump declares it**: where the declarations of each
subprogram and block stand before its blocks, `find_local_var` finds the first declaration, in
the order of the dump, that has the name and a location and is visible at the program counter. -/
theorem findLocalVar_dump {d : Dbg} {us : List DumpUnit} (name : Str)
    (hinfo : d.debugInfo = some (dumpText us))
    (hfits : ∀ l ∈ dumpText us, l.length + 1 < dwarfLineSize)
    (hscoped : ∀ u ∈ us, u.root.Scoped) :
    findLocalVar d name =
      (((DumpUnit.visibleLocals (d.regs.pc - d.lineno.slide) us).map DieHead.var).find?
        fun v => v.ready name).map (completeVarType d) := by
  have hlines : d.debugLines = some ((dumpText us).map ended) := by
    rw [Dbg.debugLines, hinfo, Option.map_some, fgetsAll_of_short hfits]
  have hinit : VarScan.init.Out 0 := ⟨rfl, fun hin => by cases hin⟩
  have hreads : VarScan.Reads (d.regs.pc - d.lineno.slide) name (VarScan.Out 0) (VarScan.Out 0)
      (DumpUnit.visibleLocals (d.regs.pc - d.lineno.slide) us) ((dumpText us).map ended) :=
    VarScan.reads_units us hscoped
  obtain ⟨s, hs, hrun⟩ := hreads.run VarScan.init [] hinit VarScan.settles_nil
  rw [List.append_nil, VarScan.run_nil, VarScan.found_of_not hs.readingVar, Option.or_none] at hrun
  rw [findLocalVar, hlines]
  exact congrArg (Option.map (completeVarType d)) hrun

/-- A subprogram with a variable, and a block in it with another of the same name. -/
def DumpUnit.shadowing : DumpUnit where
  header := []
  quiet := List.forall_mem_nil _
  root := .mk ⟨0x0b, .other "compile_unit".toList foreign_compileUnit,
      .ofList [.name "a.c".toList], 0x70⟩
    (some [.mk ⟨0x2a, .subprogram, .ofList [.lowPc 0x3f00, .highPc 0x3f40, .name "f".toList], 0x6f⟩
      (some [.mk ⟨0x40, .variable_, .ofList [.location (.fbreg (-4)), .name "x".toList,
          .type 0x71 "int".toList], 0⟩ none,
        .mk ⟨0x4e, .lexicalBlock, .ofList [.lowPc 0x3f10, .highPc 0x3f30], 0x6e⟩
          (some [.mk ⟨0x5a, .variable_, .ofList [.location (.fbreg (-8)), .name "x".toList,
            .type 0x71 "int".toList], 0⟩ none])])])

lemma shadowing_scoped : ∀ u ∈ [DumpUnit.shadowing], u.root.Scoped := by
  intro u hu
  obtain rfl := List.mem_singleton.mp hu
  refine ⟨?_, trivial⟩
  exact Or.inl ⟨⟨by decide, by decide, by decide, by decide⟩,
    Or.inr ⟨⟨⟨by decide, by decide, by decide⟩,
      Or.inl ⟨⟨by decide, by decide, by decide, by decide⟩, trivial⟩⟩, trivial⟩⟩

/-- The debugger, stopped in the block. -/
def Dbg.inBlock (fp : Addr) : Dbg :=
  { Dbg.init with
    debugInfo := some (dumpText [DumpUnit.shadowing])
    regs := Regs.setPc { Regs.zero with native := { Regs.zero.native with fp := fp } } 0x3f20 }

/-- In the block the variable around it is found. -/
theorem findLocalVar_shadowed :
    (findLocalVar (Dbg.inBlock 0) "x".toList).map VarInfo.fbregOffset = some (-4) := by
  rw [findLocalVar_dump "x".toList rfl (by decide) shadowing_scoped]
  decide

/-! ### Addresses -/

/-- The address of a variable in a frame with this base and these registers. -/
def Place.address (frameBase : Addr) (r : NativeRegs) : Place → Option Addr
  | fbreg offset => some (frameBase + offset)
  | sp offset => some (r.sp + offset)
  | x29 offset => some (r.fp + offset)
  | addr _ => none
  | other _ _ => none

/-- Whether the debugger takes a location for what it is: the frame base is the frame pointer
where it matters, and no offset from `x29` is given that it does not assume. -/
def Place.Heeded (frameBase : Addr) (r : NativeRegs) : Place → Prop
  | fbreg _ => r.fp = frameBase
  | sp _ => True
  | x29 offset => offset = 29
  | addr _ => True
  | other _ _ => True

lemma completeVarType_place (d : Dbg) (var : VarInfo) :
    (completeVarType d var).base = var.base ∧
      (completeVarType d var).fbregOffset = var.fbregOffset := by
  rw [completeVarType]
  split <;> exact ⟨rfl, rfl⟩

/-- **A local variable is read where it is** exactly if its location is heeded: whatever the
base of the frame is, the address of the first visible declaration is the one its location
denotes if and only if that is relative to `sp`, or to a frame base that is the frame pointer,
or to `x29` with the number of that register for the offset. -/
theorem resolveVariableAddress_dump {d : Dbg} {us : List DumpUnit} {name : Str} {h : DieHead}
    {p : Place} (hinfo : d.debugInfo = some (dumpText us))
    (hfits : ∀ l ∈ dumpText us, l.length + 1 < dwarfLineSize)
    (hscoped : ∀ u ∈ us, u.root.Scoped)
    (hfirst : (DumpUnit.visibleLocals (d.regs.pc - d.lineno.slide) us).find?
      (fun h => h.var.ready name) = some h)
    (hplace : h.get Attr.place? = some p) (frameBase : Addr) :
    (resolveVariableAddress d name).map Prod.snd = p.address frameBase d.regs.native ↔
      p.Heeded frameBase d.regs.native := by
  -- the scanner finds the variable that the scopes make visible
  have hlocal : findLocalVar d name = some (completeVarType d h.var) := by
    rw [findLocalVar_dump name hinfo hfits hscoped, List.find?_map]
    exact congrArg (fun o => (Option.map DieHead.var o).map (completeVarType d)) hfirst
  have hlocated : h.var.hasLocation = true := by
    have hready := List.find?_some hfirst
    rw [VarInfo.ready, Bool.and_eq_true, Bool.and_eq_true] at hready
    exact hready.1.1
  obtain ⟨hbase, hoffset⟩ := completeVarType_place d h.var
  rw [resolveVariableAddress, hlocal]
  dsimp only
  rw [hbase, hoffset, Option.map_some]
  -- its place is read as the base and the offset that the debugger adds
  cases p with
  | fbreg n =>
      have hvar : h.var.base = .fb ∧ h.var.fbregOffset = n.toInt := by
        rw [DieHead.var, hplace]
        exact ⟨rfl, rfl⟩
      rw [hvar.1, hvar.2, BitVec.ofInt_toInt, Place.address, Place.Heeded, Option.some.injEq]
      exact BitVec.add_left_inj n
  | sp n =>
      have hvar : h.var.base = .sp ∧ h.var.fbregOffset = n.toInt := by
        rw [DieHead.var, hplace]
        exact ⟨rfl, rfl⟩
      rw [hvar.1, hvar.2, BitVec.ofInt_toInt]
      exact iff_of_true rfl trivial
  | x29 n =>
      have hvar : h.var.base = .x29 ∧ h.var.fbregOffset = 29 := by
        rw [DieHead.var, hplace]
        exact ⟨rfl, rfl⟩
      rw [hvar.1, hvar.2, Place.address, Place.Heeded, Option.some.injEq]
      exact (BitVec.add_right_inj d.regs.native.fp).trans eq_comm
  | addr a =>
      rw [DieHead.var, hplace] at hlocated
      cases hlocated
  | other text plain =>
      rw [DieHead.var, hplace] at hlocated
      cases hlocated

/-- Where the base of the frame is not the frame pointer, another address is read. -/
theorem resolveVariableAddress_frameBase :
    (resolveVariableAddress (Dbg.inBlock 0x50) "x".toList).map Prod.snd ≠
      (Place.fbreg (-4)).address 0x30 (Dbg.inBlock 0x50).regs.native := by
  refine mt (resolveVariableAddress_dump rfl (by decide) shadowing_scoped rfl rfl 0x30).mp ?_
  change ¬ ((0x50 : Addr) = 0x30)
  decide

end Cdbg
