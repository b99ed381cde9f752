import Cdbg.Dwarf.Struct
import Cdbg.Laws.DieLines

/-!
`dwarf_lookup_struct` on what `dwarfdump` prints.

The scanner is followed through the dump of a list of trees. Up to the first structure of the
name it stays idle, then it takes the members from the children, and the line that closes
their list ends it (`dwarfLookupStruct_dump`).
-/

namespace Cdbg

open CString

/-! ### Structures in a tree -/

mutual

/-- The entries of a tree with what is below them, in the order of the dump. -/
def Die.nodes : Die → List Die
  | .mk head none => [.mk head none]
  | .mk head (some cs) => .mk head (some cs) :: Die.nodesList cs

/-- The entries of a list of trees. -/
def Die.nodesList : List Die → List Die
  | [] => []
  | d :: ds => d.nodes ++ Die.nodesList ds

end

/-- The entries of a dump. -/
def DumpUnit.allNodes (us : List DumpUnit) : List Die := us.flatMap fun u => u.root.nodes

/-- Whether an entry is a structure that can be found under a name. -/
def DieHead.isStruct (name : Str) (h : DieHead) : Bool :=
  h.tag = .structureType && (h.get Attr.name?).map (truncate 128) = some name

/-- The member that an entry describes. -/
def DieHead.member (h : DieHead) : StructMember :=
  let type := truncate 64 ((h.get Attr.type?).getD [])
  { name := truncate 64 ((h.get Attr.name?).getD [])
    type := type
    offset := (h.get Attr.memberLocation?).getD 0
    size := typeScalarSize type
    isSigned := ! hasSubstr type "unsigned".toList }

/-- The members that the children of an entry describe, without those of no name. -/
def Die.members (d : Die) : List StructMember :=
  (((d.children.getD []).filter fun c => c.head.tag = .member).map fun c => c.head.member).filter
    fun m => m.name ≠ []

/-- The size of a structure, if it is printed behind the name. -/
def DieHead.structSize (h : DieHead) : ℕ :=
  (((h.attrs.list.dropWhile fun a => a.name?.isNone).findSome? Attr.byteSize?).getD 0).toNat

/-- A structure whose children are entries without children of their own, without a size and
no structures. -/
def Die.Flat (d : Die) : Prop :=
  ∃ cs, d.children = some cs ∧ ∀ c ∈ cs, c.children = none ∧ c.head.tag ≠ .structureType ∧
    c.head.get Attr.byteSize? = none

namespace StructScan

variable {n : ℕ} {name : Str} {s : StructScan} {rest : List Str}

/-! ### The lines of an item -/

/-- What an attribute does. -/
def read (name : Str) (s : StructScan) : Attr → StructScan
  | .name t =>
      if s.inStruct = false then s
      else if s.readingMember = false then
        if truncate 128 t = name then { s with structMatches := true } else s
      else if s.structMatches = false then s
      else { s with member := { s.member with name := truncate 64 t } }
  | .type _ t =>
      if s.inStruct = true ∧ s.structMatches = true ∧ s.readingMember = true then
        { s with member := { s.member with type := truncate 64 t } } else s
  | .byteSize k =>
      if s.inStruct = true ∧ s.structMatches = true then { s with byteSize := k.toNat } else s
  | .memberLocation k =>
      if s.inStruct = true ∧ s.structMatches = true ∧ s.readingMember = true then
        { s with member := { s.member with offset := k } } else s
  | _ => s

/-- What the tag of an entry does. -/
def enter (s : StructScan) (t : Tag) : StructScan :=
  if t = .structureType then { s with inStruct := true, structMatches := false, byteSize := 0 }
  else if s.inStruct = true ∧ s.structMatches = true ∧ t = .member then
    { s with member := .zero, readingMember := true }
  else if s.inStruct = true ∧ s.structMatches = false then { s with inStruct := false }
  else s

lemma run_line {line : Str} (hl : dwarfStartsDie line = false) (s : StructScan)
    (rest : List Str) :
    s.run n name (line :: rest) = (s.attr name line).run n name rest := by
  rw [run_cons, hl]
  simp

/-- A line without attributes. -/
lemma attr_quiet {line : Str}
    (h : ∀ w : Str, '\n' ∉ w → hasSubstr line ("DW_AT_".toList ++ w) = false) (s : StructScan) :
    s.attr name line = s := by
  have hword {w : Str} {k : Str} (hw : w = "DW_AT_".toList ++ k) (hk : '\n' ∉ k) :
      hasSubstr line w = false := hw ▸ h k hk
  have hname := hword (w := "DW_AT_name".toList) (k := "name".toList) (by decide) (by decide)
  have hsize := hword (w := "DW_AT_byte_size".toList) (k := "byte_size".toList)
    (by decide) (by decide)
  have htype := hword (w := "DW_AT_type".toList) (k := "type".toList) (by decide) (by decide)
  have hloc := hword (w := "DW_AT_data_member_location".toList)
    (k := "data_member_location".toList) (by decide) (by decide)
  rw [attr, hname, hsize, htype, hloc]
  simp

lemma attr_blank (s : StructScan) : s.attr name (ended []) = s :=
  attr_quiet (fun w _ => hasSubstr_note (by decide) (by decide) w) s

lemma attr_line {a : Attr} (h : a.Plain) (depth : ℕ) (s : StructScan) :
    s.attr name (ended (a.line depth)) = s.read name a := by
  have hword {w : Str} (k : AttrKind) (hw : w = "DW_AT_".toList ++ k.text) :
      hasSubstr (ended (a.line depth)) w = decide (a.kind = some k) :=
    hw ▸ Attr.hasSubstr_attrLine depth h k
  have hname := hword (w := "DW_AT_name".toList) .name (by decide)
  have hsize := hword (w := "DW_AT_byte_size".toList) .byteSize (by decide)
  have htype := hword (w := "DW_AT_type".toList) .type (by decide)
  have hloc := hword (w := "DW_AT_data_member_location".toList) .memberLocation (by decide)
  rw [attr, hname, hsize, htype, hloc]
  obtain ⟨inStruct, structMatches, readingMember, member, members, byteSize⟩ := s
  cases a with
  | name t =>
      rw [Attr.parseQuotedValue_name depth h 128, Attr.parseQuotedValue_name depth h 64]
      cases inStruct <;> cases structMatches <;> cases readingMember <;> simp [read, Attr.kind]
  | type ref t =>
      rw [Attr.parseQuotedValue_type depth h 64]
      cases inStruct <;> cases structMatches <;> cases readingMember <;> simp [read, Attr.kind]
  | byteSize k =>
      rw [Attr.strtoull_byteSize]
      cases inStruct <;> cases structMatches <;> simp [read, Attr.kind]
  | memberLocation k =>
      rw [Attr.parseMemberOffset_line]
      cases inStruct <;> cases structMatches <;> cases readingMember <;> simp [read, Attr.kind]
  | _ => simp [read, Attr.kind]

/-- The lines of an entry. -/
lemma run_die (depth : ℕ) (h : DieHead) :
    s.run n name (((Item.die depth h).lines.map ended) ++ rest) =
      (h.attrs.list.foldl (read name) ((s.settled n).enter h.tag)).run n name rest := by
  have htag {w : Str} (k : Tag) (hw : w = k.text) (hk : k.name ∈ tagNames) :
      hasSubstr (ended (headLine depth h.offset h.tag.text)) w = decide (h.tag = k) :=
    hw ▸ hasSubstr_tagLine depth h.offset h.tag hk
  have hstruct := htag (w := "DW_TAG_structure_type".toList) .structureType (by decide) (by decide)
  have hmember := htag (w := "DW_TAG_member".toList) .member (by decide) (by decide)
  have hnull := hasSubstr_tagLine_null depth h.offset h.tag
  have hquiet (s : StructScan) : s.attr name (ended (headLine depth h.offset h.tag.text)) = s :=
    attr_quiet (hasSubstr_tagLine_attr depth h.offset h.tag) s
  have hentry (s : StructScan) :
      s.entry name (ended (headLine depth h.offset h.tag.text)) = some (s.enter h.tag) := by
    rw [entry, hnull, hstruct, hmember, enter, hquiet, hquiet]
    by_cases hs : h.tag = .structureType
    · simp [hs]
    · simp only [hs, decide_false, Bool.false_eq_true, if_false, and_false, decide_eq_true_eq]
      split_ifs <;> rfl
  rw [Item.lines, List.map_cons, List.cons_append, run_cons, startsDie_tagLine, hnull, hentry,
    List.map_append, List.append_assoc]
  simp only [Bool.false_eq_true, and_false, if_true, if_false, Option.elim_some]
  exact run_attrs (fun s _ rest hl => run_line hl s rest)
    (fun a ha depth s => attr_line ha depth s) attr_blank depth h.attrs.plain _ rest

/-- The line that closes a list ends the scan of the structure that is looked for, and leaves
any other. -/
lemma run_null (depth offset : ℕ) :
    s.run n name (((Item.null depth offset).lines.map ended) ++ rest) =
      if s.inStruct = true ∧ s.structMatches = true then s.settled n
      else { s.settled n with inStruct := false }.run n name rest := by
  have hword {w : Str} (hw : w.head? = some 'D') (hnl : '\n' ∉ w) :
      hasSubstr (ended (headLine depth offset "NULL".toList)) w = false :=
    hasSubstr_nullLine depth offset hw hnl
  have hnull (s : StructScan) : s.attr name (ended (headLine depth offset "NULL".toList)) = s :=
    attr_quiet (hasSubstr_nullLine_attr depth offset) s
  have hsettled : (s.settled n).inStruct = s.inStruct ∧
      (s.settled n).structMatches = s.structMatches := by
    rw [settled, pushMember]
    split_ifs <;> exact ⟨rfl, rfl⟩
  have hrest (s : StructScan) : s.run n name (ended [] :: rest) = s.run n name rest := by
    rw [run_line (startsDie_note (by decide)), attr_blank]
  rw [Item.lines, List.map_cons, List.map_singleton, List.cons_append, List.singleton_append,
    run_cons, startsDie_nullLine, hasSubstr_nullLine_null, entry, hnull, hnull,
    hword (w := "DW_TAG_structure_type".toList) (by decide) (by decide),
    hword (w := "DW_TAG_member".toList) (by decide) (by decide), hsettled.1, hsettled.2,
    hasSubstr_nullLine_null]
  cases hin : s.inStruct with
  | false =>
      have hset : { s.settled n with inStruct := false } = s.settled n := by
        rw [← hin, ← hsettled.1]
      rw [hset]
      simp [hrest]
  | true =>
      cases hmatch : s.structMatches with
      | false => simp [hrest, hsettled.2, hmatch]
      | true => simp

/-- Other lines are passed over. -/
lemma run_note {text : Str} (quiet : Unmarked text) :
    s.run n name (((Item.note text quiet).lines.map ended) ++ rest) = s.run n name rest := by
  rw [Item.lines, List.map_singleton, List.singleton_append, run_line (startsDie_note quiet),
    attr_quiet fun w _ => hasSubstr_note quiet (by decide) w]

/-! ### The structure that is looked for -/

/-- The scanner is among the members of the structure. -/
def Inside (s : StructScan) : Prop := s.inStruct = true ∧ s.structMatches = true

/-- The attributes of a member are those it is stored with. -/
lemma foldl_member (h : DieHead) (hin : s.Inside) :
    let s' := h.attrs.list.foldl (read name) { s with member := .zero, readingMember := true }
    s'.Inside ∧ s'.readingMember = true ∧ s'.members = s.members ∧
      s'.member = { h.member with size := 0, isSigned := false } ∧
      s'.byteSize = (h.get Attr.byteSize?).elim s.byteSize BitVec.toNat := by
  -- what no attribute of a member changes
  have hkeep : ∀ t : StructScan, ∀ a ∈ h.attrs.list,
      (t.Inside ∧ t.readingMember = true ∧ t.members = s.members ∧ t.member.size = 0 ∧
        t.member.isSigned = false) →
      (t.read name a).Inside ∧ (t.read name a).readingMember = true ∧
        (t.read name a).members = s.members ∧ (t.read name a).member.size = 0 ∧
        (t.read name a).member.isSigned = false := by
    rintro t a - ⟨⟨hin, hmatch⟩, hread, hms, hsize, hsigned⟩
    cases a <;> simp [read, hin, hmatch, hread, hms, hsize, hsigned, Inside]
  have hfield {α β : Type} (field : StructScan → β) {f : Attr → Option α} (g : α → β)
      {k : AttrKind} (hf : ∀ a, (f a).isSome = true → a.kind = some k)
      (hstep : ∀ (t : StructScan) (a : Attr), t.Inside → t.readingMember = true →
        field (t.read name a) = (f a).elim (field t) g) :=
    h.attrs.foldl_get (read name) field (g := fun v _ => g v) hf
      hkeep (fun t a _ ht => hstep t a ht.1 ht.2.1)
      (s := { s with member := .zero, readingMember := true }) ⟨hin, rfl, rfl, rfl, rfl⟩
  have hname := hfield (fun t => t.member.name) (truncate 64)
    (fun _ => Attr.kind_of_name) (by
      rintro t a ⟨hin, hmatch⟩ hread
      cases a <;> simp [read, hin, hmatch, hread, Attr.name?])
  have htype := hfield (fun t => t.member.type) (truncate 64)
    (fun _ => Attr.kind_of_type) (by
      rintro t a ⟨hin, hmatch⟩ hread
      cases a <;> simp [read, hin, hmatch, hread, Attr.type?])
  have hoff := hfield (fun t => t.member.offset) id (fun _ => Attr.kind_of_memberLocation) (by
      rintro t a ⟨hin, hmatch⟩ hread
      cases a <;> simp [read, hin, hmatch, hread, Attr.memberLocation?])
  have hbytes := hfield StructScan.byteSize BitVec.toNat (fun _ => Attr.kind_of_byteSize) (by
      rintro t a ⟨hin, hmatch⟩ hread
      cases a <;> simp [read, hin, hmatch, hread, Attr.byteSize?])
  obtain ⟨⟨hinside, hread, hms, hsize, hsigned⟩, hname⟩ := hname
  have htrunc (o : Option Str) : o.elim [] (truncate 64) = truncate 64 (o.getD []) := by
    cases o <;> rfl
  have hzero (o : Option (BitVec 64)) : o.elim 0 id = o.getD 0 := by
    cases o <;> rfl
  refine ⟨hinside, hread, hms, ?_, hbytes.2⟩
  rw [StructMember.mk.injEq]
  exact ⟨hname.trans (htrunc _), htype.2.trans (htrunc _), hoff.2.trans (hzero _), hsize, hsigned⟩

/-- Another entry leaves the scanner as it is. -/
lemma foldl_other (h : DieHead) (hin : s.Inside) (hread : s.readingMember = false)
    (hsize : h.get Attr.byteSize? = none) : h.attrs.list.foldl (read name) s = s := by
  have hall := List.findSome?_eq_none_iff.mp hsize
  obtain ⟨hstruct, hmatch⟩ := hin
  generalize h.attrs.list = as at hall ⊢
  induction as with
  | nil => rfl
  | cons a as ih =>
      have hstep : s.read name a = s := by
        cases a with
        | byteSize k => cases hall _ List.mem_cons_self
        | name t =>
            have hsame : { s with structMatches := true } = s := by rw [← hmatch]
            rw [read, if_neg (by simp [hstruct]), if_pos hread]
            split
            · exact hsame
            · rfl
        | _ => simp [read, hread]
      rw [List.foldl_cons, hstep]
      exact ih fun b hb => hall b (List.mem_cons_of_mem a hb)

lemma settled_readingMember (s : StructScan) : (s.settled n).readingMember = false := by
  rw [settled]
  split
  · rfl
  · exact Bool.eq_false_iff.mpr ‹_›

lemma settled_inside (hin : s.Inside) : (s.settled n).Inside := by
  rw [settled, pushMember]
  split_ifs <;> exact hin

lemma settled_byteSize (s : StructScan) : (s.settled n).byteSize = s.byteSize := by
  rw [settled, pushMember]
  split_ifs <;> rfl

/-- The members, when one has been read. -/
lemma settled_members {h : DieHead} (hread : s.readingMember = true)
    (hmember : s.member = { h.member with size := 0, isSigned := false })
    (hlen : s.members.length ≤ n) :
    (s.settled n).members = (s.members ++ [h.member].filter fun m => m.name ≠ []).take n := by
  rw [settled, if_pos hread, pushMember, hmember]
  dsimp only
  by_cases hname : h.member.name = []
  · rw [if_neg (by simp [hname])]
    simp [hname, List.take_of_length_le hlen]
  · have hfilter : ([h.member].filter fun m => decide (m.name ≠ [])) = [h.member] := by
      simp [hname]
    rw [hfilter]
    by_cases hlt : s.members.length < n
    · have hall : (s.members ++ [h.member]).length ≤ n := by
        rw [List.length_append, List.length_singleton]
        omega
      rw [if_pos ⟨hname, hlt⟩, List.take_of_length_le hall]
      rfl
    · rw [if_neg (fun hand => hlt hand.2), List.take_append_of_le_length (by omega),
        List.take_of_length_le hlen]

/-- Nothing is stored beyond the limit. -/
lemma take_take_append {α : Type} (xs ys : List α) :
    (xs.take n ++ ys).take n = (xs ++ ys).take n := by
  rw [List.take_append, List.take_append, List.take_take, List.length_take, Nat.min_self]
  congr 2
  omega

/-- The children of a structure give its members. -/
lemma run_children {cs : List Die} (hflat : ∀ c ∈ cs, c.children = none ∧
      c.head.tag ≠ .structureType ∧ c.head.get Attr.byteSize? = none)
    (depth close : ℕ) (hin : s.Inside) (hlen : (s.settled n).members.length ≤ n) :
    let lines := (Die.itemsList depth cs ++ [Item.null depth close]).flatMap Item.lines
    let s' := s.run n name (lines.map ended ++ rest)
    s'.members = ((s.settled n).members ++
        ((cs.filter fun c => c.head.tag = .member).map fun c => c.head.member).filter
          fun m => m.name ≠ []).take n ∧
      s'.byteSize = s.byteSize := by
  induction cs generalizing s with
  | nil =>
      have hrun := @run_null n name s rest depth close
      rw [if_pos ⟨hin.1, hin.2⟩] at hrun
      simp only [Die.itemsList, List.nil_append, List.flatMap_singleton, List.filter_nil,
        List.map_nil, List.append_nil]
      rw [hrun, List.take_of_length_le hlen, settled_byteSize]
      exact ⟨rfl, rfl⟩
  | cons c cs ih =>
      obtain ⟨hleaf, htag, hsize⟩ := hflat c List.mem_cons_self
      obtain ⟨h, children⟩ := c
      obtain rfl : children = none := hleaf
      have htag : h.tag ≠ .structureType := htag
      have hinside := settled_inside (n := n) hin
      simp only [Die.itemsList, Die.items, List.nil_append, List.cons_append,
        List.flatMap_cons, List.map_append, List.append_assoc]
      rw [run_die]
      -- a member starts a record of its own, which the next line of a tag or the end stores
      by_cases hmember : h.tag = .member
      · obtain ⟨hin', hread', hms', hm', hb'⟩ := @foldl_member name _ h hinside
        have henter : (s.settled n).enter h.tag =
            { s.settled n with member := .zero, readingMember := true } := by
          rw [enter, if_neg htag, if_pos ⟨hinside.1, hinside.2, hmember⟩]
        rw [henter]
        generalize h.attrs.list.foldl (read name)
          { s.settled n with member := .zero, readingMember := true } = s' at *
        have hset := settled_members (n := n) hread' hm' (by rw [hms']; exact hlen)
        obtain ⟨hms, hb⟩ := ih (s := s') (fun c' hc' => hflat c' (List.mem_cons_of_mem _ hc')) hin'
          (by rw [hset]; exact List.length_take_le _ _)
        have hsize : h.get Attr.byteSize? = none := hsize
        refine ⟨?_, by rw [hb, hb', hsize, settled_byteSize]; rfl⟩
        have hcons : ((Die.mk h none :: cs).filter fun c => c.head.tag = .member).map
            (fun c => c.head.member) = [h.member] ++
              (cs.filter fun c => c.head.tag = .member).map fun c => c.head.member := by
          have hpos : decide ((Die.mk h none).head.tag = .member) = true := decide_eq_true hmember
          rw [List.filter_cons_of_pos (p := fun c : Die => decide (c.head.tag = .member)) hpos]
          rfl
        rw [hms, hset, hms', hcons, List.filter_append, ← List.append_assoc]
        exact take_take_append _ _
      -- another entry is passed over
      · have henter : (s.settled n).enter h.tag = s.settled n := by
          rw [enter, if_neg htag, if_neg (fun hand => hmember hand.2.2),
            if_neg (fun hand => by simp [hinside.2] at hand)]
        have hset : (s.settled n).settled n = s.settled n := by
          rw [settled, if_neg (by simp [settled_readingMember])]
        obtain ⟨hms, hb⟩ := ih (s := s.settled n)
          (fun c' hc' => hflat c' (List.mem_cons_of_mem _ hc')) hinside (by rwa [hset])
        rw [henter, foldl_other h hinside (settled_readingMember s) hsize]
        refine ⟨?_, hb.trans (settled_byteSize s)⟩
        rw [hms, hset, List.filter_cons_of_neg (by simp [Die.head, hmember])]

/-! ### The search -/

/-- The scanner has not found the structure yet. -/
structure Idle (s : StructScan) : Prop where
  structMatches : s.structMatches = false
  readingMember : s.readingMember = false
  members : s.members = []

lemma Idle.settled (hs : s.Idle) : s.settled n = s := by
  rw [StructScan.settled, if_neg (by simp [hs.readingMember])]

lemma foldl_outside (as : List Attr) (h : s.inStruct = false) : as.foldl (read name) s = s := by
  induction as with
  | nil => rfl
  | cons a as ih =>
      have hstep : s.read name a = s := by cases a <;> simp [read, h]
      rw [List.foldl_cons, hstep, ih]

/-- A structure is not entered before its name has been read. -/
lemma foldl_unnamed {as : List Attr} (hmatch : s.structMatches = false)
    (hread : s.readingMember = false)
    (h : ∀ a ∈ as, ∀ t, a.name? = some t → truncate 128 t ≠ name) : as.foldl (read name) s = s := by
  induction as with
  | nil => rfl
  | cons a as ih =>
      have hstep : s.read name a = s := by
        cases a with
        | name t => simp [read, hread, h _ List.mem_cons_self t rfl]
        | _ => simp [read, hmatch]
      rw [List.foldl_cons, hstep]
      exact ih fun b hb => h b (List.mem_cons_of_mem a hb)

/-- The structure is entered at its name, and its size is read behind that. -/
lemma foldl_found {h : DieHead} (hstruct : s.inStruct = true) (hmatch : s.structMatches = false)
    (hread : s.readingMember = false) (hsize : s.byteSize = 0)
    (hname : (h.get Attr.name?).map (truncate 128) = some name) :
    let s' := h.attrs.list.foldl (read name) s
    s'.Inside ∧ s'.readingMember = false ∧ s'.members = s.members ∧ s'.byteSize = h.structSize := by
  obtain ⟨t, ht, rfl⟩ := Option.map_eq_some_iff.mp hname
  -- the attributes are split at the name
  obtain ⟨before, a, after, hlist, ha, hbefore⟩ := List.findSome?_eq_some_iff.mp ht
  obtain ⟨u, rfl⟩ : ∃ u, a = .name u := by cases a <;> first | exact ⟨_, rfl⟩ | cases ha
  obtain rfl : u = t := Option.some.inj ha
  have hsub : after.Sublist h.attrs.list := by
    rw [hlist]
    exact (List.sublist_cons_self _ _).trans (List.sublist_append_right _ _)
  have hsize' : h.structSize = ((after.findSome? Attr.byteSize?).getD 0).toNat := by
    rw [DieHead.structSize, hlist, List.dropWhile_append_of_pos (by simpa using hbefore),
      List.dropWhile_cons_of_neg (by simp [Attr.name?]), List.findSome?_cons]
    rfl
  -- behind it only the size is read
  have hfold := Attrs.foldl_get ⟨after, fun b hb => h.attrs.plain b (hsub.subset hb),
      h.attrs.distinct.sublist (hsub.map Attr.key)⟩
    (read (truncate 128 u)) StructScan.byteSize
    (g := fun k _ => k.toNat)
    (P := fun s' => s'.Inside ∧ s'.readingMember = false ∧ s'.members = s.members)
    (fun _ => Attr.kind_of_byteSize)
    (by
      rintro s' b - ⟨⟨hin, hm⟩, hr, hms⟩
      cases b <;> simp [read, hin, hm, hr, hms, Inside]
      split <;> simp [hin, hm, hr, hms])
    (by
      rintro s' b - ⟨⟨hin, hm⟩, hr, -⟩
      cases b <;> simp [read, hin, hm, hr, Attr.byteSize?]
      split <;> rfl)
    (s := { s with structMatches := true }) ⟨⟨hstruct, rfl⟩, hread, rfl⟩
  -- in front of it nothing is
  have hunnamed : before.foldl (read (truncate 128 u)) s = s := by
    refine foldl_unnamed hmatch hread fun b hb t hbt => ?_
    rw [hbefore b hb] at hbt
    cases hbt
  have hstep : s.read (truncate 128 u) (.name u) = { s with structMatches := true } := by
    simp [read, hstruct, hread]
  rw [hlist, List.foldl_append, hunnamed, List.foldl_cons, hstep]
  refine ⟨hfold.1.1, hfold.1.2.1, hfold.1.2.2, ?_⟩
  rw [hfold.2, hsize', hsize]
  cases after.findSome? Attr.byteSize? <;> rfl

/-- What the scanner does on some lines with these entries: it takes the first of them that
is the structure, if that is flat, and stays idle if there is none. -/
structure Finds (n : ℕ) (name : Str) (nodes : List Die) (lines : List Str) : Prop where
  none : ∀ s rest, Idle s → (nodes.find? fun d => d.head.isStruct name) = none →
    ∃ s', Idle s' ∧ s.run n name (lines ++ rest) = s'.run n name rest
  some : ∀ s rest d, Idle s → (nodes.find? fun d => d.head.isStruct name) = some d → d.Flat →
    (s.run n name (lines ++ rest)).members = d.members.take n ∧
      (s.run n name (lines ++ rest)).byteSize = d.head.structSize

lemma Finds.append {nodes nodes' : List Die} {lines lines' : List Str}
    (h : Finds n name nodes lines) (h' : Finds n name nodes' lines') :
    Finds n name (nodes ++ nodes') (lines ++ lines') := by
  constructor
  · intro s rest hs hnone
    rw [List.find?_append, Option.or_eq_none_iff] at hnone
    obtain ⟨s', hs', hrun⟩ := h.none s (lines' ++ rest) hs hnone.1
    obtain ⟨s'', hs'', hrun'⟩ := h'.none s' rest hs' hnone.2
    exact ⟨s'', hs'', by rw [List.append_assoc, hrun, hrun']⟩
  · intro s rest d hs hsome hflat
    rw [List.append_assoc]
    rw [List.find?_append, Option.or_eq_some_iff] at hsome
    rcases hsome with hfirst | ⟨hnone, hsecond⟩
    · exact h.some s _ d hs hfirst hflat
    · obtain ⟨s', hs', hrun⟩ := h.none s (lines' ++ rest) hs hnone
      rw [hrun]
      exact h'.some s' rest d hs' hsecond hflat

lemma finds_null (depth offset : ℕ) :
    Finds n name [] ((Item.null depth offset).lines.map ended) := by
  constructor
  · intro s rest hs _
    refine ⟨{ s with inStruct := false }, ⟨hs.structMatches, hs.readingMember, hs.members⟩, ?_⟩
    rw [run_null, if_neg (by simp [hs.structMatches]), hs.settled]
  · rintro s rest d hs ⟨⟩

lemma finds_note {text : Str} (quiet : Unmarked text) :
    Finds n name [] ((Item.note text quiet).lines.map ended) := by
  constructor
  · exact fun s rest hs _ => ⟨s, hs, run_note quiet⟩
  · rintro s rest d hs ⟨⟩

/-- The scanner stays idle on an entry that is not the structure. -/
lemma idle_die {h : DieHead} (hno : h.isStruct name = false) (hs : s.Idle) (depth : ℕ) :
    ∃ s', Idle s' ∧
      s.run n name ((Item.die depth h).lines.map ended ++ rest) = s'.run n name rest := by
  rw [run_die, hs.settled, enter]
  by_cases htag : h.tag = .structureType
  · rw [if_pos htag]
    have hname : ∀ a ∈ h.attrs.list, ∀ t, a.name? = some t → truncate 128 t ≠ name := by
      intro a ha t hat
      have hone : h.get Attr.name? = some t :=
        h.attrs.get_of_mem (fun _ => Attr.kind_of_name) ha hat
      simpa [DieHead.isStruct, htag, hone] using hno
    rw [foldl_unnamed (s := { s with inStruct := true, structMatches := false, byteSize := 0 }) rfl
      hs.readingMember hname]
    refine ⟨_, ?_, rfl⟩
    exact ⟨rfl, hs.readingMember, hs.members⟩
  · rw [if_neg htag, if_neg (fun hand => by simp [hs.structMatches] at hand)]
    cases hin : s.inStruct with
    | false =>
        rw [if_neg (by simp), foldl_outside _ hin]
        exact ⟨s, hs, rfl⟩
    | true =>
        rw [if_pos ⟨rfl, hs.structMatches⟩, foldl_outside _ rfl]
        refine ⟨_, ?_, rfl⟩
        exact ⟨hs.structMatches, hs.readingMember, hs.members⟩

lemma finds_die {d : Die} (hno : d.head.isStruct name = false) (depth : ℕ) :
    Finds n name [d] ((Item.die depth d.head).lines.map ended) := by
  constructor
  · exact fun s rest hs _ => idle_die hno hs depth
  · intro s rest d' hs hsome
    rw [List.find?_singleton, hno] at hsome
    cases hsome

/-- The structure itself, with its children. -/
lemma found_die {h : DieHead} {cs : List Die} (hstruct : h.isStruct name = true)
    (hflat : (Die.mk h (some cs)).Flat) (hs : s.Idle) (depth : ℕ) :
    let lines := (((Die.mk h (some cs)).items depth).flatMap Item.lines).map ended
    let s' := s.run n name (lines ++ rest)
    s'.members = (Die.mk h (some cs)).members.take n ∧ s'.byteSize = h.structSize := by
  rw [DieHead.isStruct, Bool.and_eq_true, decide_eq_true_eq, decide_eq_true_eq] at hstruct
  obtain ⟨cs', hcs, hflat⟩ := hflat
  obtain rfl : cs = cs' := Option.some.inj hcs
  simp only [Die.items, List.flatMap_cons, List.map_append, List.append_assoc]
  rw [run_die, hs.settled, enter, if_pos hstruct.1]
  obtain ⟨hin, hread, hms, hsize⟩ := foldl_found
    (s := { s with inStruct := true, structMatches := false, byteSize := 0 })
    rfl rfl hs.readingMember rfl hstruct.2
  generalize h.attrs.list.foldl (read name) { s with
    inStruct := true, structMatches := false, byteSize := 0 } = s' at *
  have hnone : (s'.settled n).members = [] := by
    rw [settled, if_neg (by simp [hread]), hms]
    exact hs.members
  obtain ⟨hms', hsize'⟩ := @run_children n name s' rest cs hflat (depth + 1) h.close
    hin (by rw [hnone]; exact Nat.zero_le n)
  exact ⟨by rw [hms', hnone]; rfl, hsize'.trans hsize⟩

mutual

/-- The search in a tree. -/
lemma finds_tree (depth : ℕ) : ∀ d : Die,
    Finds n name d.nodes (((d.items depth).flatMap Item.lines).map ended)
  | .mk h none => by
      rw [Die.nodes, Die.items, List.flatMap_singleton]
      cases hstruct : h.isStruct name with
      | false => exact finds_die (d := .mk h none) hstruct depth
      | true =>
          have hfind : [Die.mk h none].find? (fun d => d.head.isStruct name) = some (.mk h none) :=
            List.find?_cons_of_pos hstruct
          constructor
          · intro s rest hs hnone
            cases hfind.symm.trans hnone
          · intro s rest d hs hsome hflat
            obtain rfl := Option.some.inj (hfind.symm.trans hsome)
            obtain ⟨cs, hcs, -⟩ := hflat
            cases hcs
  | .mk h (some cs) => by
      rw [Die.nodes]
      cases hstruct : h.isStruct name with
      | false =>
          have hall := (finds_die (n := n) (d := .mk h (some cs)) hstruct depth).append
            ((finds_trees (depth + 1) cs).append (finds_null (depth + 1) h.close))
          rw [List.append_nil] at hall
          simpa [Die.items, Die.head] using hall
      | true =>
          have hfind : (Die.mk h (some cs) :: Die.nodesList cs).find?
              (fun d => d.head.isStruct name) = some (.mk h (some cs)) :=
            List.find?_cons_of_pos hstruct
          constructor
          · intro s rest hs hnone
            cases hfind.symm.trans hnone
          · intro s rest d hs hsome hflat
            obtain rfl := Option.some.inj (hfind.symm.trans hsome)
            exact found_die hstruct hflat hs depth

/-- The search in a list of trees. -/
lemma finds_trees (depth : ℕ) : ∀ ds : List Die,
    Finds n name (Die.nodesList ds) (((Die.itemsList depth ds).flatMap Item.lines).map ended)
  | [] => by
      rw [Die.nodesList, Die.itemsList]
      exact ⟨fun s rest hs _ => ⟨s, hs, rfl⟩, fun s rest d hs hsome => by cases hsome⟩
  | d :: ds => by
      rw [Die.nodesList, Die.itemsList, List.flatMap_append, List.map_append]
      exact (finds_tree depth d).append (finds_trees depth ds)

end

/-- The search in a compile unit. -/
lemma finds_unit (u : DumpUnit) :
    Finds n name u.root.nodes ((u.items.flatMap Item.lines).map ended) := by
  have hnotes (ls : List Str) (quiet : ∀ l ∈ ls, Unmarked l) : Finds n name []
      (((ls.attach.map fun l => Item.note l.1 (quiet l.1 l.2)).flatMap Item.lines).map ended) := by
    induction ls with
    | nil => exact ⟨fun s rest hs _ => ⟨s, hs, rfl⟩, fun s rest d hs hsome => by cases hsome⟩
    | cons l ls ih =>
        have hall := (finds_note (n := n) (quiet l List.mem_cons_self)).append
          (ih fun l' hl' => quiet l' (List.mem_cons_of_mem l hl'))
        simpa [List.attach_cons, List.map_map, Function.comp_def] using hall
  have hall := (hnotes u.header u.quiet).append (finds_tree 0 u.root)
  rwa [List.nil_append, ← List.map_append, ← List.flatMap_append] at hall

lemma finds_units (us : List DumpUnit) :
    Finds n name (DumpUnit.allNodes us) ((dumpText us).map ended) := by
  induction us with
  | nil => exact ⟨fun s rest hs _ => ⟨s, hs, rfl⟩, fun s rest d hs hsome => by cases hsome⟩
  | cons u us ih =>
      have hall := (finds_unit (n := n) u).append ih
      rw [dumpText, List.flatMap_cons, List.flatMap_append, List.map_append]
      exact hall

end StructScan

/-- **Structures are looked up as the dump declares them**: the first structure of the name in
the order of the dump, if its children are plain, gives its members in order, as many as the
table holds, and its size; without a structure of that name there are none. -/
theorem dwarfLookupStruct_dump {d : Dbg} {us : List DumpUnit} {name : Str}
    (hinfo : d.debugInfo = some (dumpText us))
    (hfits : ∀ l ∈ dumpText us, l.length + 1 < dwarfLineSize) (hname : name ≠ [])
    (hflat : ∀ x, (DumpUnit.allNodes us).find? (fun e => e.head.isStruct name) = some x → x.Flat) :
    dwarfLookupStruct d name =
      ((DumpUnit.allNodes us).find? fun e => e.head.isStruct name).bind fun x =>
        if x.members = [] then none
        else some (x.members.take maxStructMembers, x.head.structSize) := by
  have hlines : d.debugLines = some ((dumpText us).map ended) := by
    rw [Dbg.debugLines, hinfo, Option.map_some, fgetsAll_of_short hfits]
  have hidle : StructScan.init.Idle := ⟨rfl, rfl, rfl⟩
  have hfinds := @StructScan.finds_units maxStructMembers name us
  rw [dwarfLookupStruct, hlines]
  dsimp only
  rw [if_neg hname]
  cases hfind : (DumpUnit.allNodes us).find? fun e => e.head.isStruct name with
  | none =>
      obtain ⟨s', hs', hrun⟩ := hfinds.none _ [] hidle hfind
      rw [List.append_nil] at hrun
      have hend : (s'.run maxStructMembers name []).members = [] := by
        rw [StructScan.run, if_neg (by simp [hs'.readingMember])]
        exact hs'.members
      rw [hrun, if_pos hend]
      rfl
  | some x =>
      obtain ⟨hmembers, hsize⟩ := hfinds.some _ [] x hidle hfind (hflat x hfind)
      rw [List.append_nil] at hmembers hsize
      rw [hmembers, hsize, Option.bind_some]
      by_cases hnil : x.members = []
      · rw [hnil, if_pos rfl, if_pos List.take_nil]
      · have hne : x.members.take maxStructMembers ≠ [] := by
          rw [Ne, List.take_eq_nil_iff, not_or]
          exact ⟨by decide, hnil⟩
        rw [if_neg hne, if_neg hnil]

/-- A compile unit with two structures. -/
def DumpUnit.sample : DumpUnit where
  header := []
  quiet := List.forall_mem_nil _
  root := .mk ⟨0x0b, .other "compile_unit".toList foreign_compileUnit,
      .ofList [.name "a.c".toList], 0x5a⟩
    (some [.mk ⟨0x2a, .structureType, .ofList [.name "line".toList], 0x2f⟩ (some []),
      .mk ⟨0x30, .structureType, .ofList [.name "point".toList, .byteSize 8], 0x59⟩
        (some [.mk ⟨0x38, .member, .ofList [.name "x".toList, .type 0x60 "int".toList,
            .memberLocation 0], 0⟩ none,
          .mk ⟨0x48, .member, .ofList [.name "y".toList, .type 0x60 "int".toList,
            .memberLocation 4], 0⟩ none])])

/-- A structure of two members. -/
theorem dwarfLookupStruct_sample :
    dwarfLookupStruct { Dbg.init with debugInfo := some (dumpText [DumpUnit.sample]) }
      "point".toList = some ([⟨"x".toList, "int".toList, 0, 4, true⟩,
        ⟨"y".toList, "int".toList, 4, 4, true⟩], 8) := by
  have hflat : ∀ x, (DumpUnit.allNodes [DumpUnit.sample]).find?
      (fun e => e.head.isStruct "point".toList) = some x → x.Flat := by
    intro x hx
    obtain rfl := Option.some.inj (hx.symm.trans rfl)
    refine ⟨_, rfl, fun c hc => ?_⟩
    rcases List.mem_cons.mp hc with rfl | hc
    · exact ⟨rfl, by decide, by decide⟩
    · obtain rfl := List.mem_singleton.mp hc
      exact ⟨rfl, by decide, by decide⟩
  exact (dwarfLookupStruct_dump rfl (by decide) (by decide) hflat).trans (by decide)

end Cdbg
