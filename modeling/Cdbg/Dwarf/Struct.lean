import Cdbg.Dwarf.Text

/-!
`dwarf_lookup_struct`, the scanner for the members of a structure, and the
functions that complete the description of a variable with it.
-/

namespace Cdbg

open CString

/-- The local variables of `dwarf_lookup_struct`. -/
structure StructScan where
  inStruct : Bool
  structMatches : Bool
  readingMember : Bool
  member : StructMember
  members : List StructMember
  byteSize : ℕ

/-- Their initial values. -/
def StructScan.init : StructScan := ⟨false, false, false, .zero, [], 0⟩

namespace StructScan

/-- Store the member read last, if it has a name and the table has room. -/
def pushMember (maxMembers : ℕ) (s : StructScan) : StructScan :=
  if s.member.name ≠ [] ∧ s.members.length < maxMembers then
    let member := { s.member with
      size := typeScalarSize s.member.type
      isSigned := ! hasSubstr s.member.type "unsigned".toList }
    { s with members := s.members ++ [member] }
  else s

/-- The effect of a line that gives an attribute. -/
def attr (name line : Str) (s : StructScan) : StructScan :=
  if s.inStruct = false then s
  else if hasSubstr line "DW_AT_name".toList ∧ s.readingMember = false then
    if parseQuotedValue line 128 = some name then { s with structMatches := true } else s
  else if s.structMatches = false then s
  else if hasSubstr line "DW_AT_byte_size".toList then
    match (strchr line '(').bind fun p => strtoull 16 p.tail with
    | some (value, _) => { s with byteSize := value.toNat }
    | none => s
  else if s.readingMember = false then s
  else if hasSubstr line "DW_AT_name".toList then
    match parseQuotedValue line 64 with
    | some n => { s with member := { s.member with name := n } }
    | none => s
  else if hasSubstr line "DW_AT_type".toList then
    match parseQuotedValue line 64 with
    | some t => { s with member := { s.member with type := t } }
    | none => s
  else if hasSubstr line "DW_AT_data_member_location".toList then
    match parseMemberOffset line with
    | some o => { s with member := { s.member with offset := o } }
    | none => s
  else s

/-- What a line that starts an entry does after a member has been stored: `none` ends
the scan. -/
def entry (name line : Str) (s : StructScan) : Option StructScan :=
  if hasSubstr line "DW_TAG_structure_type".toList then
    some { s with inStruct := true, structMatches := false, byteSize := 0 }
  else if s.inStruct ∧ s.structMatches ∧ hasSubstr line "DW_TAG_member".toList then
    some { s with member := .zero, readingMember := true }
  else if s.inStruct ∧ s.structMatches ∧ hasSubstr line "NULL".toList then none
  else if s.inStruct ∧ s.structMatches = false then
    some (attr name line { s with inStruct := false })
  else some (attr name line s)

/-- The loop of `dwarf_lookup_struct`. -/
def run (maxMembers : ℕ) (name : Str) : StructScan → List Str → StructScan
  | s, [] => if s.readingMember then s.pushMember maxMembers else s
  | s, line :: lines =>
      if dwarfStartsDie line then
        let s' := if s.readingMember then
          { s.pushMember maxMembers with member := .zero, readingMember := false } else s
        if s.readingMember ∧ s.inStruct ∧ s.structMatches ∧ hasSubstr line "NULL".toList then s'
        else
          match s'.entry name line with
          | none => s'
          | some s'' => run maxMembers name s'' lines
      else run maxMembers name (s.attr name line) lines

/-- The types the scanner has stored fit the buffer of a member. -/
structure TypesFit (s : StructScan) : Prop where
  member : s.member.type.length ≤ 63
  members : ∀ m ∈ s.members, m.type.length ≤ 63

lemma typesFit_zero {s : StructScan} (h : s.TypesFit) {b : Bool} :
    { s with member := .zero, readingMember := b }.TypesFit := ⟨Nat.zero_le _, h.members⟩

lemma typesFit_pushMember {s : StructScan} (h : s.TypesFit) (n : ℕ) :
    (s.pushMember n).TypesFit := by
  rw [pushMember]
  split
  · refine ⟨h.member, fun m hm => ?_⟩
    rcases List.mem_append.mp hm with hm | hm
    · exact h.members m hm
    · rw [List.mem_singleton.mp hm]
      exact h.member
  · exact h

lemma typesFit_attr {s : StructScan} (h : s.TypesFit) (name line : Str) :
    (s.attr name line).TypesFit := by
  rw [attr]
  repeat' split
  all_goals first
    | exact h
    | exact ⟨h.member, h.members⟩
    | exact ⟨parseQuotedValue_length ‹_›, h.members⟩

lemma typesFit_entry {s s' : StructScan} (h : s.TypesFit) {name line : Str}
    (hs : s.entry name line = some s') : s'.TypesFit := by
  rw [entry] at hs
  split_ifs at hs
  · rw [← Option.some.inj hs]
    exact ⟨h.member, h.members⟩
  · rw [← Option.some.inj hs]
    exact typesFit_zero h
  · rw [← Option.some.inj hs]
    exact typesFit_attr (s := { s with inStruct := false }) ⟨h.member, h.members⟩ name line
  · rw [← Option.some.inj hs]
    exact typesFit_attr h name line

/-- What the scanner does with the member read last when an entry starts. -/
def settled (maxMembers : ℕ) (s : StructScan) : StructScan :=
  if s.readingMember then { s.pushMember maxMembers with member := .zero, readingMember := false }
  else s

lemma run_cons (n : ℕ) (name line : Str) (s : StructScan) (lines : List Str) :
    s.run n name (line :: lines) =
      if dwarfStartsDie line then
        if s.readingMember ∧ s.inStruct ∧ s.structMatches ∧ hasSubstr line "NULL".toList then
          s.settled n
        else ((s.settled n).entry name line).elim (s.settled n) fun s' => s'.run n name lines
      else (s.attr name line).run n name lines := by
  change (if dwarfStartsDie line then
      if s.readingMember ∧ s.inStruct ∧ s.structMatches ∧ hasSubstr line "NULL".toList then
        s.settled n
      else match (s.settled n).entry name line with
        | none => s.settled n
        | some s' => s'.run n name lines
    else (s.attr name line).run n name lines) = _
  cases (s.settled n).entry name line <;> rfl

/-- What storing a member, clearing it, and the lines that give attributes and start
entries preserve, the whole loop does. -/
lemma run_induct {n : ℕ} {name : Str} {P : StructScan → Prop}
    (hpush : ∀ s, P s → P (s.pushMember n))
    (hclear : ∀ s, P s → P { s with member := .zero, readingMember := false })
    (hattr : ∀ s line, P s → P (s.attr name line))
    (hentry : ∀ s s' line, P s → s.entry name line = some s' → P s') (lines : List Str) :
    ∀ s, P s → P (s.run n name lines) := by
  have hsettled : ∀ s, P s → P (s.settled n) := by
    intro s h
    rw [settled]
    split
    · exact hclear _ (hpush s h)
    · exact h
  induction lines with
  | nil =>
      intro s h
      rw [run]
      split
      · exact hpush s h
      · exact h
  | cons line lines ih =>
      intro s h
      rw [run_cons]
      split_ifs
      · exact hsettled s h
      · cases hs : entry name line (s.settled n) with
        | none => exact hsettled s h
        | some s' => exact ih s' (hentry _ s' line (hsettled s h) hs)
      · exact ih _ (hattr s line h)

lemma typesFit_run {n : ℕ} {name : Str} {lines : List Str} {s : StructScan} (h : s.TypesFit) :
    (s.run n name lines).TypesFit :=
  run_induct (P := TypesFit) (fun _ hs => typesFit_pushMember hs n) (fun _ hs => typesFit_zero hs)
    (fun _ line hs => typesFit_attr hs name line) (fun _ _ _ hs he => typesFit_entry hs he)
    lines s h

lemma attr_members (s : StructScan) (name line : Str) :
    (s.attr name line).members = s.members := by
  rw [attr]
  repeat' split
  all_goals rfl

lemma entry_members {s s' : StructScan} {name line : Str} (h : s.entry name line = some s') :
    s'.members = s.members := by
  rw [entry] at h
  split_ifs at h
  · rw [← Option.some.inj h]
  · rw [← Option.some.inj h]
  · rw [← Option.some.inj h, attr_members]
  · rw [← Option.some.inj h, attr_members]

/-- The size of a stored member is the one its type is taken to have. -/
lemma run_members_size {n : ℕ} {name : Str} {lines : List Str} {s : StructScan}
    (h : ∀ m ∈ s.members, m.size = typeScalarSize m.type) :
    ∀ m ∈ (s.run n name lines).members, m.size = typeScalarSize m.type := by
  refine run_induct (P := fun s => ∀ m ∈ s.members, m.size = typeScalarSize m.type)
    (fun s hs => ?_) (fun _ hs => hs) (fun s line hs => ?_) (fun s s' line hs he => ?_) lines s h
  · rw [pushMember]
    split
    · intro m hm
      rcases List.mem_append.mp hm with hm | hm
      · exact hs m hm
      · rw [List.mem_singleton.mp hm]
    · exact hs
  · rwa [attr_members]
  · rwa [entry_members he]

end StructScan

/-- `CDBG_MAX_STRUCT_MEMBERS`. -/
def maxStructMembers : ℕ := 32

/-- `dwarf_lookup_struct`: the members of a structure and its size. -/
def dwarfLookupStruct (d : Dbg) (name : Str) : Option (List StructMember × ℕ) :=
  match d.debugLines with
  | none => none
  | some lines =>
      if name = [] then none
      else
        let s := StructScan.init.run maxStructMembers name lines
        if s.members = [] then none else some (s.members, s.byteSize)

/-- `lookup_struct_member`: offset, size, signedness and type of a member. -/
def lookupStructMember (d : Dbg) (structType memberName : Str) : Option StructMember :=
  match dwarfLookupStruct d structType with
  | none => none
  | some (members, _) => members.find? fun m => m.name = memberName

/-- A member that is found is one that the loop has stored. -/
lemma lookupStructMember_stored {d : Dbg} {structType name : Str} {m : StructMember}
    (h : lookupStructMember d structType name = some m) :
    ∃ lines, m ∈ (StructScan.init.run maxStructMembers structType lines).members := by
  rw [lookupStructMember, dwarfLookupStruct] at h
  split at h
  · cases h
  · rename_i hlookup
    split at hlookup
    · cases hlookup
    · dsimp only at hlookup
      split_ifs at hlookup
      obtain ⟨rfl, -⟩ := Prod.mk.inj (Option.some.inj hlookup)
      exact ⟨_, List.mem_of_find?_eq_some h⟩

/-- A member's type fits its buffer. -/
lemma lookupStructMember_type_length {d : Dbg} {structType name : Str} {m : StructMember}
    (h : lookupStructMember d structType name = some m) : m.type.length ≤ 63 := by
  obtain ⟨lines, hm⟩ := lookupStructMember_stored h
  exact (StructScan.typesFit_run ⟨Nat.zero_le _, by simp [StructScan.init]⟩).members m hm

lemma lookupStructMember_size {d : Dbg} {structType name : Str} {m : StructMember}
    (h : lookupStructMember d structType name = some m) : m.size = typeScalarSize m.type := by
  obtain ⟨lines, hm⟩ := lookupStructMember_stored h
  exact StructScan.run_members_size (by simp [StructScan.init]) m hm

/-- `type_element_size`. -/
def typeElementSize (d : Dbg) (type : Str) : ℕ :=
  if type = [] then 0
  else if typeIsScalar type then typeScalarSize type
  else
    match dwarfLookupStruct d type with
    | some (_, byteSize) => if 0 < byteSize then byteSize else ptrSize
    | none => ptrSize

/-- `complete_var_type`. -/
def completeVarType (d : Dbg) (var : VarInfo) : VarInfo :=
  let var := { var with
    isPointer := '*' ∈ var.type
    isSigned := ! hasSubstr var.type "unsigned".toList }
  match parseArrayType var.type 128 with
  | some (elementType, arrayCount) =>
      let elementSize := typeElementSize d elementType
      { var with
        isArray := true
        elementType := elementType
        arrayCount := arrayCount
        elementSize := elementSize
        size := elementSize * arrayCount % 2 ^ 64
        pointeeSize := elementSize }
  | none =>
      let pointeeSize := typePointeeSize var.type
      { var with
        isArray := false
        elementType := []
        arrayCount := 0
        elementSize := 0
        size := typeScalarSize var.type
        pointeeSize := if pointeeSize = 0 then ptrSize else pointeeSize }

lemma completeVarType_type (d : Dbg) (var : VarInfo) :
    (completeVarType d var).type = var.type := by
  rw [completeVarType]
  split <;> rfl

lemma completeVarType_isPointer (d : Dbg) (var : VarInfo) :
    (completeVarType d var).isPointer = decide ('*' ∈ var.type) := by
  rw [completeVarType]
  split <;> rfl

/-- A type without a bracket is no array, and its size is guessed from its name. -/
lemma completeVarType_scalar (d : Dbg) {var : VarInfo} (h : '[' ∉ var.type) :
    (completeVarType d var).isArray = false ∧
      (completeVarType d var).size = typeScalarSize var.type := by
  rw [completeVarType, parseArrayType_eq_none h]
  exact ⟨rfl, rfl⟩

end Cdbg
