import Cdbg.Dwarf.Text
import Cdbg.Lib.Substring

/-!
Debugging information entries (DIEs), and how `dwarfdump --debug-info` prints them.

An entry has an offset, a tag, attributes of different names and, for some tags, a list of
children. It is printed as a line with its offset, blanks for its depth and its tag, then
one line for each attribute and a blank line; a list of children is closed by a line `NULL`.
The texts of an entry have no line breaks in them and none of the words by which the scanners
tell the lines apart.
-/

namespace Cdbg

open CString

/-! ### Words -/

/-- The words by which the scanners tell the lines apart, and the end of a line. -/
def lineMarkers : List Str := ["\n".toList, "DW_TAG_".toList, "NULL".toList, "DW_AT_".toList]

/-- A text with none of these words. -/
def Unmarked (s : Str) : Prop := ∀ w ∈ lineMarkers, hasSubstr s w = false

instance (s : Str) : Decidable (Unmarked s) :=
  inferInstanceAs (Decidable (∀ w ∈ lineMarkers, hasSubstr s w = false))

/-- The tags that the scanners look for, without `DW_TAG_`. -/
def tagNames : List Str :=
  ["structure_type".toList, "member".toList, "subprogram".toList, "variable".toList,
    "formal_parameter".toList, "lexical_block".toList]

/-- The attributes that the scanners look for. -/
inductive AttrKind
  | name
  | type
  | byteSize
  | memberLocation
  | lowPc
  | highPc
  | location
  deriving DecidableEq

namespace AttrKind

/-- The name of such an attribute, without `DW_AT_`. -/
def text : AttrKind → Str
  | name => "name".toList
  | type => "type".toList
  | byteSize => "byte_size".toList
  | memberLocation => "data_member_location".toList
  | lowPc => "low_pc".toList
  | highPc => "high_pc".toList
  | location => "location".toList

end AttrKind

/-- The names of all of them. -/
def attrNames : List Str :=
  [.name, .type, .byteSize, .memberLocation, .lowPc, .highPc, .location].map AttrKind.text

/-- A name of a tag or an attribute that does not begin with one of those looked for. -/
def Foreign (names : List Str) (s : Str) : Prop := Unmarked s ∧ ∀ w ∈ names, ¬ w <+: s

instance (names : List Str) (s : Str) : Decidable (Foreign names s) :=
  inferInstanceAs (Decidable (_ ∧ _))

/-! ### Entries -/

/-- The tag of an entry. -/
inductive Tag
  | structureType
  | member
  | subprogram
  | variable_
  | formalParameter
  | lexicalBlock
  | other (name : Str) (foreign : Foreign tagNames name)
  deriving DecidableEq

/-- The name of a tag, without `DW_TAG_`. -/
def Tag.name : Tag → Str
  | structureType => "structure_type".toList
  | member => "member".toList
  | subprogram => "subprogram".toList
  | variable_ => "variable".toList
  | formalParameter => "formal_parameter".toList
  | lexicalBlock => "lexical_block".toList
  | other name _ => name

/-- What is printed of a tag. -/
def Tag.text (t : Tag) : Str := "DW_TAG_".toList ++ t.name

lemma Tag.text_eq (t : Tag) : t.text = "DW_TAG_".toList ++ t.name := rfl

/-- `printf ("%+lld", n)`. -/
def signedText (n : BitVec 64) : Str :=
  (if n.toInt < 0 then '-' else '+') :: Nat.toDigits 10 n.toInt.natAbs

/-- The location of a variable: an offset from the frame base, from a register, or an
address. -/
inductive Place
  | fbreg (offset : BitVec 64)
  | sp (offset : BitVec 64)
  | x29 (offset : BitVec 64)
  | addr (a : Addr)
  | other (text : Str) (plain : Unmarked text ∧ hasSubstr text "DW_OP_fbreg".toList = false ∧
      hasSubstr text "DW_OP_breg".toList = false ∧ hasSubstr text "DW_OP_addr".toList = false)
  deriving DecidableEq

/-- What is printed of a location. -/
def Place.text : Place → Str
  | fbreg offset => "DW_OP_fbreg".toList ++ ' ' :: signedText offset
  | sp offset => "DW_OP_breg31".toList ++ ' ' :: ("WSP".toList ++ signedText offset)
  | x29 offset => "DW_OP_breg29".toList ++ ' ' :: ("W29".toList ++ signedText offset)
  | addr a => "DW_OP_addr".toList ++ ' ' :: hexText 0 a.toNat
  | other text _ => text

section

variable (n : BitVec 64)

lemma Place.text_fbreg : (fbreg n).text = "DW_OP_fbreg".toList ++ ' ' :: signedText n := rfl

lemma Place.text_sp :
    (sp n).text = "DW_OP_breg31".toList ++ ' ' :: ("WSP".toList ++ signedText n) := rfl

lemma Place.text_x29 :
    (x29 n).text = "DW_OP_breg29".toList ++ ' ' :: ("W29".toList ++ signedText n) := rfl

lemma Place.text_addr : (addr n).text = "DW_OP_addr".toList ++ ' ' :: hexText 0 n.toNat := rfl

@[simp] lemma Place.text_other {s : Str} (plain) : (other s plain).text = s := rfl

end

/-- What the scanners make of a location: the register and the offset. Of a location
relative to `x29` they take the number of the register for the offset. -/
def Place.read : Place → Option (VarBase × ℤ)
  | fbreg offset => some (.fb, offset.toInt)
  | sp offset => some (.sp, offset.toInt)
  | x29 _ => some (.x29, 29)
  | addr _ => none
  | other _ _ => none

/-- An attribute with its value. -/
inductive Attr
  | name (n : Str)
  | type (ref : BitVec 64) (t : Str)
  | byteSize (n : BitVec 64)
  | memberLocation (n : BitVec 64)
  | lowPc (addr : Addr)
  | highPc (addr : Addr)
  | location (place : Place)
  | other (key value : Str)
  deriving DecidableEq

namespace Attr

/-- Which of the attributes that are looked for it is. -/
def kind : Attr → Option AttrKind
  | name _ => some .name
  | type _ _ => some .type
  | byteSize _ => some .byteSize
  | memberLocation _ => some .memberLocation
  | lowPc _ => some .lowPc
  | highPc _ => some .highPc
  | location _ => some .location
  | other _ _ => none

/-- The name of an attribute, without `DW_AT_`. -/
def key : Attr → Str
  | name _ => AttrKind.name.text
  | type _ _ => AttrKind.type.text
  | byteSize _ => AttrKind.byteSize.text
  | memberLocation _ => AttrKind.memberLocation.text
  | lowPc _ => AttrKind.lowPc.text
  | highPc _ => AttrKind.highPc.text
  | location _ => AttrKind.location.text
  | other key _ => key

/-- What is printed of the value. -/
def value : Attr → Str
  | name n => '"' :: (n ++ ['"'])
  | type ref t => hexText 8 ref.toNat ++ (' ' :: '"' :: (t ++ ['"']))
  | byteSize n => hexText 2 n.toNat
  | memberLocation n => hexText 2 n.toNat
  | lowPc addr => hexText 16 addr.toNat
  | highPc addr => hexText 16 addr.toNat
  | location place => place.text
  | other _ value => value

/-- The value of `DW_AT_name`. -/
def name? : Attr → Option Str
  | name n => some n
  | _ => none

/-- The type that `DW_AT_type` shows. -/
def type? : Attr → Option Str
  | type _ t => some t
  | _ => none

/-- The value of `DW_AT_byte_size`. -/
def byteSize? : Attr → Option (BitVec 64)
  | byteSize n => some n
  | _ => none

/-- The value of `DW_AT_data_member_location`. -/
def memberLocation? : Attr → Option (BitVec 64)
  | memberLocation n => some n
  | _ => none

/-- The value of `DW_AT_low_pc`. -/
def lowPc? : Attr → Option Addr
  | lowPc a => some a
  | _ => none

/-- The value of `DW_AT_high_pc`. -/
def highPc? : Attr → Option Addr
  | highPc a => some a
  | _ => none

/-- The value of `DW_AT_location`. -/
def place? : Attr → Option Place
  | location p => some p
  | _ => none

/-- What is printed of an attribute. -/
def text (a : Attr) : Str :=
  "DW_AT_".toList ++ (a.key ++ ('\t' :: '(' :: (a.value ++ [')'])))

lemma text_eq (a : Attr) :
    a.text = "DW_AT_".toList ++ (a.key ++ ('\t' :: '(' :: (a.value ++ [')']))) := rfl

/-- The line of an attribute of an entry of this depth. -/
def line (depth : ℕ) (a : Attr) : Str := List.replicate (2 * depth + 14) ' ' ++ a.text

/-- The texts of an attribute are free of markers, and quoted ones of quotes. -/
def Plain : Attr → Prop
  | name n => '"' ∉ n ∧ Unmarked n
  | type _ t => '"' ∉ t ∧ Unmarked t
  | other key value => Foreign attrNames key ∧ Unmarked value
  | _ => True

instance instDecidablePlain (a : Attr) : Decidable a.Plain := by
  unfold Plain
  cases a <;> dsimp only <;> infer_instance

end Attr

/-- The attributes of an entry, no two of one name. -/
structure Attrs where
  list : List Attr
  plain : ∀ a ∈ list, a.Plain
  distinct : (list.map Attr.key).Nodup
  deriving DecidableEq

/-- Those of some attributes that can be listed, each name once. -/
def listable (as : List Attr) : List Attr :=
  (as.filter fun a => a.Plain).pwFilter fun a b => a.key ≠ b.key

lemma plain_of_listable {as : List Attr} : ∀ a ∈ listable as, a.Plain := by
  intro a ha
  exact of_decide_eq_true (List.mem_filter.mp (List.pwFilter_subset _ ha)).2

lemma nodup_listable (as : List Attr) : ((listable as).map Attr.key).Nodup :=
  List.pairwise_map.mpr (List.pairwise_pwFilter _)

/-- The attributes of an entry, from a list of attributes. -/
def Attrs.ofList (as : List Attr) : Attrs := ⟨listable as, plain_of_listable, nodup_listable as⟩

/-- An entry without its children. The `NULL` that closes the list of its children has an
offset of its own. -/
structure DieHead where
  offset : ℕ
  tag : Tag
  attrs : Attrs
  close : ℕ
  deriving DecidableEq

/-- The value of an attribute. -/
def DieHead.get {α : Type} (h : DieHead) (f : Attr → Option α) : Option α :=
  h.attrs.list.findSome? f

/-- An entry with the list of its children, if it has one. -/
inductive Die
  | mk (head : DieHead) (children : Option (List Die))

namespace Die

def head : Die → DieHead
  | mk head _ => head

def children : Die → Option (List Die)
  | mk _ children => children

end Die

/-- A compile unit: the lines above it and its entry. -/
structure DumpUnit where
  header : List Str
  quiet : ∀ l ∈ header, Unmarked l
  root : Die

/-! ### The dump -/

/-- What a dump lists: an entry, the end of a list of children, or another line. -/
inductive Item
  | die (depth : ℕ) (head : DieHead)
  | null (depth offset : ℕ)
  | note (text : Str) (quiet : Unmarked text)

mutual

/-- The items of a tree, in the order of the dump. -/
def Die.items (depth : ℕ) : Die → List Item
  | .mk head none => [.die depth head]
  | .mk head (some cs) =>
      .die depth head :: (Die.itemsList (depth + 1) cs ++ [.null (depth + 1) head.close])

/-- The items of a list of trees. -/
def Die.itemsList (depth : ℕ) : List Die → List Item
  | [] => []
  | d :: ds => d.items depth ++ Die.itemsList depth ds

end

/-- The items of a compile unit. -/
def DumpUnit.items (u : DumpUnit) : List Item :=
  (u.header.attach.map fun l => .note l.1 (u.quiet l.1 l.2)) ++ u.root.items 0

/-- The line of an entry: its offset, a colon, blanks for the depth, and a word. -/
def headLine (depth offset : ℕ) (word : Str) : Str :=
  hexText 8 offset ++ (':' :: (List.replicate (2 * depth + 1) ' ' ++ word))

/-- The lines of an item. -/
def Item.lines : Item → List Str
  | die depth h =>
      headLine depth h.offset h.tag.text :: (h.attrs.list.map (Attr.line depth) ++ [[]])
  | null depth offset => [headLine depth offset "NULL".toList, []]
  | note text _ => [text]

/-- What `dwarfdump --debug-info` prints. -/
def dumpText (us : List DumpUnit) : List Str := (us.flatMap DumpUnit.items).flatMap Item.lines

end Cdbg
