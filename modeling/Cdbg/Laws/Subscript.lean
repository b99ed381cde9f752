import Cdbg.Laws.Indirection
import Cdbg.Lib.Numeral

/-!
Subscripts of arrays.

`World.Denotes` says where an expression lies and what its type is in C, given the
variables, the members of structures and the sizes of types: a variable, a member
reached through `.` and `->`, an element of an array or of what a pointer points to. The
debugger computes the address of an element of an array only where the array is a
variable and has one dimension: it drops all dimensions but the first from the type, and
takes every other array for a pointer.
-/

namespace Cdbg

open CString

variable {σ : Type}

/-! ### The text of array and pointer types -/

/-- The dimensions of an array type, as `dwarfdump` prints them. -/
def dimsText (dims : List ℕ) : Str := dims.flatMap fun n => '[' :: (Nat.toDigits 10 n ++ [']'])

/-- The type `T[n1]...[nk]`. -/
def arrayText (elem : Str) (dims : List ℕ) : Str := elem ++ dimsText dims

/-- The type of pointers to a type. -/
def pointerTo (type : Str) : Str :=
  if type.getLast? = some '*' then type ++ ['*'] else type ++ [' ', '*']

/-- A type that is no array: not empty, no dimensions, no blank at the end. -/
structure ElementType (type : Str) : Prop where
  ne_nil : type ≠ []
  no_bracket : '[' ∉ type
  no_blank : NoTrailingBlank type

lemma arrayText_nil (elem : Str) : arrayText elem [] = elem := List.append_nil elem

lemma arrayText_cons (elem : Str) (n : ℕ) (ns : List ℕ) :
    arrayText elem (n :: ns) = elem ++ '[' :: (Nat.toDigits 10 n ++ ']' :: dimsText ns) := by
  simp [arrayText, dimsText]

lemma star_notMem_dimsText (dims : List ℕ) : '*' ∉ dimsText dims := by
  intro h
  obtain ⟨n, _, hn⟩ := List.mem_flatMap.mp h
  rcases List.mem_cons.mp hn with h | hn
  · exact absurd h (by decide)
  · rcases List.mem_append.mp hn with hn | hn
    · have := digitValue_lt_of_mem_toDigits (by decide : 1 < 10) (by decide) n _ hn
      exact absurd this (by decide)
    · exact absurd (List.mem_singleton.mp hn) (by decide)

lemma star_mem_arrayText {elem : Str} {dims : List ℕ} :
    '*' ∈ arrayText elem dims ↔ '*' ∈ elem := by
  rw [arrayText, List.mem_append]
  exact or_iff_left (star_notMem_dimsText dims)

lemma length_arrayText_le (elem : Str) (dims : List ℕ) :
    elem.length ≤ (arrayText elem dims).length := by
  rw [arrayText, List.length_append]
  exact Nat.le_add_right _ _

lemma arrayText_eq_elem {elem : Str} {dims : List ℕ} : arrayText elem dims = elem ↔ dims = [] := by
  cases dims with
  | nil => simp [arrayText_nil]
  | cons n ns => simp [arrayText_cons]

/-- `parse_array_type` finds the element type and the first dimension. -/
lemma parseArrayType_arrayText {elem : Str} (h : ElementType elem) (n : ℕ) (ns : List ℕ)
    (len : ℕ) : ∃ count, parseArrayType (arrayText elem (n :: ns)) len =
      some (truncate len elem, count) ∧ (n < 2 ^ 64 → count = n) := by
  have hne : '[' :: (Nat.toDigits 10 n ++ ']' :: dimsText ns) ≠
      elem ++ '[' :: (Nat.toDigits 10 n ++ ']' :: dimsText ns) := by
    intro heq
    have := congrArg List.length heq
    rw [List.length_append] at this
    exact h.ne_nil (List.length_eq_zero_iff.mp (by omega))
  have hnum : strtoull 10 (Nat.toDigits 10 n ++ ']' :: dimsText ns) = _ :=
    strtoull_decimal n (noDigit_cons.mpr (by decide))
  rw [arrayText_cons, parseArrayType, strchr_append h.no_bracket]
  simp only [if_neg hne, List.tail_cons, hnum, takeWhile_ne_append h.no_bracket]
  refine ⟨_, rfl, fun hn => ?_⟩
  rw [if_neg (by omega), BitVec.toNat_ofNat, Nat.mod_eq_of_lt hn]

lemma star_mem_pointerTo (type : Str) : '*' ∈ pointerTo type := by
  rw [pointerTo]
  split <;> simp

lemma bracket_notMem_pointerTo {type : Str} (h : '[' ∉ type) : '[' ∉ pointerTo type := by
  rw [pointerTo]
  split <;> simp [h]

lemma length_pointerTo (type : Str) : type.length ≤ (pointerTo type).length := by
  rw [pointerTo]
  split <;> simp

/-- Stripping the star of a pointer to a type without stars leaves that type. -/
lemma beforeStar_pointerTo {type : Str} (h : NoTrailingBlank type) (hstar : '*' ∉ type) :
    beforeStar (pointerTo type) = type := by
  have hlast : type.getLast? ≠ some '*' := fun h => hstar (List.mem_of_getLast? h)
  have happ : type ++ [' ', '*'] = (type ++ [' ']) ++ '*' :: [] := by simp
  have hblank : '*' ∉ type ++ [' '] := by simp [hstar]
  rw [pointerTo, if_neg hlast, beforeStar, happ, takeWhile_ne_append hblank,
    dropTrailingBlanks_append_blank, dropTrailingBlanks_eq_self h]

/-! ### Where an expression lies in C -/

lemma ExprNode.ident_or_ne (e : ExprNode) :
    (∃ name, e = .ident name) ∨ ∀ name, e ≠ .ident name := by
  cases e with
  | ident name => exact .inl ⟨name, rfl⟩
  | _ => exact .inr fun _ h => by cases h

namespace World

/-- The address and the type an expression has in C. `size` gives the sizes of types. -/
inductive Denotes (w : World σ) (size : Str → ℕ) : ExprNode → Addr → Str → Prop
  | ident {name : Str} {var : VarInfo} {addr : Addr}
      (hvar : resolveVariableAddress w.dbg name = some (var, addr)) :
      Denotes w size (.ident name) addr var.type
  | member {e : ExprNode} {a : Addr} {type name : Str} {m : StructMember}
      (he : Denotes w size e a type) (htype : ElementType type) (hstar : '*' ∉ type)
      (hm : lookupStructMember w.dbg type name = some m) (hne : m.type ≠ []) :
      Denotes w size (.member e name) (a + m.offset) m.type
  | arrow {e : ExprNode} {a p : Addr} {type name : Str} {m : StructMember}
      (he : Denotes w size e a (pointerTo type)) (htype : ElementType type) (hstar : '*' ∉ type)
      (hp : w.readScalarValue a ptrSize = some p)
      (hm : lookupStructMember w.dbg type name = some m) (hne : m.type ≠ []) :
      Denotes w size (.arrow e name) (p + m.offset) m.type
  | element {e i : ExprNode} {a : Addr} {type : Str} {n : ℕ} {ns : List ℕ} {idx : ExprResult}
      (he : Denotes w size e a (arrayText type (n :: ns))) (htype : ElementType type)
      (hi : (w.eval i).value = some idx) (hlt : idx.value.toNat < n) :
      Denotes w size (.index e i) (a + idx.value * BitVec.ofNat 64 (ns.prod * size type))
        (arrayText type ns)
  | pointee {e i : ExprNode} {a p : Addr} {type : Str} {idx : ExprResult}
      (he : Denotes w size e a (pointerTo type)) (htype : ElementType type)
      (hp : w.readScalarValue a ptrSize = some p) (hi : (w.eval i).value = some idx) :
      Denotes w size (.index e i) (p + idx.value * BitVec.ofNat 64 (size type)) type
  | deref {e : ExprNode} {a p : Addr} {type : Str}
      (he : Denotes w size e a (pointerTo type)) (htype : ElementType type)
      (hp : w.readScalarValue a ptrSize = some p) :
      Denotes w size (.deref e) p type

variable {w : World σ} {size : Str → ℕ} {e i : ExprNode} {a : Addr} {type : Str}

lemma Denotes.length_le (h : w.Denotes size e a type) : type.length ≤ 127 := by
  induction h with
  | ident hvar => exact resolveVariableAddress_type_length hvar
  | member _ _ _ hm _ _ => exact (lookupStructMember_type_length hm).trans (by decide)
  | arrow _ _ _ _ hm _ _ => exact (lookupStructMember_type_length hm).trans (by decide)
  | @element _ _ _ type n ns _ _ _ _ _ ih =>
      rw [arrayText_cons] at ih
      simp only [List.length_append, List.length_cons] at ih
      rw [arrayText, List.length_append]
      omega
  | pointee _ _ _ _ ih => exact (length_pointerTo _).trans ih
  | deref _ _ _ ih => exact (length_pointerTo _).trans ih

lemma Denotes.ident_inv {name : Str} (h : w.Denotes size (.ident name) a type) :
    ∃ var, resolveVariableAddress w.dbg name = some (var, a) ∧ var.type = type := by
  cases h with
  | ident hvar => exact ⟨_, hvar, rfl⟩

/-- The pointer that an expression other than a variable holds is read from its storage. -/
lemma Denotes.pointer_eq (h : w.Denotes size e a type) (hident : ∀ name, e ≠ .ident name) :
    (w.eval e).pointer = (w.eval e).lvalue.bind w.loadPointer := by
  cases h with
  | ident _ => exact absurd rfl (hident _)
  | _ => rfl

/-- The type the debugger shows for storage of a type: that type, or without its
dimensions, or without its stars. -/
def Shows (shown type : Str) : Prop :=
  shown = type ∨ ('[' ∈ type ∧ shown = type.takeWhile (· ≠ '[')) ∨ ('*' ∉ shown ∧ '*' ∈ type)

lemma Shows.eq_of_plain {shown : Str} (h : Shows shown type) (hb : '[' ∉ type)
    (hs : '*' ∉ type) : shown = type := by
  rcases h with h | ⟨h, _⟩ | ⟨_, h⟩
  · exact h
  · exact absurd h hb
  · exact absurd h hs

lemma Shows.star_mem {shown : Str} (h : Shows shown type) (hs : '*' ∈ shown) : '*' ∈ type := by
  rcases h with rfl | ⟨_, rfl⟩ | ⟨h, _⟩
  · exact hs
  · exact (List.takeWhile_sublist _).subset hs
  · exact absurd hs h

/-- Stripping the star of a pointer type shows the type pointed to. -/
lemma shows_stripPointerStar (h : ElementType type) (hlen : type.length ≤ 127) :
    Shows (stripPointerStar (pointerTo type)) type := by
  by_cases hstar : '*' ∈ type
  · exact .inr (.inr ⟨star_notMem_stripPointerStar _, hstar⟩)
  · refine .inl ?_
    rw [stripPointerStar_of_mem (star_mem_pointerTo type),
      beforeStar_pointerTo h.no_blank hstar]
    exact List.take_of_length_le hlen

lemma loadPointer_eq_some {lv : LValue} {p : BitVec 64 × Str} (h : w.loadPointer lv = some p) :
    '*' ∈ lv.type ∧ p.2 = stripPointerStar lv.type := by
  rw [loadPointer] at h
  split at h
  · obtain ⟨ptr, _, rfl⟩ := Option.map_eq_some_iff.mp h
    exact ⟨‹_›, rfl⟩
  · cases h

lemma pointerPointeeType_of_mem {var : VarInfo} (h : '*' ∈ var.type) :
    pointerPointeeType var = stripPointerStar var.type := by
  rw [pointerPointeeType, stripPointerStar, if_pos h, if_pos h]

/-- The type behind a pointer, as the debugger sees it. -/
lemma Denotes.pointer_type {p : BitVec 64 × Str} (h : w.Denotes size e a (pointerTo type))
    (htype : ElementType type)
    (hshows : ∀ lv, (w.eval e).lvalue = some lv → Shows lv.type (pointerTo type))
    (hp : (w.eval e).pointer = some p) : p.2 = stripPointerStar (pointerTo type) := by
  rcases e.ident_or_ne with ⟨name, rfl⟩ | hident
  · obtain ⟨var, hvar, hvt⟩ := h.ident_inv
    have hptr : w.identPointer name = some p := hp
    simp only [identPointer, hvar] at hptr
    split at hptr
    · cases hptr
    · obtain ⟨ptr, _, rfl⟩ := Option.map_eq_some_iff.mp hptr
      rw [← hvt]
      exact pointerPointeeType_of_mem (hvt ▸ star_mem_pointerTo type)
  · rw [h.pointer_eq hident] at hp
    obtain ⟨lv, hlv, hload⟩ := Option.bind_eq_some_iff.mp hp
    obtain ⟨hstar, hp2⟩ := loadPointer_eq_some hload
    rcases hshows lv hlv with heq | ⟨hb, _⟩ | ⟨hno, _⟩
    · rw [hp2, heq]
    · exact absurd hb (bracket_notMem_pointerTo htype.no_bracket)
    · exact absurd hstar hno

/-- A subscript of a variable that is an array. -/
lemma resolveSubscript_array (w : World σ) {name : Str} {var : VarInfo} {addr : Addr} {n : ℕ}
    {ns : List ℕ} (index : BitVec 64) (hvar : resolveVariableAddress w.dbg name = some (var, addr))
    (htype : ElementType type) (hvt : var.type = arrayText type (n :: ns)) :
    ∃ count, (n < 2 ^ 64 → count = n) ∧ w.resolveSubscriptElement name index =
      if count ≤ index.toNat then none
      else some ⟨addr + index * BitVec.ofNat 64 (typeElementSize w.dbg type),
        typeElementSize w.dbg type, typeIsSigned type, type⟩ := by
  obtain ⟨raw, hlen, rfl⟩ := resolveVariableAddress_completed hvar
  rw [completeVarType_type] at hvt
  obtain ⟨count, hparse, hcount⟩ := parseArrayType_arrayText htype n ns 128
  have hcut : truncate 128 type = type := by
    have := length_arrayText_le type (n :: ns)
    exact List.take_of_length_le (by rw [← hvt] at this; omega)
  rw [← hvt, hcut] at hparse
  refine ⟨count, hcount, ?_⟩
  simp only [resolveSubscriptElement, hvar, completeVarType, hparse, if_true]

/-- A subscript of a variable that is a pointer. -/
lemma resolveSubscript_pointer {name : Str} {var : VarInfo} {addr : Addr} {index : BitVec 64}
    {lv : LValue} (hvar : resolveVariableAddress w.dbg name = some (var, addr))
    (htype : ElementType type) (hvt : var.type = pointerTo type)
    (h : w.resolveSubscriptElement name index = some lv) :
    lv.type = stripPointerStar (pointerTo type) := by
  have hptr := resolveVariableAddress_isPointer hvar
  obtain ⟨raw, hlen, rfl⟩ := resolveVariableAddress_completed hvar
  have hraw : raw.type = pointerTo type := (completeVarType_type w.dbg raw).symm.trans hvt
  have hparse : parseArrayType raw.type 128 = none :=
    parseArrayType_eq_none (hraw ▸ bracket_notMem_pointerTo htype.no_bracket) 128
  have harray : (completeVarType w.dbg raw).isArray = false := by
    simp only [completeVarType, hparse]
  have hstar : '*' ∈ (completeVarType w.dbg raw).type := hvt ▸ star_mem_pointerTo type
  simp only [resolveSubscriptElement, hvar, harray, hptr, hstar, decide_true, if_true,
    Bool.false_eq_true, if_false] at h
  split at h
  · cases h
  · rw [← Option.some.inj h, ← hvt]
    exact pointerPointeeType_of_mem hstar

lemma eval_index_of_ne {e i : ExprNode} {lv : LValue} (hident : ∀ name, e ≠ .ident name)
    (h : (w.eval (.index e i)).lvalue = some lv) :
    ∃ idx p, (w.eval i).value = some idx ∧ (w.eval e).pointer = some p ∧
      lv = w.elementLvalue p idx.value := by
  have hbind : (w.eval (.index e i)).lvalue = (w.eval i).value.bind fun idx =>
      (w.eval e).pointer.map fun p => w.elementLvalue p idx.value := by
    cases e <;> first | rfl | exact absurd rfl (hident _)
  rw [hbind] at h
  obtain ⟨idx, hidx, hmap⟩ := Option.bind_eq_some_iff.mp h
  obtain ⟨p, hp, rfl⟩ := Option.map_eq_some_iff.mp hmap
  exact ⟨idx, p, hidx, hp, rfl⟩

lemma eval_index_ident {name : Str} {i : ExprNode} {idx : ExprResult}
    (hi : (w.eval i).value = some idx) :
    (w.eval (.index (.ident name) i)).lvalue = w.resolveSubscriptElement name idx.value := by
  simp only [eval, storage, hi, Option.bind_some]

/-- An element of an array that is no variable has lost its stars. -/
lemma star_notMem_element {i : ExprNode} {lv : LValue} (h : w.Denotes size e a type)
    (hident : ∀ name, e ≠ .ident name) (hlv : (w.eval (.index e i)).lvalue = some lv) :
    '*' ∉ lv.type ∧ ∃ base, (w.eval e).lvalue = some base ∧ '*' ∈ base.type := by
  obtain ⟨idx, p, -, hp, rfl⟩ := eval_index_of_ne hident hlv
  rw [h.pointer_eq hident] at hp
  obtain ⟨base, hbase, hload⟩ := Option.bind_eq_some_iff.mp hp
  obtain ⟨hstar, hp2⟩ := loadPointer_eq_some hload
  refine ⟨?_, base, hbase, hstar⟩
  change '*' ∉ p.2
  rw [hp2]
  exact star_notMem_stripPointerStar _

/-- A member of storage with a known type has the type of the member. -/
lemma memberLvalue_type {base : Addr} {name : Str} {m : StructMember} {lv : LValue}
    (hm : lookupStructMember w.dbg type name = some m) (hne : m.type ≠ [])
    (h : w.memberLvalue base type name = some lv) : lv.type = m.type := by
  rw [memberLvalue, hm, Option.map_some, if_neg hne] at h
  rw [← Option.some.inj h]

/-- The pointer to an object of a plain type leads to that type. -/
lemma Denotes.pointer_plain {p : BitVec 64 × Str} (h : w.Denotes size e a (pointerTo type))
    (htype : ElementType type) (hstar : '*' ∉ type)
    (hshows : ∀ lv, (w.eval e).lvalue = some lv → Shows lv.type (pointerTo type))
    (hp : (w.eval e).pointer = some p) : p.2 = type :=
  (h.pointer_type htype hshows hp).trans
    ((shows_stripPointerStar htype ((length_pointerTo type).trans h.length_le)).eq_of_plain
      htype.no_bracket hstar)

/-- The element of an array: of a variable it has the type behind all dimensions, and of
another expression it has lost its stars. -/
lemma Denotes.shows_element {n : ℕ} {ns : List ℕ} {idx : ExprResult}
    (h : w.Denotes size e a (arrayText type (n :: ns))) (htype : ElementType type)
    (hi : (w.eval i).value = some idx)
    (hshows : ∀ lv, (w.eval e).lvalue = some lv → Shows lv.type (arrayText type (n :: ns)))
    {lv : LValue} (hlv : (w.eval (.index e i)).lvalue = some lv) :
    Shows lv.type (arrayText type ns) := by
  rcases e.ident_or_ne with ⟨name, rfl⟩ | hident
  · obtain ⟨var, hvar, hvt⟩ := h.ident_inv
    obtain ⟨count, -, hres⟩ := w.resolveSubscript_array idx.value hvar htype hvt
    rw [eval_index_ident hi, hres] at hlv
    have htypes : lv.type = type := by
      split at hlv
      · cases hlv
      · rw [← Option.some.inj hlv]
    cases ns with
    | nil => exact .inl (htypes.trans (arrayText_nil type).symm)
    | cons m ms =>
        refine .inr (.inl ⟨by simp [arrayText_cons], ?_⟩)
        rw [arrayText_cons, takeWhile_ne_append htype.no_bracket, htypes]
  · obtain ⟨hno, base, hbase, hstar⟩ := star_notMem_element h hident hlv
    have hmem := star_mem_arrayText.mp ((hshows base hbase).star_mem hstar)
    exact .inr (.inr ⟨hno, star_mem_arrayText.mpr hmem⟩)

/-- What a subscripted pointer points to: the type behind the pointer. -/
lemma Denotes.pointee_type {idx : ExprResult} (h : w.Denotes size e a (pointerTo type))
    (htype : ElementType type) (hi : (w.eval i).value = some idx)
    (hshows : ∀ lv, (w.eval e).lvalue = some lv → Shows lv.type (pointerTo type))
    {lv : LValue} (hlv : (w.eval (.index e i)).lvalue = some lv) :
    lv.type = stripPointerStar (pointerTo type) := by
  rcases e.ident_or_ne with ⟨name, rfl⟩ | hident
  · obtain ⟨var, hvar, hvt⟩ := h.ident_inv
    rw [eval_index_ident hi] at hlv
    exact resolveSubscript_pointer hvar htype hvt hlv
  · obtain ⟨_, q, _, hq, rfl⟩ := eval_index_of_ne hident hlv
    exact h.pointer_type htype hshows hq

/-- The debugger's type of an expression, where it evaluates it at all, is its type in C
up to dimensions and stars. -/
lemma Denotes.shows (h : w.Denotes size e a type) :
    ∀ lv, (w.eval e).lvalue = some lv → Shows lv.type type := by
  induction h with
  | @ident name var addr hvar =>
      intro lv hlv
      have hid : w.identLvalue name = some lv := hlv
      simp only [identLvalue, hvar] at hid
      split at hid
      · cases hid
      · exact .inl (by rw [← Option.some.inj hid])
  | @member e _ type name m _ htype hstar hm hne ih =>
      intro lv hlv
      obtain ⟨base, hbase, hmem⟩ := Option.bind_eq_some_iff.mp hlv
      have heq : base.type = type := (ih base hbase).eq_of_plain htype.no_bracket hstar
      exact .inl (memberLvalue_type (heq ▸ hm) hne hmem)
  | @arrow e _ p type name m he htype hstar _ hm hne ih =>
      intro lv hlv
      obtain ⟨q, hq, hmem⟩ := Option.bind_eq_some_iff.mp hlv
      have heq : q.2 = type := he.pointer_plain htype hstar ih hq
      exact .inl (memberLvalue_type (heq ▸ hm) hne hmem)
  | element he htype hi _ ih => exact fun lv hlv => he.shows_element htype hi ih hlv
  | @pointee e i _ p type idx he htype _ hi ih =>
      intro lv hlv
      rw [he.pointee_type htype hi ih hlv]
      exact shows_stripPointerStar htype ((length_pointerTo type).trans he.length_le)
  | @deref e _ p type he htype _ ih =>
      intro lv hlv
      obtain ⟨q, hq, rfl⟩ := Option.map_eq_some_iff.mp hlv
      rw [derefLvalue_type, he.pointer_type htype ih hq]
      exact shows_stripPointerStar htype ((length_pointerTo type).trans he.length_le)

/-- An element of an array is addressed as in C. -/
def ElementHonoured (w : World σ) (size : Str → ℕ) (e i : ExprNode) (a : Addr) (type : Str)
    (ns : List ℕ) (index : BitVec 64) : Prop :=
  ∃ lv, (w.eval (.index e i)).lvalue = some lv ∧
    lv.addr = a + index * BitVec.ofNat 64 (ns.prod * size type) ∧
    lv.type = arrayText type ns ∧ (ns = [] → lv.size = size type)

end World

/-- **Subscripts of arrays**: an element of an array `T[n1]...[nk]` is addressed as in C
exactly if the array is a variable of one dimension and `type_element_size` is right about
the size of `T`. -/
theorem element_honoured {w : World σ} {size : Str → ℕ} {e i : ExprNode} {a : Addr}
    {type : Str} {n : ℕ} {ns : List ℕ} {idx : ExprResult} (htype : ElementType type)
    (hn : n < 2 ^ 64) (he : w.Denotes size e a (arrayText type (n :: ns)))
    (hi : (w.eval i).value = some idx) (hlt : idx.value.toNat < n) :
    w.ElementHonoured size e i a type ns idx.value ↔
      (∃ name, e = .ident name) ∧ ns = [] ∧ typeElementSize w.dbg type = size type := by
  rcases e.ident_or_ne with ⟨name, rfl⟩ | hident
  · obtain ⟨var, hvar, hvt⟩ := he.ident_inv
    obtain ⟨count, hcount, hres⟩ := w.resolveSubscript_array idx.value hvar htype hvt
    rw [hcount hn, if_neg (by omega), ← World.eval_index_ident hi] at hres
    constructor
    · rintro ⟨lv, hlv, -, hshown, hsize⟩
      obtain rfl := Option.some.inj (hres.symm.trans hlv)
      have hns : ns = [] := arrayText_eq_elem.mp hshown.symm
      exact ⟨⟨name, rfl⟩, hns, hsize hns⟩
    · rintro ⟨-, rfl, hsize⟩
      refine ⟨_, hres, ?_, (arrayText_nil type).symm, fun _ => hsize⟩
      rw [hsize, List.prod_nil, Nat.one_mul]
  · refine ⟨fun ⟨lv, hlv, _, hshown, _⟩ => ?_, fun ⟨⟨name, hname⟩, _⟩ => absurd hname (hident name)⟩
    obtain ⟨hno, base, hbase, hstar⟩ := World.star_notMem_element he hident hlv
    have hmem := star_mem_arrayText.mp ((he.shows base hbase).star_mem hstar)
    exact absurd (hshown ▸ star_mem_arrayText.mpr hmem) hno

/-- The variable that the debugger finds with an array type. -/
def arrayLocal (type : String) (count : ℕ) : VarInfo where
  name := ['p']
  type := type.toList
  elementType := "int".toList
  fbregOffset := 8
  base := .sp
  size := 4 * count
  elementSize := 4
  pointeeSize := 4
  arrayCount := count
  hasLocation := true
  isPointer := false
  isSigned := true
  isArray := true

lemma elementType_int : ElementType "int".toList := ⟨by decide, by decide, by decide⟩

/-- The array denotes its storage. -/
lemma denotes_arrayLocal {type : String} (count : ℕ) {dims : List ℕ}
    (hvar : resolveVariableAddress (stoppedAtLocal type fun _ => 0).dbg ['p'] =
      some (arrayLocal type count, 8)) (htype : type.toList = arrayText "int".toList dims) :
    (stoppedAtLocal type fun _ => 0).Denotes (fun _ => 4) (.ident ['p']) 8
      (arrayText "int".toList dims) := by
  rw [← htype]
  exact .ident hvar

/-- `p[1]` where `p` is an `int[3]`. -/
theorem element_honoured_int : (stoppedAtLocal "int[3]" fun _ => 0).ElementHonoured (fun _ => 4)
    (.ident ['p']) (.num 1 false) 8 "int".toList [] 1 :=
  (@element_honoured _ _ (fun _ => 4) (.ident ['p']) (.num 1 false) 8 _ 3 [] ⟨1, false, false, []⟩
    elementType_int (by decide)
    (denotes_arrayLocal 3 (by decide +kernel) (by decide +kernel)) rfl (by decide)).mpr
    ⟨⟨_, rfl⟩, rfl, by decide +kernel⟩

/-- `p[1]` where `p` is an `int[2][3]` is taken for an `int` eight bytes too low. -/
theorem element_misplaced :
    (stoppedAtLocal "int[2][3]" fun _ => 0).Denotes (fun _ => 4) (.ident ['p']) 8
      (arrayText "int".toList [2, 3]) ∧
    ¬ (stoppedAtLocal "int[2][3]" fun _ => 0).ElementHonoured (fun _ => 4) (.ident ['p'])
      (.num 1 false) 8 "int".toList [3] 1 ∧
    ((stoppedAtLocal "int[2][3]" fun _ => 0).eval
      (.index (.ident ['p']) (.num 1 false))).lvalue = some ⟨12, 4, true, "int".toList⟩ := by
  have heval : ((stoppedAtLocal "int[2][3]" fun _ => 0).eval
      (.index (.ident ['p']) (.num 1 false))).lvalue = some ⟨12, 4, true, "int".toList⟩ := by
    decide +kernel
  refine ⟨denotes_arrayLocal 2 (by decide +kernel) (by decide +kernel), ?_, heval⟩
  rintro ⟨lv, hlv, haddr, -⟩
  rw [heval] at hlv
  rw [← Option.some.inj hlv] at haddr
  exact absurd haddr (by decide)

end Cdbg
