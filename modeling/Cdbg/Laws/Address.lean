import Cdbg.Laws.Indirection

/-!
Addresses: how `*`, `&`, `->` and subscripts go together.

A pointer that is read from storage comes with the type it points to. The number that an
arithmetic expression or `&` leaves has no such type for `eval_as_pointer`, so what it
points to is taken for eight bytes, and nothing is scaled.
-/

namespace Cdbg

open CString

variable {σ : Type}

/-- Where storage lies, its size and its type. -/
def LValue.place (lv : LValue) : Addr × ℕ × Str := (lv.addr, lv.size, lv.type)

/-- The storage at an address that comes with no type. -/
def LValue.untyped (addr : Addr) : LValue := ⟨addr, 8, false, []⟩

lemma typeScalarSize_of_star {type : Str} (h : '*' ∈ type) : typeScalarSize type = ptrSize :=
  if_pos h

lemma typeElementSize_of_star (d : Dbg) {type : Str} (h : '*' ∈ type) :
    typeElementSize d type = ptrSize := by
  have hscalar : typeIsScalar type = true := by simp [typeIsScalar, h]
  rw [typeElementSize, if_neg (List.ne_nil_of_mem h), if_pos hscalar, typeScalarSize_of_star h]

/-- What `complete_var_type` says about sizes. -/
lemma completeVarType_sizes (d : Dbg) (var : VarInfo) :
    ((completeVarType d var).isArray = true →
      (completeVarType d var).elementSize = typeElementSize d (completeVarType d var).elementType) ∧
    ((completeVarType d var).isArray = false →
      (completeVarType d var).size = typeScalarSize (completeVarType d var).type) := by
  rw [completeVarType]
  split
  · refine ⟨fun _ => rfl, fun h => ?_⟩
    cases h
  · refine ⟨fun h => ?_, fun _ => rfl⟩
    cases h

namespace World

/-! ### Pointers -/

lemma eval_ident (w : World σ) (name : Str) :
    w.eval (.ident name) = ⟨w.identLvalue name, w.identValue name, w.identPointer name⟩ := rfl

/-- A node is an identifier, denotes storage, or denotes a value only. -/
lemma eval_shape (w : World σ) (e : ExprNode) :
    (∃ name, e = .ident name) ∨
      ((∀ name, e ≠ .ident name) ∧ w.eval e = w.storage (w.eval e).lvalue) ∨
      ((∀ name, e ≠ .ident name) ∧ w.eval e = plain (w.eval e).value) := by
  cases e with
  | ident name => exact .inl ⟨name, rfl⟩
  | member | arrow | index | deref => exact .inr (.inl ⟨nofun, rfl⟩)
  | num | unary | binary | addr => exact .inr (.inr ⟨nofun, rfl⟩)

lemma star_notMem_of_loadPointer {w : World σ} {lv : LValue} {p : BitVec 64 × Str}
    (h : w.loadPointer lv = some p) : '*' ∉ p.2 := by
  rw [loadPointer] at h
  split at h
  · obtain ⟨v, -, rfl⟩ := Option.map_eq_some_iff.mp h
    exact star_notMem_stripPointerStar _
  · cases h

lemma star_notMem_of_identPointer {w : World σ} {name : Str} {p : BitVec 64 × Str}
    (h : w.identPointer name = some p) : '*' ∉ p.2 := by
  rw [identPointer] at h
  split at h
  · cases h
  · split at h
    · cases h
    · obtain ⟨v, -, rfl⟩ := Option.map_eq_some_iff.mp h
      exact star_notMem_pointerPointeeType _

/-- The type that a pointer is said to point to is never a pointer. -/
lemma star_notMem_pointer {w : World σ} {e : ExprNode} {p : BitVec 64 × Str}
    (h : (w.eval e).pointer = some p) : '*' ∉ p.2 := by
  rcases w.eval_shape e with ⟨name, rfl⟩ | ⟨-, hs⟩ | ⟨-, hp⟩
  · exact star_notMem_of_identPointer h
  · rw [hs] at h
    obtain ⟨lv, -, hlv⟩ := Option.bind_eq_some_iff.mp h
    exact star_notMem_of_loadPointer hlv
  · rw [hp] at h
    obtain ⟨r, -, rfl⟩ := Option.map_eq_some_iff.mp h
    exact List.not_mem_nil

/-- A member that is a pointer has the size of one. -/
lemma size_of_memberLvalue {w : World σ} {a : Addr} {type name : Str} {lv : LValue}
    (h : w.memberLvalue a type name = some lv) (hstar : '*' ∈ lv.type) : lv.size = ptrSize := by
  obtain ⟨m, hm, rfl⟩ := Option.map_eq_some_iff.mp h
  have hsize := lookupStructMember_size hm
  by_cases hnil : m.type = []
  · rw [hsize, hnil]
    rfl
  · rw [if_neg hnil] at hstar
    rw [hsize, typeScalarSize_of_star hstar]

/-- An element that is a pointer has the size of one. -/
lemma size_of_resolveSubscriptElement {w : World σ} {name : Str} {index : BitVec 64}
    {lv : LValue} (h : w.resolveSubscriptElement name index = some lv) (hstar : '*' ∈ lv.type) :
    lv.size = ptrSize := by
  rw [resolveSubscriptElement] at h
  split at h
  · cases h
  · rename_i var addr hvar
    obtain ⟨raw, -, rfl⟩ := resolveVariableAddress_completed hvar
    split at h
    · rename_i harray
      split at h
      · cases h
      · obtain rfl := Option.some.inj h
        exact ((completeVarType_sizes w.dbg raw).1 harray).trans
          (typeElementSize_of_star w.dbg hstar)
    · split at h
      · split at h
        · cases h
        · obtain rfl := Option.some.inj h
          exact absurd hstar (star_notMem_pointerPointeeType _)
      · cases h

/-- Storage that holds a pointer has its size, but for an identifier, which may be an
array. -/
lemma size_of_lvalue {w : World σ} {e : ExprNode} {lv : LValue} (hident : ∀ name, e ≠ .ident name)
    (h : (w.eval e).lvalue = some lv) (hstar : '*' ∈ lv.type) : lv.size = ptrSize := by
  cases e with
  | ident name => exact absurd rfl (hident name)
  | num | unary | binary | addr => cases h
  | member e name =>
      obtain ⟨base, -, hm⟩ := Option.bind_eq_some_iff.mp h
      exact size_of_memberLvalue hm hstar
  | arrow e name =>
      obtain ⟨p, -, hm⟩ := Option.bind_eq_some_iff.mp h
      exact size_of_memberLvalue hm hstar
  | deref e =>
      obtain ⟨p, hp, rfl⟩ := Option.map_eq_some_iff.mp h
      rw [derefLvalue_type] at hstar
      exact absurd hstar (star_notMem_pointer hp)
  | index e i =>
      obtain ⟨idx, -, he⟩ := Option.bind_eq_some_iff.mp h
      split at he
      · exact size_of_resolveSubscriptElement he hstar
      · obtain ⟨p, hp, rfl⟩ := Option.map_eq_some_iff.mp he
        exact absurd hstar (star_notMem_pointer hp)

/-- An expression that denotes a pointer: a variable or other storage of pointer type, or
a number. -/
def DenotesPointer (w : World σ) : ExprNode → Prop
  | .ident name => ∀ var addr, resolveVariableAddress w.dbg name = some (var, addr) →
      var.isPointer = true ∧ var.isArray = false
  | e => ∀ lv, (w.eval e).lvalue = some lv → '*' ∈ lv.type

lemma DenotesPointer.star {w : World σ} {e : ExprNode} (h : w.DenotesPointer e)
    (hident : ∀ name, e ≠ .ident name) {lv : LValue} (hlv : (w.eval e).lvalue = some lv) :
    '*' ∈ lv.type := by
  cases e with
  | ident name => exact absurd rfl (hident name)
  | num | unary | binary | addr => cases hlv
  | member | arrow | index | deref => exact h lv hlv

/-- Storage of pointer type is read as a number and as a pointer in one way. -/
lemma loadPointer_fst (w : World σ) {lv : LValue} (hstar : '*' ∈ lv.type)
    (hsize : lv.size = ptrSize) :
    (w.loadPointer lv).map Prod.fst = (w.loadValue lv).map ExprResult.value := by
  rw [loadPointer, if_pos hstar, loadValue, hsize, Option.map_map, Option.map_map]
  rfl

/-- An expression that denotes a pointer is read as a number and as a pointer in one way. -/
lemma DenotesPointer.fst {w : World σ} {e : ExprNode} (h : w.DenotesPointer e) :
    (w.eval e).pointer.map Prod.fst = (w.eval e).value.map ExprResult.value := by
  rcases w.eval_shape e with ⟨name, rfl⟩ | ⟨hident, hs⟩ | ⟨-, hp⟩
  · simp only [eval_ident, identPointer, identValue]
    split
    · rfl
    · rename_i var addr hvar
      obtain ⟨hptr, harray⟩ := h var addr hvar
      have hstar : '*' ∈ var.type := by
        rw [resolveVariableAddress_isPointer hvar] at hptr
        exact of_decide_eq_true hptr
      have hsize : var.size = ptrSize := by
        obtain ⟨raw, -, rfl⟩ := resolveVariableAddress_completed hvar
        exact ((completeVarType_sizes w.dbg raw).2 harray).trans (typeScalarSize_of_star hstar)
      rw [if_neg (by rw [hptr]; decide), hsize, Option.map_map, Option.map_map]
      rfl
  · cases hlv : (w.eval e).lvalue with
    | none =>
        rw [hs, hlv]
        rfl
    | some lv =>
        have hstar := h.star hident hlv
        rw [hs, hlv]
        exact w.loadPointer_fst hstar (size_of_lvalue hident hlv hstar)
  · rw [hp]
    exact Option.map_map _ _ _

/-! ### Subscripts and sums -/

/-- The size of the elements a subscript counts in, when the base points to a type. -/
def stride (w : World σ) (e : ExprNode) (type : Str) : ℕ :=
  match e with
  | .ident _ => typeElementSize w.dbg type
  | _ => if type = [] then 8 else typeElementSize w.dbg type

lemma eval_index_match {w : World σ} {i : ExprNode} {idx : ExprResult} (e : ExprNode)
    (hi : (w.eval i).value = some idx) : (w.eval (.index e i)).lvalue = match e with
      | .ident name => w.resolveSubscriptElement name idx.value
      | _ => (w.eval e).pointer.map fun p => w.elementLvalue p idx.value := by
  cases e <;> simp [eval, storage, hi]

/-- A subscript of a pointer lies at the pointer and the index times the stride. -/
lemma eval_index_lvalue {w : World σ} {e i : ExprNode} {idx : ExprResult}
    (he : w.DenotesPointer e) (hi : (w.eval i).value = some idx) :
    (w.eval (.index e i)).lvalue.map LValue.place = (w.eval e).pointer.map fun p =>
      (p.1 + idx.value * BitVec.ofNat 64 (w.stride e p.2), w.stride e p.2, p.2) := by
  rw [eval_index_match e hi]
  cases e with
  | ident name =>
      simp only [resolveSubscriptElement, eval_ident, identPointer]
      split
      · rfl
      · rename_i var addr hvar
        obtain ⟨hptr, harray⟩ := he var addr hvar
        rw [harray, hptr]
        simp only [Bool.false_eq_true, if_false, if_true, Bool.true_eq_false]
        cases w.readScalarValue addr ptrSize <;> rfl
  | num | unary | binary | member | arrow | index | addr | deref =>
      exact Option.map_map _ _ _

/-- A sum has no type, so what it points to is taken for eight bytes. -/
lemma eval_deref_add (w : World σ) (e i : ExprNode) :
    (w.eval (.deref (.binary .add e i))).lvalue =
      (w.eval e).value.bind fun a => (w.eval i).value.map fun b =>
        LValue.untyped (a.value + b.value) := by
  simp only [eval, storage, plain]
  cases (w.eval e).value <;> cases (w.eval i).value <;> rfl

lemma eval_deref_lvalue (w : World σ) (e : ExprNode) :
    (w.eval (.deref e)).lvalue = (w.eval e).pointer.map w.derefLvalue := rfl

/-- How a subscript of a pointer, the sum under `*`, and `*` itself are related: the first
two fail together; else the subscript counts in the size of the type pointed to and has
that type, and the sum counts in bytes and has none. A subscript of zero lies where `*` does
and has its type, and its size unless a variable points to a type that is not known. -/
structure PointerSubscript (w : World σ) (e i : ExprNode) : Prop where
  together : (w.eval (.index e i)).lvalue = none ↔
    (w.eval (.deref (.binary .add e i))).lvalue = none
  places : ∀ p idx, (w.eval e).pointer = some p → (w.eval i).value = some idx →
    (w.eval (.index e i)).lvalue.map LValue.place = some
      (p.1 + idx.value * BitVec.ofNat 64 (w.stride e p.2), w.stride e p.2, p.2) ∧
    (w.eval (.deref (.binary .add e i))).lvalue = some (LValue.untyped (p.1 + idx.value))
  zero : ∀ idx, (w.eval i).value = some idx → idx.value = 0 →
    (w.eval (.index e i)).lvalue.map (fun lv => (lv.addr, lv.type)) =
      (w.eval (.deref e)).lvalue.map (fun lv => (lv.addr, lv.type)) ∧
    ((∀ name, e = .ident name → ∀ p, (w.eval e).pointer = some p → p.2 ≠ []) →
      (w.eval (.index e i)).lvalue.map LValue.place =
        (w.eval (.deref e)).lvalue.map LValue.place)

/-- How a subscript of an array variable, the sum under `*`, and `*` itself are related: the
subscript is the element, and fails exactly if there is none; the sum adds the index to the
bytes that the array starts with; and `*` fails unless the elements are pointers. -/
structure ArraySubscript (w : World σ) (name : Str) (i : ExprNode) (var : VarInfo)
    (addr : Addr) : Prop where
  fails : (w.eval i).value = none → (w.eval (.index (.ident name) i)).lvalue = none ∧
    (w.eval (.deref (.binary .add (.ident name) i))).lvalue = none
  places : ∀ idx, (w.eval i).value = some idx →
    (w.eval (.index (.ident name) i)).lvalue.map LValue.place =
      (if idx.value.toNat < var.arrayCount then
        some (addr + idx.value * BitVec.ofNat 64 var.elementSize, var.elementSize, var.elementType)
      else none) ∧
    (w.eval (.deref (.binary .add (.ident name) i))).lvalue =
      (w.readScalarValue addr var.size).map fun v => LValue.untyped (v + idx.value)
  deref : '*' ∉ var.type → (w.eval (.deref (.ident name))).lvalue = none

lemma derefLvalue_place (w : World σ) (p : BitVec 64 × Str) :
    (w.derefLvalue p).place = (p.1, if p.2 = [] then 8 else typeElementSize w.dbg p.2, p.2) := by
  rw [derefLvalue]
  by_cases h : p.2 = []
  · rw [if_pos h, if_pos h, h]
    rfl
  · rw [if_neg h, if_neg h]
    rfl

lemma stride_eq {w : World σ} {e : ExprNode} {type : Str}
    (h : (∀ name, e ≠ .ident name) ∨ type ≠ []) :
    w.stride e type = if type = [] then 8 else typeElementSize w.dbg type := by
  cases e with
  | ident name =>
      obtain h | h := h
      · exact absurd rfl (h name)
      · exact (if_neg h).symm
  | num | unary | binary | member | arrow | index | addr | deref => rfl

lemma pointerSubscript {w : World σ} {e : ExprNode} (i : ExprNode) (he : w.DenotesPointer e) :
    w.PointerSubscript e i := by
  have hfst := he.fst
  refine ⟨?_, fun p idx hp hidx => ?_, fun idx hidx hzero => ?_⟩
  -- both are defined for the same operands
  · rw [eval_deref_add]
    cases hi : (w.eval i).value with
    | none =>
        have hnone : (w.eval (.index e i)).lvalue = none := by
          simp only [eval, storage, hi, Option.bind_none]
        cases (w.eval e).value <;> simp [hnone]
    | some idx =>
        have hplace := eval_index_lvalue he hi
        have hindex : (w.eval (.index e i)).lvalue = none ↔ (w.eval e).pointer = none := by
          rw [← Option.map_eq_none_iff (f := LValue.place), hplace, Option.map_eq_none_iff]
        rw [hindex, ← Option.map_eq_none_iff (f := Prod.fst), hfst, Option.map_eq_none_iff]
        cases (w.eval e).value <;> simp
  -- the address of the one is scaled, that of the other is not
  · constructor
    · rw [eval_index_lvalue he hidx, hp]
      rfl
    · rw [hp, Option.map_some] at hfst
      obtain ⟨v, hv, hval⟩ := Option.map_eq_some_iff.mp hfst.symm
      rw [eval_deref_add, hv, hidx, ← hval]
      rfl
  -- at index zero they agree
  · have hplace := eval_index_lvalue he hidx
    have hshift : ∀ a b : BitVec 64, a + 0 * b = a := by simp
    simp only [hzero, hshift] at hplace
    constructor
    · have hpair := congrArg (Option.map fun q : Addr × ℕ × Str => (q.1, q.2.2)) hplace
      rw [Option.map_map, Option.map_map] at hpair
      rw [eval_deref_lvalue, Option.map_map]
      refine hpair.trans (congrArg (Option.map · (w.eval e).pointer) (funext fun p => ?_))
      exact (Prod.ext (w.derefLvalue_addr p) (w.derefLvalue_type p)).symm
    · intro hknown
      rw [hplace, eval_deref_lvalue, Option.map_map]
      cases hp : (w.eval e).pointer with
      | none => rfl
      | some p =>
          have hstride : (∀ name, e ≠ .ident name) ∨ p.2 ≠ [] := by
            by_cases h : ∃ name, e = .ident name
            · obtain ⟨name, hname⟩ := h
              exact .inr (hknown name hname p hp)
            · exact .inl fun name hname => h ⟨name, hname⟩
          simp only [Option.map_some, Function.comp, derefLvalue_place, stride_eq hstride]

lemma arraySubscript {w : World σ} {name : Str} (i : ExprNode) {var : VarInfo} {addr : Addr}
    (hvar : resolveVariableAddress w.dbg name = some (var, addr)) (harray : var.isArray = true) :
    w.ArraySubscript name i var addr := by
  refine ⟨fun hi => ?_, fun idx hi => ⟨?_, ?_⟩, fun hstar => ?_⟩
  · rw [eval_deref_add, hi]
    exact ⟨by simp only [eval, storage, hi, Option.bind_none], by
      cases (w.eval (.ident name)).value <;> rfl⟩
  · have hindex : (w.eval (.index (.ident name) i)).lvalue =
        w.resolveSubscriptElement name idx.value := by
      simp only [eval, storage, hi, Option.bind_some]
    rw [hindex, resolveSubscriptElement, hvar]
    simp only [harray, if_true]
    by_cases hlt : idx.value.toNat < var.arrayCount
    · rw [if_neg (Nat.not_le.mpr hlt), if_pos hlt]
      rfl
    · rw [if_pos (Nat.not_lt.mp hlt), if_neg hlt]
      rfl
  · rw [eval_deref_add, hi, eval_ident, identValue, hvar]
    simp only [Option.map_some]
    cases w.readScalarValue addr var.size <;> rfl
  · have hptr : var.isPointer = false := by
      rw [resolveVariableAddress_isPointer hvar]
      exact decide_eq_false hstar
    rw [eval_deref_lvalue, eval_ident, identPointer, hvar]
    simp only [hptr, if_true]
    rfl

end World

/-- **Subscripts and sums**: a subscript of a pointer or of an array is the element, the sum
under `*` is eight bytes at the sum of two numbers. -/
theorem subscript_scales (w : World σ) (e i : ExprNode) :
    (w.DenotesPointer e → w.PointerSubscript e i) ∧
      ∀ name var addr, e = .ident name → resolveVariableAddress w.dbg name = some (var, addr) →
        var.isArray = true → w.ArraySubscript name i var addr :=
  ⟨World.pointerSubscript i, fun _ _ _ _ hvar harray => World.arraySubscript i hvar harray⟩

/-- A variable `int *p` is a pointer. -/
lemma pointerLocal_denotes :
    (stoppedAtLocal "int *" fun _ => 0).DenotesPointer (.ident ['p']) := by
  intro var addr hvar
  have hfound : resolveVariableAddress (stoppedAtLocal "int *" fun _ => 0).dbg ['p'] =
      some (pointerLocal "int *", 8) := by decide +kernel
  rw [hfound] at hvar
  obtain ⟨rfl, -⟩ := Prod.mk.inj (Option.some.inj hvar)
  exact ⟨rfl, rfl⟩

/-- The element `p[1]` of an `int *p` that is null lies at four. -/
theorem subscript_scales_int :
    ((stoppedAtLocal "int *" fun _ => 0).eval
      (.index (.ident ['p']) (.num 1 false))).lvalue.map LValue.place =
        some (4, 4, "int".toList) := by
  have h := (subscript_scales (stoppedAtLocal "int *" fun _ => 0) (.ident ['p'])
    (.num 1 false)).1 pointerLocal_denotes
  exact (h.places (0, "int".toList) ⟨1, false, false, []⟩ (by decide +kernel) rfl).1

/-- The sum under `*` of the same variable is eight bytes at one. -/
theorem subscript_unlike_sum :
    (stoppedAtLocal "int *" fun _ => 0).DenotesPointer (.ident ['p']) ∧
      ((stoppedAtLocal "int *" fun _ => 0).eval
        (.index (.ident ['p']) (.num 1 false))).lvalue.map LValue.place =
          some (4, 4, "int".toList) ∧
      ((stoppedAtLocal "int *" fun _ => 0).eval
        (.deref (.binary .add (.ident ['p']) (.num 1 false)))).lvalue.map LValue.place =
          some (1, 8, []) :=
  ⟨pointerLocal_denotes, by decide +kernel, by decide +kernel⟩

/-! ### Addresses and arrows -/

/-- **Address of**: `*&e` lies where `e` does, but is eight bytes without a sign and without a
type; so it is the same storage exactly if `e` is such storage itself. -/
theorem deref_addr {w : World σ} {e : ExprNode} {lv : LValue}
    (h : (w.eval e).lvalue = some lv) :
    (w.eval (.deref (.addr e))).lvalue = some (LValue.untyped lv.addr) ∧
      (w.eval (.deref (.addr e))).value = w.loadValue (LValue.untyped lv.addr) ∧
      ((w.eval (.deref (.addr e))).lvalue = (w.eval e).lvalue ↔
        lv.size = 8 ∧ lv.isSigned = false ∧ lv.type = []) := by
  have hlv : (w.eval (.deref (.addr e))).lvalue = some (LValue.untyped lv.addr) := by
    rw [World.eval_deref_lvalue, World.eval, h]
    rfl
  refine ⟨hlv, w.eval_deref_value _ hlv, ?_⟩
  rw [hlv, h, Option.some.injEq]
  cases lv
  simp [LValue.untyped, eq_comm]

/-- `*&p` of a null `int *p` is storage at eight. -/
theorem deref_addr_local :
    ((stoppedAtLocal "int *" fun _ => 0).eval (.deref (.addr (.ident ['p'])))).lvalue =
      some (LValue.untyped 8) :=
  (@deref_addr _ (stoppedAtLocal "int *" fun _ => 0) (.ident ['p']) ⟨8, 8, true, "int *".toList⟩
    (by decide +kernel)).1

/-- An `int` is four bytes, and `*&` makes eight of them. -/
theorem deref_addr_widens :
    ((stoppedAtLocal "int" fun _ => 0).eval (.ident ['p'])).lvalue =
        some ⟨8, 4, true, "int".toList⟩ ∧
      ((stoppedAtLocal "int" fun _ => 0).eval (.deref (.addr (.ident ['p'])))).lvalue =
        some ⟨8, 8, false, []⟩ := by
  constructor <;> decide +kernel

/-- **Arrow**: `e->m` and `(*e).m` are evaluated alike, as storage, as a value and as a
pointer, and fail alike. -/
theorem arrow_is_deref_member (w : World σ) (e : ExprNode) (name : Str) :
    w.eval (.arrow e name) = w.eval (.member (.deref e) name) := by
  have hbase : ((w.eval e).pointer.bind fun p => w.memberLvalue p.1 p.2 name) =
      (w.eval (.deref e)).lvalue.bind fun lv => w.memberLvalue lv.addr lv.type name := by
    rw [World.eval_deref_lvalue, Option.bind_map]
    refine congrArg ((w.eval e).pointer.bind ·) (funext fun p => ?_)
    change _ = w.memberLvalue (w.derefLvalue p).addr (w.derefLvalue p).type name
    rw [World.derefLvalue_addr, World.derefLvalue_type]
  exact congrArg w.storage hbase

end Cdbg
