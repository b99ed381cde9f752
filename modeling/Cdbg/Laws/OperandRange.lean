import Cdbg.Laws.Indirection
import Cdbg.Lib.WordRange
import Cdbg.Machine.Calls

/-!
What an expression can have for a value, judged by its literals and by the debugging
information alone.

A literal has one value, and storage has as many bytes as its type, whatever they hold.
`Dbg.range` carries such ranges through the operators of `combine_binary` and `eval_value`; it
is empty for an expression that fails, whatever the memory holds.
-/

namespace Cdbg

variable {σ : Type}

/-! ### Sizes and types -/

/-- What the debugging information says of an expression: the size and the type of the storage
it denotes, and the type it points to. -/
structure StaticType where
  storage : Option (ℕ × Str)
  pointee : Option Str
  deriving DecidableEq, Repr

namespace Dbg

/-- The type of storage, which is a pointer if its type has a star. -/
def typeOfStorage (storage : Option (ℕ × Str)) : StaticType where
  storage := storage
  pointee := storage.bind fun s => if '*' ∈ s.2 then some (stripPointerStar s.2) else none

/-- The storage of a member. -/
def memberStorage (d : Dbg) (baseType name : Str) : Option (ℕ × Str) :=
  (lookupStructMember d baseType name).map fun m =>
    (m.size, if m.type = [] then baseType else m.type)

/-- The storage that a pointer points to. -/
def pointeeStorage (d : Dbg) (pointee : Str) : ℕ × Str :=
  (if pointee = [] then 8 else typeElementSize d pointee, pointee)

/-- The storage of an element of a variable. -/
def elementStorage (d : Dbg) (name : Str) : Option (ℕ × Str) :=
  match resolveVariableAddress d name with
  | none => none
  | some (var, _) =>
      if var.isArray then some (var.elementSize, var.elementType)
      else if var.isPointer then
        some (typeElementSize d (pointerPointeeType var), pointerPointeeType var)
      else none

/-- The type of a node, as far as it does not depend on the memory of the debuggee. -/
def staticType (d : Dbg) : ExprNode → StaticType
  | .num _ _ | .unary _ _ | .binary _ _ _ | .addr _ => ⟨none, some []⟩
  | .ident name =>
      match resolveVariableAddress d name with
      | none => ⟨none, none⟩
      | some (var, _) =>
          ⟨if var.isArray then none else some (var.size, var.type),
            if var.isPointer = false then none else some (pointerPointeeType var)⟩
  | .member e name =>
      typeOfStorage ((d.staticType e).storage.bind fun s => d.memberStorage s.2 name)
  | .arrow e name => typeOfStorage ((d.staticType e).pointee.bind fun t => d.memberStorage t name)
  | .index e _ =>
      typeOfStorage (match e with
        | .ident name => d.elementStorage name
        | _ => (d.staticType e).pointee.map d.pointeeStorage)
  | .deref e => typeOfStorage ((d.staticType e).pointee.map d.pointeeStorage)

end Dbg

/-- The evaluations of a node are of its static type. -/
structure Evals.Has (v : Evals) (t : StaticType) : Prop where
  storage : ∀ lv ∈ v.lvalue, t.storage = some (lv.size, lv.type)
  pointee : ∀ p ∈ v.pointer, t.pointee = some p.2

namespace World

variable {w : World σ}

lemma has_storage {lv : Option LValue} {s : Option (ℕ × Str)}
    (h : ∀ l ∈ lv, s = some (l.size, l.type)) : (w.storage lv).Has (Dbg.typeOfStorage s) := by
  refine ⟨h, fun p hp => ?_⟩
  obtain ⟨l, hl, hp⟩ := Option.bind_eq_some_iff.mp hp
  rw [loadPointer] at hp
  split at hp
  · rename_i hstar
    obtain ⟨ptr, -, rfl⟩ := Option.map_eq_some_iff.mp hp
    simp [Dbg.typeOfStorage, h l hl, hstar]
  · cases hp

lemma has_plain (v : Option ExprResult) : (plain v).Has ⟨none, some []⟩ := by
  refine ⟨fun lv h => absurd h (Option.not_mem_none lv), fun p hp => ?_⟩
  obtain ⟨r, -, rfl⟩ := Option.map_eq_some_iff.mp hp
  rfl

lemma memberStorage_eq {a : Addr} {t name : Str} {lv : LValue}
    (h : w.memberLvalue a t name = some lv) :
    w.dbg.memberStorage t name = some (lv.size, lv.type) := by
  obtain ⟨m, hm, rfl⟩ := Option.map_eq_some_iff.mp h
  rw [Dbg.memberStorage, hm]
  rfl

lemma elementStorage_eq {name : Str} {i : BitVec 64} {lv : LValue}
    (h : w.resolveSubscriptElement name i = some lv) :
    w.dbg.elementStorage name = some (lv.size, lv.type) := by
  rw [resolveSubscriptElement] at h
  rw [Dbg.elementStorage]
  cases hvar : resolveVariableAddress w.dbg name with
  | none => simp [hvar] at h
  | some r =>
      obtain ⟨var, addr⟩ := r
      rw [hvar] at h
      dsimp only at h ⊢
      -- an array has elements up to its count, a pointer where it can be loaded
      split_ifs at h ⊢ with harray hcount hptr
      · obtain rfl := Option.some.inj h
        rfl
      · split at h
        · cases h
        · obtain rfl := Option.some.inj h
          rfl

lemma has_ident (name : Str) : (w.eval (.ident name)).Has (w.dbg.staticType (.ident name)) := by
  cases hvar : resolveVariableAddress w.dbg name with
  | none =>
      constructor
      · intro lv h
        simp [eval, identLvalue, hvar] at h
      · intro p h
        simp [eval, identPointer, hvar] at h
  | some r =>
  obtain ⟨var, addr⟩ := r
  constructor
  · intro lv h
    rw [Option.mem_def, eval, identLvalue, hvar] at h
    rw [Dbg.staticType, hvar]
    dsimp only at h ⊢
    split at h
    · cases h
    · rename_i harray
      obtain rfl := Option.some.inj h
      rw [if_neg harray]
  · intro p h
    rw [Option.mem_def, eval, identPointer, hvar] at h
    rw [Dbg.staticType, hvar]
    dsimp only at h ⊢
    split at h
    · cases h
    · rename_i hpointer
      obtain ⟨ptr, -, rfl⟩ := Option.map_eq_some_iff.mp h
      rw [if_neg hpointer]

/-- What a node evaluates to is of its static type. -/
lemma has_staticType (w : World σ) (e : ExprNode) : (w.eval e).Has (w.dbg.staticType e) := by
  induction e with
  | num | unary | binary | addr => exact has_plain _
  | ident name => exact has_ident name
  | member e name ih =>
      refine has_storage fun l hl => ?_
      obtain ⟨lv, hlv, hl⟩ := Option.bind_eq_some_iff.mp hl
      rw [ih.storage lv hlv, Option.bind_some]
      exact memberStorage_eq hl
  | arrow e name ih =>
      refine has_storage fun l hl => ?_
      obtain ⟨p, hp, hl⟩ := Option.bind_eq_some_iff.mp hl
      rw [ih.pointee p hp, Option.bind_some]
      exact memberStorage_eq hl
  | index e i ihe _ =>
      refine has_storage fun l hl => ?_
      obtain ⟨idx, -, hl⟩ := Option.bind_eq_some_iff.mp hl
      cases e with
      | ident name => exact elementStorage_eq hl
      | _ =>
          obtain ⟨p, hp, rfl⟩ := Option.map_eq_some_iff.mp hl
          dsimp only
          rw [ihe.pointee p hp]
          rfl
  | deref e ih =>
      refine has_storage fun l hl => ?_
      obtain ⟨p, hp, rfl⟩ := Option.map_eq_some_iff.mp hl
      rw [ih.pointee p hp, Option.map_some, Dbg.pointeeStorage, derefLvalue]
      split
      · rename_i hempty
        rw [hempty]
      · rfl

end World

/-! ### Ranges of values -/

/-- Whether a node is a floating-point literal with signs before it. -/
def ExprNode.isFloat : ExprNode → Bool
  | .num _ isFloat => isFloat
  | .unary .pos e | .unary .neg e => e.isFloat
  | _ => false

namespace ExprOp

open WordRange

/-- The results of a binary operator on operands of two ranges. -/
def binaryRange (op : ExprOp) (r s : WordRange 64) : WordRange 64 :=
  match op with
  | .add => r.add s
  | .sub => r.sub s
  | .mul => r.mul s
  | .div => r.div s
  | .mod => r.mod s
  | .shl => r.shl s
  | .shr => r.shr s
  | .band => r.and s
  | .bxor | .bor => r.or s
  | .lt | .gt | .le | .ge | .eq | .ne | .land | .lor => upTo 1
  | .pos | .neg | .not | .bnot => all

/-- The results of a unary operator on an operand of a range. -/
def unaryRange (op : ExprOp) (isFloat : Bool) (r : WordRange 64) : WordRange 64 :=
  match op with
  | .pos => r
  | .neg => if isFloat then all else r.neg
  | .not => upTo 1
  | .bnot => r.not
  | _ => all

end ExprOp

namespace Dbg

/-- The words that so many bytes hold. -/
def loadedRange (size : ℕ) : WordRange 64 := .upTo (256 ^ scalarWidth size - 1)

/-- The values that a node can have. -/
def range (d : Dbg) : ExprNode → WordRange 64
  | .num number _ => .single number
  | .ident name =>
      match resolveVariableAddress d name with
      | none => .empty
      | some (var, _) => loadedRange var.size
  | .unary op e =>
      if (d.range e).isEmpty then .empty else op.unaryRange e.isFloat (d.range e)
  | .binary op l r =>
      if (d.range l).isEmpty || (d.range r).isEmpty then .empty
      else op.binaryRange (d.range l) (d.range r)
  | .addr e => if (d.staticType e).storage = none then .empty else .all
  | .index e i =>
      if (d.range i).isEmpty then .empty
      else ((d.staticType (.index e i)).storage.map fun s => loadedRange s.1).getD .empty
  | e => ((d.staticType e).storage.map fun s => loadedRange s.1).getD .empty

end Dbg

lemma truth_mem (c : Bool) :
    (if c then 1 else 0 : BitVec 64) ∈ (WordRange.upTo 1 : WordRange 64) := by
  cases c <;> decide

/-- Where the count of a shift is below 64, the debugger shifts by it. -/
lemma mod_of_mem {b : BitVec 64} {s : WordRange 64} (hb : b ∈ s) (h : s.hi < 64) :
    b.toNat % 64 = b.toNat := by
  have := hb.2
  omega

open WordRange in
/-- The results of `combine_binary` lie in their range. -/
lemma combineBinary_mem {op : ExprOp} {a b v : BitVec 64} {r s : WordRange 64} (ha : a ∈ r)
    (hb : b ∈ s) (h : combineBinary a b op = some v) : v ∈ op.binaryRange r s := by
  have hv {p : Prop} [Decidable p] {x : BitVec 64} (hx : (if p then none else some x) = some v) :
      ¬ p ∧ x = v := by simpa using hx
  cases op <;> simp only [combineBinary, Option.some.injEq, reduceCtorEq] at h
  case add => exact h ▸ mem_add ha hb
  case sub => exact h ▸ mem_sub ha hb
  case mul => exact h ▸ mem_mul ha hb
  case div =>
    obtain ⟨h0, rfl⟩ := hv h
    exact mem_div ha hb h0
  case mod =>
    obtain ⟨h0, rfl⟩ := hv h
    exact mem_mod ha hb h0
  case shl =>
    by_cases hhi : s.hi < 64
    · rw [mod_of_mem hb hhi] at h
      exact h ▸ mem_shl ha hb
    · rw [ExprOp.binaryRange, WordRange.shl, if_neg hhi]
      exact mem_all v
  case shr =>
    by_cases hhi : s.hi < 64
    · rw [mod_of_mem hb hhi] at h
      exact h ▸ mem_shr ha hb
    · rw [ExprOp.binaryRange, WordRange.shr, if_neg hhi]
      exact mem_all v
  case band => exact h ▸ mem_and ha hb
  case bxor => exact h ▸ mem_xor ha hb
  case bor => exact h ▸ mem_or ha hb
  all_goals exact h ▸ truth_mem _

open WordRange in
/-- The results of a unary operator lie in their range. -/
lemma combineUnary_mem {op : ExprOp} {inner v : ExprResult} {r : WordRange 64}
    (hinner : inner.value ∈ r) (h : combineUnary inner op = some v) :
    v.value ∈ op.unaryRange inner.isFloat r := by
  cases op <;> simp only [combineUnary, Option.some.injEq, reduceCtorEq] at h
  case pos => exact h ▸ hinner
  case neg =>
    split at h
    · rename_i hfloat
      rw [ExprOp.unaryRange, if_pos hfloat]
      exact mem_all _
    · rename_i hfloat
      obtain rfl := Option.some.inj h
      rw [ExprOp.unaryRange, if_neg hfloat]
      exact mem_neg hinner
  case not =>
    subst h
    have := truth_mem (inner.value = 0)
    simpa [ExprOp.unaryRange] using this
  case bnot => exact h ▸ mem_not hinner

namespace World

variable {w : World σ}

/-- A value loaded from the memory lies in the range of its size. -/
lemma readScalarValue_mem {a : Addr} {size : ℕ} {v : BitVec 64}
    (h : w.readScalarValue a size = some v) : v ∈ Dbg.loadedRange size := by
  obtain ⟨u, hu, rfl⟩ := Option.map_eq_some_iff.mp h
  obtain ⟨p, -, -, rfl⟩ := readMem_eq_some.mp hu
  have hlt := Memory.read_lt p.mem (scalarWidth size) a
  rw [Dbg.loadedRange, WordRange.mem_upTo, BitVec.toNat_ofNat]
  have := Nat.mod_le (p.mem.read a (scalarWidth size)) (2 ^ 64)
  omega

/-- What storage holds lies in the range of its size. -/
lemma storage_mem {lv : Option LValue} {s : Option (ℕ × Str)} {r : ExprResult}
    (htype : ∀ l ∈ lv, s = some (l.size, l.type)) (h : (w.storage lv).value = some r) :
    r.value ∈ (s.map fun s => Dbg.loadedRange s.1).getD .empty := by
  obtain ⟨l, hl, h⟩ := Option.bind_eq_some_iff.mp h
  obtain ⟨v, hv, rfl⟩ := Option.map_eq_some_iff.mp h
  rw [htype l hl]
  exact readScalarValue_mem hv

/-- What storage holds is an integer. -/
lemma storage_isFloat {lv : Option LValue} {r : ExprResult} (h : (w.storage lv).value = some r) :
    r.isFloat = false := by
  obtain ⟨l, -, h⟩ := Option.bind_eq_some_iff.mp h
  obtain ⟨v, -, rfl⟩ := Option.map_eq_some_iff.mp h
  rfl

lemma identValue_eq_some {name : Str} {r : ExprResult} (h : w.identValue name = some r) :
    ∃ var addr v, resolveVariableAddress w.dbg name = some (var, addr) ∧
      w.readScalarValue addr var.size = some v ∧ r = ⟨v, false, false, var.type⟩ := by
  rw [identValue] at h
  split at h
  · cases h
  · rename_i var addr hvar
    obtain ⟨v, hv, rfl⟩ := Option.map_eq_some_iff.mp h
    exact ⟨var, addr, v, hvar, hv, rfl⟩

/-- Only a literal is a floating-point number, and stays one behind signs. -/
lemma isFloat_eq {e : ExprNode} {r : ExprResult} (h : (w.eval e).value = some r) :
    r.isFloat = e.isFloat := by
  induction e generalizing r with
  | num number isFloat =>
      obtain rfl := Option.some.inj h
      rfl
  | ident name =>
      obtain ⟨_, _, _, _, _, rfl⟩ := identValue_eq_some h
      rfl
  | unary op e ih =>
      obtain ⟨inner, hinner, h⟩ := Option.bind_eq_some_iff.mp h
      have hfloat := ih hinner
      cases op <;> simp only [combineUnary, Option.some.injEq, reduceCtorEq] at h
      case pos => exact h ▸ hfloat
      case neg =>
        rw [ExprNode.isFloat, ← hfloat]
        split at h
        · rename_i hinner
          rw [← Option.some.inj h, hinner]
        · rename_i hinner
          rw [← Option.some.inj h, Bool.eq_false_of_not_eq_true hinner]
      case not | bnot => exact h ▸ rfl
  | binary op l r =>
      obtain ⟨a, -, h⟩ := Option.bind_eq_some_iff.mp h
      obtain ⟨b, -, h⟩ := Option.bind_eq_some_iff.mp h
      obtain ⟨v, -, rfl⟩ := Option.map_eq_some_iff.mp h
      rfl
  | addr e =>
      obtain ⟨lv, -, rfl⟩ := Option.map_eq_some_iff.mp h
      rfl
  | member | arrow | index | deref => exact storage_isFloat h

/-- What a node evaluates to lies in its range, whatever the memory holds. -/
lemma value_mem_range {e : ExprNode} {r : ExprResult} (h : (w.eval e).value = some r) :
    r.value ∈ w.dbg.range e := by
  have htype := (w.has_staticType e).storage
  induction e generalizing r with
  | num number isFloat =>
      obtain rfl := Option.some.inj h
      exact WordRange.mem_single number
  | ident name =>
      obtain ⟨var, addr, v, hvar, hv, rfl⟩ := identValue_eq_some h
      rw [Dbg.range, hvar]
      exact readScalarValue_mem hv
  | unary op e ih =>
      obtain ⟨inner, hinner, h⟩ := Option.bind_eq_some_iff.mp h
      have hmem := ih hinner (w.has_staticType e).storage
      -- the operand has a value, so its range is not the empty one
      have hne := WordRange.isEmpty_of_mem hmem
      rw [Dbg.range, hne, if_neg Bool.false_ne_true, ← isFloat_eq hinner]
      exact combineUnary_mem hmem h
  | binary op l r ihl ihr =>
      obtain ⟨a, ha, h⟩ := Option.bind_eq_some_iff.mp h
      obtain ⟨b, hb, h⟩ := Option.bind_eq_some_iff.mp h
      obtain ⟨v, hv, rfl⟩ := Option.map_eq_some_iff.mp h
      have hl := ihl ha (w.has_staticType l).storage
      have hr := ihr hb (w.has_staticType r).storage
      rw [Dbg.range, WordRange.isEmpty_of_mem hl, WordRange.isEmpty_of_mem hr, Bool.or_false,
        if_neg Bool.false_ne_true]
      exact combineBinary_mem hl hr hv
  | addr e =>
      obtain ⟨lv, hlv, rfl⟩ := Option.map_eq_some_iff.mp h
      rw [Dbg.range, (w.has_staticType e).storage lv hlv, if_neg (Option.some_ne_none _)]
      exact WordRange.mem_all _
  | index e i _ ihi =>
      have hmem := storage_mem htype h
      obtain ⟨lv, hlv, -⟩ := Option.bind_eq_some_iff.mp h
      obtain ⟨idx, hidx, -⟩ := Option.bind_eq_some_iff.mp hlv
      have hi := ihi hidx (w.has_staticType i).storage
      rw [Dbg.range, WordRange.isEmpty_of_mem hi, if_neg Bool.false_ne_true]
      exact hmem
  | member | arrow | deref => exact storage_mem htype h

end World

end Cdbg
