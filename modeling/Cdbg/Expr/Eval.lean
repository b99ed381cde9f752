import Cdbg.Dwarf.Local
import Cdbg.Expr.Ast

/-!
`expr_eval.c`: the value of an expression and the storage it denotes, over the
registers last read, the symbols and the memory of the debuggee.

The three evaluators of the source (as storage, as a value, as a pointer) call one
another on the same node, so one pass over the tree computes all three (`Evals`).
-/

namespace Cdbg

open CString

variable {σ : Type}

/-- `lvalue_t`. -/
structure LValue where
  addr : Addr
  size : ℕ
  isSigned : Bool
  type : Str
  deriving DecidableEq, Repr

/-- `cdbg_expr_result_t`; a floating-point value is given by its bits. -/
structure ExprResult where
  value : BitVec 64
  isFloat : Bool
  isAddress : Bool
  type : Str
  deriving DecidableEq, Repr

/-- The size of the buffers for types. -/
def typeLen : ℕ := 128

/-- The width that `read_scalar_value` and `write_scalar_value` use for a size. -/
def scalarWidth (size : ℕ) : ℕ := if size = 0 ∨ 8 < size then 8 else size

/-- `read_scalar_value`. -/
def World.readScalarValue (w : World σ) (addr : Addr) (size : ℕ) : Option (BitVec 64) :=
  (w.readMem w.dbg.pid addr (scalarWidth size)).map (BitVec.ofNat 64)

/-- Drop the blanks at the end. -/
def dropTrailingBlanks (s : Str) : Str := (s.reverse.dropWhile (· = ' ')).reverse

/-- `make_pointer_type`. -/
def makePointerType (baseType : Str) : Str :=
  if baseType = [] then []
  else (dropTrailingBlanks baseType).take (typeLen - 4) ++ " *".toList

/-- `strip_pointer_star`. -/
def stripPointerStar (type : Str) : Str :=
  if '*' ∈ type then truncate typeLen (dropTrailingBlanks (type.takeWhile (· ≠ '*'))) else []

/-- `pointer_pointee_type`. -/
def pointerPointeeType (var : VarInfo) : Str :=
  if '*' ∈ var.type then
    truncate typeLen (dropTrailingBlanks (var.type.takeWhile (· ≠ '*')))
  else truncate typeLen var.type

/-- Whether a type is not spelled `unsigned`. -/
def typeIsSigned (type : Str) : Bool := ! hasSubstr type "unsigned".toList

/-- `combine_binary`. A shift takes its amount modulo `64`, as the machine does. -/
def combineBinary (left right : BitVec 64) (op : ExprOp) : Option (BitVec 64) :=
  let truth (c : Bool) : BitVec 64 := if c then 1 else 0
  match op with
  | .add => some (left + right)
  | .sub => some (left - right)
  | .mul => some (left * right)
  | .div => if right = 0 then none else some (left / right)
  | .mod => if right = 0 then none else some (left % right)
  | .shl => some (left <<< (right.toNat % 64))
  | .shr => some (left >>> (right.toNat % 64))
  | .lt => some (truth (left < right))
  | .gt => some (truth (left > right))
  | .le => some (truth (left ≤ right))
  | .ge => some (truth (left ≥ right))
  | .eq => some (truth (left = right))
  | .ne => some (truth (left ≠ right))
  | .band => some (left &&& right)
  | .bxor => some (left ^^^ right)
  | .bor => some (left ||| right)
  | .land => some (truth (left ≠ 0 && right ≠ 0))
  | .lor => some (truth (left ≠ 0 || right ≠ 0))
  | _ => none

/-- The unary operators of `eval_value`. -/
def combineUnary (inner : ExprResult) (op : ExprOp) : Option ExprResult :=
  match op with
  | .pos => some inner
  | .neg =>
      if inner.isFloat then some ⟨inner.value ^^^ (1 <<< 63), true, false, []⟩
      else some ⟨-inner.value, false, false, []⟩
  | .not => some ⟨if inner.value ≠ 0 then 0 else 1, false, false, []⟩
  | .bnot => some ⟨~~~ inner.value, false, false, []⟩
  | _ => none

/-- `resolve_subscript_element`: the type, size and address of an element of a named
array or pointer. -/
def World.resolveSubscriptElement (w : World σ) (name : Str) (index : BitVec 64) :
    Option LValue :=
  match resolveVariableAddress w.dbg name with
  | none => none
  | some (var, addr) =>
      if var.isArray then
        if var.arrayCount ≤ index.toNat then none
        else
          some ⟨addr + index * BitVec.ofNat 64 var.elementSize, var.elementSize,
            typeIsSigned var.elementType, var.elementType⟩
      else if var.isPointer then
        match w.readScalarValue addr ptrSize with
        | none => none
        | some ptr =>
            let pointeeType := pointerPointeeType var
            let elementSize := typeElementSize w.dbg pointeeType
            some ⟨ptr + index * BitVec.ofNat 64 elementSize, elementSize,
              typeIsSigned pointeeType, pointeeType⟩
      else none

/-- What an expression is as storage, as a value, and as a pointer with the type it
points to. -/
structure Evals where
  lvalue : Option LValue
  value : Option ExprResult
  pointer : Option (BitVec 64 × Str)

namespace World

/-- `eval_lvalue` of an identifier. -/
def identLvalue (w : World σ) (name : Str) : Option LValue :=
  match resolveVariableAddress w.dbg name with
  | none => none
  | some (var, addr) =>
      if var.isArray then none else some ⟨addr, var.size, var.isSigned, var.type⟩

/-- `eval_value` of an identifier. -/
def identValue (w : World σ) (name : Str) : Option ExprResult :=
  match resolveVariableAddress w.dbg name with
  | none => none
  | some (var, addr) =>
      (w.readScalarValue addr var.size).map fun value => ⟨value, false, false, var.type⟩

/-- `eval_as_pointer` of an identifier. -/
def identPointer (w : World σ) (name : Str) : Option (BitVec 64 × Str) :=
  match resolveVariableAddress w.dbg name with
  | none => none
  | some (var, addr) =>
      if var.isPointer = false then none
      else (w.readScalarValue addr ptrSize).map fun ptr => (ptr, pointerPointeeType var)

/-- `eval_lvalue` of what a pointer points to. -/
def derefLvalue (w : World σ) (pointer : BitVec 64 × Str) : LValue :=
  if pointer.2 = [] then ⟨pointer.1, 8, false, []⟩
  else ⟨pointer.1, typeElementSize w.dbg pointer.2, typeIsSigned pointer.2, pointer.2⟩

/-- `eval_lvalue` of a member. -/
def memberLvalue (w : World σ) (baseAddr : Addr) (baseType name : Str) : Option LValue :=
  (lookupStructMember w.dbg baseType name).map fun m =>
    ⟨baseAddr + m.offset, m.size, m.isSigned, if m.type = [] then baseType else m.type⟩

/-- `eval_lvalue` of an element at an offset from a pointer. -/
def elementLvalue (w : World σ) (pointer : BitVec 64 × Str) (index : BitVec 64) : LValue :=
  let elemSize := if pointer.2 = [] then 8 else typeElementSize w.dbg pointer.2
  ⟨pointer.1 + index * BitVec.ofNat 64 elemSize, elemSize, typeIsSigned pointer.2,
    pointer.2⟩

/-- `eval_value` of storage. -/
def loadValue (w : World σ) (lv : LValue) : Option ExprResult :=
  (w.readScalarValue lv.addr lv.size).map fun value => ⟨value, false, false, lv.type⟩

/-- `eval_as_pointer` of storage. -/
def loadPointer (w : World σ) (lv : LValue) : Option (BitVec 64 × Str) :=
  if '*' ∈ lv.type then
    (w.readScalarValue lv.addr ptrSize).map fun ptr => (ptr, stripPointerStar lv.type)
  else none

/-- The evaluations of a node that denotes storage. -/
def storage (w : World σ) (lv : Option LValue) : Evals where
  lvalue := lv
  value := lv.bind w.loadValue
  pointer := lv.bind w.loadPointer

/-- The evaluations of a node that denotes a value only. -/
def plain (v : Option ExprResult) : Evals where
  lvalue := none
  value := v
  pointer := v.map fun r => (r.value, [])

/-- `eval_lvalue`, `eval_value` and `eval_as_pointer`. -/
def eval (w : World σ) : ExprNode → Evals
  | .num number isFloat => plain (some ⟨number, isFloat, false, []⟩)
  | .ident name => ⟨w.identLvalue name, w.identValue name, w.identPointer name⟩
  | .unary op e => plain ((w.eval e).value.bind fun inner => combineUnary inner op)
  | .binary op l r =>
      plain ((w.eval l).value.bind fun a => (w.eval r).value.bind fun b =>
        (combineBinary a.value b.value op).map fun v => ⟨v, false, false, []⟩)
  | .member e name =>
      w.storage ((w.eval e).lvalue.bind fun lv => w.memberLvalue lv.addr lv.type name)
  | .arrow e name =>
      w.storage ((w.eval e).pointer.bind fun p => w.memberLvalue p.1 p.2 name)
  | .index e i =>
      w.storage ((w.eval i).value.bind fun idx =>
        match e with
        | .ident name => w.resolveSubscriptElement name idx.value
        | _ => (w.eval e).pointer.map fun p => w.elementLvalue p idx.value)
  | .addr e =>
      plain ((w.eval e).lvalue.map fun lv => ⟨lv.addr, false, true, makePointerType lv.type⟩)
  | .deref e => w.storage ((w.eval e).pointer.map w.derefLvalue)

end World

/-- `cdbg_expr_eval_lvalue`: the storage an expression denotes, and whether it is a
whole structure. -/
def World.exprEvalLvalue (w : World σ) (text : Str) : Option (LValue × Bool) :=
  match exprParse text with
  | none => none
  | some root =>
      match root with
      | .addr _ => none
      | _ =>
          (w.eval root).lvalue.map fun lv =>
            let isTerminal := match root with
              | .ident _ => true
              | .deref _ => true
              | .index _ _ => true
              | _ => false
            (lv, isTerminal && lv.type ≠ [] && ! typeIsScalar lv.type)

end Cdbg
