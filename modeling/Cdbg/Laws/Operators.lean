import Cdbg.Laws.OperandRange

/-!
The operators of expressions: which operands are evaluated, and on which the arithmetic
of the debugger itself is defined.

`eval_value` evaluates both operands of every binary operator before `combine_binary` looks
at the operator. `combine_binary` guards a division against zero; the count of a shift and
the operand of a unary minus go unguarded, and are in order where the literals and the types
of an expression bound them.
-/

namespace Cdbg

variable {σ : Type}

/-- The result that is a number without a type. -/
def ExprResult.number (value : BitVec 64) : ExprResult := ⟨value, false, false, []⟩

namespace World

lemma eval_binary_value (w : World σ) (op : ExprOp) (l r : ExprNode) :
    (w.eval (.binary op l r)).value =
      (w.eval l).value.bind fun a => (w.eval r).value.bind fun b =>
        (combineBinary a.value b.value op).map ExprResult.number := rfl

end World

/-! ### The logical operators -/

lemma combineBinary_land_zero (b : BitVec 64) : combineBinary 0 b .land = some 0 := rfl

lemma combineBinary_lor_ne_zero {a : BitVec 64} (h : a ≠ 0) (b : BitVec 64) :
    combineBinary a b .lor = some 1 := by
  have htrue : (decide (a ≠ 0) || decide (b ≠ 0)) = true := by rw [decide_eq_true h]; rfl
  simp only [combineBinary, htrue, if_true]

/-- **Logical operators**: where the left operand decides, the value of the right one does not
matter, but the operator fails if the right one does. -/
theorem logical_strict {w : World σ} {a : ExprNode} {r : ExprResult} (b : ExprNode)
    (h : (w.eval a).value = some r) :
    (r.value = 0 → (w.eval (.binary .land a b)).value =
      (w.eval b).value.map fun _ => ExprResult.number 0) ∧
    (r.value ≠ 0 → (w.eval (.binary .lor a b)).value =
      (w.eval b).value.map fun _ => ExprResult.number 1) := by
  rw [World.eval_binary_value, World.eval_binary_value, h]
  constructor
  · intro hzero
    simp only [Option.bind_some, hzero, combineBinary_land_zero]
    cases (w.eval b).value <;> rfl
  · intro hne
    simp only [Option.bind_some, combineBinary_lor_ne_zero hne]
    cases (w.eval b).value <;> rfl

/-- `0 && 2` and `1 || 2` have the values of C. -/
theorem logical_strict_numbers :
    ((stoppedAtLocal "int" fun _ => 0).eval
        (.binary .land (.num 0 false) (.num 2 false))).value = some (.number 0) ∧
      ((stoppedAtLocal "int" fun _ => 0).eval
        (.binary .lor (.num 1 false) (.num 2 false))).value = some (.number 1) :=
  ⟨(logical_strict (.num 2 false) rfl).1 rfl, (logical_strict (.num 2 false) rfl).2 (by decide)⟩

/-- `0 && 1 / 0` and `1 || 1 / 0` fail. -/
theorem logical_evaluates_right :
    ((stoppedAtLocal "int" fun _ => 0).eval (.num 0 false)).value = some (.number 0) ∧
      ((stoppedAtLocal "int" fun _ => 0).eval (.num 1 false)).value = some (.number 1) ∧
      ((stoppedAtLocal "int" fun _ => 0).eval (.binary .land (.num 0 false)
        (.binary .div (.num 1 false) (.num 0 false)))).value = none ∧
      ((stoppedAtLocal "int" fun _ => 0).eval (.binary .lor (.num 1 false)
        (.binary .div (.num 1 false) (.num 0 false)))).value = none := by
  decide +kernel

/-! ### Defined arithmetic -/

/-- An arithmetic step of the debugger that C defines on some operands only. -/
inductive ArithStep
  | shift (count : BitVec 64)
  | divide (divisor : BitVec 64)
  | negate (operand : BitVec 64)
  deriving DecidableEq, Repr

/-- Whether C defines a step on words of 64 bits. -/
def ArithStep.Defined : ArithStep → Prop
  | .shift count => count.toNat < 64
  | .divide divisor => divisor ≠ 0
  | .negate operand => operand ≠ BitVec.intMin 64

instance instDecidableDefined : (s : ArithStep) → Decidable s.Defined
  | .shift count => inferInstanceAs (Decidable (count.toNat < 64))
  | .divide divisor => inferInstanceAs (Decidable (divisor ≠ 0))
  | .negate operand => inferInstanceAs (Decidable (operand ≠ BitVec.intMin 64))

namespace ExprOp

/-- The steps that `combine_binary` takes. -/
def binarySteps (op : ExprOp) (right : BitVec 64) : List ArithStep :=
  match op with
  | .div | .mod => if right = 0 then [] else [.divide right]
  | .shl | .shr => [.shift right]
  | _ => []

/-- The steps that a unary operator takes. -/
def unarySteps (op : ExprOp) (inner : ExprResult) : List ArithStep :=
  match op with
  | .neg => if inner.isFloat then [] else [.negate inner.value]
  | _ => []

/-- A binary operator is defined on right operands of this range. -/
def rightFits (op : ExprOp) (right : WordRange 64) : Bool :=
  decide (op = .shl ∨ op = .shr → right.hi < 64)

/-- A unary operator is defined on operands of this range. -/
def operandFits (op : ExprOp) (isFloat : Bool) (inner : WordRange 64) : Bool :=
  decide (op = .neg → isFloat = true ∨ BitVec.intMin 64 ∉ inner)

/-- A division is guarded, so only the count of a shift matters. -/
lemma defined_binarySteps {op : ExprOp} {right : BitVec 64} {r : WordRange 64} (hr : right ∈ r)
    (h : op.rightFits r) : ∀ s ∈ op.binarySteps right, s.Defined := by
  have hfits := of_decide_eq_true h
  cases op
  case div | mod =>
    rw [binarySteps]
    split
    · simp
    · rename_i hne
      simpa [ArithStep.Defined] using hne
  case shl | shr =>
    have hhi := hfits (by decide)
    have hlt := hr.2.trans_lt hhi
    simpa [binarySteps, ArithStep.Defined] using hlt
  all_goals simp [binarySteps]

lemma defined_unarySteps {op : ExprOp} {inner : ExprResult} {r : WordRange 64}
    (hr : inner.value ∈ r) (h : op.operandFits inner.isFloat r) :
    ∀ s ∈ op.unarySteps inner, s.Defined := by
  have hfits := of_decide_eq_true h
  cases op
  case neg =>
    rw [unarySteps]
    split
    · simp
    · rename_i hint
      have hmin := (hfits rfl).resolve_left hint
      have hne : inner.value ≠ BitVec.intMin 64 := fun heq => hmin (heq ▸ hr)
      simpa [ArithStep.Defined] using hne
  all_goals simp [unarySteps]

end ExprOp

/-- Something for each of the three ways to evaluate a node. -/
structure Modes (α : Type) where
  lvalue : α
  value : α
  pointer : α

namespace World

/-- What follows the evaluation of a part, which must succeed for it. -/
def followedBy {α : Type} (r : Option α) (next : α → List ArithStep) : List ArithStep :=
  match r with
  | none => []
  | some a => next a

/-- The arithmetic steps that `eval_lvalue`, `eval_value` and `eval_as_pointer` take on a
node. -/
def arith (w : World σ) : ExprNode → Modes (List ArithStep)
  | .num _ _ => ⟨[], [], []⟩
  | .ident _ => ⟨[], [], []⟩
  | .unary op e =>
      let steps := (w.arith e).value ++ followedBy (w.eval e).value fun r => op.unarySteps r
      ⟨[], steps, steps⟩
  | .binary op l r =>
      let steps := (w.arith l).value ++ followedBy (w.eval l).value fun _ =>
        (w.arith r).value ++ followedBy (w.eval r).value fun b => op.binarySteps b.value
      ⟨[], steps, steps⟩
  | .member e _ => ⟨(w.arith e).lvalue, (w.arith e).lvalue, (w.arith e).lvalue⟩
  | .arrow e _ => ⟨(w.arith e).pointer, (w.arith e).pointer, (w.arith e).pointer⟩
  | .index e i =>
      -- an identifier is looked up, which takes no step either
      let steps := (w.arith i).value ++ followedBy (w.eval i).value fun _ => (w.arith e).pointer
      ⟨steps, steps, steps⟩
  | .addr e => ⟨[], (w.arith e).lvalue, (w.arith e).lvalue⟩
  | .deref e => ⟨(w.arith e).pointer, (w.arith e).pointer, (w.arith e).pointer⟩

lemma forall_followedBy {α : Type} (r : Option α) (next : α → List ArithStep) :
    (∀ s ∈ followedBy r next, s.Defined) ↔ ∀ a, r = some a → ∀ s ∈ next a, s.Defined := by
  cases r with
  | none => simp [followedBy]
  | some a => simp [followedBy]

end World

/-- For each way to evaluate a node, whether its literals and types bound the counts of the
shifts below 64 and keep the least integer from every minus sign. -/
def Dbg.bounded (d : Dbg) : ExprNode → Modes Bool
  | .num _ _ => ⟨true, true, true⟩
  | .ident _ => ⟨true, true, true⟩
  | .unary op e =>
      let fits := (d.bounded e).value && op.operandFits e.isFloat (d.range e)
      ⟨true, fits, fits⟩
  | .binary op l r =>
      -- behind a left operand that has no value nothing is evaluated
      let fits := (d.bounded l).value &&
        ((d.range l).isEmpty || (d.bounded r).value && op.rightFits (d.range r))
      ⟨true, fits, fits⟩
  | .member e _ => ⟨(d.bounded e).lvalue, (d.bounded e).lvalue, (d.bounded e).lvalue⟩
  | .arrow e _ => ⟨(d.bounded e).pointer, (d.bounded e).pointer, (d.bounded e).pointer⟩
  | .index e i =>
      let fits := (d.bounded i).value && ((d.range i).isEmpty || (d.bounded e).pointer)
      ⟨fits, fits, fits⟩
  | .addr e => ⟨true, (d.bounded e).lvalue, (d.bounded e).lvalue⟩
  | .deref e => ⟨(d.bounded e).pointer, (d.bounded e).pointer, (d.bounded e).pointer⟩

namespace World

/-- Each way to evaluate a node takes defined steps only if it is bounded. -/
lemma defined_of_bounded (w : World σ) (e : ExprNode) :
    ((w.dbg.bounded e).lvalue → ∀ s ∈ (w.arith e).lvalue, s.Defined) ∧
      ((w.dbg.bounded e).value → ∀ s ∈ (w.arith e).value, s.Defined) ∧
      ((w.dbg.bounded e).pointer → ∀ s ∈ (w.arith e).pointer, s.Defined) := by
  have hnone : ∀ s ∈ ([] : List ArithStep), s.Defined := fun s hs => absurd hs List.not_mem_nil
  induction e with
  | num | ident => exact ⟨fun _ => hnone, fun _ => hnone, fun _ => hnone⟩
  | member e _ ih => exact ⟨ih.1, ih.1, ih.1⟩
  | arrow e _ ih => exact ⟨ih.2.2, ih.2.2, ih.2.2⟩
  | deref e ih => exact ⟨ih.2.2, ih.2.2, ih.2.2⟩
  | addr e ih => exact ⟨fun _ => hnone, ih.1, ih.1⟩
  | unary op e ih =>
      have hvalue : (w.dbg.bounded (.unary op e)).value →
          ∀ s ∈ (w.arith (.unary op e)).value, s.Defined := by
        intro h
        obtain ⟨he, hop⟩ := Bool.and_eq_true_iff.mp h
        refine List.forall_mem_append.mpr ⟨ih.2.1 he, (forall_followedBy _ _).mpr ?_⟩
        intro inner hinner
        rw [← isFloat_eq hinner] at hop
        exact ExprOp.defined_unarySteps (value_mem_range hinner) hop
      exact ⟨fun _ => hnone, hvalue, hvalue⟩
  | binary op l r ihl ihr =>
      have hvalue : (w.dbg.bounded (.binary op l r)).value →
          ∀ s ∈ (w.arith (.binary op l r)).value, s.Defined := by
        intro h
        -- the right operand is evaluated only where the left one has a value, so its range has one
        obtain ⟨hl, h⟩ := Bool.and_eq_true_iff.mp h
        refine List.forall_mem_append.mpr ⟨ihl.2.1 hl, (forall_followedBy _ _).mpr fun a ha => ?_⟩
        rw [WordRange.isEmpty_of_mem (value_mem_range ha), Bool.false_or] at h
        obtain ⟨hr, hop⟩ := Bool.and_eq_true_iff.mp h
        refine List.forall_mem_append.mpr ⟨ihr.2.1 hr, (forall_followedBy _ _).mpr ?_⟩
        exact fun b hb => ExprOp.defined_binarySteps (value_mem_range hb) hop
      exact ⟨fun _ => hnone, hvalue, hvalue⟩
  | index e i ihe ihi =>
      have hsteps : (w.dbg.bounded (.index e i)).value →
          ∀ s ∈ (w.arith (.index e i)).value, s.Defined := by
        intro h
        obtain ⟨hi, he⟩ := Bool.and_eq_true_iff.mp h
        refine List.forall_mem_append.mpr ⟨ihi.2.1 hi, (forall_followedBy _ _).mpr fun a ha => ?_⟩
        rw [WordRange.isEmpty_of_mem (value_mem_range ha), Bool.false_or] at he
        exact ihe.2.2 he
      exact ⟨hsteps, hsteps, hsteps⟩

end World

/-- The tree of `-p << (p & 15) * 4`. -/
def boundedShift : ExprNode :=
  .binary .shl (.unary .neg (.ident ['p']))
    (.binary .mul (.binary .band (.ident ['p']) (.num 15 false)) (.num 4 false))

end Cdbg
