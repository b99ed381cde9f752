import Cdbg.Lib.CInt
import Cdbg.Machine.Calls
import Cdbg.Machine.Script
import Cdbg.Repl.Commands

/-!
Integer expressions and C.

`cEval` is the meaning of an expression of signed integers in C: variables are extended to
64 bits, and an expression has a value only if no part of it has undefined behaviour. The
debugger loads a variable without its sign and divides, shifts and compares words as
unsigned numbers, so it follows C on an expression and all its parts exactly if the
variables and the operands of these operators satisfy `AgreesWithC`.
-/

namespace Cdbg

open CString CInt

variable {σ : Type}

namespace ExprOp

/-- What a unary operator means in C. -/
def cUnary (op : ExprOp) (a : ℤ) : Option ℤ :=
  match op with
  | .pos => some a
  | .neg => fit (-a)
  | .not => some (truth (a = 0))
  | .bnot => some (-a - 1)
  | _ => none

/-- What a binary operator means in C. -/
def cBinary (op : ExprOp) (a b : ℤ) : Option ℤ :=
  match op with
  | .add => fit (a + b)
  | .sub => fit (a - b)
  | .mul => fit (a * b)
  | .div => CInt.div a b
  | .mod => CInt.mod a b
  | .shl => CInt.shl a b
  | .shr => CInt.shr a b
  | .lt => some (truth (a < b))
  | .gt => some (truth (b < a))
  | .le => some (truth (a ≤ b))
  | .ge => some (truth (b ≤ a))
  | .eq => some (truth (a = b))
  | .ne => some (truth (a ≠ b))
  | .band => some (bitwise (· &&& ·) a b)
  | .bxor => some (bitwise (· ^^^ ·) a b)
  | .bor => some (bitwise (· ||| ·) a b)
  | .land => some (truth (a ≠ 0 ∧ b ≠ 0))
  | .lor => some (truth (a ≠ 0 ∨ b ≠ 0))
  | _ => none

/-- The operands on which `combine_binary` gives the word of the signed result. -/
def AgreesAt (op : ExprOp) (a b : ℤ) : Prop :=
  match op with
  | .div => DivAgrees a b
  | .mod => ModAgrees a b
  | .shr => 0 ≤ a ∨ b = 0
  | .lt | .gt | .le | .ge => a < 0 ↔ b < 0
  | _ => True

instance (op : ExprOp) (a b : ℤ) : Decidable (op.AgreesAt a b) :=
  match op with
  | .div => inferInstanceAs (Decidable (DivAgrees a b))
  | .mod => inferInstanceAs (Decidable (ModAgrees a b))
  | .shr => inferInstanceAs (Decidable (0 ≤ a ∨ b = 0))
  | .lt | .gt | .le | .ge => inferInstanceAs (Decidable (a < 0 ↔ b < 0))
  | .add | .sub | .mul | .shl | .eq | .ne | .band | .bxor | .bor | .land | .lor | .pos | .neg
  | .not | .bnot => isTrue trivial

lemma fits_cUnary {op : ExprOp} {a v : ℤ} (ha : Fits a) (h : op.cUnary a = some v) :
    Fits v := by
  cases op <;> simp only [cUnary, Option.some.injEq, reduceCtorEq, fit_eq_some] at h
  case pos => exact h ▸ ha
  case neg => exact h.2 ▸ h.1
  case not => exact h ▸ fits_truth _
  case bnot => exact h ▸ fits_not ha

lemma fits_cBinary {op : ExprOp} {a b v : ℤ} (ha : Fits a) (h : op.cBinary a b = some v) :
    Fits v := by
  cases op <;> simp only [cBinary, Option.some.injEq, reduceCtorEq, fit_eq_some, div_eq_some,
    mod_eq_some, shl_eq_some, shr_eq_some] at h
  case add | sub | mul => exact h.2 ▸ h.1
  case div => exact h.2.2 ▸ h.2.1
  case mod => exact h.2.2 ▸ fits_tmod ha b
  case shl => exact h.2.2 ▸ h.2.1
  case shr => exact h.2 ▸ fits_shr ha _
  case band | bxor | bor => exact h ▸ fits_toInt _
  all_goals exact h ▸ fits_truth _

end ExprOp

/-- The word of the truth of a condition is decided by the condition. -/
lemma some_truth_iff {p q : Bool} :
    some (if p then 1 else 0 : BitVec 64) = some (pattern (truth q)) ↔ (p = q) := by
  rw [pattern_truth]
  cases p <;> cases q <;> decide

/-- `combine_binary` gives the word of the signed result exactly where `AgreesAt` says. -/
lemma combineBinary_iff {op : ExprOp} {a b v : ℤ} (ha : Fits a) (hb : Fits b)
    (h : op.cBinary a b = some v) :
    combineBinary (pattern a) (pattern b) op = some (pattern v) ↔ op.AgreesAt a b := by
  cases op <;> simp only [ExprOp.cBinary, Option.some.injEq, reduceCtorEq, fit_eq_some,
    div_eq_some, mod_eq_some, shl_eq_some, shr_eq_some] at h <;>
    simp only [combineBinary, ExprOp.AgreesAt, iff_true]
  case add => rw [h.2, pattern_add]
  case sub => rw [h.2, pattern_sub]
  case mul => rw [h.2, pattern_mul]
  -- `/`, `%`, `>>` and the orders read the words as unsigned: only here is there a condition
  case div =>
    obtain ⟨h0, hfit, rfl⟩ := h
    have hne : pattern b ≠ 0 := mt (pattern_eq_zero hb).mp h0
    rw [if_neg hne, Option.some.injEq, pattern_udiv_iff ha hb h0 hfit]
  case mod =>
    obtain ⟨h0, hfit, rfl⟩ := h
    have hne : pattern b ≠ 0 := mt (pattern_eq_zero hb).mp h0
    rw [if_neg hne, Option.some.injEq, pattern_umod_iff ha hb h0]
  case shl =>
    obtain ⟨⟨_, h0, h64⟩, _, rfl⟩ := h
    rw [toNat_amount h0 h64, pattern_shl a (by omega)]
  case shr =>
    obtain ⟨⟨h0, h64⟩, rfl⟩ := h
    rw [toNat_amount h0 h64, Option.some.injEq, pattern_shr_iff ha (by omega)]
    omega
  case lt => rw [← h, some_truth_iff, decide_eq_decide, pattern_lt_agrees ha hb]
  case gt =>
    rw [← h, some_truth_iff, decide_eq_decide, gt_iff_lt, pattern_lt_agrees hb ha]
    exact iff_comm
  case le => rw [← h, some_truth_iff, decide_eq_decide, pattern_le_agrees ha hb]
  case ge =>
    rw [← h, some_truth_iff, decide_eq_decide, ge_iff_le, pattern_le_agrees hb ha]
    exact iff_comm
  case eq => rw [← h, some_truth_iff, decide_eq_decide, pattern_inj ha hb]
  case ne => rw [← h, some_truth_iff, decide_eq_decide, ne_eq, ne_eq, pattern_inj ha hb]
  case band | bxor | bor => rw [← h, pattern_bitwise]
  case land =>
    rw [← h, some_truth_iff]
    simp [pattern_eq_zero ha, pattern_eq_zero hb]
  case lor =>
    rw [← h, some_truth_iff]
    simp [pattern_eq_zero ha, pattern_eq_zero hb]

/-- A unary operator on the word of a value gives the word of the result. -/
lemma combineUnary_pattern {op : ExprOp} {a v : ℤ} {inner : ExprResult} (ha : Fits a)
    (hv : inner.value = pattern a) (hf : inner.isFloat = false) (h : op.cUnary a = some v) :
    ∃ r, combineUnary inner op = some r ∧ r.value = pattern v ∧ r.isFloat = false := by
  cases op <;> simp only [ExprOp.cUnary, Option.some.injEq, reduceCtorEq, fit_eq_some] at h
  case pos => exact ⟨inner, rfl, h ▸ hv, hf⟩
  case neg =>
    refine ⟨⟨-inner.value, false, false, []⟩, ?_, ?_, rfl⟩
    · simp [combineUnary, hf]
    · rw [hv, pattern_neg, h.2]
  case not =>
    refine ⟨_, rfl, ?_, rfl⟩
    rw [← h, pattern_truth, hv]
    rcases eq_or_ne a 0 with rfl | h0
    · rfl
    · have hne : pattern a ≠ 0 := mt (pattern_eq_zero ha).mp h0
      rw [if_pos hne]
      simp [h0]
  case bnot =>
    refine ⟨_, rfl, ?_, rfl⟩
    rw [hv, pattern_not, h]

/-! ### Expressions -/

/-- An expression and the expressions it is built from. -/
def ExprNode.parts : ExprNode → List ExprNode
  | .num number isFloat => [.num number isFloat]
  | .ident name => [.ident name]
  | .unary op e => .unary op e :: e.parts
  | .binary op l r => .binary op l r :: (l.parts ++ r.parts)
  | .member e name => .member e name :: e.parts
  | .arrow e name => .arrow e name :: e.parts
  | .index e i => .index e i :: (e.parts ++ i.parts)
  | .addr e => .addr e :: e.parts
  | .deref e => .deref e :: e.parts

lemma ExprNode.self_mem_parts (e : ExprNode) : e ∈ e.parts := by
  cases e <;> simp [parts]

namespace World

/-- The value of a variable of a signed integer type with this many bytes. -/
def cVariable (w : World σ) (name : Str) (bytes : ℕ) : Option ℤ :=
  if bytes ∈ [1, 2, 4, 8] then
    (resolveVariableAddress w.dbg name).bind fun r =>
      (w.readMem w.dbg.pid r.2 bytes).map (signed bytes)
  else none

/-- What an expression means in C, where `bytes` gives the sizes of the variables. -/
def cEval (w : World σ) (bytes : Str → ℕ) : ExprNode → Option ℤ
  | .num number isFloat =>
      if isFloat = false ∧ number.toNat < 2 ^ 63 then some number.toNat else none
  | .ident name => w.cVariable name (bytes name)
  | .unary op e => (w.cEval bytes e).bind op.cUnary
  | .binary op l r =>
      (w.cEval bytes l).bind fun a => (w.cEval bytes r).bind fun b => op.cBinary a b
  | _ => none

/-- The bytes the debugger loads for a variable can be read and hold its value, extended. -/
def VariableAgrees (w : World σ) (name : Str) (bytes : ℕ) : Prop :=
  ∃ r ∈ resolveVariableAddress w.dbg name, ∃ p ∈ w.taskForPid w.dbg.pid,
    p.mappedSpan r.2 (scalarWidth r.1.size) ∧
      Extends p.mem r.2 bytes (scalarWidth r.1.size)

/-- At its variables and operators the debugger does with an expression what C does. -/
def AgreesWithC (w : World σ) (bytes : Str → ℕ) : ExprNode → Prop
  | .ident name => w.VariableAgrees name (bytes name)
  | .unary _ e => w.AgreesWithC bytes e
  | .binary op l r =>
      w.AgreesWithC bytes l ∧ w.AgreesWithC bytes r ∧
        ∀ a ∈ w.cEval bytes l, ∀ b ∈ w.cEval bytes r, op.AgreesAt a b
  | _ => True

instance (w : World σ) (name : Str) (bytes : ℕ) : Decidable (w.VariableAgrees name bytes) :=
  inferInstanceAs (Decidable (∃ r ∈ _, ∃ p ∈ _, _ ∧ _))

/-- `AgreesWithC` can be computed. -/
instance decidableAgreesWithC (w : World σ) (bytes : Str → ℕ) :
    DecidablePred (w.AgreesWithC bytes)
  | .ident name => inferInstanceAs (Decidable (w.VariableAgrees name (bytes name)))
  | .unary _ e => decidableAgreesWithC w bytes e
  | .binary op l r =>
      have := decidableAgreesWithC w bytes l
      have := decidableAgreesWithC w bytes r
      inferInstanceAs (Decidable (_ ∧ _ ∧ ∀ a ∈ w.cEval bytes l, ∀ b ∈ w.cEval bytes r,
        op.AgreesAt a b))
  | .num _ _ | .member _ _ | .arrow _ _ | .index _ _ | .addr _ | .deref _ => isTrue trivial

/-- The debugger evaluates an expression to the word of its value in C. -/
def FollowsC (w : World σ) (bytes : Str → ℕ) (e : ExprNode) : Prop :=
  ∃ v ∈ w.cEval bytes e, ∃ r ∈ (w.eval e).value, r.value = pattern v ∧ r.isFloat = false

variable {w : World σ} {bytes : Str → ℕ}

lemma cVariable_eq_some {name : Str} {n : ℕ} {v : ℤ} (h : w.cVariable name n = some v) :
    n ≤ 8 ∧ ∃ r, resolveVariableAddress w.dbg name = some r ∧
      ∃ p, w.taskForPid w.dbg.pid = some p ∧ v = signed n (p.mem.read r.2 n) := by
  unfold cVariable at h
  split at h
  next hn =>
    obtain ⟨r, hr, hv⟩ := Option.bind_eq_some_iff.mp h
    obtain ⟨u, hu, rfl⟩ := Option.map_eq_some_iff.mp hv
    obtain ⟨p, hp, _, rfl⟩ := readMem_eq_some.mp hu
    refine ⟨?_, r, hr, p, hp, rfl⟩
    revert hn
    simp only [List.mem_cons, List.not_mem_nil, or_false]
    omega
  · cases h

lemma scalarWidth_le (size : ℕ) : scalarWidth size ≤ 8 := by
  unfold scalarWidth
  split <;> omega

/-- The values of expressions are in range. -/
lemma fits_cEval : ∀ {e : ExprNode} {v : ℤ}, w.cEval bytes e = some v → Fits v := by
  intro e
  induction e with
  | num number isFloat =>
      intro v h
      simp only [cEval, Option.ite_none_right_eq_some, Option.some.injEq] at h
      obtain ⟨⟨_, hlt⟩, rfl⟩ := h
      constructor <;> omega
  | ident name =>
      intro v h
      obtain ⟨hn, r, _, p, _, rfl⟩ := cVariable_eq_some h
      exact fits_signed (Memory.read_lt _ _ _) hn
  | unary op e ih =>
      intro v h
      obtain ⟨a, ha, hv⟩ := Option.bind_eq_some_iff.mp h
      exact ExprOp.fits_cUnary (ih ha) hv
  | binary op l r ihl _ =>
      intro v h
      obtain ⟨a, ha, hv⟩ := Option.bind_eq_some_iff.mp h
      obtain ⟨b, _, hv⟩ := Option.bind_eq_some_iff.mp hv
      exact ExprOp.fits_cBinary (ihl ha) hv
  | _ => intro v h; cases h

/-- A variable is loaded as its value in C exactly if `VariableAgrees`. -/
lemma followsC_ident {name : Str} {v : ℤ} (h : w.cVariable name (bytes name) = some v) :
    w.FollowsC bytes (.ident name) ↔ w.VariableAgrees name (bytes name) := by
  obtain ⟨hn, ⟨var, addr⟩, hr, p, hp, rfl⟩ := cVariable_eq_some h
  have hload := load_eq_iff (m := p.mem) (a := addr) hn (scalarWidth_le var.size)
  have hread : w.readScalarValue addr var.size =
      if p.mappedSpan addr (scalarWidth var.size) then
        some (BitVec.ofNat 64 (p.mem.read addr (scalarWidth var.size))) else none := by
    rw [readScalarValue, readMem, hp]
    split <;> simp [*]
  simp only [FollowsC, VariableAgrees, cEval, eval, identValue, h, hr, hp, hread,
    Option.mem_def, Option.some.injEq, exists_eq_left', ← hload]
  split <;> simp [*]

/-- Once the parts of a unary expression follow C, it does. -/
lemma FollowsC.unary {op : ExprOp} {e : ExprNode} {v : ℤ}
    (h : w.cEval bytes (.unary op e) = some v) (he : w.FollowsC bytes e) :
    w.FollowsC bytes (.unary op e) := by
  obtain ⟨a, ha, inner, hinner, hpat, hf⟩ := he
  have hop : op.cUnary a = some v := by
    rw [cEval, ha] at h
    exact h
  obtain ⟨r, hr, hv⟩ := combineUnary_pattern (fits_cEval ha) hpat hf hop
  refine ⟨v, h, r, ?_, hv⟩
  rw [eval, plain, hinner]
  exact hr

/-- Once the operands of a binary operator follow C, the result does exactly if the operator
agrees with C on them. -/
lemma followsC_binary {op : ExprOp} {l r : ExprNode} {v : ℤ}
    (h : w.cEval bytes (.binary op l r) = some v) (hl : w.FollowsC bytes l)
    (hr : w.FollowsC bytes r) :
    w.FollowsC bytes (.binary op l r) ↔
      ∀ a ∈ w.cEval bytes l, ∀ b ∈ w.cEval bytes r, op.AgreesAt a b := by
  obtain ⟨a, ha, x, hx, hxa, _⟩ := hl
  obtain ⟨b, hb, y, hy, hyb, _⟩ := hr
  have hop : op.cBinary a b = some v := by
    rw [cEval, ha, Option.bind_some, hb] at h
    exact h
  have heval : (w.eval (.binary op l r)).value =
      (combineBinary (pattern a) (pattern b) op).map fun v => ⟨v, false, false, []⟩ := by
    rw [eval, plain, hx, Option.bind_some, hy, Option.bind_some, hxa, hyb]
  rw [FollowsC, h, heval]
  simp only [Option.mem_def, Option.some.injEq, exists_eq_left', Option.mem_def.mp ha,
    Option.mem_def.mp hb, forall_eq', ← combineBinary_iff (fits_cEval ha) (fits_cEval hb) hop]
  cases combineBinary (pattern a) (pattern b) op <;> simp

/-- An expression and all its parts follow C exactly if the debugger agrees with C at the
variables and operators. -/
lemma followsC_parts_iff : ∀ {e : ExprNode} {v : ℤ}, w.cEval bytes e = some v →
    ((∀ s ∈ e.parts, w.FollowsC bytes s) ↔ w.AgreesWithC bytes e) := by
  intro e
  induction e with
  | num number isFloat =>
      intro v h
      have hnum := h
      simp only [cEval, Option.ite_none_right_eq_some, Option.some.injEq] at hnum
      obtain ⟨⟨hf, _⟩, rfl⟩ := hnum
      simp only [ExprNode.parts, List.mem_singleton, forall_eq, AgreesWithC, iff_true]
      refine ⟨_, h, _, rfl, ?_, hf⟩
      rw [pattern, BitVec.ofInt_natCast, BitVec.ofNat_toNat, BitVec.setWidth_eq]
  | ident name =>
      intro v h
      rw [ExprNode.parts, AgreesWithC, ← followsC_ident h]
      exact List.forall_mem_singleton
  | unary op e ih =>
      intro v h
      obtain ⟨a, ha, _⟩ := Option.bind_eq_some_iff.mp h
      rw [ExprNode.parts, AgreesWithC, ← ih ha, List.forall_mem_cons]
      exact and_iff_right_of_imp fun he => (he e e.self_mem_parts).unary h
  | binary op l r ihl ihr =>
      intro v h
      obtain ⟨a, ha, hv⟩ := Option.bind_eq_some_iff.mp h
      obtain ⟨b, hb, _⟩ := Option.bind_eq_some_iff.mp hv
      rw [ExprNode.parts, AgreesWithC, ← ihl ha, ← ihr hb, List.forall_mem_cons,
        List.forall_mem_append]
      constructor
      · rintro ⟨hself, hl, hr⟩
        exact ⟨hl, hr, (followsC_binary h (hl l l.self_mem_parts) (hr r r.self_mem_parts)).mp hself⟩
      · rintro ⟨hl, hr, hop⟩
        exact ⟨(followsC_binary h (hl l l.self_mem_parts) (hr r r.self_mem_parts)).mpr hop, hl, hr⟩
  | _ => intro v h; cases h

end World

/-- **Integer expressions follow C**: where an expression has a value in C, the debugger
computes its word, and those of all its parts, exactly if it agrees with C at the variables
and operators; then `cdbg_expr_eval` succeeds with that word. -/
theorem expr_follows_c {w w' : World σ} {trace : List (Event σ)} {bytes : Str → ℕ} {text : Str}
    {e : ExprNode} {v : ℤ} (hlang : w.dbg.languageCheckExpr)
    (hregs : refreshRegs w = ⟨some 0, w', trace⟩) (htext : exprParse text = some e)
    (hv : w'.cEval bytes e = some v) :
    ((∀ s ∈ e.parts, w'.FollowsC bytes s) ↔ w'.AgreesWithC bytes e) ∧
      (w'.AgreesWithC bytes e → ∃ r, (exprEval text w).value = some (some r) ∧
        r.value = BitVec.ofInt 64 v ∧ r.isFloat = false) := by
  have hparts := World.followsC_parts_iff hv
  have heval : (exprEval text w).value = some (w'.eval e).value := by
    rw [exprEval, Prog.get_bind, if_neg (by simp [hlang]), Prog.bind_of_eq hregs]
    simp [htext]
  refine ⟨hparts, fun hagree => ?_⟩
  obtain ⟨v', hv', r, hr, hval, hf⟩ := hparts.mpr hagree e e.self_mem_parts
  obtain rfl : v = v' := Option.some.inj (hv.symm.trans hv')
  exact ⟨r, heval.trans (congrArg some hr), hval, hf⟩

/-- A debuggee stopped in a function with a variable `x` of type `int` whose bytes are `v`. -/
def stoppedAtInt (v : ℕ) : World Unit where
  dbg := { Dbg.init with
    pid := 7
    state := .stopped
    regs := (Thread.at 1 0x1010).regs
    debugInfo := some ["0x10: DW_TAG_subprogram".toList, "DW_AT_low_pc (0x1000)".toList,
      "DW_AT_high_pc (0x1080)".toList, "0x20:   DW_TAG_variable".toList,
      "DW_AT_location (DW_OP_breg31 WSP+8)".toList, "DW_AT_name (\"x\")".toList,
      "DW_AT_type (\"int\")".toList] }
  proc := some (.resting (.numbered (.at 1 0x1010) []) (Memory.write (fun _ => 0) 8 4 v))
  host := ()

/-- `x % 4 - 7` is `-6` where `x` is `5`. -/
theorem expr_follows_c_int : ∃ r, (exprEval "x % 4 - 7".toList (stoppedAtInt 5)).value =
    some (some r) ∧ r.value = BitVec.ofInt 64 (-6) ∧ r.isFloat = false :=
  (@expr_follows_c _ _ _ _ (fun _ => 4) _
    (.binary .sub (.binary .mod (.ident ['x']) (.num 4 false)) (.num 7 false)) _
    (by decide) rfl (by decide +kernel) (by decide +kernel)).2 (by decide +kernel)

/-- Where `x` is `-1`, the debugger takes it for a large number, and `-4 / 2` as well. -/
theorem expr_misses_c :
    (stoppedAtInt 0xffffffff).cVariable ['x'] 4 = some (-1) ∧
      ((exprEval "x".toList (stoppedAtInt 0xffffffff)).value.join.map ExprResult.value) =
        some 0xffffffff ∧
    (stoppedAtInt 0xffffffff).cEval (fun _ => 4)
      (.binary .div (.unary .neg (.num 4 false)) (.num 2 false)) = some (-2) ∧
      ((exprEval "-4 / 2".toList (stoppedAtInt 0xffffffff)).value.join.map ExprResult.value) =
        some 0x7ffffffffffffffe := by
  decide +kernel

end Cdbg
