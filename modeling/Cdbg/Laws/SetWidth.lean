import Cdbg.Laws.Address
import Cdbg.Laws.Identifiers
import Cdbg.Machine.Script

/-!
How far `set` writes.

What is written to an object is a scalar of the size that `type_scalar_size` guesses from the
words in the name of the type (`width_declared`), whatever the size of that type is. So `set`
stays inside an object of `n` bytes if the guess is at most `n`, and otherwise some value is
written past the end, if there is memory (`set_stays_iff`).
-/

namespace Cdbg

open CString

variable {σ : Type}

/-- The name of the type that the debugging information gives an object: a variable (for a
symbol this is always `unsigned long`), a member, an element, or what a pointer points to. It
is empty where there is none. -/
def World.declaredType (w : World σ) : ExprNode → Option Str
  | .ident name => (resolveVariableAddress w.dbg name).map fun v => v.1.type
  | .member e name => (w.eval e).lvalue.bind fun lv =>
      (lookupStructMember w.dbg lv.type name).map StructMember.type
  | .arrow e name => (w.eval e).pointer.bind fun p =>
      (lookupStructMember w.dbg p.2 name).map StructMember.type
  | .index (.ident name) _ => (resolveVariableAddress w.dbg name).map fun v =>
      if v.1.isArray then v.1.elementType else pointerPointeeType v.1
  | .index e _ => (w.eval e).pointer.map Prod.snd
  | .deref e => (w.eval e).pointer.map Prod.snd
  | _ => none

/-- Whether an expression can denote a whole structure: a variable, an element or what a
pointer points to. -/
def ExprNode.isTerminal : ExprNode → Bool
  | .ident _ => true
  | .deref _ => true
  | .index _ _ => true
  | _ => false

/-- `set` writes nothing: it does not support the language, or the left side is an address, or
it is taken for a whole structure. -/
def World.SetRefuses (w : World σ) (lhs : Str) (root : ExprNode) (type : Str) : Prop :=
  w.dbg.languageCheckExpr = false ∨ lhs.head? = some '&' ∨
    root.isTerminal = true ∧ type ≠ [] ∧ typeIsScalar type = false

/-- `set lhs = v` changes at most the `n` bytes at an address, for every `v`. -/
def World.SetStays (w : World σ) (lhs : Str) (a : Addr) (n : ℕ) : Prop :=
  ∀ rhs p q, w.proc = some p → (setStorage lhs rhs w).final.proc = some q →
    ∀ x, x ∉ Memory.span a n → q.mem x = p.mem x

/-! ### The width of an object -/

lemma typeScalarSize_bounds (type : Str) : 1 ≤ typeScalarSize type ∧ typeScalarSize type ≤ 8 := by
  rw [typeScalarSize, ptrSize]
  split_ifs <;> decide

lemma scalarWidth_typeScalarSize (type : Str) :
    scalarWidth (typeScalarSize type) = typeScalarSize type := by
  obtain ⟨hpos, hle⟩ := typeScalarSize_bounds type
  exact if_neg (by omega)

/-- The size of an element is the guess, unless the element is a structure. -/
lemma width_element {d : Dbg} {type : Str} (h : type = [] ∨ typeIsScalar type = true) :
    scalarWidth (typeElementSize d type) = typeScalarSize type := by
  rw [typeElementSize]
  by_cases hnil : type = []
  · rw [if_pos hnil, hnil]
    decide
  · rw [if_neg hnil, if_pos (h.resolve_left hnil), scalarWidth_typeScalarSize]

variable {w v : World σ} {t : List (Event σ)} {lhs : Str} {root : ExprNode} {lv : LValue}
  {type : Str}

/-- What holds of the storage of an object of a type: its width is the guess, and it has the
type if it may be a whole structure. -/
structure LValue.Fits (lv : LValue) (terminal : Bool) (type : Str) : Prop where
  width : type = [] ∨ typeIsScalar type = true ∨ terminal = false →
    scalarWidth lv.size = typeScalarSize type
  type_eq : terminal = true → lv.type = type

/-- Storage at a pointer. -/
lemma LValue.fits_pointee {d : Dbg} {lv : LValue} (htype : lv.type = type)
    (hsize : lv.size = if type = [] then 8 else typeElementSize d type) :
    lv.Fits true type := by
  refine ⟨fun h => ?_, fun _ => htype⟩
  rw [hsize]
  split
  next hnil =>
    rw [hnil]
    decide
  next hnil => exact width_element (or_assoc.mpr h |>.resolve_right (by decide))

/-- A member. -/
lemma fits_member {w : World σ} {base : Addr} {baseType name : Str} {lv : LValue}
    (h : w.memberLvalue base baseType name = some lv) :
    ∃ m, lookupStructMember w.dbg baseType name = some m ∧ lv.Fits false m.type := by
  obtain ⟨m, hm, rfl⟩ := Option.map_eq_some_iff.mp h
  refine ⟨m, hm, fun _ => ?_, nofun⟩
  rw [lookupStructMember_size hm, scalarWidth_typeScalarSize]

/-- An element of a named array or pointer. -/
lemma fits_subscript {w : World σ} {name : Str} {index : BitVec 64} {lv : LValue}
    (h : w.resolveSubscriptElement name index = some lv) :
    ∃ var addr, resolveVariableAddress w.dbg name = some (var, addr) ∧
      lv.Fits true (if var.isArray then var.elementType else pointerPointeeType var) := by
  rw [World.resolveSubscriptElement] at h
  cases hvar : resolveVariableAddress w.dbg name with
  | none =>
      rw [hvar] at h
      cases h
  | some found =>
  obtain ⟨var, addr⟩ := found
  rw [hvar] at h
  dsimp only at h
  have hfits {type : Str} {lv : LValue} (htype : lv.type = type)
      (hsize : lv.size = typeElementSize w.dbg type) : lv.Fits true type := by
    refine ⟨fun hscalar => ?_, fun _ => htype⟩
    rw [hsize]
    exact width_element (or_assoc.mpr hscalar |>.resolve_right (by decide))
  refine ⟨var, addr, rfl, ?_⟩
  split at h
  next harray =>
    rw [if_pos harray]
    split at h
    · cases h
    · obtain rfl := Option.some.inj h
      obtain ⟨raw, -, rfl⟩ := resolveVariableAddress_completed hvar
      exact hfits rfl ((completeVarType_sizes w.dbg raw).1 harray)
  next harray =>
    rw [if_neg harray]
    split at h
    · split at h
      · cases h
      · obtain rfl := Option.some.inj h
        exact hfits rfl rfl
    · cases h

/-- **The width of an object** is the guess for the name of its type. -/
lemma fits_declared (hlv : (w.eval root).lvalue = some lv) (ht : w.declaredType root = some type) :
    lv.Fits root.isTerminal type := by
  cases root with
  | num number isFloat => cases ht
  | unary op e => cases ht
  | binary op l r => cases ht
  | addr e => cases ht
  | ident name =>
      obtain ⟨found, hvar, rfl⟩ := Option.map_eq_some_iff.mp ht
      obtain ⟨var, addr⟩ := found
      rw [World.eval, World.identLvalue, hvar] at hlv
      dsimp only at hlv
      split at hlv
      · cases hlv
      next harray =>
      obtain rfl := Option.some.inj hlv
      obtain ⟨raw, -, rfl⟩ := resolveVariableAddress_completed hvar
      refine ⟨fun _ => ?_, fun _ => rfl⟩
      rw [(completeVarType_sizes w.dbg raw).2 (by simpa using harray), scalarWidth_typeScalarSize]
  | member e name =>
      obtain ⟨base, hbase, hmember⟩ := Option.bind_eq_some_iff.mp hlv
      obtain ⟨base', hbase', htype⟩ := Option.bind_eq_some_iff.mp ht
      obtain rfl := Option.some.inj (hbase.symm.trans hbase')
      obtain ⟨m, hm, hfits⟩ := fits_member hmember
      rw [hm] at htype
      exact Option.some.inj htype ▸ hfits
  | arrow e name =>
      obtain ⟨p, hp, hmember⟩ := Option.bind_eq_some_iff.mp hlv
      obtain ⟨p', hp', htype⟩ := Option.bind_eq_some_iff.mp ht
      obtain rfl := Option.some.inj (hp.symm.trans hp')
      obtain ⟨m, hm, hfits⟩ := fits_member hmember
      rw [hm] at htype
      exact Option.some.inj htype ▸ hfits
  | deref e =>
      obtain ⟨p, hp, rfl⟩ := Option.map_eq_some_iff.mp hlv
      obtain ⟨p', hp', rfl⟩ := Option.map_eq_some_iff.mp ht
      obtain rfl := Option.some.inj (hp.symm.trans hp')
      refine LValue.fits_pointee (d := w.dbg) ?_ ?_ <;> rw [World.derefLvalue]
      · split <;> simp [*]
      · split <;> simp [*]
  -- a subscripted name has a way of its own, other bases go over the pointer
  | index e i =>
      obtain ⟨idx, -, helem⟩ := Option.bind_eq_some_iff.mp hlv
      have hpointer {e : ExprNode}
          (hlv : ((w.eval e).pointer.map fun p => w.elementLvalue p idx.value) = some lv)
          (ht : (w.eval e).pointer.map Prod.snd = some type) : lv.Fits true type := by
        obtain ⟨p, hp, rfl⟩ := Option.map_eq_some_iff.mp hlv
        obtain ⟨p', hp', rfl⟩ := Option.map_eq_some_iff.mp ht
        obtain rfl := Option.some.inj (hp.symm.trans hp')
        exact LValue.fits_pointee (d := w.dbg) rfl rfl
      cases e with
      | ident name =>
          obtain ⟨var, addr, hvar, hfits⟩ := fits_subscript helem
          rw [World.declaredType, hvar] at ht
          exact Option.some.inj ht ▸ hfits
      | _ => exact hpointer helem ht

/-! ### The bytes that change -/

/-- Whether the storage of an expression is taken for a whole structure. -/
lemma exprEvalLvalue_declared (hparse : exprParse lhs = some root)
    (hlv : (w.eval root).lvalue = some lv) (ht : w.declaredType root = some type) :
    w.exprEvalLvalue lhs =
      some (lv, decide (root.isTerminal = true ∧ type ≠ [] ∧ typeIsScalar type = false)) := by
  have hfits := fits_declared hlv ht
  rw [World.exprEvalLvalue, hparse]
  cases root with
  | addr e => cases ht
  | ident | deref | index =>
      dsimp only
      rw [hlv, ← hfits.type_eq rfl]
      simp [ExprNode.isTerminal]
  | _ =>
      dsimp only
      rw [hlv]
      simp [ExprNode.isTerminal]

/-- The number that the right side of `set` gives. -/
def World.assigned (w : World σ) (rhs : Str) : Option (BitVec 64) :=
  ((exprParse rhs).bind fun e => (w.eval e).value).bind fun r =>
    if r.isAddress then none else some r.value

/-- `set` writes nothing, or the number that the right side gives. -/
lemma setStorage_cases (hr : refreshRegs w = ⟨some 0, v, t⟩) (hparse : exprParse lhs = some root)
    (hlv : (v.eval root).lvalue = some lv) (ht : v.declaredType root = some type) (rhs : Str) :
    (w.SetRefuses lhs root type ∨ v.assigned rhs = none) ∧
        (setStorage lhs rhs w).final.proc = w.proc ∨
      ¬ w.SetRefuses lhs root type ∧ ∃ value, v.assigned rhs = some value ∧
        (setStorage lhs rhs w).final = (writeScalarValue lv.addr lv.size value v).final := by
  obtain ⟨t', ht'⟩ := refreshRegs_twice hr
  have hproc : v.proc = w.proc := by
    obtain ⟨regs, rfl⟩ := refreshRegs_frame hr
    rfl
  -- the four refusals, in the order of the source
  rw [setStorage, Prog.get_bind, World.assigned]
  by_cases hlang : w.dbg.languageCheckExpr = false
  · rw [if_pos hlang]
    exact .inl ⟨.inl (.inl hlang), rfl⟩
  rw [if_neg hlang, Prog.bind_of_eq (exprEval_run (by simpa using hlang) hr rhs)]
  cases (exprParse rhs).bind fun root => (v.eval root).value with
  | none => exact .inl ⟨.inr rfl, hproc⟩
  | some result =>
  dsimp only
  rw [Option.bind_some]
  by_cases haddr : result.isAddress = true
  · rw [if_pos haddr, if_pos haddr]
    exact .inl ⟨.inr rfl, hproc⟩
  rw [if_neg haddr, if_neg haddr]
  by_cases hplace : lhs.head? = some '&' ∨
      root.isTerminal = true ∧ type ≠ [] ∧ typeIsScalar type = false
  · have hlhs : resolveSetLhs lhs v = ⟨some none, v, t'⟩ := by
      rw [resolveSetLhs, Prog.bind_of_eq ht', if_neg (by simp)]
      by_cases hamp : lhs.head? = some '&'
      · simp [hamp]
      · simp [hamp, exprEvalLvalue_declared hparse hlv ht, hplace.resolve_left hamp]
    rw [Prog.bind_of_eq hlhs]
    exact .inl ⟨.inl (.inr hplace), hproc⟩
  · obtain ⟨hamp, hwhole⟩ := not_or.mp hplace
    have hlhs : resolveSetLhs lhs v = ⟨some (some lv), v, t'⟩ := by
      rw [resolveSetLhs, Prog.bind_of_eq ht', if_neg (by simp)]
      simp [hamp, exprEvalLvalue_declared hparse hlv ht, hwhole]
    rw [Prog.bind_of_eq hlhs]
    exact .inr ⟨not_or.mpr ⟨hlang, hplace⟩, result.value, rfl, rfl⟩

/-- The bytes of a row that come before the first unmapped one. -/
lemma lt_mappedPrefix_iff {p : Proc} {a : Addr} {k n : ℕ} :
    n < p.mappedPrefix a k ↔ n < k ∧ p.mappedSpan a (n + 1) = true := by
  have hrow {P : ℕ → Bool} (l : List ℕ) : ∀ n,
      n < (l.takeWhile P).length ↔ n < l.length ∧ (l.take (n + 1)).all P = true := by
    induction l with
    | nil => simp
    | cons x l ih =>
        intro n
        cases hx : P x with
        | false => simp [hx]
        | true =>
            rw [List.takeWhile_cons_of_pos hx, List.take_succ_cons, List.all_cons, hx]
            cases n with
            | zero => simp
            | succ n => simpa using ih n
  rw [Proc.mappedPrefix, hrow, List.length_range, Proc.mappedSpan]
  refine and_congr_right fun hn => ?_
  rw [List.take_range, Nat.min_eq_left (by omega)]

/-- `set` writes the bytes of the width up to the first that is not mapped. -/
lemma writeScalarValue_final {p : Proc} (hp : w.taskForPid w.dbg.pid = some p) (a : Addr)
    (size : ℕ) (value : BitVec 64) : (writeScalarValue a size value w).final = w.setProc
      { p with mem := p.mem.write a (p.mappedPrefix a (scalarWidth size)) value.toNat } := by
  rcases writeScalarValue_cases a size value w with ⟨hnone, -⟩ | ⟨q, hq, h⟩
  · rw [hp] at hnone
    cases hnone
  · obtain rfl := Option.some.inj (hp.symm.trans hq)
    rcases h with ⟨hmapped, h⟩ | ⟨-, h⟩ <;> rw [h]
    have hwhole : p.mappedPrefix a (scalarWidth size) = scalarWidth size := by
      rw [Proc.mappedPrefix, List.takeWhile_eq_self_iff.mpr (List.all_eq_true.mp hmapped),
        List.length_range]
    rw [hwhole]

/-- A number can be assigned. -/
lemma assigned_num {rhs : Str} {value : BitVec 64} (h : exprParse rhs = some (.num value false)) :
    w.assigned rhs = some value := by
  rw [World.assigned, h]
  rfl

/-- **`set` stays inside the object** exactly if it writes nothing, or the width guessed from
the name of the type is at most the size of the object, or a byte up to the first behind the
object is not mapped. -/
theorem set_stays_iff (hr : refreshRegs w = ⟨some 0, v, t⟩) (hparse : exprParse lhs = some root)
    (hlv : (v.eval root).lvalue = some lv) (ht : v.declaredType root = some type) {p : Proc}
    (hp : w.taskForPid w.dbg.pid = some p) (n : ℕ) :
    w.SetStays lhs lv.addr n ↔ w.SetRefuses lhs root type ∨ typeScalarSize type ≤ n ∨
      p.mappedSpan lv.addr (n + 1) = false := by
  have hpv : v.taskForPid v.dbg.pid = some p := by
    obtain ⟨regs, rfl⟩ := refreshRegs_frame hr
    exact hp
  have hproc := (World.taskForPid_eq_some.mp hp).1
  -- where a number is written, the width is the guess
  have hwidth : ¬ w.SetRefuses lhs root type → scalarWidth lv.size = typeScalarSize type := by
    intro hset
    refine (fits_declared hlv ht).width ?_
    by_contra hno
    simp only [not_or, Bool.not_eq_true, Bool.not_eq_false] at hno
    exact hset (.inr (.inr ⟨hno.2.2, hno.1, hno.2.1⟩))
  constructor
  · intro hstays
    by_contra hnot
    simp only [not_or, not_le, Bool.not_eq_false] at hnot
    obtain ⟨hset, hlt, hmapped⟩ := hnot
    have h8 := (typeScalarSize_bounds type).2
    have hoffset : (lv.addr + BitVec.ofNat 64 n - lv.addr).toNat = n := by
      rw [BitVec.add_comm, BitVec.add_sub_cancel, BitVec.toNat_ofNat]
      exact Nat.mod_eq_of_lt (by omega)
    have hpast : lv.addr + BitVec.ofNat 64 n ∉ Memory.span lv.addr n := by
      rw [Memory.mem_span, hoffset]
      exact lt_irrefl n
    -- the byte past the end is set to that of the number, whatever it was
    have hbyte (rhs : Str) (value : BitVec 64) (hrhs : exprParse rhs = some (.num value false)) :
        BitVec.ofNat 8 (value.toNat / 256 ^ n) = p.mem (lv.addr + BitVec.ofNat 64 n) := by
      rcases setStorage_cases hr hparse hlv ht rhs with ⟨hno, -⟩ | ⟨-, value', hvalue', hfinal⟩
      · rw [assigned_num hrhs] at hno
        exact absurd (hno.resolve_right nofun) hset
      · obtain rfl := Option.some.inj ((assigned_num hrhs).symm.trans hvalue')
        rw [writeScalarValue_final hpv] at hfinal
        have hmem : lv.addr + BitVec.ofNat 64 n ∈
            Memory.span lv.addr (p.mappedPrefix lv.addr (scalarWidth lv.size)) := by
          rw [Memory.mem_span, hoffset, hwidth hset]
          exact lt_mappedPrefix_iff.mpr ⟨hlt, hmapped⟩
        rw [← hstays rhs p _ hproc (congrArg World.proc hfinal) _ hpast]
        dsimp only
        rw [Memory.write_of_mem hmem, hoffset]
    have hzero := hbyte "0".toList 0 (by decide)
    have hones := hbyte "18446744073709551615".toList (BitVec.allOnes 64) (by decide +kernel)
    have hdiffer : ∀ k < 8, BitVec.ofNat 8 ((0 : BitVec 64).toNat / 256 ^ k) ≠
        BitVec.ofNat 8 ((BitVec.allOnes 64).toNat / 256 ^ k) := by decide
    exact hdiffer n (by omega) (hzero.trans hones.symm)
  · intro h rhs p' q hp' hq x hx
    obtain rfl := Option.some.inj (hproc.symm.trans hp')
    rcases setStorage_cases hr hparse hlv ht rhs with ⟨-, hsame⟩ | ⟨hset, value, -, hfinal⟩
    · rw [hsame, hproc] at hq
      rw [Option.some.inj hq]
    · rw [hfinal, writeScalarValue_final hpv] at hq
      rw [← Option.some.inj hq]
      refine Memory.write_of_notMem fun hmem => hx ?_
      rw [Memory.mem_span] at hmem ⊢
      by_contra hge
      have hlong := lt_mappedPrefix_iff.mp (lt_of_le_of_lt (not_lt.mp hge) hmem)
      rw [hwidth hset] at hlong
      rcases h.resolve_left hset with hle | hend
      · omega
      · rw [hlong.2] at hend
        cases hend

/-- Four bytes are written to a variable whose type is called `uint8_t`, as the name has `int`
in it: it fits in four bytes, not in one. -/
theorem set_stays_iff_uint8 :
    (stoppedAtLocal "uint8_t" fun _ => 0).SetStays ['p'] 8 4 ∧
      ¬ (stoppedAtLocal "uint8_t" fun _ => 0).SetStays ['p'] 8 1 := by
  have hiff := @set_stays_iff _ (stoppedAtLocal "uint8_t" fun _ => 0) _ _ ['p'] (.ident ['p'])
    ⟨8, 4, true, "uint8_t".toList⟩ "uint8_t".toList rfl (by decide) (by decide +kernel)
    (by decide +kernel) _ rfl
  refine ⟨(hiff 4).mpr (.inr (.inl (by decide))), fun h => ?_⟩
  rcases (hiff 1).mp h with hset | hle | hend
  · rcases hset with hlang | hamp | ⟨-, -, hscalar⟩
    · exact absurd hlang (by decide)
    · exact absurd hamp (by decide)
    · exact absurd hscalar (by decide)
  · exact absurd hle (by decide)
  · exact absurd hend (by decide)

end Cdbg
