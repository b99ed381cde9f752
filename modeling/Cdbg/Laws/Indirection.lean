import Cdbg.Expr.Eval
import Cdbg.Machine.Script
import Mathlib.Data.List.TakeWhile

/-!
Levels of indirection: how the text of a pointer type is taken apart by
`strip_pointer_star` and `pointer_pointee_type`, and what nested dereferences of a
pointer variable denote.

Both functions cut the text at its first star, so they undo `make_pointer_type` only
on a text without a star, and a pointer to a pointer loses all its stars at once.
-/

namespace Cdbg

open CString

variable {σ : Type}

/-! ### Types -/

/-- Whether a text ends with no blank. -/
def NoTrailingBlank (s : Str) : Prop := s.getLast? ≠ some ' '

instance instDecidableNoTrailingBlank (s : Str) : Decidable (NoTrailingBlank s) :=
  inferInstanceAs (Decidable (s.getLast? ≠ some ' '))

lemma dropTrailingBlanks_eq_self {s : Str} (h : NoTrailingBlank s) : dropTrailingBlanks s = s := by
  rw [NoTrailingBlank, ← List.head?_reverse] at h
  rw [dropTrailingBlanks]
  cases hs : s.reverse with
  | nil => rw [List.reverse_eq_nil_iff.mp hs]; rfl
  | cons c t =>
      have hc : c ≠ ' ' := by simpa [hs] using h
      rw [List.dropWhile_cons_of_neg (by simpa using hc), ← hs, List.reverse_reverse]

lemma dropTrailingBlanks_append_blank (s : Str) :
    dropTrailingBlanks (s ++ [' ']) = dropTrailingBlanks s := by
  simp [dropTrailingBlanks]

lemma noTrailingBlank_dropTrailingBlanks (s : Str) : NoTrailingBlank (dropTrailingBlanks s) := by
  rw [NoTrailingBlank, dropTrailingBlanks, ← List.head?_reverse, List.reverse_reverse]
  intro h
  have hblank := List.head?_dropWhile_not (fun c => decide (c = ' ')) s.reverse
  rw [h] at hblank
  simp at hblank

lemma dropTrailingBlanks_initial (s : Str) : dropTrailingBlanks s <+: s := by
  have h : s.reverse.dropWhile (· = ' ') <:+ s.reverse := List.dropWhile_suffix _
  simpa [dropTrailingBlanks] using List.reverse_prefix.mpr h

lemma mem_of_mem_dropTrailingBlanks {c : Char} {s : Str} (h : c ∈ dropTrailingBlanks s) : c ∈ s :=
  (dropTrailingBlanks_initial s).subset h

/-- The part of a type before its first star. -/
def beforeStar (type : Str) : Str := dropTrailingBlanks (type.takeWhile (· ≠ '*'))

lemma star_notMem_beforeStar (type : Str) : '*' ∉ beforeStar type := by
  intro h
  simpa using List.mem_takeWhile_imp (mem_of_mem_dropTrailingBlanks h)

lemma stripPointerStar_of_mem {type : Str} (h : '*' ∈ type) :
    stripPointerStar type = truncate typeLen (beforeStar type) := if_pos h

lemma star_notMem_stripPointerStar (type : Str) : '*' ∉ stripPointerStar type := by
  rw [stripPointerStar]
  split
  · intro h
    exact star_notMem_beforeStar type (List.mem_of_mem_take h)
  · exact List.not_mem_nil

lemma star_notMem_pointerPointeeType (var : VarInfo) : '*' ∉ pointerPointeeType var := by
  rw [pointerPointeeType]
  split
  · intro h
    exact star_notMem_beforeStar var.type (List.mem_of_mem_take h)
  · intro h
    exact absurd (List.mem_of_mem_take h) ‹_›

lemma makePointerType_of_ne_nil {type : Str} (h : type ≠ []) :
    makePointerType type = (dropTrailingBlanks type).take (typeLen - 4) ++ " *".toList := if_neg h

/-- Stripping the star that `make_pointer_type` added leaves the text without its
trailing blanks, as far as the buffer takes it. -/
lemma stripPointerStar_makePointerType {type : Str} (h : '*' ∉ type) :
    stripPointerStar (makePointerType type) =
      dropTrailingBlanks ((dropTrailingBlanks type).take (typeLen - 4)) := by
  rcases eq_or_ne type [] with rfl | hne
  · rfl
  set cut := (dropTrailingBlanks type).take (typeLen - 4) with hcut
  have hstar : '*' ∉ cut ++ [' '] := by
    intro hc
    rcases List.mem_append.mp hc with hc | hc
    · exact h (mem_of_mem_dropTrailingBlanks (List.mem_of_mem_take hc))
    · exact absurd (List.mem_singleton.mp hc) (by decide)
  have hmake : makePointerType type = cut ++ [' '] ++ '*' :: [] := by
    rw [makePointerType_of_ne_nil hne, List.append_assoc]
    rfl
  have hbefore : beforeStar (makePointerType type) = dropTrailingBlanks cut := by
    rw [beforeStar, hmake, takeWhile_ne_append hstar, dropTrailingBlanks_append_blank]
  rw [stripPointerStar_of_mem (by simp [hmake]), hbefore]
  have hlen : (dropTrailingBlanks cut).length ≤ typeLen - 1 := by
    have := (dropTrailingBlanks_initial cut).length_le
    have : cut.length ≤ typeLen - 4 := List.length_take_le _ _
    omega
  exact List.take_of_length_le hlen

/-- `strip_pointer_star` undoes `make_pointer_type` on exactly the types without a star,
without trailing blanks and short enough for the buffer. -/
lemma stripPointerStar_makePointerType_iff (type : Str) :
    stripPointerStar (makePointerType type) = type ↔
      '*' ∉ type ∧ NoTrailingBlank type ∧ type.length ≤ typeLen - 4 := by
  constructor
  · intro h
    have hstar : '*' ∉ type := h ▸ star_notMem_stripPointerStar _
    rw [stripPointerStar_makePointerType hstar] at h
    refine ⟨hstar, h ▸ noTrailingBlank_dropTrailingBlanks _, ?_⟩
    rw [← h]
    have := (dropTrailingBlanks_initial ((dropTrailingBlanks type).take (typeLen - 4))).length_le
    have := List.length_take_le (typeLen - 4) (dropTrailingBlanks type)
    omega
  · rintro ⟨hstar, hblank, hlen⟩
    rw [stripPointerStar_makePointerType hstar, dropTrailingBlanks_eq_self hblank,
      List.take_of_length_le hlen, dropTrailingBlanks_eq_self hblank]

/-! ### Pointer variables -/

/-- The text of a type with `k` stars. -/
def pointerText (base : Str) (k : ℕ) : Str := base ++ ' ' :: List.replicate k '*'

/-- An expression under `j` dereferences. -/
def ExprNode.derefs (e : ExprNode) : ℕ → ExprNode
  | 0 => e
  | j + 1 => .deref (e.derefs j)

namespace World

/-- Where `j` pointers lead, the first one stored at an address. -/
def follow (w : World σ) (addr : Addr) : ℕ → Option Addr
  | 0 => some addr
  | j + 1 => (w.follow addr j).bind fun p => w.readScalarValue p ptrSize

/-- Every level of a pointer variable with `k` stars is honoured: the first `k` nested
dereferences denote the storage the pointers lead to, all but the last are pointers of
eight bytes with a star less each time, and a subscript of a pointer to pointers counts
in steps of eight. -/
structure HonoursLevels (w : World σ) (name : Str) (addr : Addr) (k : ℕ) : Prop where
  deref : ∀ j, 1 ≤ j → j ≤ k → ∀ a, w.follow addr j = some a →
    ∃ lv, (w.eval ((ExprNode.ident name).derefs j)).lvalue = some lv ∧ lv.addr = a ∧
      (w.eval ((ExprNode.ident name).derefs j)).value = w.loadValue lv ∧
      (j < k → lv.size = 8 ∧ lv.type.count '*' = k - j)
  subscript : 2 ≤ k → ∀ p i idx, w.follow addr 1 = some p → (w.eval i).value = some idx →
    ∃ lv, (w.eval (.index (.ident name) i)).lvalue = some lv ∧ lv.addr = p + idx.value * 8

/-- The first dereference of a pointer variable. -/
lemma eval_deref_ident (w : World σ) {name : Str} {var : VarInfo} {addr p : Addr}
    (hvar : resolveVariableAddress w.dbg name = some (var, addr)) (hstar : '*' ∈ var.type)
    (hp : w.follow addr 1 = some p) :
    (w.eval (.deref (.ident name))).lvalue = some (w.derefLvalue (p, pointerPointeeType var)) := by
  have hread : w.readScalarValue addr ptrSize = some p := hp
  have hptr : var.isPointer ≠ false := by
    rw [resolveVariableAddress_isPointer hvar]
    simpa using hstar
  simp only [eval, storage, identPointer, hvar, if_neg hptr, hread, Option.map_some]

lemma eval_deref_value (w : World σ) (e : ExprNode) {lv : LValue}
    (h : (w.eval (.deref e)).lvalue = some lv) : (w.eval (.deref e)).value = w.loadValue lv := by
  rw [eval, storage] at h ⊢
  exact (congrArg (Option.bind · w.loadValue) h).trans rfl

/-- Where the first pointer cannot be read, none behind it can. -/
lemma follow_eq_none (w : World σ) {addr : Addr} (h : w.follow addr 1 = none) :
    ∀ j, 1 ≤ j → w.follow addr j = none := by
  intro j hj
  induction j, hj using Nat.le_induction with
  | base => exact h
  | succ j _ ih => rw [follow, ih]; rfl

lemma derefLvalue_addr (w : World σ) (pointer : BitVec 64 × Str) :
    (w.derefLvalue pointer).addr = pointer.1 := by
  rw [derefLvalue]
  split <;> rfl

lemma derefLvalue_type (w : World σ) (pointer : BitVec 64 × Str) :
    (w.derefLvalue pointer).type = pointer.2 := by
  rw [derefLvalue]
  split
  · exact Eq.symm ‹_›
  · rfl

end World

lemma star_mem_pointerText {base : Str} {k : ℕ} (hk : 1 ≤ k) : '*' ∈ pointerText base k := by
  rw [pointerText]
  exact List.mem_append_right _ (List.mem_cons_of_mem _ (by simp; omega))

/-- **Levels of indirection**: a pointer variable with `k` stars has all its levels
honoured exactly if there is one, or the variable cannot be read at all; and stripping a
star undoes `make_pointer_type` on exactly the types without a star that end with no blank
and fit the buffer. -/
theorem levels_honoured {w : World σ} {name base : Str} {var : VarInfo} {addr : Addr} {k : ℕ}
    (hk : 1 ≤ k) (hvar : resolveVariableAddress w.dbg name = some (var, addr))
    (htype : var.type = pointerText base k) (type : Str) :
    (w.HonoursLevels name addr k ↔ k = 1 ∨ w.follow addr 1 = none) ∧
      (stripPointerStar (makePointerType type) = type ↔
        '*' ∉ type ∧ NoTrailingBlank type ∧ type.length ≤ typeLen - 4) := by
  have hstar : '*' ∈ var.type := htype ▸ star_mem_pointerText hk
  refine ⟨⟨fun h => ?_, fun h => ?_⟩, stripPointerStar_makePointerType_iff type⟩
  · by_contra hcon
    obtain ⟨hk1, hread⟩ := not_or.mp hcon
    obtain ⟨p, hp⟩ := Option.ne_none_iff_exists'.mp hread
    obtain ⟨lv, hlv, -, -, hlevel⟩ := h.deref 1 le_rfl hk p hp
    have hlv' : lv = w.derefLvalue (p, pointerPointeeType var) :=
      Option.some.inj (hlv.symm.trans (w.eval_deref_ident hvar hstar hp))
    have hcount := (hlevel (by omega)).2
    rw [hlv', World.derefLvalue_type,
      List.count_eq_zero_of_not_mem (star_notMem_pointerPointeeType var)] at hcount
    omega
  · constructor
    · intro j hj hjk a ha
      rcases h with rfl | hnone
      · obtain rfl : j = 1 := by omega
        have hlv := w.eval_deref_ident hvar hstar ha
        exact ⟨_, hlv, w.derefLvalue_addr _, w.eval_deref_value _ hlv, fun hlt => by omega⟩
      · rw [w.follow_eq_none hnone j hj] at ha
        cases ha
    · intro h2 p i idx hp _
      rcases h with rfl | hnone
      · omega
      · rw [hnone] at hp
        cases hp

/-- A debuggee stopped in a function with a variable `p` of a type, which lies at `8`. -/
def stoppedAtLocal (type : String) (mem : Memory) : World Unit where
  dbg := { Dbg.init with
    pid := 7
    state := .stopped
    regs := (Thread.at 1 0x1010).regs
    debugInfo := some ["0x10: DW_TAG_subprogram".toList, "DW_AT_low_pc (0x1000)".toList,
      "DW_AT_high_pc (0x1080)".toList, "0x20:   DW_TAG_variable".toList,
      "DW_AT_location (DW_OP_breg31 WSP+8)".toList, "DW_AT_name (\"p\")".toList,
      "DW_AT_type (\"".toList ++ type.toList ++ "\")".toList] }
  proc := some (.resting (.numbered (.at 1 0x1010) []) mem)
  host := ()

/-- The variable that the debugger finds there. -/
def pointerLocal (type : String) : VarInfo where
  name := ['p']
  type := type.toList
  elementType := []
  fbregOffset := 8
  base := .sp
  size := 8
  elementSize := 0
  pointeeSize := 4
  arrayCount := 0
  hasLocation := true
  isPointer := true
  isSigned := true
  isArray := false

/-- The one level of an `int *` is honoured. -/
theorem levels_honoured_int :
    (stoppedAtLocal "int *" fun _ => 0).HonoursLevels ['p'] 8 1 ∧
      stripPointerStar (makePointerType "int".toList) = "int".toList :=
  have h := @levels_honoured _ (stoppedAtLocal "int *" fun _ => 0) ['p'] "int".toList
    (pointerLocal "int *") 8 1 le_rfl (by decide +kernel) (by decide +kernel) "int".toList
  ⟨h.1.mpr (.inl rfl), h.2.mpr (by decide)⟩

/-- The first dereference of an `int **` is an `int`, its subscripts count in steps of
four, and `strip_pointer_star` takes both stars. -/
theorem levels_lost :
    ¬ (stoppedAtLocal "int **" fun _ => 0).HonoursLevels ['p'] 8 2 ∧
      (((stoppedAtLocal "int **" fun _ => 0).eval (.deref (.ident ['p']))).lvalue.map
        LValue.type) = some "int".toList ∧
      (((stoppedAtLocal "int **" fun _ => 0).eval
        (.index (.ident ['p']) (.num 1 false))).lvalue.map LValue.addr) = some 4 ∧
      stripPointerStar (makePointerType "int *".toList) ≠ "int *".toList := by
  refine ⟨fun h => ?_, by decide +kernel, by decide +kernel, by decide +kernel⟩
  obtain ⟨lv, hlv, haddr⟩ := h.subscript le_rfl 0 (.num 1 false) ⟨1, false, false, []⟩
    (by decide +kernel) rfl
  have hfour : (((stoppedAtLocal "int **" fun _ => 0).eval
      (.index (.ident ['p']) (.num 1 false))).lvalue.map LValue.addr) = some 4 := by
    decide +kernel
  rw [hlv, Option.map_some, haddr] at hfour
  exact absurd hfour (by decide)

end Cdbg
