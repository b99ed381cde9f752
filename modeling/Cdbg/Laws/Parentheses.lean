import Cdbg.Laws.Identifiers
import Cdbg.Laws.Indirection

/-!
`print x` and `print (x)`.

Alone an identifier is printed as the variable it names, in parentheses as an expression. The
two branches of `cmd_print` find the variable, its size and sign and what it is each for itself.
What follows says exactly when they show the same (`parentheses_iff`): not for arrays in most
formats and pointers without a format, of which the expression branch knows nothing; not for a
type that is neither a scalar's nor a structure's name; and a name of more than 127 characters
is cut short in parentheses.
-/

namespace Cdbg

open CString

variable {σ : Type} {w v : World σ} {t : List (Event σ)} {fmt : PrintFormat}

/-- No structure is looked up without a name. -/
lemma dwarfLookupStruct_nil (d : Dbg) : dwarfLookupStruct d [] = none := by
  rw [dwarfLookupStruct]
  split <;> simp

/-! ### Values and how they look -/

/-- A value as it is handed to `print_scalar_result_fmt`. -/
structure Reading where
  value : BitVec 64
  size : ℕ
  isSigned : Bool
  type : Str
  deriving DecidableEq

namespace Reading

/-- The number a value stands for. -/
def number (r : Reading) : ℤ := decimal r.value r.size r.isSigned

/-- What the value is printed as. -/
def print (r : Reading) (v : World σ) (fmt : PrintFormat) : Option Printed :=
  v.printScalarResult fmt r.value r.size r.isSigned false false r.type

/-- The bytes beyond the size are zero. -/
def Fits (r : Reading) : Prop := maskToSize r.value r.size = r.value

/-- The string that starts where the value points. -/
def text (r : Reading) (v : World σ) : Option (List ℕ) := v.readCString (maxPrintString - 1) r.value

/-- Two values that look alike in a format. -/
def Alike (v : World σ) (fmt : PrintFormat) (r s : Reading) : Prop :=
  match fmt with
  | .default => r.number = s.number ∧ r.value = s.value ∧
      v.dbg.annotationText .default r.type = v.dbg.annotationText .default s.type
  | .dec => r.number = s.number
  | .hex => r.value = s.value
  | .oct => r.value = s.value
  | .bin => binaryDigits r.size = binaryDigits s.size ∧ r.value = s.value
  | .char => r.value.setWidth 8 = s.value.setWidth 8
  | .string => r.text v = s.text v

lemma annotationText_of_format (d : Dbg) (h : fmt ≠ .default) (type : Str) :
    d.annotationText fmt type = none := if_neg fun hand => h hand.2.1

lemma print_iff {r s : Reading} (hr : r.Fits) (hs : s.Fits) :
    r.print v fmt = s.print v fmt ↔ Alike v fmt r s := by
  rw [Fits] at hr hs
  simp only [print, World.printScalarResult, hr, hs]
  cases fmt with
  | default => simp [Alike, number, and_comm, and_assoc]
  | dec => simp [Alike, number, annotationText_of_format]
  | hex => simp [Alike, annotationText_of_format]
  | oct => simp [Alike, annotationText_of_format]
  | bin => simp [Alike, annotationText_of_format]
  | char => simp [Alike, annotationText_of_format]
  | string =>
      have hinj : Function.Injective fun bytes : List ℕ => (⟨none, .string bytes⟩ : Printed) :=
        fun _ _ h => Shown.string.inj (Printed.mk.inj h).2
      have hstring : PrintFormat.string ≠ .default := by decide
      simp only [Alike, text, annotationText_of_format _ hstring, Option.map_map]
      exact (Option.map_injective hinj).eq_iff

/-- Two values, each of which may not be readable, that look alike or are both not shown. -/
def ShownAlike (v : World σ) (fmt : PrintFormat) : Option Reading → Option Reading → Prop
  | some r, some s => Alike v fmt r s
  | some r, none => fmt = .string ∧ r.text v = none
  | none, some s => fmt = .string ∧ s.text v = none
  | none, none => True

lemma print_eq_none_iff {r : Reading} (hr : r.Fits) :
    r.print v fmt = none ↔ fmt = .string ∧ r.text v = none := by
  rw [Fits] at hr
  simp only [print, World.printScalarResult, hr]
  cases fmt <;> simp [text]

lemma bind_print_iff {o o' : Option Reading} (ho : ∀ r ∈ o, r.Fits) (ho' : ∀ r ∈ o', r.Fits) :
    (o.bind fun r => r.print v fmt) = (o'.bind fun r => r.print v fmt) ↔ ShownAlike v fmt o o' := by
  cases o with
  | none =>
      cases o' with
      | none => simp [ShownAlike]
      | some s => exact eq_comm.trans (print_eq_none_iff (ho' s rfl))
  | some r =>
      cases o' with
      | none => exact print_eq_none_iff (ho r rfl)
      | some s => exact print_iff (ho r rfl) (ho' s rfl)

end Reading

/-- What has been read with a size fits it. -/
lemma maskToSize_of_read {addr : Addr} {size : ℕ} {a : BitVec 64}
    (h : v.readScalarValue addr size = some a) : maskToSize a size = a := by
  rw [maskToSize]
  split
  · rfl
  next hsize =>
    obtain ⟨n, hn, rfl⟩ := Option.map_eq_some_iff.mp h
    obtain ⟨p, -, -, hread⟩ := World.readMem_eq_some.mp hn
    have hwidth : scalarWidth size = size := if_neg (by omega)
    have hlt : n < 2 ^ (size * 8) := by
      have hlt := Memory.read_lt p.mem (scalarWidth size) addr
      rwa [hread, hwidth, show (256 : ℕ) = 2 ^ 8 from rfl, ← pow_mul, Nat.mul_comm] at hlt
    have hmask : ((1 : BitVec 64) <<< (size * 8) - 1).toNat = 2 ^ (size * 8) - 1 := by
      have h8 : size < 8 := by omega
      interval_cases size <;> first | omega | rfl
    have h64 : 2 ^ (size * 8) ≤ 2 ^ 64 := Nat.pow_le_pow_right (by omega) (by omega)
    refine BitVec.eq_of_toNat_eq ?_
    rw [BitVec.toNat_and, hmask, Nat.and_two_pow_sub_one_eq_mod, BitVec.toNat_ofNat,
      Nat.mod_eq_of_lt (lt_of_lt_of_le hlt h64), Nat.mod_eq_of_lt hlt]

lemma decimal_eight (a : BitVec 64) : decimal a 8 true = a.toInt := by
  simp [decimal, signExtendValue]

/-! ### The two branches -/

section Branches

variable {x : Str} {var : VarInfo} {addr : Addr}

/-- A variable read with its own size and sign. -/
def World.reading (v : World σ) (var : VarInfo) (addr : Addr) : Option Reading :=
  (v.readScalarValue addr var.size).map fun a => ⟨a, var.size, var.isSigned, var.type⟩

/-- A variable as the expression branch reads it: an array becomes a signed 64-bit number. -/
def World.exprReading (v : World σ) (var : VarInfo) (addr : Addr) : Option Reading :=
  if var.isArray then
    (v.readScalarValue addr var.size).map fun a => ⟨a, 8, true, var.type⟩
  else v.reading var addr

/-- A type that is neither a scalar's nor empty. -/
def Aggregate (type : Str) : Prop := type ≠ [] ∧ typeIsScalar type = false

instance (type : Str) : Decidable (Aggregate type) := inferInstanceAs (Decidable (_ ∧ _))

lemma reading_fits : ∀ r ∈ v.reading var addr, r.Fits := by
  intro r hr
  obtain ⟨a, ha, rfl⟩ := Option.map_eq_some_iff.mp hr
  exact maskToSize_of_read ha

lemma exprReading_fits : ∀ r ∈ v.exprReading var addr, r.Fits := by
  intro r hr
  rw [World.exprReading] at hr
  split at hr
  · obtain ⟨a, -, rfl⟩ := Option.map_eq_some_iff.mp hr
    exact if_pos (Or.inr le_rfl)
  · exact reading_fits r hr

/-- The expression branch: a structure, or a value. -/
lemma printIdent_eq (hvar : resolveVariableAddress v.dbg x = some (var, addr)) :
    v.printIdent fmt x =
      if var.isArray = false ∧ Aggregate var.type ∧ fmt = .default then
        (dwarfLookupStruct v.dbg var.type).bind fun s => v.printStruct addr var.type s.1
      else (v.exprReading var addr).bind fun r => r.print v fmt := by
  rw [World.printIdent, World.identLvalue, World.identValue, hvar]
  dsimp only
  cases harray : var.isArray with
  | true =>
      simp only [if_true, Bool.true_eq_false, false_and, if_false, World.exprReading, harray]
      cases v.readScalarValue addr var.size <;> rfl
  | false =>
      simp only [if_false, Bool.false_eq_true, World.exprReading, harray, World.printStorage,
        World.reading, true_and]
      by_cases hagg : Aggregate var.type ∧ fmt = .default
      · have hwhole : (var.type ≠ [] && ! typeIsScalar var.type) = true ∧ fmt = .default := by
          simpa [hagg.1.2, hagg.2] using hagg.1.1
        rw [if_pos hwhole, if_pos hagg]
        cases dwarfLookupStruct v.dbg var.type <;> rfl
      · have hwhole : ¬ ((var.type ≠ [] && ! typeIsScalar var.type) = true ∧ fmt = .default) := by
          rintro ⟨h, hd⟩
          refine hagg ⟨?_, hd⟩
          simpa [Aggregate] using h
        rw [if_neg hwhole, if_neg hagg]
        cases v.readScalarValue addr var.size <;> rfl

/-- The variable branch, for what is no array to be listed. -/
lemma printVariable_value (h : ¬ (var.isArray = true ∧ fmt = .default))
    (hplain : fmt = .default → var.isPointer = false ∧
      (typeIsScalar var.type = false → dwarfLookupStruct v.dbg var.type = none)) :
    v.printVariable fmt var addr = (v.reading var addr).bind fun r => r.print v fmt := by
  have hstruct : (if var.isPointer = false ∧ fmt = .default ∧ typeIsScalar var.type = false then
      dwarfLookupStruct v.dbg var.type else none) = none := by
    split
    next hand => exact (hplain hand.2.1).2 hand.2.2
    · rfl
  rw [World.printVariable, if_neg h, hstruct, World.reading]
  cases v.readScalarValue addr var.size with
  | none => rfl
  | some a =>
      dsimp only [Option.map_some, Option.bind_some]
      rw [Reading.print]
      cases fmt with
      | default => rw [(hplain rfl).1]
      | dec | hex | oct | bin | char | string => rfl

lemma print_default_number {r : Reading} : ∃ a n value, r.print v .default =
    some ⟨a, .number n value⟩ := ⟨_, _, _, rfl⟩

/-- The elements of an array can be read. -/
def World.ElementReadable (v : World σ) (var : VarInfo) (addr : Addr) : Prop :=
  match (if typeIsScalar var.elementType then none
    else dwarfLookupStruct v.dbg var.elementType) with
  | some (members, _) => v.MembersReadable addr members
  | none => (v.readScalarValue addr var.elementSize).isSome

/-- An array that `print` lists: there are elements, not more than 256, and they can be read. -/
structure World.ElementsReadable (v : World σ) (var : VarInfo) (addr : Addr) : Prop where
  count : var.arrayCount ≠ 0
  size : var.elementSize ≠ 0
  few : var.arrayCount ≤ maxArrayPrint
  readable : ∀ i < var.arrayCount,
    v.ElementReadable var (addr + BitVec.ofNat 64 (i * var.elementSize))

lemma elementReadable_iff (addr : Addr) :
    v.ElementReadable var addr ↔ (v.printArrayElementValue var addr).isSome = true := by
  rw [World.ElementReadable, World.printArrayElementValue]
  generalize (if typeIsScalar var.elementType then none
    else dwarfLookupStruct v.dbg var.elementType) = s
  rcases s with _ | ⟨members, _⟩
  · simp only [Option.isSome_map]
  · simp only [Option.isSome_map, membersReadable_iff addr members false]

lemma printArrayVariable_isSome :
    (v.printArrayVariable var addr).isSome = true ↔ v.ElementsReadable var addr := by
  rw [World.printArrayVariable]
  split
  next h =>
    refine ⟨fun hsome => absurd hsome (by simp), fun hr => ?_⟩
    rcases h with h | h
    · exact absurd h hr.count
    · exact absurd h hr.size
  next h =>
  obtain ⟨hcount, hsize⟩ := not_or.mp h
  split
  next hmany =>
    exact ⟨fun hsome => absurd hsome (by simp), fun hr => absurd hr.few (not_le.mpr hmany)⟩
  next hfew =>
    rw [Option.isSome_map, isSome_mapM]
    simp only [List.mem_range, ← elementReadable_iff]
    exact ⟨fun h => ⟨hcount, hsize, not_lt.mp hfew, h⟩, fun hr => hr.readable⟩

/-- What is listed are all elements. -/
lemma printArrayVariable_elements {p : Printed} (h : v.printArrayVariable var addr = some p) :
    ∃ pretty es, p.shown = .elements pretty es ∧ es.length = var.arrayCount := by
  rw [World.printArrayVariable] at h
  split at h
  · cases h
  · split at h
    · cases h
    · obtain ⟨es, hes, rfl⟩ := Option.map_eq_some_iff.mp h
      exact ⟨_, es, rfl, (length_mapM _ _ hes).trans List.length_range⟩

/-! ### When they agree -/

/-- Parentheses make no difference for a variable: an array in the default format is not shown
at all, in decimal its value is the same number as a signed 64-bit one, in binary it has 64
digits; a pointer, and a type that is neither a scalar's nor a structure's, in the default format
cannot be read. -/
def World.ParensHarmless (v : World σ) (fmt : PrintFormat) (var : VarInfo) (addr : Addr) : Prop :=
  if var.isArray then
    match fmt with
    | .default => v.readScalarValue addr var.size = none ∧ ¬ v.ElementsReadable var addr
    | .dec => ∀ a ∈ v.readScalarValue addr var.size, decimal a var.size var.isSigned = a.toInt
    | .bin => ∀ _ ∈ v.readScalarValue addr var.size, binaryDigits var.size = 64
    | _ => True
  else
    fmt = .default →
      (var.isPointer = true ∨ Aggregate var.type ∧ dwarfLookupStruct v.dbg var.type = none) →
        v.readScalarValue addr var.size = none

lemma arrayAlike_iff (hfmt : fmt ≠ .default) (harray : var.isArray = true) :
    Reading.ShownAlike v fmt (v.reading var addr) (v.exprReading var addr) ↔
      v.ParensHarmless fmt var addr := by
  rw [World.reading, World.exprReading, if_pos harray]
  cases fmt with
  | default => exact absurd rfl hfmt
  | dec =>
      simp only [World.ParensHarmless, harray, if_true]
      cases v.readScalarValue addr var.size with
      | none => simp [Reading.ShownAlike]
      | some a => simp [Reading.ShownAlike, Reading.Alike, Reading.number, decimal_eight]
  | bin =>
      simp only [World.ParensHarmless, harray, if_true]
      have height : binaryDigits 8 = 64 := rfl
      cases v.readScalarValue addr var.size with
      | none => simp [Reading.ShownAlike]
      | some a => simp [Reading.ShownAlike, Reading.Alike, height]
  | hex | oct | char | string =>
      simp only [World.ParensHarmless, harray, if_true, iff_true]
      cases v.readScalarValue addr var.size with
      | none => trivial
      | some a => rfl

/-- An array in the default format: the one branch lists elements, the other prints a number. -/
lemma arrayListed_iff (harray : var.isArray = true) :
    v.printArrayVariable var addr =
        ((v.exprReading var addr).bind fun r => r.print v .default) ↔
      v.ParensHarmless .default var addr := by
  simp only [World.ParensHarmless, harray, if_true]
  rw [← printArrayVariable_isSome, World.exprReading, if_pos harray, Bool.not_eq_true,
    Option.isSome_eq_false_iff, Option.isNone_iff_eq_none]
  cases v.readScalarValue addr var.size with
  | none => simp
  | some a =>
      refine iff_of_false (fun h => ?_) (by simp)
      rw [Option.map_some, Option.bind_some] at h
      obtain ⟨b, n, value, hprint⟩ := print_default_number (v := v) (r := ⟨a, 8, true, var.type⟩)
      rw [hprint] at h
      obtain ⟨pretty, es, hshown, -⟩ := printArrayVariable_elements h
      cases hshown

lemma parensHarmless_plain (harray : var.isArray = false) : v.ParensHarmless fmt var addr ↔
    (fmt = .default →
      (var.isPointer = true ∨ Aggregate var.type ∧ dwarfLookupStruct v.dbg var.type = none) →
        v.readScalarValue addr var.size = none) := by
  simp only [World.ParensHarmless, harray, Bool.false_eq_true, if_false]

lemma bind_print_default_eq_none : ((v.reading var addr).bind fun r => r.print v .default) = none ↔
    v.readScalarValue addr var.size = none := by
  rw [World.reading]
  cases v.readScalarValue addr var.size <;> simp [Reading.print, World.printScalarResult]

/-- A variable that is no array, in the default format. -/
lemma printVariable_iff_default (hvar : resolveVariableAddress v.dbg x = some (var, addr))
    (harray : var.isArray = false) :
    v.printVariable .default var addr = v.printIdent .default x ↔
      v.ParensHarmless .default var addr := by
  have hexpr : v.exprReading var addr = v.reading var addr := by
    rw [World.exprReading, if_neg (by simp [harray])]
  have hnot : ¬ (var.isArray = true ∧ PrintFormat.default = .default) := by simp [harray]
  rw [parensHarmless_plain harray, printIdent_eq hvar, hexpr]
  by_cases hpointer : var.isPointer = true
  -- a pointer is printed as an address or as a number
  · have hscalar : typeIsScalar var.type = true := by
      rw [resolveVariableAddress_isPointer hvar, decide_eq_true_eq] at hpointer
      simp [typeIsScalar, hpointer]
    have hagg : ¬ Aggregate var.type := fun h => by
      rw [h.2] at hscalar
      cases hscalar
    rw [if_neg fun h => hagg h.2.1, World.printVariable, if_neg hnot, if_neg (by simp [hpointer]),
      World.reading]
    simp only [hpointer, true_or, true_imp_iff]
    cases v.readScalarValue addr var.size <;> simp [Reading.print, World.printScalarResult]
  rw [Bool.not_eq_true] at hpointer
  simp only [hpointer, Bool.false_eq_true, false_or, true_imp_iff, harray, true_and, and_true]
  -- a structure is listed by its members, and anything else is printed as a number
  by_cases hagg : Aggregate var.type
  · rw [if_pos hagg]
    cases hlookup : dwarfLookupStruct v.dbg var.type with
    | none =>
        rw [printVariable_value hnot fun _ => ⟨hpointer, fun _ => hlookup⟩, Option.bind_none,
          bind_print_default_eq_none]
        simp [hagg]
    | some s =>
        obtain ⟨members, size⟩ := s
        refine iff_of_true ?_ (by simp)
        rw [World.printVariable, if_neg hnot, if_pos ⟨hpointer, rfl, hagg.2⟩, hlookup]
        rfl
  · have hlookup : typeIsScalar var.type = false → dwarfLookupStruct v.dbg var.type = none := by
      intro hscalar
      have hnil : var.type = [] := by
        by_contra hne
        exact hagg ⟨hne, hscalar⟩
      rw [hnil]
      exact dwarfLookupStruct_nil v.dbg
    rw [if_neg hagg, printVariable_value hnot fun _ => ⟨hpointer, hlookup⟩]
    exact iff_of_true rfl fun h => absurd h.1 hagg

lemma printVariable_iff (hvar : resolveVariableAddress v.dbg x = some (var, addr)) :
    v.printVariable fmt var addr = v.printIdent fmt x ↔ v.ParensHarmless fmt var addr := by
  by_cases hfmt : fmt = .default
  · subst hfmt
    cases harray : var.isArray with
    | false => exact printVariable_iff_default hvar harray
    | true =>
        rw [← arrayListed_iff harray, printIdent_eq hvar, if_neg (by simp [harray]),
          World.printVariable, if_pos ⟨harray, rfl⟩]
  · rw [printIdent_eq hvar, if_neg fun h => hfmt h.2.2,
      printVariable_value (fun h => hfmt h.2) fun h => absurd h hfmt,
      Reading.bind_print_iff reading_fits exprReading_fits]
    cases harray : var.isArray with
    | true => exact arrayAlike_iff hfmt harray
    | false =>
        have hsame : v.exprReading var addr = v.reading var addr := by
          rw [World.exprReading, if_neg (by simp [harray])]
        have hharmless : v.ParensHarmless fmt var addr := by
          rw [parensHarmless_plain harray]
          exact fun h => absurd h hfmt
        rw [hsame, ← Reading.bind_print_iff reading_fits reading_fits]
        exact iff_of_true rfl hharmless

/-! ### Names of more than 127 characters -/

/-- What the name cut short names looks like the variable: it is not there, or no structure, and
its value looks alike; or neither is shown. -/
def World.CutHarmless (v : World σ) (fmt : PrintFormat) (var : VarInfo) (addr : Addr)
    (name : Str) : Prop :=
  match resolveVariableAddress v.dbg name with
  | none => Reading.ShownAlike v fmt (v.reading var addr) none
  | some (other, otherAddr) =>
      if other.isArray = false ∧ Aggregate other.type ∧ fmt = .default then
        v.readScalarValue addr var.size = none ∧
          ∀ s ∈ dwarfLookupStruct v.dbg other.type, ¬ v.MembersReadable otherAddr s.1
      else Reading.ShownAlike v fmt (v.reading var addr) (v.exprReading other otherAddr)

/-- A variable with a long name is a symbol, printed as an `unsigned long`. -/
lemma symbol_of_long (hvar : resolveVariableAddress v.dbg x = some (var, addr))
    (hlong : 127 < x.length) :
    var.isArray = false ∧ var.isPointer = false ∧ typeIsScalar var.type = true := by
  rw [resolveVariableAddress] at hvar
  split at hvar
  next hlocal =>
    have hlen := findLocalVar_name_length hlocal
    omega
  · split at hvar
    · cases hvar
    · split at hvar
      · cases hvar
      · obtain ⟨rfl, -⟩ := Prod.mk.inj (Option.some.inj hvar)
        refine ⟨(completeVarType_scalar v.dbg (by decide : '[' ∉ symbolType)).1, ?_, ?_⟩
        · exact (completeVarType_isPointer v.dbg _).trans
            (decide_eq_false (show '*' ∉ symbolType by decide))
        · rw [completeVarType_type]
          exact (show typeIsScalar symbolType = true by decide)

lemma printVariable_iff_cut (hvar : resolveVariableAddress v.dbg x = some (var, addr))
    (hlong : 127 < x.length) (name : Str) :
    v.printVariable fmt var addr = v.printIdent fmt name ↔ v.CutHarmless fmt var addr name := by
  obtain ⟨harray, hpointer, hscalar⟩ := symbol_of_long hvar hlong
  have hvalue : v.printVariable fmt var addr = (v.reading var addr).bind fun r => r.print v fmt :=
    printVariable_value (by simp [harray]) fun _ => ⟨hpointer, by simp [hscalar]⟩
  rw [hvalue, World.CutHarmless]
  cases hother : resolveVariableAddress v.dbg name with
  -- nothing has the name that is cut, so nothing is printed
  | none =>
      have hnothing : v.printIdent fmt name =
          ((none : Option Reading).bind fun r => r.print v fmt) := by
        rw [World.printIdent, World.identLvalue, World.identValue, hother]
        rfl
      rw [hnothing]
      exact Reading.bind_print_iff reading_fits (by simp)
  | some r =>
  -- a variable of that name is printed instead
  obtain ⟨other, otherAddr⟩ := r
  rw [printIdent_eq hother]
  dsimp only
  split
  next h =>
    obtain ⟨-, -, rfl⟩ := h
    have hboth : ((v.reading var addr).bind fun r => r.print v .default) =
        ((dwarfLookupStruct v.dbg other.type).bind fun s =>
          v.printStruct otherAddr other.type s.1) ↔
        ((v.reading var addr).bind fun r => r.print v .default) = none ∧
        ((dwarfLookupStruct v.dbg other.type).bind fun s =>
          v.printStruct otherAddr other.type s.1) = none := by
      constructor
      -- a number is not a structure
      · intro h
        cases hread : v.reading var addr with
        | none =>
            rw [hread] at h
            exact ⟨rfl, h.symm⟩
        | some r =>
            obtain ⟨a, n, value, hprint⟩ := print_default_number (v := v) (r := r)
            rw [hread, Option.bind_some, hprint] at h
            obtain ⟨s, -, hs⟩ := Option.bind_eq_some_iff.mp h.symm
            obtain ⟨ms, -, hms⟩ := Option.map_eq_some_iff.mp hs
            cases hms
      · rintro ⟨h, h'⟩
        rw [h, h']
    rw [hboth, bind_print_default_eq_none, Option.bind_eq_none_iff]
    simp only [printStruct_eq_none, Option.mem_def]
  · exact Reading.bind_print_iff reading_fits exprReading_fits

end Branches

/-! ### The two commands -/

/-- `print/f x` and `print/f (x)` both fail or show the same, and if they show an array in the
default format they show all its elements. -/
structure World.PrintsAlike (w : World σ) (fmt : PrintFormat) (x : Str) (var : VarInfo) :
    Prop where
  same : printShows fmt x w = printShows fmt (parens x) w
  elements : var.isArray = true → fmt = .default → ∀ p ∈ printShows fmt (parens x) w,
    ∃ pretty es, p.shown = .elements pretty es ∧ es.length = var.arrayCount

/-- **Parentheses** do not change what `print` shows exactly if the language has no expressions
or the registers cannot be read (both print nothing), or under `ParensHarmless` or, for a name of
more than 127 characters, `CutHarmless`. -/
theorem parentheses_iff {w v : World σ} {x : Str} {var : VarInfo} {addr : Addr}
    (fmt : PrintFormat) (hx : isSimpleIdentifier x = true)
    (hfits : fmt.argumentLength (parens x) < maxCmd) (hv : (refreshRegs w).final = v)
    (hvar : resolveVariableAddress v.dbg x = some (var, addr)) :
    w.PrintsAlike fmt x var ↔
      (w.dbg.languageCheckExpr = true → (refreshRegs w).value = some 0 →
        if x.length ≤ 127 then v.ParensHarmless fmt var addr
        else v.CutHarmless fmt var addr (truncate 128 x)) := by
  by_cases hboth : w.dbg.languageCheckExpr = true ∧ (refreshRegs w).value = some 0
  · obtain ⟨hlang, hvalue⟩ := hboth
    have hr : refreshRegs w = ⟨some 0, v, (refreshRegs w).trace⟩ := by
      rw [← hvalue, ← hv]
    have hlen : fmt.argumentLength x < maxCmd :=
      lt_of_le_of_lt (argumentLength_le fmt (by simp [parens]; omega)) hfits
    have hone : printShows fmt x w = v.printVariable fmt var addr :=
      output_name hlang hr hx hlen hvar
    have hparens := output_parens fmt hlang hr hx hfits
    -- without parentheses the whole name is looked up, within them what fits the lexer
    have hiff : printShows fmt x w = printShows fmt (parens x) w ↔
        if x.length ≤ 127 then v.ParensHarmless fmt var addr
        else v.CutHarmless fmt var addr (truncate 128 x) := by
      rw [hone, hparens]
      split
      next hshort =>
        rw [show truncate 128 x = x from List.take_of_length_le hshort]
        exact printVariable_iff hvar
      next hlong => exact printVariable_iff_cut hvar (by omega) _
    rw [← hiff]
    refine ⟨fun h _ _ => h.same, fun h => ⟨h hlang hvalue, fun harray hfmt p hp => ?_⟩⟩
    have hlisted : v.printArrayVariable var addr = some p := by
      rw [← h hlang hvalue, hone, World.printVariable, if_pos ⟨harray, hfmt⟩] at hp
      exact hp
    exact printArrayVariable_elements hlisted
  · have hnone (text : Str) : printShows fmt text w = none := by
      by_cases hlang : w.dbg.languageCheckExpr = true
      · exact printShows_unreadable fun h => hboth ⟨hlang, h⟩
      · exact printShows_unsupported (by simpa using hlang)
    refine iff_of_true ⟨by rw [hnone, hnone], fun _ _ p hp => ?_⟩
      fun hlang hvalue => absurd ⟨hlang, hvalue⟩ hboth
    rw [hnone] at hp
    cases hp

/-- An `int` is printed alike. -/
theorem parentheses_iff_int :
    (stoppedAtLocal "int" fun _ => 1).PrintsAlike .default "p".toList
      { pointerLocal "int" with size := 4, pointeeSize := 8, isPointer := false } := by
  refine (@parentheses_iff _ (stoppedAtLocal "int" fun _ => 1) _ "p".toList _ 8 .default
    (by decide) (by decide) rfl (by decide +kernel)).mpr fun _ _ => ?_
  rw [if_pos (by decide), parensHarmless_plain rfl]
  rintro - (h | ⟨h, -⟩)
  · cases h
  · exact absurd h.2 (by decide)

/-- Of an array `int[3]` the one command lists three elements, and the other prints a number; an
`int *` is printed as an address and as a number. -/
theorem parentheses_array :
    ((printShows .default "p".toList (stoppedAtLocal "int[3]" fun _ => 1)).map Printed.shown =
        some (.elements true (List.replicate 3 (.scalar (some "int".toList) (.number 0x01010101)
          0x01010101))) ∧
      (printShows .default (parens "p".toList) (stoppedAtLocal "int[3]" fun _ => 1)).map
          Printed.shown = some (.number 0x0101010101010101 0x0101010101010101) ∧
      ∀ var, ¬ (stoppedAtLocal "int[3]" fun _ => 1).PrintsAlike .default "p".toList var) ∧
    (printShows .default "p".toList (stoppedAtLocal "int *" fun _ => 1)).map Printed.shown =
        some (.address 0x0101010101010101) ∧
      (printShows .default (parens "p".toList) (stoppedAtLocal "int *" fun _ => 1)).map
          Printed.shown = some (.number 0x0101010101010101 0x0101010101010101) ∧
      ∀ var, ¬ (stoppedAtLocal "int *" fun _ => 1).PrintsAlike .default "p".toList var := by
  have harray : printShows .default "p".toList (stoppedAtLocal "int[3]" fun _ => 1) ≠
      printShows .default (parens "p".toList) (stoppedAtLocal "int[3]" fun _ => 1) := by
    decide +kernel
  have hpointer : printShows .default "p".toList (stoppedAtLocal "int *" fun _ => 1) ≠
      printShows .default (parens "p".toList) (stoppedAtLocal "int *" fun _ => 1) := by
    decide +kernel
  exact ⟨⟨by decide +kernel, by decide +kernel, fun _ h => harray h.same⟩, by decide +kernel,
    by decide +kernel, fun _ h => hpointer h.same⟩

end Cdbg
