import Cdbg.Repl.Commands

/-!
What `print` prints.

An output is kept as what it shows and the notation it shows it in, without the label and the
layout (`Shown`). `%lld` and `%llu` of numbers that are equal print the same, so a number in
decimal notation is kept as an integer. The type that the pretty mode puts in front is kept as
it is handed to `format_type_for_display`.
-/

namespace Cdbg

open CString

variable {σ : Type}

/-- `print_format_t`. -/
inductive PrintFormat
  | default | dec | hex | oct | bin | char | string
  deriving DecidableEq, Repr

/-- The format of a letter. -/
def PrintFormat.ofLetter : Char → Option PrintFormat
  | 'd' => some .dec
  | 'i' => some .dec
  | 'x' => some .hex
  | 'o' => some .oct
  | 't' => some .bin
  | 'c' => some .char
  | 's' => some .string
  | _ => none

/-- `parse_print_format`: the format and the expression after it. -/
def parsePrintFormat (expr : Str) : PrintFormat × Str :=
  match expr with
  | '/' :: f :: rest =>
      match PrintFormat.ofLetter f with
      | none => (.default, expr)
      | some fmt => if rest.head?.all isspace then (fmt, trimSpace rest) else (.default, expr)
  | _ => (.default, expr)

/-- `mask_to_size`. -/
def maskToSize (value : BitVec 64) (size : ℕ) : BitVec 64 :=
  if size = 0 ∨ 8 ≤ size then value else value &&& ((1 : BitVec 64) <<< (size * 8) - 1)

/-- `sign_extend_value`. -/
def signExtendValue (value : BitVec 64) (size : ℕ) : BitVec 64 :=
  if size = 0 ∨ 8 ≤ size then value
  else
    let sign := (1 : BitVec 64) <<< (size * 8 - 1)
    let mask := (1 : BitVec 64) <<< (size * 8) - 1
    let value := value &&& mask
    if value &&& sign ≠ 0 then value ||| ~~~ mask else value

/-- The number that `%lld` or `%llu` prints for a value. -/
def decimal (value : BitVec 64) (size : ℕ) (isSigned : Bool) : ℤ :=
  if isSigned then (signExtendValue value size).toInt else value.toNat

/-- What `print_scalar_inline` prints. -/
inductive Inline
  /-- `0x%llx` -/
  | hex (value : BitVec 64)
  /-- `%lld` or `%llu` -/
  | number (n : ℤ)
  deriving DecidableEq, Repr

/-- `print_scalar_inline`. -/
def printScalarInline (value : BitVec 64) (size : ℕ) (isSigned isPointer : Bool) : Inline :=
  if isPointer then .hex value else .number (decimal value size isSigned)

/-- A member as `print_struct_element` prints it. -/
structure MemberShown where
  name : Str
  annotationText : Option Str
  value : Inline
  deriving DecidableEq, Repr

/-- An element as `print_array_element_value` prints it: its members, or a value with its
bits. -/
inductive ElementShown
  | members (annotationText : Option Str) (members : List MemberShown)
  | scalar (annotationText : Option Str) (value : Inline) (bits : BitVec 64)
  deriving DecidableEq, Repr

/-- What is shown after the label. -/
inductive Shown
  /-- `0x%llx` -/
  | hex (value : BitVec 64)
  /-- `%#llo` -/
  | oct (value : BitVec 64)
  /-- so many binary digits -/
  | bin (digits : ℕ) (value : BitVec 64)
  /-- a character in quotes -/
  | char (c : BitVec 8)
  /-- the bytes of a string in quotes -/
  | string (bytes : List ℕ)
  /-- `%lld` or `%llu` -/
  | dec (n : ℤ)
  /-- `0x%016llx` -/
  | address (value : BitVec 64)
  /-- `%lld (0x%llx)` or `%llu (0x%llx)` -/
  | number (n : ℤ) (value : BitVec 64)
  /-- a structure, on one line or a member a line -/
  | members (pretty : Bool) (members : List MemberShown)
  /-- an array, on one line or an element a line -/
  | elements (pretty : Bool) (elements : List ElementShown)
  deriving DecidableEq, Repr

/-- What `print` prints after the label: the type in front, and what is shown. -/
structure Printed where
  annotationText : Option Str
  shown : Shown
  deriving DecidableEq, Repr

/-- `print_type_annotation`. -/
def Dbg.annotationText (d : Dbg) (fmt : PrintFormat) (type : Str) : Option Str :=
  if d.printPretty ∧ fmt = .default ∧ type ≠ [] then some type else none

/-- The binary digits that `print_binary_value` prints. -/
def binaryDigits (size : ℕ) : ℕ := if size = 0 ∨ 8 < size then 64 else size * 8

/-- `CDBG_MAX_PRINT_STRING`. -/
def maxPrintString : ℕ := 256

/-- `CDBG_MAX_ARRAY_PRINT`. -/
def maxArrayPrint : ℕ := 256

namespace World

/-- The loop of `read_c_string`, with room for so many more characters: the bytes up to the
first zero. -/
def readCString (w : World σ) : ℕ → Addr → Option (List ℕ)
  | 0, _ => some []
  | n + 1, addr =>
      match w.readMem w.dbg.pid addr 1 with
      | none => none
      | some 0 => some []
      | some byte => (w.readCString n (addr + 1)).map fun bytes => byte :: bytes

/-- `print_scalar_result_fmt`. -/
def printScalarResult (w : World σ) (fmt : PrintFormat) (value : BitVec 64) (size : ℕ)
    (isSigned isPointer isAddress : Bool) (type : Str) : Option Printed :=
  let value := maskToSize value size
  let shown : Option Shown := match fmt with
    | .hex => some (.hex value)
    | .oct => some (.oct value)
    | .bin => some (.bin (binaryDigits size) value)
    | .char => some (.char (value.setWidth 8))
    | .string => (w.readCString (maxPrintString - 1) value).map Shown.string
    | .dec => some (.dec (decimal value size isSigned))
    | .default =>
        if isPointer || isAddress then some (.address value)
        else some (.number (decimal value size isSigned) value)
  shown.map fun s => ⟨w.dbg.annotationText fmt type, s⟩

/-- `print_struct_element`. -/
def printStructElement (w : World σ) (addr : Addr) (members : List StructMember)
    (pretty : Bool) : Option (List MemberShown) :=
  members.mapM fun m => (w.readScalarValue (addr + m.offset) m.size).map fun value =>
    ⟨m.name, if pretty then w.dbg.annotationText .default m.type else none,
      printScalarInline value m.size m.isSigned false⟩

/-- A structure with the type in front. -/
def printStruct (w : World σ) (addr : Addr) (type : Str) (members : List StructMember) :
    Option Printed :=
  (w.printStructElement addr members w.dbg.printPretty).map fun ms =>
    ⟨w.dbg.annotationText .default type, .members w.dbg.printPretty ms⟩

/-- `print_array_element_value`. -/
def printArrayElementValue (w : World σ) (var : VarInfo) (elemAddr : Addr) :
    Option ElementShown :=
  let annotationText := w.dbg.annotationText .default var.elementType
  match (if typeIsScalar var.elementType then none
    else dwarfLookupStruct w.dbg var.elementType) with
  | some (members, _) =>
      (w.printStructElement elemAddr members false).map (.members annotationText)
  | none =>
      (w.readScalarValue elemAddr var.elementSize).map fun value =>
        .scalar annotationText (printScalarInline value var.elementSize
          (! hasSubstr var.elementType "unsigned".toList) ('*' ∈ var.elementType)) value

/-- `print_array_variable`. -/
def printArrayVariable (w : World σ) (var : VarInfo) (baseAddr : Addr) : Option Printed :=
  if var.arrayCount = 0 ∨ var.elementSize = 0 then none
  else if maxArrayPrint < var.arrayCount then none
  else
    ((List.range var.arrayCount).mapM fun i =>
      w.printArrayElementValue var (baseAddr + BitVec.ofNat 64 (i * var.elementSize))).map
      fun es => ⟨w.dbg.annotationText .default var.type, .elements w.dbg.printPretty es⟩

/-- The branch of `cmd_print` for an identifier that names a variable. -/
def printVariable (w : World σ) (fmt : PrintFormat) (var : VarInfo) (addr : Addr) :
    Option Printed :=
  if var.isArray ∧ fmt = .default then w.printArrayVariable var addr
  else
    match (if var.isPointer = false ∧ fmt = .default ∧ typeIsScalar var.type = false then
      dwarfLookupStruct w.dbg var.type else none) with
    | some (members, _) => w.printStruct addr var.type members
    | none =>
        (w.readScalarValue addr var.size).bind fun value =>
          w.printScalarResult fmt value var.size var.isSigned var.isPointer false var.type

/-- The branch of `cmd_print` for an expression that denotes storage. -/
def printStorage (w : World σ) (fmt : PrintFormat) (lv : LValue) (wholeStruct : Bool) :
    Option Printed :=
  if wholeStruct ∧ fmt = .default then
    match dwarfLookupStruct w.dbg lv.type with
    | none => none
    | some (members, _) => w.printStruct lv.addr lv.type members
  else
    (w.readScalarValue lv.addr lv.size).bind fun value =>
      w.printScalarResult fmt value lv.size lv.isSigned false false lv.type

/-- The branch of `cmd_print` for a value. -/
def printResult (w : World σ) (fmt : PrintFormat) (r : ExprResult) : Option Printed :=
  w.printScalarResult fmt r.value 8 true false r.isAddress r.type

end World

/-- The part of `cmd_print` for expressions. -/
def printExpression (fmt : PrintFormat) (expr : Str) : Debugger σ (Option Printed) := do
  let w ← Prog.get
  match w.exprEvalLvalue (truncate 256 expr) with
  | some (lv, wholeStruct) => return w.printStorage fmt lv wholeStruct
  | none =>
      match ← exprEval expr with
      | none => return none
      | some r =>
          let w ← Prog.get
          return w.printResult fmt r

/-- `cmd_print`, with what it prints; `none` if it fails. -/
def cmdPrintOutput (arg : Str) : Debugger σ (Option Printed) := do
  let (fmt, expr) := parsePrintFormat (trimSpace arg)
  if expr = [] then
    return none
  let w ← Prog.get
  if w.dbg.languageCheckExpr = false then
    return none
  if (← refreshRegs) ≠ 0 then
    return none
  let w ← Prog.get
  if isSimpleIdentifier expr then
    match resolveVariableAddress w.dbg expr with
    | some (var, addr) => return w.printVariable fmt var addr
    | none => printExpression fmt expr
  else printExpression fmt expr

lemma parsePrintFormat_snd (expr : Str) : (parsePrintFormat expr).2 = dropPrintFormat expr := by
  by_cases hslash : ∃ f rest, expr = '/' :: f :: rest
  · obtain ⟨f, rest, rfl⟩ := hslash
    rw [parsePrintFormat.eq_1, dropPrintFormat.eq_1]
    by_cases hf : f ∈ ['d', 'i', 'x', 'o', 't', 'c', 's']
    · have hsome : ∃ fmt, PrintFormat.ofLetter f = some fmt := by
        fin_cases hf <;> exact ⟨_, rfl⟩
      obtain ⟨fmt, hfmt⟩ := hsome
      rw [hfmt]
      by_cases hb : rest.head?.all isspace
      · simp [hb, hf]
      · simp [hb]
    · have hnone : PrintFormat.ofLetter f = none := by
        rw [PrintFormat.ofLetter.eq_def]
        split <;> simp_all
      simp [hnone, hf]
  · have hplain : ∀ f rest, expr = '/' :: f :: rest → False :=
      fun f rest h => hslash ⟨f, rest, h⟩
    rw [parsePrintFormat.eq_2 _ hplain, dropPrintFormat.eq_2 _ hplain]

/-- `cmdPrint` is `cmdPrintOutput` without what it prints. -/
lemma cmdPrint_eq (arg : Str) :
    (cmdPrint arg : Debugger σ Unit) = cmdPrintOutput arg >>= fun _ => pure () := by
  rw [cmdPrint, cmdPrintOutput, ← parsePrintFormat_snd]
  obtain ⟨fmt, expr⟩ := parsePrintFormat (trimSpace arg)
  dsimp only
  by_cases hnil : expr = []
  · simp [hnil]
  rw [if_neg hnil, if_neg hnil, bind_assoc]
  refine congrArg _ (funext fun w => ?_)
  by_cases hlang : w.dbg.languageCheckExpr = false
  · simp [hlang]
  rw [if_neg hlang, if_neg hlang, bind_assoc]
  refine congrArg _ (funext fun rc => ?_)
  by_cases hrc : rc ≠ 0
  · simp [hrc]
  rw [if_neg hrc, if_neg hrc, bind_assoc]
  funext v
  rw [Prog.get_bind, Prog.get_bind]
  -- an expression is evaluated for its storage first, and for its value where it has none
  have hexpr : (do
      if (v.exprEvalLvalue (truncate 256 expr)).isSome then
        return ()
      let _ ← exprEval expr
      return () : Debugger σ Unit) v = (printExpression fmt expr >>= fun _ => pure ()) v := by
    rw [printExpression, bind_assoc, Prog.get_bind]
    cases v.exprEvalLvalue (truncate 256 expr) with
    | some r => simp
    | none =>
        dsimp only
        rw [bind_assoc]
        refine congrFun (congrArg (Bind.bind (exprEval expr)) (funext fun r => ?_)) v
        cases r with
        | none => simp
        | some r =>
            funext u
            simp
  -- a name is looked up as a variable before that
  by_cases hid : isSimpleIdentifier expr = true
  · cases hvar : resolveVariableAddress v.dbg expr with
    | none =>
        simp only [hid, if_true, Option.isSome_none, and_false, Bool.false_eq_true, if_false]
        exact hexpr
    | some r => simp [hid]
  · simp only [hid]
    exact hexpr

end Cdbg
