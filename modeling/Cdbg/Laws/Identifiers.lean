import Cdbg.Control.Inversion
import Cdbg.Laws.Lexing
import Cdbg.Lib.Trim
import Cdbg.Repl.Print

/-!
An identifier given to `print`, alone and in parentheses.

Alone it takes the branch of `cmd_print` for variables (`output_name`); in parentheses it is
read as an expression, of which the lexer keeps 127 characters (`output_parens`).
-/

namespace Cdbg

open CString Token

variable {σ : Type} {x : Str}

/-- What an identifier is made of. -/
lemma isSimpleIdentifier_iff : isSimpleIdentifier x = true ↔
    ∃ c s, x = c :: s ∧ isIdStart c = true ∧ ∀ d ∈ s, isIdChar d = true := by
  cases x with
  | nil => simp [isSimpleIdentifier]
  | cons c s =>
      simp only [isSimpleIdentifier, Bool.and_eq_true, List.all_eq_true, List.cons.injEq]
      constructor
      · exact fun h => ⟨c, s, ⟨rfl, rfl⟩, h⟩
      · rintro ⟨_, _, ⟨rfl, rfl⟩, h⟩
        exact h

lemma isIdChar_of_isIdStart {c : Char} (h : isIdStart c = true) : isIdChar c = true := by
  rw [isIdStart, Bool.or_eq_true] at h
  rw [isIdChar, isalnum, Bool.or_eq_true, Bool.or_eq_true]
  exact h.imp_left Or.inl

lemma isIdChar_of_mem (h : isSimpleIdentifier x = true) : ∀ d ∈ x, isIdChar d = true := by
  obtain ⟨c, s, rfl, hstart, hchars⟩ := isSimpleIdentifier_iff.mp h
  intro d hd
  rcases List.mem_cons.mp hd with rfl | hd
  · exact isIdChar_of_isIdStart hstart
  · exact hchars d hd

/-- No character of an identifier is a blank. -/
lemma isspace_of_isIdChar {c : Char} (h : isIdChar c = true) : isspace c = false := by
  by_contra hsp
  rw [Bool.not_eq_false] at hsp
  simp only [isspace, Bool.or_eq_true, decide_eq_true_eq] at hsp
  rcases hsp with ((((rfl | rfl) | rfl) | rfl) | rfl) | rfl <;> exact absurd h (by decide)

/-- The text of an identifier in parentheses. -/
def parens (x : Str) : Str := '(' :: (x ++ [')'])

/-! ### Reading -/

lemma lex_name (h : isSimpleIdentifier x = true) : lex x = [.ident (truncate 128 x)] := by
  obtain ⟨c, s, rfl, hstart, hchars⟩ := isSimpleIdentifier_iff.mp h
  have hone : lexOne c s = (some (.ident (truncate 128 (c :: s))), []) := by
    simpa using lexOne_name (s := s) (r := []) hstart hchars (by simp)
  rw [lex, List.length_cons, lexFuel, hone]
  exact congrArg _ (lexFuel_nil _)

lemma lex_parens (h : isSimpleIdentifier x = true) :
    lex (parens x) = [.char '(', .ident (truncate 128 x), .char ')'] := by
  obtain ⟨c, s, rfl, hstart, hchars⟩ := isSimpleIdentifier_iff.mp h
  have hopen : lexOne '(' (c :: s ++ [')']) = (some (.char '('), c :: s ++ [')']) := by
    rw [List.cons_append, lexOne.eq_def, if_neg (by decide), if_neg (by decide),
      if_neg (by decide)]
    simp [two]
  have hone := lexOne_name (r := [')']) hstart hchars (by simp; decide)
  have hclose : lexOne ')' [] = (some (.char ')'), []) := by decide
  have hlen : (parens (c :: s)).length = (s.length + 2) + 1 := by
    simp [parens]
  rw [lex, hlen, parens, lexFuel, hopen]
  dsimp only
  rw [List.cons_append, lexFuel, hone]
  dsimp only
  rw [lexFuel, hclose]
  exact congrArg _ (congrArg _ (congrArg _ (lexFuel_nil _)))

lemma exprParse_name (h : isSimpleIdentifier x = true) :
    exprParse x = some (.ident (truncate 128 x)) := by
  rw [exprParse, lex_name h]
  rfl

lemma exprParse_parens (h : isSimpleIdentifier x = true) :
    exprParse (parens x) = some (.ident (truncate 128 x)) := by
  rw [exprParse, lex_parens h]
  rfl

/-! ### Printing -/

/-- The letter of a format after the slash. -/
def PrintFormat.letter : PrintFormat → Option Char
  | .default => none
  | .dec => some 'd'
  | .hex => some 'x'
  | .oct => some 'o'
  | .bin => some 't'
  | .char => some 'c'
  | .string => some 's'

/-- The length of the argument `cmd_print` gets for a text. -/
def PrintFormat.argumentLength (fmt : PrintFormat) (text : Str) : ℕ :=
  if fmt = .default then text.length else text.length + 3

/-- What `print/f` shows for a text. -/
def printShows (fmt : PrintFormat) (text : Str) (w : World σ) : Option Printed :=
  (cmdPrintOutput (printArgument fmt.letter (some text)) w).value.join

lemma length_le_argument {text : Str} (fmt : PrintFormat) :
    text.length ≤ fmt.argumentLength text := by
  rw [PrintFormat.argumentLength]
  split <;> omega

lemma argumentLength_le {text text' : Str} (fmt : PrintFormat) (h : text.length ≤ text'.length) :
    fmt.argumentLength text ≤ fmt.argumentLength text' := by
  rw [PrintFormat.argumentLength, PrintFormat.argumentLength]
  split <;> omega

/-- A text without blanks at its ends, and with no slash in front, is what is printed. -/
lemma parsePrintFormat_argument {text : Str} (fmt : PrintFormat)
    (hlen : fmt.argumentLength text < maxCmd)
    (hfirst : ∀ c ∈ text.head?, isspace c = false ∧ c ≠ '/')
    (hlast : ∀ c ∈ text.getLast?, isspace c = false) (hne : text ≠ []) :
    parsePrintFormat (trimSpace (printArgument fmt.letter (some text))) = (fmt, text) := by
  have hself : trimSpace text = text := trimSpace_eq_self (fun c hc => (hfirst c hc).1) hlast
  have hletter : ∀ l, PrintFormat.ofLetter l = some fmt → text.length + 3 < maxCmd →
      parsePrintFormat (trimSpace (truncate maxCmd ('/' :: l :: ' ' :: text))) = (fmt, text) := by
    intro l hl hfits
    have hcut : truncate maxCmd ('/' :: l :: ' ' :: text) = '/' :: l :: ' ' :: text :=
      List.take_of_length_le (by simp only [List.length_cons]; omega)
    have htrim : trimSpace ('/' :: l :: ' ' :: text) = '/' :: l :: ' ' :: text := by
      refine trimSpace_eq_self (fun c hc => ?_) fun c hc => hlast c ?_
      · obtain rfl := Option.some.inj hc
        decide
      · rwa [List.getLast?_cons_cons, List.getLast?_cons_cons,
          List.getLast?_cons_of_ne_nil hne] at hc
    have hblank : trimSpace (' ' :: text) = text := by
      rw [← trimSpace_dropWhile, List.dropWhile_cons_of_pos (by decide), trimSpace_dropWhile, hself]
    rw [hcut, htrim, parsePrintFormat, hl]
    dsimp only
    rw [List.head?_cons, if_pos (by decide), hblank]
  cases fmt with
  | default =>
      have hcut : truncate maxCmd text = text :=
        List.take_of_length_le (Nat.le_sub_one_of_lt hlen)
      rw [PrintFormat.letter, printArgument, hcut, hself, parsePrintFormat.eq_2]
      rintro f rest rfl
      exact (hfirst _ rfl).2 rfl
  | dec => exact hletter 'd' rfl hlen
  | hex => exact hletter 'x' rfl hlen
  | oct => exact hletter 'o' rfl hlen
  | bin => exact hletter 't' rfl hlen
  | char => exact hletter 'c' rfl hlen
  | string => exact hletter 's' rfl hlen

lemma ne_nil_of_identifier (h : isSimpleIdentifier x = true) : x ≠ [] := by
  rintro rfl
  cases h

/-- An identifier does not start or end with a blank. -/
lemma identifier_ends (h : isSimpleIdentifier x = true) :
    (∀ c ∈ x.head?, isspace c = false) ∧ ∀ c ∈ x.getLast?, isspace c = false :=
  ⟨fun c hc => isspace_of_isIdChar (isIdChar_of_mem h c (List.mem_of_head? hc)),
    fun c hc => isspace_of_isIdChar (isIdChar_of_mem h c (List.mem_of_getLast? hc))⟩

lemma trimSpace_identifier (h : isSimpleIdentifier x = true) : trimSpace x = x :=
  trimSpace_eq_self (identifier_ends h).1 (identifier_ends h).2

lemma parsePrintFormat_name (fmt : PrintFormat) (h : isSimpleIdentifier x = true)
    (hlen : fmt.argumentLength x < maxCmd) :
    parsePrintFormat (trimSpace (printArgument fmt.letter (some x))) = (fmt, x) := by
  obtain ⟨hfirst, hlast⟩ := identifier_ends h
  refine parsePrintFormat_argument fmt hlen (fun c hc => ⟨hfirst c hc, ?_⟩) hlast
    (ne_nil_of_identifier h)
  rintro rfl
  exact absurd (isIdChar_of_mem h _ (List.mem_of_head? hc)) (by decide)

lemma parsePrintFormat_parens (fmt : PrintFormat) (hlen : fmt.argumentLength (parens x) < maxCmd) :
    parsePrintFormat (trimSpace (printArgument fmt.letter (some (parens x)))) =
      (fmt, parens x) := by
  refine parsePrintFormat_argument fmt hlen (fun c hc => ?_) (fun c hc => ?_)
    (List.cons_ne_nil _ _)
  · obtain rfl := Option.some.inj hc
    decide
  · rw [parens, ← List.cons_append, List.getLast?_concat] at hc
    obtain rfl := Option.some.inj hc
    decide

/-- What the expression path of `cmd_print` shows for an identifier. -/
def World.printIdent (v : World σ) (fmt : PrintFormat) (name : Str) : Option Printed :=
  match v.identLvalue name with
  | some lv => v.printStorage fmt lv (lv.type ≠ [] && ! typeIsScalar lv.type)
  | none => (v.identValue name).bind (v.printResult fmt)

variable {w v : World σ} {t : List (Event σ)}

lemma refreshRegs_twice (hr : refreshRegs w = ⟨some 0, v, t⟩) :
    ∃ t', refreshRegs v = ⟨some 0, v, t'⟩ := by
  rcases refreshRegs_cases w with ⟨_, hrun⟩ | ⟨th, hth, hrun⟩ <;> rw [hr] at hrun
  · cases hrun
  · obtain ⟨-, rfl, -⟩ := Run.mk.inj hrun
    have hagain : (w.setDbg { w.dbg with regs := th.regs }).resolvePort w.dbg.pid
        w.dbg.currentTid = some th := hth
    rcases refreshRegs_cases (w.setDbg { w.dbg with regs := th.regs }) with
      ⟨hnone, _⟩ | ⟨th', hth', hrun'⟩
    · cases hagain.symm.trans hnone
    · obtain rfl : th = th' := Option.some.inj (hagain.symm.trans hth')
      exact ⟨_, hrun'⟩

/-- The run of `cmd_print` up to the two branches. -/
lemma printShows_eq {fmt : PrintFormat} {text : Str} (hlang : w.dbg.languageCheckExpr = true)
    (hr : refreshRegs w = ⟨some 0, v, t⟩)
    (hparse : parsePrintFormat (trimSpace (printArgument fmt.letter (some text))) = (fmt, text))
    (hne : text ≠ []) : printShows fmt text w =
      (if isSimpleIdentifier text then
        match resolveVariableAddress v.dbg text with
        | some (var, addr) => v.printVariable fmt var addr
        | none => (printExpression fmt text v).value.join
      else (printExpression fmt text v).value.join) := by
  rw [printShows, cmdPrintOutput, hparse]
  dsimp only
  rw [if_neg hne, Prog.get_bind, if_neg (by simp [hlang]), Prog.bind_of_eq hr, if_neg (by simp),
    Prog.get_bind]
  split
  · cases resolveVariableAddress v.dbg text <;> rfl
  · rfl

lemma printShows_unsupported {fmt : PrintFormat} {text : Str}
    (hlang : w.dbg.languageCheckExpr = false) : printShows fmt text w = none := by
  rw [printShows, cmdPrintOutput]
  dsimp only
  split
  · rfl
  · rw [Prog.get_bind, if_pos hlang]
    rfl

lemma printShows_unreadable {fmt : PrintFormat} {text : Str}
    (h : (refreshRegs w).value ≠ some 0) : printShows fmt text w = none := by
  rcases refreshRegs_cases w with ⟨_, hrun⟩ | ⟨_, _, hrun⟩
  · rw [printShows, cmdPrintOutput]
    dsimp only
    split
    · rfl
    · rw [Prog.get_bind]
      split
      · rfl
      · rw [Prog.bind_of_eq hrun, if_pos (by decide)]
        rfl
  · rw [hrun] at h
    exact absurd rfl h

/-- The registers are all that a refresh changes. -/
lemma refreshRegs_frame (hr : refreshRegs w = ⟨some 0, v, t⟩) :
    ∃ regs, v = w.setDbg { w.dbg with regs := regs } := by
  rcases refreshRegs_cases w with ⟨_, hrun⟩ | ⟨th, _, hrun⟩ <;> rw [hr] at hrun
  · cases hrun
  · obtain ⟨-, rfl, -⟩ := Run.mk.inj hrun
    exact ⟨th.regs, rfl⟩

/-- The language of the debugger, not having been changed, still supports expressions. -/
lemma languageCheckExpr_refreshed (hr : refreshRegs w = ⟨some 0, v, t⟩) :
    v.dbg.languageCheckExpr = w.dbg.languageCheckExpr := by
  obtain ⟨regs, rfl⟩ := refreshRegs_frame hr
  rfl

/-- `cdbg_expr_eval` once the registers can be read. -/
lemma exprEval_run (hlang : w.dbg.languageCheckExpr = true) (hr : refreshRegs w = ⟨some 0, v, t⟩)
    (text : Str) : exprEval text w =
      ⟨some ((exprParse text).bind fun root => (v.eval root).value), v, t⟩ := by
  rw [exprEval, Prog.get_bind, if_neg (by simp [hlang]), Prog.bind_of_eq hr]
  simp

lemma output_name {fmt : PrintFormat} {var : VarInfo} {addr : Addr}
    (hlang : w.dbg.languageCheckExpr = true) (hr : refreshRegs w = ⟨some 0, v, t⟩)
    (h : isSimpleIdentifier x = true) (hlen : fmt.argumentLength x < maxCmd)
    (hvar : resolveVariableAddress v.dbg x = some (var, addr)) :
    printShows fmt x w = v.printVariable fmt var addr := by
  rw [printShows_eq hlang hr (parsePrintFormat_name fmt h hlen) (ne_nil_of_identifier h),
    if_pos h, hvar]

lemma output_parens (fmt : PrintFormat) (hlang : w.dbg.languageCheckExpr = true)
    (hr : refreshRegs w = ⟨some 0, v, t⟩) (h : isSimpleIdentifier x = true)
    (hlen : fmt.argumentLength (parens x) < maxCmd) :
    printShows fmt (parens x) w = v.printIdent fmt (truncate 128 x) := by
  have hcut : truncate 256 (parens x) = parens x :=
    List.take_of_length_le (Nat.le_sub_one_of_lt (lt_of_le_of_lt (length_le_argument fmt) hlen))
  have hnot : isSimpleIdentifier (parens x) = false := rfl
  obtain ⟨t', ht'⟩ := refreshRegs_twice hr
  have hlang' : v.dbg.languageCheckExpr = true := (languageCheckExpr_refreshed hr).trans hlang
  rw [printShows_eq hlang hr (parsePrintFormat_parens fmt hlen) (List.cons_ne_nil _ _), hnot,
    if_neg (by simp), printExpression, Prog.get_bind, hcut, World.exprEvalLvalue,
    exprParse_parens h, World.printIdent]
  dsimp only
  rw [World.eval]
  cases v.identLvalue (truncate 128 x) with
  | some lv => simp
  | none =>
      have heval := exprEval_run hlang' ht' (parens x)
      rw [exprParse_parens h, Option.bind_some, World.eval] at heval
      simp only [Option.map_none, Prog.bind_of_eq heval]
      cases v.identValue (truncate 128 x) with
      | none => rfl
      | some r => simp

/-! ### Members and elements -/

/-- The members at an address can be read. -/
def World.MembersReadable (w : World σ) (addr : Addr) (members : List StructMember) : Prop :=
  ∀ m ∈ members, (w.readScalarValue (addr + m.offset) m.size).isSome

/-- A list of values is there if each of them is. -/
lemma isSome_mapM {α β : Type} (f : α → Option β) (l : List α) :
    (l.mapM f).isSome = true ↔ ∀ a ∈ l, (f a).isSome = true := by
  induction l with
  | nil => simp
  | cons a l ih =>
      rw [List.mapM_cons, List.forall_mem_cons, ← ih]
      cases f a with
      | none => simp
      | some b => cases List.mapM f l <;> simp

lemma length_mapM {α β : Type} (f : α → Option β) (l : List α) {bs : List β}
    (h : l.mapM f = some bs) : bs.length = l.length := by
  induction l generalizing bs with
  | nil =>
      obtain rfl := Option.some.inj h
      rfl
  | cons a l ih =>
      rw [List.mapM_cons] at h
      obtain ⟨b, -, h⟩ := Option.bind_eq_some_iff.mp h
      obtain ⟨rest, hrest, h⟩ := Option.bind_eq_some_iff.mp h
      obtain rfl := Option.some.inj h
      rw [List.length_cons, List.length_cons, ih hrest]

lemma printStructElement_cons (addr : Addr) (m : StructMember) (members : List StructMember)
    (pretty : Bool) : v.printStructElement addr (m :: members) pretty =
      (v.readScalarValue (addr + m.offset) m.size).bind fun value =>
        (v.printStructElement addr members pretty).map fun ms =>
          ⟨m.name, if pretty then v.dbg.annotationText .default m.type else none,
            printScalarInline value m.size m.isSigned false⟩ :: ms := by
  rw [World.printStructElement, World.printStructElement, List.mapM_cons]
  cases v.readScalarValue (addr + m.offset) m.size with
  | none => rfl
  | some value =>
      rw [Option.map_some, Option.bind_some, Option.map_eq_bind]
      rfl

/-- The members are shown in their order. -/
lemma printStructElement_names {pretty : Bool} : ∀ {members : List StructMember}
    {ms : List MemberShown}, v.printStructElement addr members pretty = some ms →
      ms.map MemberShown.name = members.map StructMember.name
  | [], ms, h => by
      obtain rfl := Option.some.inj h
      rfl
  | m :: members, ms, h => by
      rw [printStructElement_cons] at h
      obtain ⟨value, -, h⟩ := Option.bind_eq_some_iff.mp h
      obtain ⟨rest, hrest, rfl⟩ := Option.map_eq_some_iff.mp h
      rw [List.map_cons, List.map_cons, printStructElement_names hrest]

lemma membersReadable_iff (addr : Addr) (members : List StructMember) (pretty : Bool) :
    v.MembersReadable addr members ↔
      (v.printStructElement addr members pretty).isSome = true := by
  rw [World.printStructElement, isSome_mapM, World.MembersReadable]
  simp only [Option.isSome_map]

lemma printStruct_eq_none (addr : Addr) (type : Str) (members : List StructMember) :
    v.printStruct addr type members = none ↔ ¬ v.MembersReadable addr members := by
  rw [World.printStruct, Option.map_eq_none_iff, membersReadable_iff addr members
    v.dbg.printPretty, Bool.not_eq_true, Option.isSome_eq_false_iff, Option.isNone_iff_eq_none]

end Cdbg
