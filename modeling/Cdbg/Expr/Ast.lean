import Cdbg.Lib.Binary64
import Cdbg.Lib.CString

/-!
`expr.l`, `expr.y` and `expr_ast.h`: the expressions of `print`, `set` and `watch`
and how they are read.

A number is kept as 64 bits: an integer, or the bits of a double for a literal with
a point or an exponent.
-/

namespace Cdbg

open CString

/-- `cdbg_expr_op_t`. -/
inductive ExprOp
  | add | sub | mul | div | mod
  | shl | shr
  | lt | gt | le | ge | eq | ne
  | band | bxor | bor | land | lor
  | pos | neg | not | bnot
  deriving DecidableEq, Repr

/-- `cdbg_expr_node_t`. -/
inductive ExprNode
  | num (number : BitVec 64) (isFloat : Bool)
  | ident (name : Str)
  | unary (op : ExprOp) (operand : ExprNode)
  | binary (op : ExprOp) (lhs rhs : ExprNode)
  | member (base : ExprNode) (name : Str)
  | arrow (base : ExprNode) (name : Str)
  | index (base subscript : ExprNode)
  | addr (operand : ExprNode)
  | deref (operand : ExprNode)
  deriving DecidableEq, Repr

/-- The tokens of `expr.l`. -/
inductive Token
  | number (value : BitVec 64) (isFloat : Bool)
  | ident (name : Str)
  | arrow | andand | oror | eq | ne | le | ge | shl | shr
  | char (c : Char)
  deriving DecidableEq, Repr

namespace Token

/-- `isxdigit`. -/
def isxdigit (c : Char) : Bool := digitValue c < 16

/-- `IDSTART`. -/
def isIdStart (c : Char) : Bool := isalpha c || c = '_'

/-- `IDCHAR`. -/
def isIdChar (c : Char) : Bool := isalnum c || c = '_'

/-- Drop one of the given suffix letters. -/
def dropSuffix (letters : List Char) : Str → Str
  | [] => []
  | c :: s => if c ∈ letters then s else c :: s

/-- An exponent, `[eE][+-]?{DIGIT}+`: its value and the rest of the text. -/
def exponent (s : Str) : Option (ℤ × Str) :=
  match s with
  | [] => none
  | e :: s =>
      if e = 'e' ∨ e = 'E' then
        let (neg, s) := match s with
          | '+' :: s' => (false, s')
          | '-' :: s' => (true, s')
          | _ => (false, s)
        match s with
        | [] => none
        | c :: _ =>
            if isdigit c then
              let (n, rest) := digits 10 0 s
              some (if neg then -(n : ℤ) else n, rest)
            else none
      else none

/-- A floating-point literal of these digits before and after the point. -/
def float (whole frac : Str) (exp : ℤ) : Token :=
  .number (Binary64.ofDecimal (digits 10 0 (whole ++ frac)).1 (whole ++ frac).length
    (exp - frac.length)) true

/-- `set_number_token`: an integer literal. -/
def integer (text : Str) : Token :=
  .number (((strtoull 0 text).map Prod.fst).getD 0) false

/-- The number at the start of a text that starts with a digit. -/
def lexNumber (s : Str) : Token × Str :=
  match hexPrefixed s with
  | some h => (integer ('0' :: 'x' :: h.takeWhile isxdigit), h.dropWhile isxdigit)
  | none =>
      let whole := s.takeWhile isdigit
      match s.dropWhile isdigit with
      | '.' :: rest =>
          let frac := rest.takeWhile isdigit
          let rest := rest.dropWhile isdigit
          match exponent rest with
          | some (e, rest) => (float whole frac e, dropSuffix ['f', 'F', 'l', 'L'] rest)
          | none => (float whole frac 0, dropSuffix ['f', 'F', 'l', 'L'] rest)
      | rest =>
          match exponent rest with
          | some (e, rest) => (float whole [] e, dropSuffix ['f', 'F', 'l', 'L'] rest)
          | none => (integer whole, rest)

/-- The tokens of two characters. -/
def two : Char → Char → Option Token
  | '-', '>' => some .arrow
  | '&', '&' => some .andand
  | '|', '|' => some .oror
  | '=', '=' => some .eq
  | '!', '=' => some .ne
  | '<', '=' => some .le
  | '>', '=' => some .ge
  | '<', '<' => some .shl
  | '>', '>' => some .shr
  | _, _ => none

/-- The token at the start of a text, `none` for a blank, and the rest. -/
def lexOne (c : Char) (s : Str) : Option Token × Str :=
  if c = ' ' ∨ c = '\t' ∨ c = '\n' then (none, s)
  else if isdigit c then
    let (t, rest) := lexNumber (c :: s)
    (some t, rest)
  else if isIdStart c then
    (some (.ident (truncate 128 (c :: s.takeWhile isIdChar))), s.dropWhile isIdChar)
  else
    match s with
    | [] => (some (.char c), [])
    | d :: s' =>
        if c = '.' ∧ isdigit d then
          let frac := s.takeWhile isdigit
          (some (float [] frac 0), dropSuffix ['f', 'F'] (s.dropWhile isdigit))
        else
          match two c d with
          | some t => (some t, s')
          | none => (some (.char c), s)

/-- The tokens of a text; the fuel is its length. -/
def lexFuel : ℕ → Str → List Token
  | 0, _ => []
  | _ + 1, [] => []
  | n + 1, c :: s =>
      match lexOne c s with
      | (none, rest) => lexFuel n rest
      | (some t, rest) => t :: lexFuel n rest

/-- The tokens of a text. -/
def lex (s : Str) : List Token := lexFuel s.length s

/-- The binary operator of a token and its level in the grammar. -/
def binaryOp : Token → Option (ExprOp × ℕ)
  | .oror => some (.lor, 1)
  | .andand => some (.land, 2)
  | .char '|' => some (.bor, 3)
  | .char '^' => some (.bxor, 4)
  | .char '&' => some (.band, 5)
  | .eq => some (.eq, 6)
  | .ne => some (.ne, 6)
  | .char '<' => some (.lt, 7)
  | .char '>' => some (.gt, 7)
  | .le => some (.le, 7)
  | .ge => some (.ge, 7)
  | .shl => some (.shl, 8)
  | .shr => some (.shr, 8)
  | .char '+' => some (.add, 9)
  | .char '-' => some (.sub, 9)
  | .char '*' => some (.mul, 10)
  | .char '/' => some (.div, 10)
  | .char '%' => some (.mod, 10)
  | _ => none

/-- The prefix operator of a token, as the node it makes. -/
def prefixOp : Token → Option (ExprNode → ExprNode)
  | .char '+' => some (.unary .pos)
  | .char '-' => some (.unary .neg)
  | .char '!' => some (.unary .not)
  | .char '~' => some (.unary .bnot)
  | .char '&' => some .addr
  | .char '*' => some .deref
  | _ => none

end Token

mutual

/-- `expr` from operators of a level on: an operand and the operators that follow. -/
def parseExpr : ℕ → ℕ → List Token → Option (ExprNode × List Token)
  | 0, _, _ => none
  | n + 1, level, ts =>
      match parseUnary n ts with
      | none => none
      | some (lhs, ts) => parseOperators n level lhs ts

/-- The binary operators of at least this level after an operand; they associate to
the left. -/
def parseOperators : ℕ → ℕ → ExprNode → List Token → Option (ExprNode × List Token)
  | 0, _, _, _ => none
  | _ + 1, _, lhs, [] => some (lhs, [])
  | n + 1, level, lhs, t :: ts =>
      match t.binaryOp with
      | none => some (lhs, t :: ts)
      | some (op, l) =>
          if l < level then some (lhs, t :: ts)
          else
            match parseExpr n (l + 1) ts with
            | none => none
            | some (rhs, ts) => parseOperators n level (.binary op lhs rhs) ts

/-- `unary_expr`. -/
def parseUnary : ℕ → List Token → Option (ExprNode × List Token)
  | 0, _ => none
  | _ + 1, [] => none
  | n + 1, t :: ts =>
      match t.prefixOp with
      | some make => (parseUnary n ts).map fun r => (make r.1, r.2)
      | none =>
      match t with
      | .number v f => parsePostfix n (.num v f) ts
      | .ident name => parsePostfix n (.ident name) ts
      | .char '(' =>
          match parseExpr n 0 ts with
          | some (e, .char ')' :: ts) => parsePostfix n e ts
          | _ => none
      | _ => none

/-- What follows a primary expression: members and subscripts. -/
def parsePostfix : ℕ → ExprNode → List Token → Option (ExprNode × List Token)
  | 0, _, _ => none
  | n + 1, e, .char '.' :: .ident name :: ts => parsePostfix n (.member e name) ts
  | n + 1, e, .arrow :: .ident name :: ts => parsePostfix n (.arrow e name) ts
  | n + 1, e, .char '[' :: ts =>
      match parseExpr n 0 ts with
      | some (i, .char ']' :: ts) => parsePostfix n (.index e i) ts
      | _ => none
  | _ + 1, _, .char '.' :: _ => none
  | _ + 1, _, .arrow :: _ => none
  | _ + 1, e, ts => some (e, ts)

end

/-- `cdbg_expr_parse`. -/
def exprParse (text : Str) : Option ExprNode :=
  let ts := Token.lex text
  match parseExpr (4 * ts.length + 4) 0 ts with
  | some (e, []) => some e
  | _ => none

example : exprParse "a[1].b + 2 * 3".toList =
    some (.binary .add (.member (.index (.ident ['a']) (.num 1 false)) ['b'])
      (.binary .mul (.num 2 false) (.num 3 false))) := by decide +kernel

end Cdbg
