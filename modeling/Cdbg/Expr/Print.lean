import Cdbg.Expr.Ast

/-!
Expressions as text: tokens with the parentheses that the precedence of C and the left
associativity of its operators require, and blanks between the tokens.

Nothing here is taken from the debugger but its tokens and its trees. Numbers may be
spelled in any way that the lexer reads as one number.
-/

namespace Cdbg

open CString

namespace ExprOp

/-- Whether an operator is written before its operand. -/
def isUnary : ExprOp → Bool
  | .pos | .neg | .not | .bnot => true
  | _ => false

/-- The precedence of a binary operator. -/
def level : ExprOp → ℕ
  | .lor => 1
  | .land => 2
  | .bor => 3
  | .bxor => 4
  | .band => 5
  | .eq | .ne => 6
  | .lt | .gt | .le | .ge => 7
  | .shl | .shr => 8
  | .add | .sub => 9
  | .mul | .div | .mod => 10
  | .pos | .neg | .not | .bnot => 11

/-- The token of an operator. -/
def token : ExprOp → Token
  | .lor => .oror
  | .land => .andand
  | .bor => .char '|'
  | .bxor => .char '^'
  | .band => .char '&'
  | .eq => .eq
  | .ne => .ne
  | .lt => .char '<'
  | .gt => .char '>'
  | .le => .le
  | .ge => .ge
  | .shl => .shl
  | .shr => .shr
  | .add | .pos => .char '+'
  | .sub | .neg => .char '-'
  | .mul => .char '*'
  | .div => .char '/'
  | .mod => .char '%'
  | .not => .char '!'
  | .bnot => .char '~'

end ExprOp

namespace ExprNode

/-- The level of a prefix expression. -/
def prefixLevel : ℕ := 11

/-- The level of a postfix or primary expression. -/
def postfixLevel : ℕ := 12

/-- The level of an expression in the grammar of C. -/
def level : ExprNode → ℕ
  | .binary op _ _ => op.level
  | .unary _ _ | .addr _ | .deref _ => prefixLevel
  | .num _ _ | .ident _ | .member _ _ | .arrow _ _ | .index _ _ => postfixLevel

/-- The tokens of an expression of a level where the grammar wants one of at least `p`. -/
def enclosed (p level : ℕ) (tokens : List Token) : List Token :=
  if level < p then .char '(' :: (tokens ++ [.char ')']) else tokens

/-- The tokens of an expression. -/
def tokens : ExprNode → List Token
  | .num number isFloat => [.number number isFloat]
  | .ident name => [.ident name]
  | .unary op e => op.token :: enclosed prefixLevel e.level e.tokens
  | .binary op l r =>
      enclosed op.level l.level l.tokens ++
        op.token :: enclosed (op.level + 1) r.level r.tokens
  | .member e name => enclosed postfixLevel e.level e.tokens ++ [.char '.', .ident name]
  | .arrow e name => enclosed postfixLevel e.level e.tokens ++ [.arrow, .ident name]
  | .index e i =>
      enclosed postfixLevel e.level e.tokens ++ .char '[' :: (i.tokens ++ [.char ']'])
  | .addr e => .char '&' :: enclosed prefixLevel e.level e.tokens
  | .deref e => .char '*' :: enclosed prefixLevel e.level e.tokens

end ExprNode

namespace Token

/-- The text of a token, with a way to spell numbers. -/
def text (spell : BitVec 64 → Bool → Str) : Token → Str
  | .number value isFloat => spell value isFloat
  | .ident name => name
  | .arrow => ['-', '>']
  | .andand => ['&', '&']
  | .oror => ['|', '|']
  | .eq => ['=', '=']
  | .ne => ['!', '=']
  | .le => ['<', '=']
  | .ge => ['>', '=']
  | .shl => ['<', '<']
  | .shr => ['>', '>']
  | .char c => [c]

/-- Tokens with a blank between each two. -/
def join (spell : BitVec 64 → Bool → Str) : List Token → Str
  | [] => []
  | [t] => t.text spell
  | t :: u :: ts => t.text spell ++ ' ' :: join spell (u :: ts)

/-- A text is one number for the lexer. -/
def IsLiteral (value : BitVec 64) (isFloat : Bool) : Str → Prop
  | [] => False
  | c :: s => (isdigit c ∨ c = '.') ∧ lexOne c s = (some (.number value isFloat), [])

/-- A text is an identifier of fewer than 128 characters. -/
def IsIdentifier : Str → Prop
  | [] => False
  | c :: s => isIdStart c ∧ (∀ d ∈ s, isIdChar d) ∧ s.length < 127

instance instDecidableIsLiteral (value : BitVec 64) (isFloat : Bool) :
    (s : Str) → Decidable (IsLiteral value isFloat s)
  | [] => .isFalse id
  | _ :: _ => inferInstanceAs (Decidable (_ ∧ _))

instance instDecidableIsIdentifier : (s : Str) → Decidable (IsIdentifier s)
  | [] => .isFalse id
  | c :: s =>
      have : Decidable (∀ d ∈ s, isIdChar d = true) := List.decidableBAll _ s
      inferInstanceAs (Decidable (isIdStart c = true ∧ (∀ d ∈ s, isIdChar d = true) ∧
        s.length < 127))

end Token

namespace ExprNode

/-- The trees over numbers that are spelled as the lexer reads them, identifiers, and the
operators of the grammar. -/
def Printable (spell : BitVec 64 → Bool → Str) : ExprNode → Prop
  | .num number isFloat => Token.IsLiteral number isFloat (spell number isFloat)
  | .ident name => Token.IsIdentifier name
  | .unary op e => op.isUnary = true ∧ e.Printable spell
  | .binary op l r => op.isUnary = false ∧ l.Printable spell ∧ r.Printable spell
  | .member e name | .arrow e name => e.Printable spell ∧ Token.IsIdentifier name
  | .index e i => e.Printable spell ∧ i.Printable spell
  | .addr e | .deref e => e.Printable spell

instance instDecidablePrintable (spell : BitVec 64 → Bool → Str) :
    (e : ExprNode) → Decidable (e.Printable spell)
  | .num number isFloat =>
      inferInstanceAs (Decidable (Token.IsLiteral number isFloat (spell number isFloat)))
  | .ident name => inferInstanceAs (Decidable (Token.IsIdentifier name))
  | .unary op e =>
      have := instDecidablePrintable spell e
      inferInstanceAs (Decidable (op.isUnary = true ∧ e.Printable spell))
  | .binary op l r =>
      have := instDecidablePrintable spell l
      have := instDecidablePrintable spell r
      inferInstanceAs (Decidable (op.isUnary = false ∧ l.Printable spell ∧ r.Printable spell))
  | .member e name | .arrow e name =>
      have := instDecidablePrintable spell e
      inferInstanceAs (Decidable (e.Printable spell ∧ Token.IsIdentifier name))
  | .index e i =>
      have := instDecidablePrintable spell e
      have := instDecidablePrintable spell i
      inferInstanceAs (Decidable (e.Printable spell ∧ i.Printable spell))
  | .addr e | .deref e => instDecidablePrintable spell e

/-- The text of an expression. -/
def text (spell : BitVec 64 → Bool → Str) (e : ExprNode) : Str := Token.join spell e.tokens

end ExprNode

end Cdbg
