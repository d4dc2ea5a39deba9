import GoEnum.Binary64.Basic
import GoEnum.Syntax.Type
import GoEnum.Token.Basic

namespace GoEnum.Syntax

open Token (Operator Span)

inductive Literal
  | int (n : Nat)
  | float (x : Binary64)
  | imaginary (x : Binary64)
  | rune (c : Char)
  | string (s : String)
  deriving DecidableEq, Repr

inductive UnaryOp
  | plus
  | neg
  | complement
  | not
  deriving DecidableEq, Repr

inductive BinaryOp
  | add | sub | mul | div | rem
  | and | or | xor | andNot | shl | shr
  | logicalAnd | logicalOr
  | eq | notEq | lt | ltEq | gt | gtEq
  deriving DecidableEq, Repr

namespace UnaryOp

def operator : UnaryOp → Operator
  | .plus => .plus
  | .neg => .minus
  | .complement => .caret
  | .not => .not

def ofOperator? : Operator → Option UnaryOp
  | .plus => some .plus
  | .minus => some .neg
  | .caret => some .complement
  | .not => some .not
  | _ => none

theorem ofOperator?_operator (op : UnaryOp) : ofOperator? op.operator = some op := by
  cases op <;> rfl

end UnaryOp

namespace BinaryOp

def operator : BinaryOp → Operator
  | .add => .plus
  | .sub => .minus
  | .mul => .star
  | .div => .slash
  | .rem => .percent
  | .and => .amp
  | .or => .pipe
  | .xor => .caret
  | .andNot => .andNot
  | .shl => .shl
  | .shr => .shr
  | .logicalAnd => .andAnd
  | .logicalOr => .orOr
  | .eq => .eqEq
  | .notEq => .notEq
  | .lt => .lt
  | .ltEq => .ltEq
  | .gt => .gt
  | .gtEq => .gtEq

def ofOperator? : Operator → Option BinaryOp
  | .plus => some .add
  | .minus => some .sub
  | .star => some .mul
  | .slash => some .div
  | .percent => some .rem
  | .amp => some .and
  | .pipe => some .or
  | .caret => some .xor
  | .andNot => some .andNot
  | .shl => some .shl
  | .shr => some .shr
  | .andAnd => some .logicalAnd
  | .orOr => some .logicalOr
  | .eqEq => some .eq
  | .notEq => some .notEq
  | .lt => some .lt
  | .ltEq => some .ltEq
  | .gt => some .gt
  | .gtEq => some .gtEq
  | _ => none

def spelling (op : BinaryOp) : String := op.operator.spelling

def precedence (op : BinaryOp) : Nat := op.operator.precedence?.getD 0

def isShift : BinaryOp → Bool
  | .shl | .shr => true
  | _ => false

def isComparison : BinaryOp → Bool
  | .eq | .notEq | .lt | .ltEq | .gt | .gtEq => true
  | _ => false

theorem ofOperator?_operator (op : BinaryOp) : ofOperator? op.operator = some op := by
  cases op <;> rfl

theorem isSome_precedence?_iff (o : Operator) :
    o.precedence?.isSome = (ofOperator? o).isSome := by
  cases o <;> rfl

end BinaryOp

inductive Expr
  | literal (span : Span) (value : Literal)
  | ident (span : Span) (name : String)
  | selector (span : Span) (base : Expr) (name : String)
  | call (span : Span) (callee : Expr) (args : List Expr)
  | unary (span : Span) (op : UnaryOp) (operand : Expr)
  | binary (span : Span) (op : BinaryOp) (left right : Expr)
  | paren (span : Span) (inner : Expr)
  | type (span : Span) (type : TypeExpr)
  deriving Repr

namespace Expr

def span : Expr → Span
  | .literal s _ | .ident s _ | .selector s _ _ | .call s _ _ => s
  | .unary s _ _ | .binary s _ _ _ | .paren s _ | .type s _ => s

def calledName? : Expr → Option String
  | .call _ (.ident _ n) _ => some n
  | _ => none

def withoutParens : Expr → Expr
  | .paren _ e => e.withoutParens
  | e => e

end Expr

end GoEnum.Syntax
