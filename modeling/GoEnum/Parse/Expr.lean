import GoEnum.Parse.Type
import GoEnum.Syntax.Expr

namespace GoEnum.Parse

open Token Syntax

def primary (expr : Parser Expr) : Parser Expr := do
  let start ← currentSpan
  let literal (v : Literal) : Parser Expr := do
    advance
    return .literal start v
  match ← peek with
  | .int v => literal (.int v)
  | .float v => literal (.float v)
  | .imaginary v => literal (.imaginary v)
  | .rune v => literal (.rune v)
  | .string v => literal (.string v)
  | .ident name =>
    advance
    return .ident start name
  | .punctuation .lparen =>
    advance
    let inner ← expr
    expect Punctuation.rparen "')' after expression"
    return .paren (start.merge (← previousSpan)) inner
  | .punctuation .lbracket | .keyword .map | .keyword .chan | .keyword .func | .keyword .struct
  | .keyword .interface =>
    let type ← typeExpr
    return .type (start.merge (← previousSpan)) type
  | _ => unexpected "expression"

def postfixes (expr : Parser Expr) (out : String) : Nat → Expr → Parser Expr
  | 0, _ => unexpected out
  | n + 1, e => do
    if ← accept Punctuation.dot then
      let name := (← identifier).node
      postfixes expr out n (.selector (e.span.merge (← previousSpan)) e name)
    else if ← accept Punctuation.lparen then
      let args ← commaList .rparen expr out n
      expect Punctuation.rparen "')' after arguments"
      postfixes expr out n (.call (e.span.merge (← previousSpan)) e args)
    else return e

def unaries (operand : Parser Expr) (out : String) : Nat → Parser Expr
  | 0 => unexpected out
  | n + 1 => do
    let start ← currentSpan
    let op? := match ← peek with
      | .operator o => UnaryOp.ofOperator? o
      | _ => none
    match op? with
    | some op =>
      advance
      let e ← unaries operand out n
      return .unary (start.merge e.span) op e
    | none => operand

/-- Binary operators of precedence `least` or more after a left operand. Each takes as its right
operand what binds tighter. -/
def climb (operand : Nat → Parser Expr) (least : Nat) (out : String) :
    Nat → Expr → Parser Expr
  | 0, _ => unexpected out
  | n + 1, left => do
    let op? := match ← peek with
      | .operator o => BinaryOp.ofOperator? o
      | _ => none
    match op? with
    | some op =>
      if op.precedence < least then return left
      advance
      let right ← operand (op.precedence + 1)
      climb operand least out n (.binary (left.span.merge right.span) op left right)
    | none => return left

def exprWithin (out : String) : Nat → Nat → Parser Expr
  | 0, _ => unexpected out
  | n + 1, least => do
    let expr := exprWithin out n 1
    let operand := do postfixes expr out n (← primary expr)
    climb (exprWithin out n) least out n (← unaries operand out (n + 1))

def expression : Parser Expr := bounded fun out n => exprWithin out n 1

def expressionList : Parser (List Expr) := bounded (commaSeparated expression)

end GoEnum.Parse
