import GoEnum.Parse.Delimited
import GoEnum.Syntax.Type

namespace GoEnum.Parse

open Token Syntax

def startsType : TokenKind → Bool
  | .ident _ => true
  | .operator .star | .operator .arrow => true
  | .punctuation .lbracket | .punctuation .lparen => true
  | .keyword k => k.startsType
  | _ => false

def typeName (type : Parser TypeExpr) (out : String) (n : Nat) : Parser TypeExpr := do
  let first := (← identifier).node
  let qualified := (← isNext Punctuation.dot) && (← peekAt 1).isIdent
  let base ←
    if qualified then
      advance
      pure (TypeExpr.qualified first (← identifier).node)
    else pure (TypeExpr.named first)
  if ← accept Punctuation.lbracket then
    let args ← commaList .rbracket type out n
    expect Punctuation.rbracket "']' after type arguments"
    return .applied base args
  else return base

def bracedBody (word : String) : Parser Unit := do
  if ← isNext Punctuation.lbrace then skipBalanced else unexpected s!"'\x7b' after '{word}'"

def sliceOrArray (type : Parser TypeExpr) : Parser TypeExpr := do
  if ← accept Punctuation.rbracket then return .slice (← type)
  if !(← accept Punctuation.ellipsis) then bounded (skipUntil .rbracket)
  expect Punctuation.rbracket "']' after array length"
  return .array (← type)

def mapType (type : Parser TypeExpr) : Parser TypeExpr := do
  expect Punctuation.lbracket "'[' after 'map'"
  let key ← type
  expect Punctuation.rbracket "']' after map key type"
  return .map key (← type)

/-- Does what follows an identifier in a parameter list make it the name of a parameter? A bracket
does so only if an empty or a literal length, or an ellipsis, comes next. -/
def namesParam (next afterNext : TokenKind) : Bool :=
  match next, afterNext with
  | .ident _, _ => true
  | .operator .star, _ | .operator .arrow, _ => true
  | .keyword k, _ => k.startsType
  | .punctuation .ellipsis, _ | .punctuation .lparen, _ => true
  | .punctuation .lbracket, .punctuation .rbracket => true
  | .punctuation .lbracket, .punctuation .ellipsis => true
  | .punctuation .lbracket, .int _ => true
  | _, _ => false

def paramEntry (type : Parser TypeExpr) : Parser (Param TypeExpr) := do
  let named := (← peek).isIdent && namesParam (← peekAt 1) (← peekAt 2)
  let name ← if named then some <$> Spanned.node <$> identifier else pure none
  let variadic ← accept Punctuation.ellipsis
  return ⟨name, ← type, variadic⟩

/-- Gives the names that stand alone the type of the next named parameter. There is no result if
one of them is no plain name, or nothing named comes after it. -/
def shareTypes? : List (Param TypeExpr) → Option (List (Param TypeExpr))
  | [] => some []
  | p :: ps => do
    let rest ← shareTypes? ps
    if p.name.isSome then return p :: rest
    match p.type, rest with
    | .named name, next :: _ =>
      if p.variadic then none else return ⟨some name, next.type, next.variadic⟩ :: rest
    | _, _ => none

def parameters (type : Parser TypeExpr) (out : String) (n : Nat) :
    Parser (List (Param TypeExpr)) := do
  let start ← currentSpan
  expect Punctuation.lparen "'(' to start parameter list"
  let entries ← commaList .rparen (paramEntry type) out n
  expect Punctuation.rparen "')' after parameters"
  if entries.all (·.name.isNone) then return entries
  match shareTypes? entries with
  | some params => return params
  | none => fail .mixedParams (start.merge (← previousSpan))

def signatureOver (type : Parser TypeExpr) (out : String) (n : Nat) :
    Parser (Signature TypeExpr) := do
  let params ← parameters type out n
  let next ← peek
  if next = .punctuation .lparen then return ⟨params, ← parameters type out n⟩
  else if startsType next then return ⟨params, [⟨none, ← type, false⟩]⟩
  else return ⟨params, []⟩

def typeWithin (out : String) : Nat → Parser TypeExpr
  | 0 => unexpected out
  | n + 1 => do
    match ← peek with
    | .ident _ => typeName (typeWithin out n) out n
    | .operator .star =>
      advance
      return .pointer (← typeWithin out n)
    | .operator .arrow =>
      advance
      expect Keyword.chan "'chan' after '<-'"
      return .chan (← typeWithin out n)
    | .punctuation .lbracket =>
      advance
      sliceOrArray (typeWithin out n)
    | .punctuation .lparen =>
      advance
      let inner ← typeWithin out n
      expect Punctuation.rparen "')' after parenthesized type"
      return inner
    | .keyword .map =>
      advance
      mapType (typeWithin out n)
    | .keyword .chan =>
      advance
      discard (accept Operator.arrow)
      return .chan (← typeWithin out n)
    | .keyword .func =>
      advance
      return .func (← signatureOver (typeWithin out n) out n)
    | .keyword .struct =>
      advance
      bracedBody "struct"
      return .struct
    | .keyword .interface =>
      advance
      bracedBody "interface"
      return .interface
    | _ => unexpected "type"

def typeExpr : Parser TypeExpr := bounded typeWithin

def signature : Parser (Signature TypeExpr) := bounded fun out n =>
  signatureOver (typeWithin out n) out n

def spanned (p : Parser α) : Parser (Spanned α) := do
  let start ← currentSpan
  let x ← p
  return ⟨x, start.merge (← previousSpan)⟩

end GoEnum.Parse
