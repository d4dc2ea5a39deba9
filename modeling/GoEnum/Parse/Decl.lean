import GoEnum.Parse.Expr
import GoEnum.Syntax.File

namespace GoEnum.Parse

open Token Syntax

def identifiers : Parser (List (Spanned String)) := bounded (commaSeparated identifier)

def endOfDecl (what : String) : Parser Unit := do
  if ← accept Punctuation.semicolon then return ()
  if !(← atEnd) then unexpected what

def packageClause : Parser (Spanned String) := do
  expect Keyword.package "'package' clause"
  let name ← identifier
  if name.node = blankName then fail .blankPackage name.span
  endOfDecl "';' after package clause"
  return name

def importName : Parser (Option String) := do
  match ← peek with
  | .punctuation .dot =>
    advance
    return some "."
  | .ident name =>
    advance
    return some name
  | _ => return none

def importSpec : Parser ImportSpec := do
  let name ← importName
  match ← peek with
  | .string path =>
    advance
    return ⟨name, path⟩
  | _ => unexpected "string literal"

def importDecl : Parser (List ImportSpec) := do
  expect Keyword.import "'import'"
  let (_, specs) ← group "')' to close import group" "';' after import spec" fun _ => importSpec
  endOfDecl "';' after import declaration"
  return specs

def constTail : Parser (Option (Spanned TypeExpr) × List Expr) := do
  match ← peek with
  | .punctuation .semicolon | .punctuation .rparen | .eof => return (none, [])
  | next =>
    let type ← if next = .operator .assign then pure none else some <$> spanned typeExpr
    expect Operator.assign "'=' in constant declaration"
    return (type, ← expressionList)

/-- A line without values repeats an earlier one, so the first line needs some; otherwise there is
one value for each name. -/
def constArity? (iota names values : Nat) : Option SyntaxCause :=
  if values = 0 then if iota = 0 then some .missingValue else none
  else if values < names then some .missingValue
  else if names < values then some .extraValue
  else none

def constSpec (iota : Nat) : Parser (Spanned ConstSpec) := do
  let start ← currentSpan
  let names ← identifiers
  let (type, values) ← constTail
  let span := start.merge (← previousSpan)
  match constArity? iota names.length values.length with
  | some cause => fail cause span
  | none => return ⟨⟨names, type, values, iota⟩, span⟩

def constDecl : Parser ConstDecl := do
  expect Keyword.const "'const'"
  let (grouped, specs) ←
    group "')' to close const group" "';' or ')' after constant spec" constSpec
  return ⟨grouped, specs⟩

def varSpec : Parser (List (Spanned String)) := do
  let names ← identifiers
  bounded skipValues
  return names

def varDecl : Parser (List (Spanned String)) := do
  expect Keyword.var "'var'"
  let (_, specs) ←
    group "')' to close var group" "';' or ')' after variable spec" fun _ => varSpec
  return specs.flatten

/-- Do the two tokens after a bracket begin type parameters, and not the length of an array? -/
def beginsTypeParams (first second : TokenKind) : Bool :=
  first.isIdent && match second with
    | .ident _ => true
    | .keyword k => k.startsType
    | .punctuation .comma | .punctuation .tilde | .punctuation .lbracket => true
    | _ => false

def typeSpec : Parser (Spanned TypeSpec) := spanned do
  let name ← identifier
  let isGeneric := (← isNext Punctuation.lbracket) && beginsTypeParams (← peekAt 1) (← peekAt 2)
  if isGeneric then skipBalanced
  let isAlias ← accept Operator.assign
  return ⟨name, isAlias, isGeneric, ← spanned typeExpr⟩

def typeDecl : Parser (List (Spanned TypeSpec)) := do
  expect Keyword.type "'type'"
  let (_, specs) ←
    group "')' to close type group" "';' or ')' after type spec" fun _ => typeSpec
  return specs

def receiverName : Parser (Option String) := do
  match ← peek, ← peekAt 1 with
  | .ident name, .ident _ | .ident name, .operator .star | .ident name, .punctuation .lparen =>
    advance
    return if name = blankName then none else some name
  | _, _ => return none

def receiver : Parser Receiver := do
  expect Punctuation.lparen "'(' before receiver"
  let name ← receiverName
  let type ← spanned typeExpr
  discard (accept Punctuation.comma)
  expect Punctuation.rparen "')' after receiver"
  return ⟨name, type⟩

def funcDecl : Parser FuncDecl := do
  expect Keyword.func "'func'"
  let hasReceiver ← isNext Punctuation.lparen
  let receiver ← if hasReceiver then some <$> receiver else pure none
  let name ← identifier
  if ← isNext Punctuation.lbracket then skipBalanced
  let signature ← signature
  let hasBody ← isNext Punctuation.lbrace
  if hasBody then skipBalanced
  return ⟨receiver, name, signature, hasBody⟩

def declaration : Parser (Spanned Decl) := do
  let decl ← spanned do
    match ← peek with
    | .keyword .const => return .const (← constDecl)
    | .keyword .var => return .var (← varDecl)
    | .keyword .type => return .type (← typeDecl)
    | .keyword .func => return .func (← funcDecl)
    | .keyword .import => fail .lateImport (← currentSpan)
    | _ => unexpected "declaration"
  endOfDecl "';' after top-level declaration"
  return decl

end GoEnum.Parse
