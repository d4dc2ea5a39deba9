import GoEnum.Token.Lexeme

namespace GoEnum.Parse

open Token

inductive SyntaxCause
  | expected (what : String) (found : TokenKind)
  | noTokens
  | blankPackage
  | lateImport
  | missingValue
  | extraValue
  | unclosed (opener : Punctuation)
  | mismatched (closer : Punctuation)
  | mixedParams
  deriving DecidableEq, Repr

def SyntaxCause.message : SyntaxCause → String
  | .expected what found => s!"Expected {what}, found {found.describe}"
  | .noTokens => "Empty token stream"
  | .blankPackage => "Invalid package name _"
  | .lateImport => "Imports must appear before other declarations"
  | .missingValue => "Missing init expr for const declaration"
  | .extraValue => "Extra init expr in const declaration"
  | .unclosed opener => s!"Unclosed '{opener.spelling}'"
  | .mismatched closer => s!"Mismatched '{closer.spelling}'"
  | .mixedParams => "Mixed named and unnamed parameters"

structure SyntaxError where
  cause : SyntaxCause
  span : Span
  deriving DecidableEq, Repr

def SyntaxError.diagnostic (e : SyntaxError) : Diagnostic :=
  ⟨.syntactic, e.cause.message, e.span, none⟩

/-- The tokens that are left, and the stretch of the last one passed. -/
structure Cursor where
  prev : Span
  rest : List Token
  deriving DecidableEq, Repr

namespace Cursor

/-- Before the first token there is no last one; the first stands in. -/
def start (tokens : List Token) : Cursor := ⟨(tokens.head?.map (·.span)).getD (.point 0), tokens⟩

def head (c : Cursor) : Token := c.rest.head?.getD ⟨.eof, c.prev⟩

def kind (c : Cursor) : TokenKind := c.head.node

def kindAt (c : Cursor) (n : Nat) : TokenKind := (c.rest[n]?.map (·.node)).getD .eof

def atEnd (c : Cursor) : Bool := c.kind == .eof

def advance (c : Cursor) : Cursor :=
  match c.rest with
  | [] => c
  | t :: ts => if t.node = .eof then c else ⟨t.span, ts⟩

def skipWhile (p : TokenKind → Bool) (prev : Span) : List Token → Cursor
  | [] => ⟨prev, []⟩
  | t :: ts => if p t.node then skipWhile p t.span ts else ⟨prev, t :: ts⟩

def skipSemicolons (c : Cursor) : Cursor :=
  skipWhile (· == .punctuation .semicolon) c.prev c.rest

def isRestart : TokenKind → Bool
  | .keyword .func | .keyword .type | .keyword .const | .keyword .var | .keyword .import => true
  | .eof => true
  | _ => false

/-- Passes a token and all that follow up to a place where reading can go on after an error. -/
def synchronize (c : Cursor) : Cursor :=
  let c := c.advance
  skipWhile (fun k => !isRestart k) c.prev c.rest

end Cursor

/-- A parser stops where its first error is, and the cursor tells where that was. -/
abbrev Parser := EStateM SyntaxError Cursor

instance : Coe Keyword TokenKind := ⟨.keyword⟩

instance : Coe Operator TokenKind := ⟨.operator⟩

instance : Coe Punctuation TokenKind := ⟨.punctuation⟩

def peek : Parser TokenKind := return (← get).kind

def peekAt (n : Nat) : Parser TokenKind := return (← get).kindAt n

def currentSpan : Parser Span := return (← get).head.span

def previousSpan : Parser Span := return (← get).prev

def atEnd : Parser Bool := return (← get).atEnd

def isNext (k : TokenKind) : Parser Bool := return (← peek) == k

def advance : Parser Unit := modify Cursor.advance

def skipSemicolons : Parser Unit := modify Cursor.skipSemicolons

def fail (cause : SyntaxCause) (span : Span) : Parser α := throw ⟨cause, span⟩

def unexpected (what : String) : Parser α := do
  fail (.expected what (← peek)) (← currentSpan)

def accept (k : TokenKind) : Parser Bool := do
  if ← isNext k then
    advance
    return true
  else return false

def expect (k : TokenKind) (what : String) : Parser Unit := do
  if !(← accept k) then unexpected what

def identifier : Parser (Spanned String) := do
  match ← peek with
  | .ident name =>
    let span ← currentSpan
    advance
    return ⟨name, span⟩
  | _ => unexpected "identifier"

/-- Runs a parser for more steps than tokens are left, which is more than it needs: what it would
expect after the last of them, `out`, makes no difference. -/
def bounded (p : String → Nat → Parser α) : Parser α := do
  p "nothing" ((← get).rest.length + 1)

end GoEnum.Parse
