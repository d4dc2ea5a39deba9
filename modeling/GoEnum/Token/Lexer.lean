import GoEnum.Text.Letter
import GoEnum.Token.Number
import GoEnum.Token.Quotation

/-!
From source text to tokens: the text is cut into lexemes, and a line that ends after a token that
can end a statement gets a semicolon.
-/

namespace GoEnum.Token

open Text

def commentEnd? : List Char → Option Nat
  | [] => none
  | '*' :: '/' :: _ => some 2
  | _ :: cs => (commentEnd? cs).map (· + 1)

/-- A block comment after its opening slash and star. One that spans lines ends the line. -/
def blockComment (cs : List Char) : Lexeme :=
  match commentEnd? cs with
  | none => .fault .openComment (cs.length + 1)
  | some n => if (cs.take n).contains '\n' then .lineBreak (n + 1) else .gap (n + 1)

def isIdentStart (c : Char) : Bool := isLetter c || c == '_'

def isIdentPart (c : Char) : Bool := isLetterOrNumber c || c == '_'

def word (c : Char) (cs : List Char) : Lexeme :=
  let part := cs.takeWhile isIdentPart
  let spelling := String.ofList (c :: part)
  match Keyword.ofSpelling? spelling with
  | some k => .token (.keyword k) part.length
  | none => .token (.ident spelling) part.length

def mark? : Char → Option Punctuation
  | ',' => some .comma
  | ';' => some .semicolon
  | ':' => some .colon
  | '.' => some .dot
  | '~' => some .tilde
  | '(' => some .lparen
  | ')' => some .rparen
  | '[' => some .lbracket
  | ']' => some .rbracket
  | '\x7b' => some .lbrace
  | '\x7d' => some .rbrace
  | _ => none

def wordOrSymbol (c : Char) (cs : List Char) : Lexeme :=
  if isIdentStart c then word c cs
  else match Operator.longest? (c :: cs) with
    | some o => .token (.operator o) (o.spelling.length - 1)
    | none => match mark? c with
      | some p => .mark p 0
      | none => .fault (.unexpected c) 0

def lexeme (c : Char) (cs : List Char) : Lexeme :=
  match c, cs with
  | ' ', _ | '\t', _ | '\r', _ => .gap 0
  | '\n', _ => .lineBreak 0
  | '/', '/' :: _ => .gap (cs.takeWhile (· != '\n')).length
  | '/', '*' :: cs => blockComment cs
  | '"', cs => stringLiteral cs
  | '\x60', cs => rawString cs
  | '\'', cs => runeLiteral cs
  | '.', '.' :: '.' :: _ => .mark .ellipsis 2
  | '.', d :: _ => if d.isDigit then number c cs else .mark .dot 0
  | c, cs => if c.isDigit then number c cs else wordOrSymbol c cs

def byteSize : List Char → Nat
  | [] => 0
  | c :: cs => c.utf8Size + byteSize cs

structure Located where
  form : Form
  span : Span
  errors : List LexError

def lexemes (start : Nat) : List Char → List Located
  | [] => []
  | c :: cs =>
    let l := lexeme c cs
    let place (n : Nat) : Span := ⟨start, start + byteSize (c :: cs.take n)⟩
    let span := place l.length
    ⟨l.form, span, l.faults.map fun f => ⟨f.cause, place f.length⟩⟩ ::
      lexemes span.stop (cs.drop l.length)
  termination_by cs => cs.length

def autoSemicolon (ends : Bool) (n : Nat) : List Token :=
  if ends then [⟨.punctuation .semicolon, .point n⟩] else []

/-- The tokens of lexemes in a text of `size` bytes. `ends` tells whether the last token before
them ends a statement. -/
def tokensOf (size : Nat) (ends : Bool) : List Located → List Token
  | [] => autoSemicolon ends size ++ [⟨.eof, .point size⟩]
  | ⟨.token k, span, _⟩ :: ls => ⟨k, span⟩ :: tokensOf size k.endsStatement ls
  | ⟨.gap, _, _⟩ :: ls => tokensOf size ends ls
  | ⟨.lineBreak, span, _⟩ :: ls => autoSemicolon ends span.start ++ tokensOf size false ls

def lex (source : String) : Except (List LexError) (List Token) :=
  let cs := source.toList
  let ls := lexemes 0 cs
  match ls.flatMap (·.errors) with
  | [] => .ok (tokensOf (byteSize cs) false ls)
  | errors => .error errors

end GoEnum.Token
