import GoEnum.Binary64.Shortest
import GoEnum.Text.Quoted
import GoEnum.Token.Keyword
import GoEnum.Token.Operator
import GoEnum.Token.Punctuation

namespace GoEnum

namespace Token

structure Span where
  start : Nat
  stop : Nat
  deriving DecidableEq, Repr

namespace Span

def point (n : Nat) : Span := ⟨n, n⟩

def length (s : Span) : Nat := s.stop - s.start

def merge (s t : Span) : Span := ⟨min s.start t.start, max s.stop t.stop⟩

end Span

structure Spanned (α : Type) where
  node : α
  span : Span
  deriving DecidableEq, Repr

inductive TokenKind
  | keyword : Keyword → TokenKind
  | operator : Operator → TokenKind
  | punctuation : Punctuation → TokenKind
  | ident : String → TokenKind
  | int : Nat → TokenKind
  | float : Binary64 → TokenKind
  | imaginary : Binary64 → TokenKind
  | rune : Char → TokenKind
  | string : String → TokenKind
  | eof : TokenKind
  deriving DecidableEq, Repr

end Token

abbrev Token := Token.Spanned Token.TokenKind

namespace Token.TokenKind

/-- Does a line break right after the token end the statement? -/
def endsStatement : TokenKind → Bool
  | .ident _ | .int _ | .float _ | .imaginary _ | .rune _ | .string _ => true
  | .keyword k => k.endsStatement
  | .operator o => o.endsStatement
  | .punctuation p => p.endsStatement
  | .eof => false

def isIdent : TokenKind → Bool
  | .ident _ => true
  | _ => false

def describe : TokenKind → String
  | .keyword k => s!"Keyword({k.label})"
  | .operator o => s!"Operator({o.label})"
  | .punctuation p => s!"Punctuation({p.label})"
  | .ident s => s!"Ident({Text.escapedString s})"
  | .int n => s!"Int({n})"
  | .float x => s!"Float({x.literalText})"
  | .imaginary x => s!"Imaginary({x.literalText})"
  | .rune c => s!"Rune({Text.escapedChar c})"
  | .string s => s!"String({Text.escapedString s})"
  | .eof => "Eof"

end Token.TokenKind

end GoEnum
