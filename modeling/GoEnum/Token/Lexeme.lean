import GoEnum.Diagnostic
import GoEnum.Token.Basic

namespace GoEnum.Token

inductive LexCause
  | unexpected (c : Char)
  | openComment
  | hexFloat
  | invalidDigit (radix : Nat)
  | noDigits (radix : Nat)
  | invalidOctal
  | outOfRange
  | emptyExponent
  | openString
  | openRawString
  | notUtf8
  | openRune
  | emptyRune
  | longRune
  | openEscape
  | octalEscapeLength
  | octalEscapeRange
  | hexEscapeLength (digits : Nat)
  | escapeCodePoint
  | unknownEscape (c : Char)
  deriving DecidableEq, Repr

def LexCause.message : LexCause → String
  | .unexpected c => s!"Unexpected character '{c}'"
  | .openComment => "Comment not terminated"
  | .hexFloat => "Hexadecimal floating-point literals are not supported"
  | .invalidDigit radix => s!"Invalid digit in base-{radix} literal"
  | .noDigits radix => s!"Base-{radix} literal has no digits"
  | .invalidOctal => "Invalid digit in octal literal"
  | .outOfRange => "Integer literal out of range"
  | .emptyExponent => "Exponent has no digits"
  | .openString => "String literal not terminated"
  | .openRawString => "Raw string literal not terminated"
  | .notUtf8 => "String literal is not valid UTF-8"
  | .openRune => "Rune literal not terminated"
  | .emptyRune => "Empty rune literal"
  | .longRune => "Rune literal must contain exactly one character"
  | .openEscape => "Escape sequence not terminated"
  | .octalEscapeLength => "Octal escape needs exactly three digits"
  | .octalEscapeRange => "Octal escape value is greater than 255"
  | .hexEscapeLength digits => s!"Escape sequence needs exactly {digits} hex digits"
  | .escapeCodePoint => "Escape sequence is an invalid Unicode code point"
  | .unknownEscape c => s!"Unknown escape sequence '\\{c}'"

structure LexError where
  cause : LexCause
  span : Span
  deriving DecidableEq, Repr

def LexError.diagnostic (e : LexError) : Diagnostic := ⟨.lex, e.cause.message, e.span, none⟩

/-- What a lexeme contributes: a token, nothing, or the end of a line. -/
inductive Form
  | token (kind : TokenKind)
  | gap
  | lineBreak
  deriving DecidableEq, Repr

/-- An error with the number of characters past the first that were read when it was found. -/
structure Fault where
  cause : LexCause
  length : Nat
  deriving DecidableEq, Repr

structure Lexeme where
  form : Form
  length : Nat
  faults : List Fault
  deriving DecidableEq, Repr

namespace Lexeme

def token (kind : TokenKind) (length : Nat) : Lexeme := ⟨.token kind, length, []⟩

def mark (p : Punctuation) (length : Nat) : Lexeme := token (.punctuation p) length

def gap (length : Nat) : Lexeme := ⟨.gap, length, []⟩

def lineBreak (length : Nat) : Lexeme := ⟨.lineBreak, length, []⟩

def fault (cause : LexCause) (length : Nat) : Lexeme := ⟨.gap, length, [⟨cause, length⟩]⟩

end Lexeme

end GoEnum.Token
