namespace GoEnum.Token

inductive Punctuation
  | comma | semicolon | colon | ellipsis | dot | tilde
  | lparen | rparen | lbracket | rbracket | lbrace | rbrace
  deriving DecidableEq, Repr

namespace Punctuation

def spelling : Punctuation → String
  | .comma => ","
  | .semicolon => ";"
  | .colon => ":"
  | .ellipsis => "..."
  | .dot => "."
  | .tilde => "~"
  | .lparen => "("
  | .rparen => ")"
  | .lbracket => "["
  | .rbracket => "]"
  | .lbrace => "\x7b"
  | .rbrace => "\x7d"

def label : Punctuation → String
  | .comma => "Comma"
  | .semicolon => "Semicolon"
  | .colon => "Colon"
  | .ellipsis => "Ellipsis"
  | .dot => "Dot"
  | .tilde => "Tilde"
  | .lparen => "LParen"
  | .rparen => "RParen"
  | .lbracket => "LBracket"
  | .rbracket => "RBracket"
  | .lbrace => "LBrace"
  | .rbrace => "RBrace"

def closing? : Punctuation → Option Punctuation
  | .lparen => some .rparen
  | .lbracket => some .rbracket
  | .lbrace => some .rbrace
  | _ => none

def isOpener (p : Punctuation) : Bool := p.closing?.isSome

def isCloser : Punctuation → Bool
  | .rparen | .rbracket | .rbrace => true
  | _ => false

def endsStatement (p : Punctuation) : Bool := p.isCloser

end Punctuation

end GoEnum.Token
