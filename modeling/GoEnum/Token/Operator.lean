namespace GoEnum.Token

inductive Operator
  | andNotEq | shlEq | shrEq | andNot | shl | shr | andAnd | orOr | eqEq | notEq | ltEq | gtEq
  | define | plusEq | minusEq | starEq | slashEq | percentEq | ampEq | pipeEq | caretEq | inc
  | dec | arrow | plus | minus | star | slash | percent | amp | pipe | caret | not | lt | gt
  | assign
  deriving DecidableEq, Repr

namespace Operator

/-- Longer spellings come first, so that the first one that fits is the longest. -/
def all : List Operator :=
  [.andNotEq, .shlEq, .shrEq, .andNot, .shl, .shr, .andAnd, .orOr, .eqEq, .notEq, .ltEq, .gtEq,
    .define, .plusEq, .minusEq, .starEq, .slashEq, .percentEq, .ampEq, .pipeEq, .caretEq, .inc,
    .dec, .arrow, .plus, .minus, .star, .slash, .percent, .amp, .pipe, .caret, .not, .lt, .gt,
    .assign]

def spelling : Operator → String
  | .andNotEq => "&^="
  | .shlEq => "<<="
  | .shrEq => ">>="
  | .andNot => "&^"
  | .shl => "<<"
  | .shr => ">>"
  | .andAnd => "&&"
  | .orOr => "||"
  | .eqEq => "=="
  | .notEq => "!="
  | .ltEq => "<="
  | .gtEq => ">="
  | .define => ":="
  | .plusEq => "+="
  | .minusEq => "-="
  | .starEq => "*="
  | .slashEq => "/="
  | .percentEq => "%="
  | .ampEq => "&="
  | .pipeEq => "|="
  | .caretEq => "^="
  | .inc => "++"
  | .dec => "--"
  | .arrow => "<-"
  | .plus => "+"
  | .minus => "-"
  | .star => "*"
  | .slash => "/"
  | .percent => "%"
  | .amp => "&"
  | .pipe => "|"
  | .caret => "^"
  | .not => "!"
  | .lt => "<"
  | .gt => ">"
  | .assign => "="

def label : Operator → String
  | .andNotEq => "AndNotEq"
  | .shlEq => "ShlEq"
  | .shrEq => "ShrEq"
  | .andNot => "AndNot"
  | .shl => "Shl"
  | .shr => "Shr"
  | .andAnd => "AndAnd"
  | .orOr => "OrOr"
  | .eqEq => "EqEq"
  | .notEq => "NotEq"
  | .ltEq => "LtEq"
  | .gtEq => "GtEq"
  | .define => "Define"
  | .plusEq => "PlusEq"
  | .minusEq => "MinusEq"
  | .starEq => "StarEq"
  | .slashEq => "SlashEq"
  | .percentEq => "PercentEq"
  | .ampEq => "AmpEq"
  | .pipeEq => "PipeEq"
  | .caretEq => "CaretEq"
  | .inc => "Inc"
  | .dec => "Dec"
  | .arrow => "Arrow"
  | .plus => "Plus"
  | .minus => "Minus"
  | .star => "Star"
  | .slash => "Slash"
  | .percent => "Percent"
  | .amp => "Amp"
  | .pipe => "Pipe"
  | .caret => "Caret"
  | .not => "Not"
  | .lt => "Lt"
  | .gt => "Gt"
  | .assign => "Assign"

def precedence? : Operator → Option Nat
  | .andNot | .shl | .shr | .star | .slash | .percent | .amp => some 5
  | .plus | .minus | .pipe | .caret => some 4
  | .eqEq | .notEq | .ltEq | .gtEq | .lt | .gt => some 3
  | .andAnd => some 2
  | .orOr => some 1
  | _ => none

def endsStatement : Operator → Bool
  | .inc | .dec => true
  | _ => false

def longest? (cs : List Char) : Option Operator := all.find? (·.spelling.toList.isPrefixOf cs)

end Operator

end GoEnum.Token
