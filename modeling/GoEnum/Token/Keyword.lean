namespace GoEnum.Token

inductive Keyword
  | const | var | type | func | package | «import»
  | struct | interface | map | chan
  | «if» | «else» | «for» | range | switch | case | default | select
  | «break» | «continue» | fallthrough | goto | «return» | defer | go
  deriving DecidableEq, Repr

namespace Keyword

def all : List Keyword :=
  [.const, .var, .type, .func, .package, .import, .struct, .interface, .map, .chan,
    .if, .else, .for, .range, .switch, .case, .default, .select, .break, .continue,
    .fallthrough, .goto, .return, .defer, .go]

def spelling : Keyword → String
  | .const => "const"
  | .var => "var"
  | .type => "type"
  | .func => "func"
  | .package => "package"
  | .import => "import"
  | .struct => "struct"
  | .interface => "interface"
  | .map => "map"
  | .chan => "chan"
  | .if => "if"
  | .else => "else"
  | .for => "for"
  | .range => "range"
  | .switch => "switch"
  | .case => "case"
  | .default => "default"
  | .select => "select"
  | .break => "break"
  | .continue => "continue"
  | .fallthrough => "fallthrough"
  | .goto => "goto"
  | .return => "return"
  | .defer => "defer"
  | .go => "go"

def label (k : Keyword) : String := k.spelling.capitalize

def endsStatement : Keyword → Bool
  | .break | .continue | .fallthrough | .return => true
  | _ => false

def startsType : Keyword → Bool
  | .map | .chan | .func | .struct | .interface => true
  | _ => false

def ofSpelling? (s : String) : Option Keyword := all.find? (·.spelling == s)

theorem ofSpelling?_spelling (k : Keyword) : ofSpelling? k.spelling = some k := by
  cases k <;> decide

end Keyword

end GoEnum.Token
