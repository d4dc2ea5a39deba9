namespace GoEnum.Disk

structure Path where
  text : String
  deriving DecidableEq, Repr

inductive Component
  | root
  | here
  | parent
  | name (s : String)
  deriving DecidableEq, Repr

namespace Component

def rank : Component → Nat
  | .root => 0
  | .here => 1
  | .parent => 2
  | .name _ => 3

def le (a b : Component) : Bool :=
  match a, b with
  | .name s, .name t => s ≤ t
  | _, _ => a.rank ≤ b.rank

def ofText (s : String) : Component := if s = ".." then .parent else .name s

end Component

namespace Path

/-- A path split at its slashes: what it starts from, and the parts after that. -/
structure Split where
  start : Option Component
  parts : List (List Char)

def split (p : Path) : Split :=
  match p.text.toList with
  | [] => ⟨none, []⟩
  | '/' :: cs => ⟨some .root, cs.splitOn '/'⟩
  | ['.'] => ⟨some .here, []⟩
  | '.' :: '/' :: cs => ⟨some .here, cs.splitOn '/'⟩
  | cs => ⟨none, cs.splitOn '/'⟩

def isVoid (part : List Char) : Bool := part.isEmpty || part == ['.']

def components (p : Path) : List Component :=
  let s := p.split
  s.start.toList ++ (s.parts.filter (!isVoid ·)).map fun part => .ofText (String.ofList part)

def leComponents : List Component → List Component → Bool
  | [], _ => true
  | _ :: _, [] => false
  | a :: as, b :: bs => if a = b then leComponents as bs else a.le b

def le (p q : Path) : Bool := leComponents p.components q.components

def fileName? (p : Path) : Option String :=
  match p.components.getLast? with
  | some (.name s) => some s
  | _ => none

def extension? (p : Path) : Option String := do
  let name := (← p.fileName?).toList
  let ext := (name.reverse.takeWhile (· != '.')).reverse
  if ext.length + 1 < name.length then some (String.ofList ext) else none

def dropVoid (parts : List (List Char)) : List (List Char) :=
  (parts.reverse.dropWhile isVoid).reverse

def startText : Option Component → List Char
  | some .root => ['/']
  | some .here => ['.']
  | _ => []

def join (start : Option Component) (parts : List (List Char)) : Path :=
  let body := ['/'].intercalate parts
  let gap := if start = some .here && !parts.isEmpty then ['/'] else []
  ⟨String.ofList (startText start ++ gap ++ body)⟩

def parent? (p : Path) : Option Path :=
  let s := p.split
  match dropVoid s.parts with
  | [] => if s.start = some .here then some ⟨""⟩ else none
  | parts => some (join s.start (dropVoid parts.dropLast))

def append (p q : Path) : Path :=
  let right := q.text.toList
  match right.head?, p.text.toList.getLast? with
  | some '/', _ => q
  | _, some '/' | _, none => ⟨p.text ++ q.text⟩
  | _, some _ => ⟨p.text ++ "/" ++ q.text⟩

end Path

end GoEnum.Disk
