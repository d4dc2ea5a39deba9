import GoEnum.Text.Letter

namespace GoEnum.Build

open Text

inductive Constraint
  | tag (name : String)
  | not (inner : Constraint)
  | and (left right : Constraint)
  | or (left right : Constraint)
  deriving DecidableEq, Repr

inductive ConstraintError
  | unexpectedChar (c : Char)
  | empty
  | unexpected (spelling : String)
  | missingParen
  | unexpectedEnd
  deriving DecidableEq, Repr

def ConstraintError.message (e : ConstraintError) : String :=
  "invalid //go:build line: " ++ match e with
    | .unexpectedChar c => s!"unexpected character '{c}'"
    | .empty => "empty expression"
    | .unexpected spelling => s!"unexpected '{spelling}'"
    | .missingParen => "missing ')'"
    | .unexpectedEnd => "unexpected end of expression"

inductive Word
  | tag (name : String)
  | not
  | and
  | or
  | lparen
  | rparen
  deriving DecidableEq, Repr

def Word.spelling : Word → String
  | .tag name => name
  | .not => "!"
  | .and => "&&"
  | .or => "||"
  | .lparen => "("
  | .rparen => ")"

def isTagChar (c : Char) : Bool := isLetterOrNumber c || c == '_' || c == '.'

def words : List Char → Except ConstraintError (List Word)
  | [] => .ok []
  | ' ' :: cs | '\t' :: cs => words cs
  | '!' :: cs => return .not :: (← words cs)
  | '(' :: cs => return .lparen :: (← words cs)
  | ')' :: cs => return .rparen :: (← words cs)
  | '&' :: '&' :: cs => return .and :: (← words cs)
  | '|' :: '|' :: cs => return .or :: (← words cs)
  | c :: cs =>
    if isTagChar c then do
      let part := cs.takeWhile isTagChar
      return .tag (String.ofList (c :: part)) :: (← words (cs.drop part.length))
    else .error (.unexpectedChar c)
  termination_by cs => cs.length

namespace Constraint

abbrev Reader := StateT (List Word) (Except ConstraintError)

def joinRest (mark : Word) (join : Constraint → Constraint → Constraint)
    (operand : Reader Constraint) : Nat → Constraint → Reader Constraint
  | 0, left => return left
  | n + 1, left => do
    match ← get with
    | w :: ws =>
      if w = mark then
        set ws
        joinRest mark join operand n (join left (← operand))
      else return left
    | [] => return left

def operand (expr : Reader Constraint) : Nat → Reader Constraint
  | 0 => throw .unexpectedEnd
  | n + 1 => do
    match ← get with
    | .not :: ws =>
      set ws
      return .not (← operand expr n)
    | .lparen :: ws =>
      set ws
      let inner ← expr
      match ← get with
      | .rparen :: ws =>
        set ws
        return inner
      | _ => throw .missingParen
    | .tag name :: ws =>
      set ws
      return .tag name
    | w :: _ => throw (.unexpected w.spelling)
    | [] => throw .unexpectedEnd

/-- An expression of at most `n` words. Negation binds tightest, then `&&`, then `||`. -/
def exprWithin : Nat → Reader Constraint
  | 0 => throw .unexpectedEnd
  | n + 1 => do
    let unit := operand (exprWithin n) (n + 1)
    let conjunction := do joinRest .and .and unit n (← unit)
    joinRest .or .or conjunction n (← conjunction)

def ofWords (ws : List Word) : Except ConstraintError Constraint := do
  if ws.isEmpty then throw .empty
  match ← (exprWithin ws.length).run ws with
  | (c, []) => return c
  | (_, w :: _) => throw (.unexpected w.spelling)

def parse (expr : List Char) : Except ConstraintError Constraint := do
  ofWords (← words expr)

def eval (satisfied : String → Bool) : Constraint → Bool
  | .tag name => satisfied name
  | .not c => !c.eval satisfied
  | .and a b => a.eval satisfied && b.eval satisfied
  | .or a b => a.eval satisfied || b.eval satisfied

end Constraint

end GoEnum.Build
