import GoEnum.Parse.Cursor

namespace GoEnum.Parse

open Token

/-- Passes tokens until every delimiter of `stack` is closed, innermost first. An end before that
is reported at `start`. -/
def closeAll (start : Span) (out : String) : Nat → List Punctuation → Parser Unit
  | _, [] => return ()
  | 0, _ :: _ => unexpected out
  | n + 1, top :: stack => do
    let token := (← get).head
    if token.node = .eof then fail (.unclosed top) start
    advance
    match token.node with
    | .punctuation p =>
      if p.isOpener then closeAll start out n (p :: top :: stack)
      else if p.isCloser then
        if top.closing? = some p then closeAll start out n stack
        else fail (.mismatched p) token.span
      else closeAll start out n (top :: stack)
    | _ => closeAll start out n (top :: stack)

def skipBalanced : Parser Unit := do
  match ← peek with
  | .punctuation p =>
    let start ← currentSpan
    advance
    bounded fun out n => closeAll start out n [p]
  | _ => unexpected "an opening delimiter"

def skipItem : Parser Unit := do
  match ← peek with
  | .punctuation p => if p.isOpener then skipBalanced else advance
  | _ => advance

def skipValues (out : String) : Nat → Parser Unit
  | 0 => unexpected out
  | n + 1 => do
    match ← peek with
    | .eof | .punctuation .semicolon | .punctuation .rparen => return ()
    | _ =>
      skipItem
      skipValues out n

def skipUntil (closer : Punctuation) (out : String) : Nat → Parser Unit
  | 0 => unexpected out
  | n + 1 => do
    if ← isNext closer then return ()
    if ← atEnd then unexpected s!"'{closer.spelling}'"
    skipItem
    skipUntil closer out n

def commaList (closer : Punctuation) (item : Parser α) (out : String) :
    Nat → Parser (List α)
  | 0 => unexpected out
  | n + 1 => do
    if ← isNext closer then return []
    let x ← item
    if ← accept Punctuation.comma then return x :: (← commaList closer item out n)
    else return [x]

def commaSeparated (item : Parser α) (out : String) : Nat → Parser (List α)
  | 0 => unexpected out
  | n + 1 => do
    let x ← item
    if ← accept Punctuation.comma then return x :: (← commaSeparated item out n) else return [x]

def endOfSpec (what : String) : Parser Unit := do
  if ← accept Punctuation.semicolon then return ()
  if !(← isNext Punctuation.rparen) && !(← atEnd) then unexpected what

/-- The lines of a group after its opening parenthesis. A line's parser is told its number. -/
def groupLines (closing ending : String) (line : Nat → Parser α) (out : String) :
    Nat → Nat → Parser (List α)
  | 0, _ => unexpected out
  | n + 1, i => do
    if ← accept Punctuation.rparen then return []
    if ← atEnd then unexpected closing
    let x ← line i
    endOfSpec ending
    skipSemicolons
    return x :: (← groupLines closing ending line out n (i + 1))

def group (closing ending : String) (line : Nat → Parser α) : Parser (Bool × List α) := do
  if ← accept Punctuation.lparen then
    skipSemicolons
    return (true, ← bounded fun out n => groupLines closing ending line out n 0)
  else return (false, [← line 0])

end GoEnum.Parse
