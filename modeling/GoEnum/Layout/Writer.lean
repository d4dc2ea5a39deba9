import GoEnum.Text.Blank

/-!
Vertical layout: blank lines stand alone, and none follows what opens a block or precedes what
closes one.
-/

namespace GoEnum.Layout

open Text

/-- The lines written so far, whether a blank line waits to be written, and whether the last line
opens a block. -/
structure Writer where
  written : List Char
  pendingBlank : Bool
  afterOpen : Bool
  deriving DecidableEq, Repr

def closesBlock (line : List Char) : Bool :=
  match trimLeft line with
  | '\x7d' :: _ | ')' :: _ => true
  | _ => false

def opensBlock (line : List Char) : Bool :=
  line.getLast? == some '\x7b' || line.getLast? == some '('

namespace Writer

def empty : Writer := ⟨[], false, false⟩

def writeLine (w : Writer) (line : List Char) : Writer :=
  let line := trimRight line
  if line.isEmpty then
    { w with pendingBlank := w.pendingBlank || (!w.written.isEmpty && !w.afterOpen) }
  else
    let gap := if w.pendingBlank && !closesBlock line then ['\n'] else []
    ⟨w.written ++ gap ++ line ++ ['\n'], false, opensBlock line⟩

def writeLines (w : Writer) (ls : List (List Char)) : Writer := ls.foldl writeLine w

end Writer

def layout (cs : List Char) : List Char := (Writer.empty.writeLines (lines cs)).written

end GoEnum.Layout
