import GoEnum.Token.Basic

namespace GoEnum

open Token (Span)

inductive Stage
  | lex
  | syntactic
  deriving DecidableEq, Repr

def Stage.text : Stage → String
  | .lex => "lex error"
  | .syntactic => "syntax error"

structure Diagnostic where
  stage : Stage
  message : String
  span : Span
  hint : Option String
  deriving DecidableEq, Repr

structure LineInfo where
  line : Nat
  column : Nat
  text : String
  deriving DecidableEq, Repr

def splitBytes (n : Nat) : List Char → List Char × List Char
  | [] => ([], [])
  | c :: cs =>
    if n < c.utf8Size then ([], c :: cs)
    else
      let (before, after) := splitBytes (n - c.utf8Size) cs
      (c :: before, after)

/-- The line around a byte offset. Offsets past the end count as the end. -/
def lineInfo (source : String) (offset : Nat) : LineInfo :=
  let (before, after) := splitBytes offset source.toList
  let head := (before.reverse.takeWhile (· != '\n')).reverse
  { line := before.count '\n' + 1
    column := head.length + 1
    text := String.ofList (head ++ after.takeWhile (· != '\n')) }

namespace Diagnostic

def text (d : Diagnostic) : String := s!"{d.stage.text}: {d.message}"

def reportAt (info : LineInfo) (file : String) (d : Diagnostic) : String :=
  let number := toString info.line
  let pad := String.ofList (List.replicate number.length ' ')
  let mark := String.ofList (List.replicate (info.column - 1) ' ')
  let hint := match d.hint with
    | some h => s!"  = hint: {h}\n"
    | none => ""
  s!"{d.text}\n  --> {file}:{info.line}:{info.column}\n  {pad} |\n  {number} | {info.text}\n" ++
    s!"  {pad} | {mark}^\n" ++ hint

def report (file source : String) (d : Diagnostic) : String :=
  d.reportAt (lineInfo source d.span.start) file

end Diagnostic

end GoEnum
