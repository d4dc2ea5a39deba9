namespace GoEnum.Emit

inductive Code
  | line (text : String)
  | blank
  | block (header : String) (body : List Code)
  | clause (label : String) (body : List Code)
  deriving Repr

/-- Text under construction, and the level at which the next line starts. -/
structure Emitter where
  text : String
  level : Nat
  deriving DecidableEq, Repr

namespace Emitter

def empty : Emitter := ⟨"", 0⟩

def isEmpty (e : Emitter) : Bool := e.text.isEmpty

def indent (e : Emitter) : Emitter := { e with level := e.level + 1 }

def dedent (e : Emitter) : Emitter := { e with level := e.level - 1 }

def tabs (e : Emitter) : Emitter :=
  { e with text := e.text ++ String.ofList (List.replicate e.level '\t') }

def line (e : Emitter) (s : String) : Emitter := { e.tabs with text := e.tabs.text ++ s ++ "\n" }

def blank (e : Emitter) : Emitter := { e with text := e.text ++ "\n" }

def comment (e : Emitter) (s : String) : Emitter := e.line ("// " ++ s)

def block (e : Emitter) (header : String) (body : Emitter → Emitter) : Emitter :=
  (body (e.line (header ++ " \x7b")).indent).dedent.line "\x7d"

def method (e : Emitter) (doc receiver signature : String) (body : Emitter → Emitter) : Emitter :=
  ((e.comment doc).block s!"func ({receiver}) {signature}" body).blank

def imports (e : Emitter) : List String → Emitter
  | [] => e
  | [path] => (e.line s!"import \"{path}\"").blank
  | paths =>
    let listed := paths.foldl (fun e path => e.line s!"\"{path}\"") (e.line "import (").indent
    (listed.dedent.line ")").blank

mutual

def code (e : Emitter) : Code → Emitter
  | .line s => e.line s
  | .blank => e.blank
  | .block header body => ((e.line (header ++ " \x7b")).indent.codes body).dedent.line "\x7d"
  | .clause label body => ((e.line label).indent.codes body).dedent

def codes (e : Emitter) : List Code → Emitter
  | [] => e
  | c :: cs => (e.code c).codes cs

end

end Emitter

end GoEnum.Emit
