import GoEnum.Emit.Code
import GoEnum.Emit.Context

namespace GoEnum.Emit

open Enum

inductive Label
  | literal (text : String)
  | textOf (constant : String)
  deriving DecidableEq, Repr

def Label.code : Label → String
  | .literal text => text
  | .textOf constant => s!"{constant}.String()"

inductive Assigned
  | converted (type input : String)
  | constant (name : String)
  deriving DecidableEq, Repr

def Assigned.code : Assigned → String
  | .converted type input => s!"{type}({input})"
  | .constant name => name

structure Case where
  labels : List Label
  assigned : Assigned
  deriving DecidableEq, Repr

inductive Fallback
  | assign (constant : String)
  | fail
  deriving DecidableEq, Repr

structure Switch where
  input : String
  cases : List Case
  fallback : Fallback
  deriving DecidableEq, Repr

namespace Switch

def of (c : TypeContext) : Switch where
  input := c.conversion.input
  cases :=
    if c.multiCase then
      c.set.values.map fun m => ⟨[.textOf m.name], .constant m.name⟩
    else if c.set.values.isEmpty then []
    else
      [⟨c.set.values.map fun m => .literal m.label,
        .converted c.type c.conversion.input⟩]
  fallback := match c.defaultTarget? with
    | some name => .assign name
    | none => .fail

def imports (s : Switch) : Imports :=
  { Imports.nothing with fmt := s.fallback == .fail }

def unrecognized (c : TypeContext) (operation : String) : String :=
  s!"return fmt.Errorf(\"failed to {operation} {c.type} value: unrecognized value `%v`\", " ++
    s!"{c.conversion.input})"

def assign (c : TypeContext) (value : String) : Code := .line s!"*{c.receiver} = {value}"

def code (c : TypeContext) (operation : String) (s : Switch) : List Code :=
  let cases := s.cases.map fun k =>
    Code.clause ("case " ++ ", ".intercalate (k.labels.map Label.code) ++ ":")
      [assign c k.assigned.code]
  let fallback := match s.fallback with
    | .assign name => assign c name
    | .fail => .line (unrecognized c operation)
  [.line ("switch " ++ s.input ++ " \x7b")] ++ cases ++ [.clause "default:" [fallback]] ++
    [.line "\x7d", .blank, .line "return nil"]

end Switch

end GoEnum.Emit
