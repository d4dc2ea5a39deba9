import GoEnum.Enum.Reduction

namespace GoEnum.Emit

open Enum

structure Imports where
  driver : Bool
  fmt : Bool
  strconv : Bool
  deriving DecidableEq, Repr

namespace Imports

def nothing : Imports := ⟨false, false, false⟩

def union (a b : Imports) : Imports :=
  ⟨a.driver || b.driver, a.fmt || b.fmt, a.strconv || b.strconv⟩

def paths (i : Imports) : List String :=
  (if i.driver then ["database/sql/driver"] else []) ++ (if i.fmt then ["fmt"] else []) ++
    (if i.strconv then ["strconv"] else [])

end Imports

inductive Conversion
  | string
  | int
  | uint
  deriving DecidableEq, Repr

namespace Conversion

def type : Conversion → String
  | .string => "string"
  | .int => "int"
  | .uint => "uint"

def input : Conversion → String
  | .string => "str"
  | .int => "i"
  | .uint => "u"

def isInteger : Conversion → Bool
  | .string => false
  | .int | .uint => true

def parser? : Conversion → Option String
  | .string => none
  | .int => some "ParseInt"
  | .uint => some "ParseUint"

end Conversion

structure TypeContext where
  type : String
  set : Reduced
  textual : Bool
  deriving DecidableEq, Repr

namespace TypeContext

def of (type : String) (set : Reduced) (preferTextual : Bool) : TypeContext :=
  ⟨type, set, preferTextual && set.isTextual⟩

def receiver (c : TypeContext) : String := c.set.receiver

def conversion (c : TypeContext) : Conversion :=
  if c.textual then .string
  else match c.set.kind with
    | .string => .string
    | .signed => .int
    | .unsigned => .uint

/-- Does each member get a case with its text, instead of one case that lists the literals? -/
def multiCase (c : TypeContext) : Bool := c.set.kind.isInteger && c.textual

def defaultTarget? (c : TypeContext) : Option String :=
  if c.set.errorOnUnknown then none else c.set.default?.map (·.name)

end TypeContext

end GoEnum.Emit
