namespace GoEnum.Enum

inductive Kind
  | string
  | signed
  | unsigned
  deriving DecidableEq, Repr

def Kind.isInteger : Kind → Bool
  | .string => false
  | .signed | .unsigned => true

def Kind.zero : Kind → String
  | .string => "\"\""
  | .signed | .unsigned => "0"

/-- A constant of the type. The literal is its value: a quoted text or a decimal integer. -/
structure Member where
  name : String
  kind : Kind
  literal : String
  isTextual : Bool
  receiverHint : String
  deriving DecidableEq, Repr

namespace Member

def label (m : Member) : String :=
  if m.kind.isInteger then
    let cs := (m.literal.toList.dropWhile (· == '"')).reverse
    String.ofList (cs.dropWhile (· == '"')).reverse
  else m.literal

def same (a b : Member) : Bool := a.literal == b.literal

/-- Members are ordered by the texts of their literals, so ten comes before two. -/
def le (a b : Member) : Bool := a.literal ≤ b.literal

end Member

inductive GenerateError
  | discovery (type : String)
  | representation (type constant underlying : String)
  | capability (type : String)
  | resolution (type constant reason : String)
  deriving DecidableEq, Repr

namespace GenerateError

def type : GenerateError → String
  | .discovery t | .representation t _ _ | .capability t | .resolution t _ _ => t

def message : GenerateError → String
  | .discovery t => s!"no values defined for type {t}"
  | .representation t constant underlying =>
    s!"can't handle non-integer, non-string constant type {t}: {constant} has underlying type " ++
      underlying
  | .capability t => s!"type {t} does not implement fmt.Stringer"
  | .resolution t constant reason => s!"no value for constant {constant} of type {t}: {reason}"

def code : GenerateError → String
  | .discovery _ => "enumgen::discovery"
  | .representation .. => "enumgen::unsupported_representation"
  | .capability _ => "enumgen::capability_mismatch"
  | .resolution .. => "enumgen::resolution"

def help? : GenerateError → Option String
  | .discovery _ =>
    some "declare constants with the type annotated, e.g. `const A MyEnum = \"a\"`"
  | .capability _ =>
    some "add a `String() string` method to the type, or generate without --stringer"
  | _ => none

end GenerateError

end GoEnum.Enum
