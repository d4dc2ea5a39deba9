import GoEnum.Enum.Member
import GoEnum.Package.Basic

namespace GoEnum.Enum

open Constant Package Syntax
open Token (Spanned)

/-- What was found of a type. A blank name can be a member too, but only as a placeholder. -/
structure Members where
  values : List Member
  hasPlaceholder : Bool
  deriving DecidableEq, Repr

namespace Members

def empty : Members := ⟨[], false⟩

def append (a b : Members) : Members :=
  ⟨a.values ++ b.values, a.hasPlaceholder || b.hasPlaceholder⟩

end Members

/-- The type that a line's names belong to, given that of the line before. -/
def specType (current : Option String) (s : ConstSpec) : Option String :=
  match s.type, s.values with
  | some t, _ => t.node.name?
  | none, v :: _ => v.calledName?
  | none, [] => current

def kindOf? (v : Value) (t : BasicType) : Option Kind :=
  match v with
  | .string _ => if t.isString then some .string else none
  | _ =>
    if t.isInteger then some (if t.isUnsigned then .unsigned else .signed) else none

def describeType (s : Symbols) (t : ConstType) : String :=
  ((t.name?.bind s.types.find?).map (·.type.text)).getD "unknown"

def resolve (s : Symbols) (type name : String) : Except GenerateError Member :=
  match s.constant? name with
  | none =>
    let reason := match s.unresolved? name with
      | some e => e.message
      | none => "not declared as a package constant"
    .error (.resolution type name reason)
  | some c =>
    match s.basicOf? c with
    | none => .error (.representation type name (describeType s c.type))
    | some b =>
      match kindOf? c.value b with
      | none => .error (.representation type name b.name)
      | some kind =>
        let named := (c.type.name?.map s.types.resolveAlias).getD type
        .ok ⟨name, kind, c.value.literal, s.isStringer named, (s.receiverHint? named).getD ""⟩

def membersOfNames (s : Symbols) (type : String) :
    List (Spanned String) → Except GenerateError Members
  | [] => .ok .empty
  | name :: names => do
    let first ← if name.node = blankName then pure (Members.mk [] true)
      else do pure (Members.mk [← resolve s type name.node] false)
    return first.append (← membersOfNames s type names)

def membersOfSpecs (s : Symbols) (type : String) (current : Option String) :
    List (Spanned ConstSpec) → Except GenerateError Members
  | [] => .ok .empty
  | spec :: specs => do
    let now := specType current spec.node
    let first ← if now = some type then membersOfNames s type spec.node.names else pure .empty
    return first.append (← membersOfSpecs s type now specs)

def gather (f : α → Except GenerateError Members) : List α → Except GenerateError Members
  | [] => .ok .empty
  | x :: xs => do
    let first ← f x
    return first.append (← gather f xs)

def membersOfFile (s : Symbols) (type : String) (f : File) : Except GenerateError Members :=
  gather (fun d => membersOfSpecs s type none d.specs) (constDecls f)

def collect (p : Package) (type : String) : Except GenerateError Members :=
  gather (membersOfFile p.symbols type) p.files

end GoEnum.Enum
