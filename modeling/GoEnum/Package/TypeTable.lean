import GoEnum.Constant.Value
import GoEnum.Syntax.File

namespace GoEnum.Package

open Constant Syntax

def distinctBy [DecidableEq β] (key : α → β) : List α → List α
  | [] => []
  | x :: xs => x :: (distinctBy key xs).filter fun y => key y ≠ key x

structure TypeDecl where
  name : String
  type : TypeExpr
  isAlias : Bool
  isGeneric : Bool
  deriving Repr

/-- Of declarations with one name the first counts. -/
structure TypeTable where
  decls : List TypeDecl
  deriving Repr

namespace TypeTable

def ofFiles (files : List File) : TypeTable :=
  let specs := files.flatMap fun f => f.decls.flatMap fun d =>
    match d.node with
    | .type specs => specs.map (·.node)
    | _ => []
  let decls := specs.map fun s => ⟨s.name.node, s.type.node, s.isAlias, s.isGeneric⟩
  ⟨distinctBy TypeDecl.name (decls.filter (·.name != blankName))⟩

def find? (t : TypeTable) (name : String) : Option TypeDecl := t.decls.find? (·.name == name)

def isType (t : TypeTable) (name : String) : Bool :=
  (t.find? name).isSome || (BasicType.ofName? name).isSome

def basicWithin (t : TypeTable) : Nat → String → Option BasicType
  | 0, _ => none
  | n + 1, name =>
    match t.find? name with
    | none => BasicType.ofName? name
    | some d => if d.isGeneric then none else d.type.name?.bind (t.basicWithin n)

/-- The predeclared type under a name. A chain of more names than are declared never ends. -/
def basic? (t : TypeTable) (name : String) : Option BasicType :=
  t.basicWithin (t.decls.length + 1) name

def aliasWithin (t : TypeTable) : Nat → List String → String → String
  | 0, _, name => name
  | n + 1, seen, name =>
    match t.find? name with
    | none => name
    | some d =>
      match d.type.name? with
      | some target =>
        if d.isAlias && !seen.contains name then t.aliasWithin n (name :: seen) target else name
      | none => name

/-- The name that an alias stands for: the first in its chain that is no alias or comes again. -/
def resolveAlias (t : TypeTable) (name : String) : String :=
  t.aliasWithin (t.decls.length + 1) [] name

def scope (t : TypeTable) : TypeScope := ⟨t.isType, t.basic?⟩

end TypeTable

end GoEnum.Package
