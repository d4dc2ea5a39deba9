import GoEnum.Syntax.File

namespace GoEnum.Package

open Syntax

structure Method where
  receiver : Option String
  isPointer : Bool
  name : String
  paramCount : Nat
  results : List TypeExpr
  deriving Repr

namespace Method

def ofDecl? (f : FuncDecl) : Option (String × Method) := do
  let r ← f.receiver
  let base ← r.type.node.baseName?
  return (base, {
    receiver := r.name
    isPointer := r.type.node.isPointer
    name := f.name.node
    paramCount := f.signature.params.length
    results := f.signature.results.map (·.type) })

def isStringer (m : Method) : Bool :=
  m.name == "String" && m.paramCount == 0 && m.results.map (·.name?) == [some "string"]

def ofFiles (files : List File) : List (String × Method) :=
  files.flatMap fun f => f.decls.filterMap fun d =>
    match d.node with
    | .func f => ofDecl? f
    | _ => none

end Method

end GoEnum.Package
