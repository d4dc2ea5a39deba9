import GoEnum.Constant.Evaluation
import GoEnum.Package.TypeTable

namespace GoEnum.Package

open Constant Syntax
open Token (Spanned)

structure Initializer where
  type : Option TypeExpr
  values : List Expr
  deriving Repr

/-- What holds after a line, given what held before. -/
def Initializer.next (last : Option Initializer) (s : ConstSpec) : Option Initializer :=
  if s.values.isEmpty then last else some ⟨s.type.map (·.node), s.values⟩

def Initializer.defs (i : Initializer) (s : ConstSpec) : List ConstDef :=
  (s.names.zip i.values).filterMap fun (name, value) =>
    if name.node = blankName then none else some ⟨name.node, value, i.type, s.iota⟩

def specDefs (last : Option Initializer) : List (Spanned ConstSpec) → List ConstDef
  | [] => []
  | s :: ss =>
    let now := Initializer.next last s.node
    (now.map (·.defs s.node)).getD [] ++ specDefs now ss

def ConstDecl.defs (d : ConstDecl) : List ConstDef := specDefs none d.specs

def constDecls (f : File) : List ConstDecl :=
  f.decls.filterMap fun d =>
    match d.node with
    | .const d => some d
    | _ => none

/-- The definitions of files, in order. Of definitions with one name the first counts. -/
def constDefs (files : List File) : List ConstDef :=
  distinctBy ConstDef.name (files.flatMap fun f => (constDecls f).flatMap ConstDecl.defs)

def evaluated (files : List File) (types : TypeTable) :
    List (String × Except EvalError Const) :=
  let defs := constDefs files
  let names := defs.map (·.name)
  names.zip (Scope.evalAll ⟨defs, types.scope⟩ names)

end GoEnum.Package
