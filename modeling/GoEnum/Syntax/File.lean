import GoEnum.Syntax.Expr

namespace GoEnum.Syntax

open Token (Spanned)

def blankName : String := "_"

/-- One line of a constant declaration. `iota` counts the lines of its group from zero. -/
structure ConstSpec where
  names : List (Spanned String)
  type : Option (Spanned TypeExpr)
  values : List Expr
  iota : Nat
  deriving Repr

structure ConstDecl where
  grouped : Bool
  specs : List (Spanned ConstSpec)
  deriving Repr

structure TypeSpec where
  name : Spanned String
  isAlias : Bool
  isGeneric : Bool
  type : Spanned TypeExpr
  deriving Repr

structure Receiver where
  name : Option String
  type : Spanned TypeExpr
  deriving Repr

structure FuncDecl where
  receiver : Option Receiver
  name : Spanned String
  signature : Signature TypeExpr
  hasBody : Bool
  deriving Repr

inductive Decl
  | const (decl : ConstDecl)
  | var (names : List (Spanned String))
  | type (specs : List (Spanned TypeSpec))
  | func (decl : FuncDecl)
  deriving Repr

structure ImportSpec where
  localName : Option String
  path : String
  deriving DecidableEq, Repr

structure File where
  package : Spanned String
  imports : List ImportSpec
  decls : List (Spanned Decl)
  deriving Repr

end GoEnum.Syntax
