namespace GoEnum.Syntax

structure Param (α : Type) where
  name : Option String
  type : α
  variadic : Bool
  deriving Repr

structure Signature (α : Type) where
  params : List (Param α)
  results : List (Param α)
  deriving Repr

inductive TypeExpr
  | named (name : String)
  | qualified (package name : String)
  | applied (base : TypeExpr) (args : List TypeExpr)
  | pointer (target : TypeExpr)
  | slice (element : TypeExpr)
  | array (element : TypeExpr)
  | map (key value : TypeExpr)
  | chan (element : TypeExpr)
  | func (signature : Signature TypeExpr)
  | struct
  | interface
  deriving Repr

namespace TypeExpr

def name? : TypeExpr → Option String
  | .named n => some n
  | _ => none

def baseName? : TypeExpr → Option String
  | .named n => some n
  | .pointer t => t.baseName?
  | .applied t _ => t.baseName?
  | _ => none

def isPointer : TypeExpr → Bool
  | .pointer _ => true
  | _ => false

mutual

/-- The text of a type. What is not kept shows as dots, the length of an array as `N`. -/
def text : TypeExpr → String
  | .named n => n
  | .qualified p n => p ++ "." ++ n
  | .applied t args => t.text ++ "[" ++ textList args ++ "]"
  | .pointer t => "*" ++ t.text
  | .slice t => "[]" ++ t.text
  | .array t => "[N]" ++ t.text
  | .map k v => "map[" ++ k.text ++ "]" ++ v.text
  | .chan t => "chan " ++ t.text
  | .func _ => "func(...)"
  | .struct => "struct\x7b...\x7d"
  | .interface => "interface\x7b...\x7d"

def textList : List TypeExpr → String
  | [] => ""
  | [t] => t.text
  | t :: ts => t.text ++ ", " ++ textList ts

end

end TypeExpr

end GoEnum.Syntax
