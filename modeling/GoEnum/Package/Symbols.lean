import GoEnum.Package.ConstTable
import GoEnum.Package.Method

namespace GoEnum.Package

open Constant Syntax

structure Symbols where
  types : TypeTable
  constants : List (String × Except EvalError Const)
  methods : List (String × Method)

namespace Symbols

def ofFiles (files : List File) : Symbols :=
  let types := TypeTable.ofFiles files
  ⟨types, evaluated files types, Method.ofFiles files⟩

def constant? (s : Symbols) (name : String) : Option Const :=
  match s.constants.lookup name with
  | some (.ok c) => some c
  | _ => none

def unresolved? (s : Symbols) (name : String) : Option EvalError :=
  match s.constants.lookup name with
  | some (.error e) => some e
  | _ => none

def basicOf? (s : Symbols) (c : Const) : Option BasicType :=
  match c.type with
  | .typed name => s.types.basic? name
  | .untyped kind => some kind.default

def methodsOf (s : Symbols) (type : String) : List Method :=
  s.methods.filterMap fun (base, m) => if base = type then some m else none

def isStringer (s : Symbols) (type : String) : Bool := (s.methodsOf type).any (·.isStringer)

def receiverHint? (s : Symbols) (type : String) : Option String :=
  (s.methodsOf type).findSome? fun m => m.receiver.filter (· != "")

end Symbols

end GoEnum.Package
