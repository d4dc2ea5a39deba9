import GoEnum.Constant.Operation

/-!
Evaluation of named constants, which may refer to each other in any order. Results are remembered,
and a name that is met again while it is being evaluated is a cycle.
-/

namespace GoEnum.Constant

open Syntax

structure ConstDef where
  name : String
  expr : Expr
  type : Option TypeExpr
  iota : Nat
  deriving Repr

/-- The constants and types that a name can mean. Of constants with one name the first counts. -/
structure Scope where
  defs : List ConstDef
  types : TypeScope

def Scope.find? (s : Scope) (name : String) : Option ConstDef := s.defs.find? (·.name == name)

def Scope.defines (s : Scope) (name : String) : Bool := (s.find? name).isSome

/-- The results so far, and the names under evaluation. -/
structure Memo where
  results : List (String × Except EvalError Const)
  active : List String

namespace Memo

def empty : Memo := ⟨[], []⟩

def enter (m : Memo) (name : String) : Memo := { m with active := name :: m.active }

def leave (m : Memo) (name : String) (r : Except EvalError Const) : Memo :=
  ⟨(name, r) :: m.results, m.active.erase name⟩

end Memo

abbrev Eval := ExceptT EvalError (StateM Memo)

def outcome (x : Eval α) : Eval (Except EvalError α) := ExceptT.lift x.run

def countConst (n : Nat) : Except EvalError Const :=
  if fits n then .ok ⟨.int n, .untyped .int⟩ else .error (.overflow (toString n) untypedInt)

def literalConst : Literal → Except EvalError Const
  | .int n => countConst n
  | .float x => .ok ⟨.float x, .untyped .float⟩
  | .imaginary _ => .error (.unsupported "complex constant")
  | .rune c => .ok ⟨.int c.toNat, .untyped .rune⟩
  | .string s => .ok ⟨.string s, .untyped .string⟩

def predeclared (types : TypeScope) (iota : Nat) (name : String) : Except EvalError Const :=
  match name with
  | "iota" => countConst iota
  | "true" => .ok ⟨.bool true, .untyped .bool⟩
  | "false" => .ok ⟨.bool false, .untyped .bool⟩
  | _ => .error (if types.isType name then .notConstant s!"type {name}" else .undefined name)

def lengthOf (c : Const) : Except EvalError Const :=
  match c.value with
  | .string s => countConst s.utf8ByteSize
  | v => .error (.invalidOperation s!"invalid argument {v.literal} for len")

inductive Callee
  | length
  | conversion (type : String)
  | other (what : String)
  deriving DecidableEq, Repr

/-- The name `len` is a function unless the scope gives the name another meaning. -/
def Scope.callee (s : Scope) (e : Expr) : Callee :=
  match e.withoutParens with
  | .ident _ name =>
    if name = "len" ∧ !s.defines name ∧ !s.types.isType name then .length
    else if s.types.isType name then .conversion name
    else .other s!"call of {name}"
  | _ => .other "function call"

def Callee.apply (types : TypeScope) (arg : Const) : Callee → Except EvalError Const
  | .length => lengthOf arg
  | .conversion type => convert types true type arg
  | .other what => .error (.notConstant what)

def Callee.wrongCount : Callee → EvalError
  | .length => .invalidOperation "len expects one argument"
  | .conversion type => .invalidOperation s!"conversion to {type} expects one argument"
  | .other what => .notConstant what

def qualified (base : Expr) (field : String) : EvalError :=
  let base := match base with
    | .ident _ name => name
    | _ => "expression"
  .unsupported s!"qualified constant {base}.{field}"

section

variable {m : Type → Type} [Monad m] [MonadExceptOf EvalError m]

def evalExpr (s : Scope) (constant : String → m Const) (iota : Nat) : Expr → m Const
  | .literal _ v => liftExcept (literalConst v)
  | .ident _ name =>
    if s.defines name then constant name else liftExcept (predeclared s.types iota name)
  | .paren _ e => evalExpr s constant iota e
  | .selector _ base field => throw (qualified base field)
  | .call _ callee [arg] =>
    match s.callee callee with
    | .other what => throw (.notConstant what)
    | f => do liftExcept (f.apply s.types (← evalExpr s constant iota arg))
  | .call _ callee _ => throw (s.callee callee).wrongCount
  | .unary _ op e => do liftExcept (unary s.types op (← evalExpr s constant iota e))
  | .binary _ op l r => do
    let left ← evalExpr s constant iota l
    let right ← evalExpr s constant iota r
    liftExcept (binary s.types op left right)
  | .type _ t => throw (.notConstant t.text)

def declare (types : TypeScope) (type : Option TypeExpr) (c : Const) : Except EvalError Const :=
  match type with
  | none => .ok c
  | some (.named target) => assign types target c
  | some t => .error (.unsupported s!"constant type {t.text}")

def evalDef (s : Scope) (constant : String → m Const) (d : ConstDef) : m Const := do
  liftExcept (declare s.types d.type (← evalExpr s constant d.iota d.expr))

end

def evalName (s : Scope) (constant : String → Eval Const) (name : String) : Eval Const := do
  let memo ← get
  match memo.results.lookup name with
  | some r => liftExcept r
  | none =>
    match s.find? name with
    | none => throw (.undefined name)
    | some d =>
      if memo.active.contains name then throw (.cycle name)
      else do
        set (memo.enter name)
        let r ← outcome (evalDef s constant d)
        modify (·.leave name r)
        liftExcept r

/-- Evaluates a name and, inside its definition, further names down to depth `n`, below which
`deeper` takes over. -/
def evalWithin (s : Scope) (deeper : String → Eval Const) : Nat → String → Eval Const
  | 0 => deeper
  | n + 1 => evalName s (evalWithin s deeper n)

/-- Evaluates a name inside the definition of another. Names under evaluation are defined, and
each is so once, so that the number of definitions bounds the depth. -/
def Scope.constant (s : Scope) : String → Eval Const :=
  evalWithin s (fun name => throw (.cycle name)) (s.defs.length + 1)

def Scope.eval (s : Scope) (name : String) : StateM Memo (Except EvalError Const) :=
  (s.constant name).run

def Scope.evalAll (s : Scope) (names : List String) : List (Except EvalError Const) :=
  ((names.mapM s.eval).run Memo.empty).1

end GoEnum.Constant
