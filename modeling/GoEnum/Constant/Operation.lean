import GoEnum.Constant.Conversion
import GoEnum.Syntax.Expr

namespace GoEnum.Constant

open Syntax (UnaryOp BinaryOp)

/-- Both operands of an operation, other than a shift, have one type or one has none. -/
def unify (a b : ConstType) : Except EvalError ConstType :=
  match a, b with
  | .typed x, .typed y => if x = y then .ok a else .error (.mismatched x y)
  | .typed _, .untyped _ => .ok a
  | .untyped _, .typed _ => .ok b
  | .untyped x, .untyped y => .ok (.untyped (x.max y))

def exact (text type : String) (n : Int) : Except EvalError Int :=
  if fits n then .ok n else .error (.overflow text type)

def unaryLabel : UnaryOp → String
  | .plus => "Plus"
  | .neg => "Neg"
  | .complement => "Complement"
  | .not => "Not"

def unsignedBits? (types : TypeScope) (t : ConstType) : Option Nat :=
  (t.name?.bind types.basic?).bind fun b =>
    if b.isInteger && b.isUnsigned then some b.bits else none

def bitwise (f : BitVec 128 → BitVec 128 → BitVec 128) (a b : Int) : Int :=
  (f (.ofInt 128 a) (.ofInt 128 b)).toInt

def complement (unsignedBits : Option Nat) (n : Int) : Int :=
  match unsignedBits with
  | some bits => bitwise (· ^^^ ·) n ((Nat.pow 2 bits : Int) - 1)
  | none => (~~~ BitVec.ofInt 128 n).toInt

def unaryValue (types : TypeScope) (op : UnaryOp) (type : ConstType) (v : Value) :
    Except EvalError Value :=
  match op, v with
  | .plus, .int n => .ok (.int n)
  | .plus, .float x => .ok (.float x)
  | .neg, .int n => .int <$> exact s!"-{n}" untypedInt (-n)
  | .neg, .float x => .ok (.float x.neg)
  | .complement, .int n => .ok (.int (complement (unsignedBits? types type) n))
  | .not, .bool b => .ok (.bool !b)
  | op, v => .error (.invalidOperation s!"operator {unaryLabel op} not defined on {v.literal}")

def unary (types : TypeScope) (op : UnaryOp) (c : Const) : Except EvalError Const := do
  let value ← unaryValue types op c.type c.value
  representable types ⟨value, c.type⟩

def intOperation (op : BinaryOp) (type : ConstType) (a b : Int) : Except EvalError Int :=
  let exact := exact s!"{a} {op.spelling} {b}" (type.name?.getD untypedInt)
  match op with
  | .add => exact (a + b)
  | .sub => exact (a - b)
  | .mul => exact (a * b)
  | .div => if b = 0 then .error .divisionByZero else exact (a.tdiv b)
  | .rem =>
    if b = 0 then .error .divisionByZero
    else do
      let _ ← exact (a.tdiv b)
      return a.tmod b
  | .and => .ok (bitwise (· &&& ·) a b)
  | .or => .ok (bitwise (· ||| ·) a b)
  | .xor => .ok (bitwise (· ^^^ ·) a b)
  | .andNot => .ok (bitwise (fun x y => x &&& ~~~y) a b)
  | op => .error (.invalidOperation s!"operator {op.spelling} not defined on integers")

def floatOperation? (op : BinaryOp) (a b : Binary64) : Option (Except EvalError Binary64) :=
  match op with
  | .add => some (.ok (.ofFloat (a.toFloat + b.toFloat)))
  | .sub => some (.ok (.ofFloat (a.toFloat - b.toFloat)))
  | .mul => some (.ok (.ofFloat (a.toFloat * b.toFloat)))
  | .div =>
    if b.isZero then some (.error .divisionByZero)
    else some (.ok (.ofFloat (a.toFloat / b.toFloat)))
  | _ => none

def Value.order? (a b : Value) : Option Ordering :=
  match a, b with
  | .int x, .int y => some (compare x y)
  | .string x, .string y => some (compare x y)
  | .bool _, .bool _ => none
  | x, y => do
    let x := (← x.toFloat?).toFloat
    let y := (← y.toFloat?).toFloat
    if x < y then return .lt
    else if x == y then return .eq
    else if x > y then return .gt
    else none

def holdsFor? (op : BinaryOp) (o : Ordering) : Option Bool :=
  match op with
  | .eq => some (o == .eq)
  | .notEq => some (o != .eq)
  | .lt => some (o == .lt)
  | .ltEq => some (o != .gt)
  | .gt => some (o == .gt)
  | .gtEq => some (o != .lt)
  | _ => none

def comparison? (op : BinaryOp) (a b : Value) : Option Bool :=
  match a, b with
  | .bool x, .bool y =>
    match op with
    | .eq => some (x == y)
    | .notEq => some (x != y)
    | _ => none
  | _, _ => (a.order? b).bind (holdsFor? op)

def shiftCount (v : Value) : Except EvalError Int :=
  let refused := EvalError.invalidOperation s!"invalid shift count {v.literal}"
  match v with
  | .int n => if 0 ≤ n then .ok n else .error refused
  | .float x =>
    if x.isWhole && (!x.isNegative || x.isZero) then .ok (clamp x.truncate) else .error refused
  | _ => .error refused

def shiftOperand (c : Const) : Except EvalError Int :=
  let refused := EvalError.invalidOperation s!"shift of non-integer {c.value.literal}"
  match c.value with
  | .int n => .ok n
  | .float x =>
    if c.type.name?.isNone && x.isWhole then .ok (clamp x.truncate) else .error refused
  | _ => .error refused

/-- A shift to the left in 128 bits. Bits that got lost show when the result is shifted back. -/
def shiftLeft (n count : Int) : Except EvalError Int :=
  let overflow := EvalError.overflow s!"{n} {BinaryOp.shl.spelling} {count}" untypedInt
  if n = 0 then .ok 0
  else if 127 ≤ count then .error overflow
  else
    let shifted := (BitVec.ofInt 128 n <<< count.toNat).toInt
    if shifted >>> count.toNat = n then .ok shifted else .error overflow

def shiftRight (n count : Int) : Int :=
  if 127 ≤ count then if n < 0 then -1 else 0 else n >>> count.toNat

def shiftValue (op : BinaryOp) (n count : Int) : Except EvalError Int :=
  if op = .shl then shiftLeft n count else .ok (shiftRight n count)

/-- The result has the type of what is shifted, but a whole number turns into an integer. -/
def shiftType (type : ConstType) : ConstType :=
  if type = .untyped .float then .untyped .int else type

def shift (types : TypeScope) (op : BinaryOp) (left right : Const) : Except EvalError Const := do
  let count ← shiftCount right.value
  let n ← shiftOperand left
  let value ← shiftValue op n count
  representable types ⟨.int value, shiftType left.type⟩

def invalidOperands (op : BinaryOp) (a b : Value) : EvalError :=
  .invalidOperation s!"{a.literal} {op.spelling} {b.literal}"

def floatArithmetic (op : BinaryOp) (a b : Value) : Except EvalError Value :=
  match a.toFloat?, b.toFloat? with
  | some x, some y =>
    match floatOperation? op x y with
    | some r => .float <$> r
    | none => .error (invalidOperands op a b)
  | _, _ => .error (invalidOperands op a b)

def arithmetic (op : BinaryOp) (type : ConstType) (a b : Value) : Except EvalError Value :=
  match a, b with
  | .bool x, .bool y =>
    match op with
    | .logicalAnd => .ok (.bool (x && y))
    | .logicalOr => .ok (.bool (x || y))
    | _ => .error (invalidOperands op a b)
  | .string x, .string y =>
    if op = .add then .ok (.string (x ++ y)) else .error (invalidOperands op a b)
  | .int x, .int y =>
    if type = .untyped .float then floatArithmetic op a b else .int <$> intOperation op type x y
  | _, _ => floatArithmetic op a b

/-- The result of a comparison has no type, whatever the operands have. -/
def compared (op : BinaryOp) (a b : Value) : Except EvalError Const :=
  match comparison? op a b with
  | some b => .ok ⟨.bool b, .untyped .bool⟩
  | none => .error (invalidOperands op a b)

def binary (types : TypeScope) (op : BinaryOp) (left right : Const) : Except EvalError Const :=
  if op.isShift then shift types op left right
  else do
    let type ← unify left.type right.type
    if op.isComparison then compared op left.value right.value
    else
      let value ← arithmetic op type left.value right.value
      representable types ⟨value, type⟩

end GoEnum.Constant
