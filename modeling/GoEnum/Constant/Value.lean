import GoEnum.Binary64.Shortest
import GoEnum.Constant.BasicType
import GoEnum.Text.Quoted

namespace GoEnum.Constant

inductive Value
  | bool (b : Bool)
  | string (s : String)
  | int (n : Int)
  | float (x : Binary64)
  deriving DecidableEq, Repr

inductive Untyped
  | bool
  | string
  | int
  | rune
  | float
  deriving DecidableEq, Repr

inductive ConstType
  | untyped (kind : Untyped)
  | typed (name : String)
  deriving DecidableEq, Repr

structure Const where
  value : Value
  type : ConstType
  deriving DecidableEq, Repr

def Value.literal : Value → String
  | .bool b => if b then "true" else "false"
  | .string s => Text.quote s
  | .int n => toString n
  | .float x => x.plainText

def Value.toFloat? : Value → Option Binary64
  | .int n => some (.ofInt n)
  | .float x => some x
  | _ => none

namespace Untyped

def rank : Untyped → Nat
  | .bool => 0
  | .string => 1
  | .int => 2
  | .rune => 3
  | .float => 4

def max (a b : Untyped) : Untyped := if a.rank ≤ b.rank then b else a

def default : Untyped → BasicType
  | .bool => .bool
  | .string => .string
  | .int => .int
  | .rune => .int32
  | .float => .float64

end Untyped

def ConstType.name? : ConstType → Option String
  | .typed n => some n
  | .untyped _ => none

inductive EvalError
  | undefined (name : String)
  | cycle (name : String)
  | notConstant (what : String)
  | overflow (value type : String)
  | conversion (value type : String)
  | mismatched (left right : String)
  | invalidOperation (what : String)
  | divisionByZero
  | unsupported (what : String)
  deriving DecidableEq, Repr

def EvalError.message : EvalError → String
  | .undefined name => s!"undefined: {name}"
  | .cycle name => s!"initialization cycle involving {name}"
  | .notConstant what => s!"{what} is not a constant expression"
  | .overflow value type => s!"constant {value} overflows {type}"
  | .conversion value type => s!"cannot convert {value} to type {type}"
  | .mismatched left right => s!"mismatched types {left} and {right}"
  | .invalidOperation what => s!"invalid operation: {what}"
  | .divisionByZero => "division by zero"
  | .unsupported what => s!"{what} is not supported in constant evaluation"

structure TypeScope where
  isType : String → Bool
  basic? : String → Option BasicType

/-- Integer constants are held in 128 bits. -/
def minInt : Int := -(Nat.pow 2 127 : Int)

def maxInt : Int := (Nat.pow 2 127 : Int) - 1

def fits (n : Int) : Bool := minInt ≤ n && n ≤ maxInt

def clamp (n : Int) : Int := max minInt (min maxInt n)

def untypedInt : String := "untyped int"

end GoEnum.Constant
