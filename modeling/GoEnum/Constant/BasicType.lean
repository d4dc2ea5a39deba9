namespace GoEnum.Constant

inductive BasicType
  | bool | string
  | int | int8 | int16 | int32 | int64
  | uint | uint8 | uint16 | uint32 | uint64 | uintptr
  | float32 | float64
  | complex64 | complex128
  deriving DecidableEq, Repr

inductive BasicClass
  | boolean
  | string
  | integer
  | float
  | complex
  deriving DecidableEq, Repr

namespace BasicType

def all : List BasicType :=
  [.bool, .string, .int, .int8, .int16, .int32, .int64, .uint, .uint8, .uint16, .uint32, .uint64,
    .uintptr, .float32, .float64, .complex64, .complex128]

def name : BasicType → String
  | .bool => "bool"
  | .string => "string"
  | .int => "int"
  | .int8 => "int8"
  | .int16 => "int16"
  | .int32 => "int32"
  | .int64 => "int64"
  | .uint => "uint"
  | .uint8 => "uint8"
  | .uint16 => "uint16"
  | .uint32 => "uint32"
  | .uint64 => "uint64"
  | .uintptr => "uintptr"
  | .float32 => "float32"
  | .float64 => "float64"
  | .complex64 => "complex64"
  | .complex128 => "complex128"

def «class» : BasicType → BasicClass
  | .bool => .boolean
  | .string => .string
  | .float32 | .float64 => .float
  | .complex64 | .complex128 => .complex
  | _ => .integer

def bits : BasicType → Nat
  | .bool | .string => 0
  | .int8 | .uint8 => 8
  | .int16 | .uint16 => 16
  | .int32 | .uint32 | .float32 => 32
  | .int | .int64 | .uint | .uint64 | .uintptr | .float64 | .complex64 => 64
  | .complex128 => 128

def isInteger (t : BasicType) : Bool := t.class == .integer

def isString (t : BasicType) : Bool := t.class == .string

def isUnsigned : BasicType → Bool
  | .uint | .uint8 | .uint16 | .uint32 | .uint64 | .uintptr => true
  | _ => false

def range? (t : BasicType) : Option (Int × Int) :=
  if !t.isInteger then none
  else if t.isUnsigned then some (0, (Nat.pow 2 t.bits : Int) - 1)
  else some (-(Nat.pow 2 (t.bits - 1) : Int), (Nat.pow 2 (t.bits - 1) : Int) - 1)

def ofName? (s : String) : Option BasicType :=
  if s = "byte" then some .uint8
  else if s = "rune" then some .int32
  else all.find? (·.name == s)

end BasicType

end GoEnum.Constant
