namespace GoEnum

structure Binary64 where
  bits : UInt64
  deriving DecidableEq, Repr

namespace Binary64

def ofFloat (x : Float) : Binary64 := ⟨x.toBits⟩

def toFloat (x : Binary64) : Float := Float.ofBits x.bits

def isNegative (x : Binary64) : Bool := x.bits.toNat / Nat.pow 2 63 == 1

def exponentField (x : Binary64) : Nat := x.bits.toNat / Nat.pow 2 52 % Nat.pow 2 11

def fraction (x : Binary64) : Nat := x.bits.toNat % Nat.pow 2 52

def isFinite (x : Binary64) : Bool := x.exponentField != Nat.pow 2 11 - 1

def isNaN (x : Binary64) : Bool := !x.isFinite && x.fraction != 0

def mantissa (x : Binary64) : Nat :=
  if x.exponentField = 0 then x.fraction else x.fraction + Nat.pow 2 52

def exponent (x : Binary64) : Int :=
  if x.exponentField = 0 then -1074 else (x.exponentField : Int) - 1075

def isZero (x : Binary64) : Bool := x.exponentField == 0 && x.fraction == 0

def ratio (x : Binary64) : Nat × Nat :=
  (x.mantissa * Nat.pow 2 x.exponent.toNat, Nat.pow 2 (-x.exponent).toNat)

def infinity : Binary64 := ⟨0x7ff0000000000000⟩

def zero : Binary64 := ⟨0⟩

def neg (x : Binary64) : Binary64 := ⟨x.bits ^^^ 0x8000000000000000⟩

def roundDiv (num den : Nat) : Nat :=
  let q := num / den
  let r := num % den
  if 2 * r > den || (2 * r == den && q % 2 == 1) then q + 1 else q

def unscale (num den : Nat) (q : Int) : Nat × Nat :=
  (num * Nat.pow 2 (-q).toNat, den * Nat.pow 2 q.toNat)

/-- The non-negative number nearest to `num / den`: the mantissa gets 53 bits where the range of
exponents allows, a tie goes to the even mantissa, and what is too large becomes infinite. -/
def ofRatio (num den : Nat) : Binary64 :=
  if num = 0 then zero
  else
    let guess : Int := max ((num.log2 : Int) - den.log2 - 53) (-1074)
    let (n, d) := unscale num den guess
    let q := if n / d < Nat.pow 2 53 then guess else guess + 1
    let (n, d) := unscale num den q
    let pattern := (q + 1074).toNat * Nat.pow 2 52 + roundDiv n d
    if pattern < 0x7ff0000000000000 then ⟨pattern.toUInt64⟩ else infinity

def ofInt (n : Int) : Binary64 :=
  let x := ofRatio n.natAbs 1
  if n < 0 then x.neg else x

/-- The number nearest to `digits * 10 ^ e`. Exponents far out of range are decided without
computing the power. -/
def ofDecimal (digits : Nat) (e : Int) : Binary64 :=
  if digits = 0 then zero
  else
    let magnitude := e + (Nat.toDigits 10 digits).length
    if magnitude > 400 then infinity
    else if magnitude < -400 then zero
    else ofRatio (digits * Nat.pow 10 e.toNat) (Nat.pow 10 (-e).toNat)

def truncate (x : Binary64) : Int :=
  let (n, d) := x.ratio
  if x.isNegative then -((n / d : Nat) : Int) else (n / d : Nat)

def isWhole (x : Binary64) : Bool :=
  let (n, d) := x.ratio
  x.isFinite && n % d == 0

end Binary64

end GoEnum
