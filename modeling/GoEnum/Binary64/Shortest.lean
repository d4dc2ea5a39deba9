import GoEnum.Binary64.Basic

/-!
The fewest decimal digits that read back as the same number, and the texts made of them.
-/

namespace GoEnum.Binary64

/-- The numbers between two bounds round to one pattern; `closed` tells whether the bounds do too.
All three values share the denominator. -/
structure RoundingInterval where
  low : Nat
  value : Nat
  high : Nat
  den : Nat
  closed : Bool

/-- Half the way to either neighbour. Below a power of two the lower neighbour is twice as near. -/
def roundingInterval (x : Binary64) : RoundingInterval :=
  let scale := Nat.pow 2 x.exponent.toNat
  let m := x.mantissa
  let below := if x.fraction = 0 ∧ 1 < x.exponentField then 1 else 2
  { low := (4 * m - below) * scale
    value := 4 * m * scale
    high := (4 * m + 2) * scale
    den := 4 * Nat.pow 2 (-x.exponent).toNat
    closed := m % 2 == 0 }

def RoundingInterval.contains (i : RoundingInterval) (d : Nat) (k : Int) : Bool :=
  let n := d * Nat.pow 10 k.toNat * i.den
  let t := Nat.pow 10 (-k).toNat
  if i.closed then i.low * t ≤ n && n ≤ i.high * t else i.low * t < n && n < i.high * t

def RoundingInterval.steps (i : RoundingInterval) (k : Int) : Nat × Bool :=
  let num := i.value * Nat.pow 10 (-k).toNat
  let den := i.den * Nat.pow 10 k.toNat
  (num / den, den ≤ 2 * (num % den))

def RoundingInterval.onGrid? (i : RoundingInterval) (k : Int) : Option Nat :=
  let (d, upperNearer) := i.steps k
  match i.contains d k, i.contains (d + 1) k with
  | true, true => some (if upperNearer then d + 1 else d)
  | true, false => some d
  | false, true => some (d + 1)
  | false, false => none

def RoundingInterval.below (i : RoundingInterval) (e : Int) : Bool :=
  i.value * Nat.pow 10 (-e).toNat < i.den * Nat.pow 10 e.toNat

def RoundingInterval.magnitude (i : RoundingInterval) : Nat → Int → Int
  | 0, e => e
  | n + 1, e => if i.below e then e else i.magnitude n (e + 1)

def RoundingInterval.search (i : RoundingInterval) : Nat → Int → Nat × Int
  | 0, k => ((i.steps k).1, k)
  | n + 1, k => match i.onGrid? k with
    | some d => (d, k)
    | none => i.search n (k - 1)

/-- The significant digits and the place of the point before which they start: the magnitude is
`0.digits * 10 ^ point`. -/
structure Digits where
  digits : List Char
  point : Int

def shortest (x : Binary64) : Digits :=
  let i := x.roundingInterval
  let top := (x.mantissa.log2 : Int) + x.exponent
  let e := i.magnitude 3 (top * 30103 / 100000)
  let (d, k) := i.search 17 (e - 1)
  let ds := Nat.toDigits 10 d
  let sig := (ds.reverse.dropWhile (· == '0')).reverse
  ⟨sig, k + ds.length⟩

def Digits.positional (d : Digits) : List Char × List Char :=
  if d.point ≤ 0 then (['0'], List.replicate (-d.point).toNat '0' ++ d.digits)
  else
    let n := d.point.toNat
    (d.digits.take n ++ List.replicate (n - d.digits.length) '0', d.digits.drop n)

def plainText (x : Binary64) : String :=
  if x.isNaN then "NaN"
  else
    let body :=
      if !x.isFinite then "inf".toList
      else if x.isZero then ['0']
      else match x.shortest.positional with
        | (whole, []) => whole
        | (whole, fraction) => whole ++ '.' :: fraction
    String.ofList (if x.isNegative then '-' :: body else body)

/-- The text of a literal in a message: a fractional digit always shows, and below `1e-4` or from
`1e16` on the exponent form is used. -/
def literalText (x : Binary64) : String :=
  if x.isNaN then "NaN"
  else
    let body :=
      if !x.isFinite then "inf".toList
      else if x.isZero then "0.0".toList
      else
        let d := x.shortest
        if -4 < d.point ∧ d.point ≤ 16 then
          match d.positional with
          | (whole, []) => whole ++ ['.', '0']
          | (whole, fraction) => whole ++ '.' :: fraction
        else
          let mantissa := match d.digits with
            | [] => []
            | [c] => [c]
            | c :: cs => c :: '.' :: cs
          mantissa ++ 'e' :: (toString (d.point - 1)).toList
    String.ofList (if x.isNegative then '-' :: body else body)

end GoEnum.Binary64
