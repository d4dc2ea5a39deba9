import GoEnum.Token.Lexeme

namespace GoEnum.Token

open Text

def intLimit : Nat := Nat.pow 2 128

structure DigitRun where
  digits : List Char
  length : Nat

def digitRun (radix : Nat) (cs : List Char) : DigitRun :=
  let run := cs.takeWhile fun c => c == '_' || (digit? radix c).isSome
  ⟨run.filter (· != '_'), run.length⟩

def radixOf? : Char → Option Nat
  | 'x' | 'X' => some 16
  | 'o' | 'O' => some 8
  | 'b' | 'B' => some 2
  | _ => none

def prefixedInt (radix : Nat) (cs : List Char) : Lexeme :=
  let run := digitRun radix cs
  let next := (cs.drop run.length).head?
  let length := run.length + 1
  if radix = 16 ∧ (next = some '.' ∨ next = some 'p' ∨ next = some 'P') then
    .fault .hexFloat length
  else if next.any Char.isAlphanum then .fault (.invalidDigit radix) (length + 1)
  else match readNat? radix run.digits with
    | none => .fault (.noDigits radix) length
    | some n => if n < intLimit then .token (.int n) length else .fault .outOfRange length

def plainInt (digits : List Char) : Except LexCause Nat :=
  match digits with
  | '0' :: d :: ds =>
    match readNat? 8 (d :: ds) with
    | some n => if n < intLimit then .ok n else .error .invalidOctal
    | none => .error .invalidOctal
  | _ =>
    match readNat? 10 digits with
    | some n => if n < intLimit then .ok n else .error .outOfRange
    | none => .error .outOfRange

def exponentPart (cs : List Char) : Except Nat (Option (Int × Nat)) :=
  match cs with
  | e :: cs =>
    if e = 'e' ∨ e = 'E' then
      let (negative, signed) := match cs with
        | '-' :: _ => (true, 1)
        | '+' :: _ => (false, 1)
        | _ => (false, 0)
      let run := digitRun 10 (cs.drop signed)
      let length := 1 + signed + run.length
      match readNat? 10 run.digits with
      | none => .error length
      | some n => .ok (some (if negative then -(n : Int) else n, length))
    else .ok none
  | [] => .ok none

def decimalValue (whole fraction : List Char) (exponent : Int) : Binary64 :=
  let digits := (whole ++ fraction).filterMap (digit? 10)
  .ofDecimal (ofDigits 10 digits) (exponent - fraction.length)

def decimalNumber (first : Char) (cs : List Char) : Lexeme :=
  let run := digitRun 10 cs
  let (whole, fraction, length) :=
    if first = '.' then (['0'], some run.digits, run.length)
    else match cs.drop run.length with
      | '.' :: rest =>
        let frac := digitRun 10 rest
        (first :: run.digits, some frac.digits, run.length + 1 + frac.length)
      | _ => (first :: run.digits, none, run.length)
  match exponentPart (cs.drop length) with
  | .error n => .fault .emptyExponent (length + n)
  | .ok exponent =>
    let length := length + (exponent.map (·.2)).getD 0
    let value := decimalValue whole (fraction.getD []) ((exponent.map (·.1)).getD 0)
    if (cs.drop length).head? = some 'i' then .token (.imaginary value) (length + 1)
    else if fraction.isSome || exponent.isSome then .token (.float value) length
    else match plainInt whole with
      | .ok n => .token (.int n) length
      | .error cause => .fault cause length

def number (first : Char) (cs : List Char) : Lexeme :=
  match first, cs with
  | '0', c :: rest =>
    match radixOf? c with
    | some radix => prefixedInt radix rest
    | none => decimalNumber first cs
  | _, _ => decimalNumber first cs

end GoEnum.Token
