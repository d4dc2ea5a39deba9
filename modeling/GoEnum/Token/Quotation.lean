import GoEnum.Token.Lexeme

namespace GoEnum.Token

open Text

inductive Escaped
  | byte (b : UInt8)
  | char (c : Char)
  deriving DecidableEq, Repr

def Escaped.bytes : Escaped → List UInt8
  | .byte b => [b]
  | .char c => String.utf8EncodeChar c

def Escaped.toChar : Escaped → Char
  | .byte b => Char.ofNat b.toNat
  | .char c => c

structure EscapeScan where
  length : Nat
  result : Except LexCause Escaped

def letterEscape? : Char → Option Char
  | 'a' => some '\x07'
  | 'b' => some '\x08'
  | 'f' => some '\x0c'
  | 'n' => some '\n'
  | 'r' => some '\r'
  | 't' => some '\t'
  | 'v' => some '\x0b'
  | '\\' => some '\\'
  | _ => none

def leadingDigits (radix n : Nat) (cs : List Char) : List Nat :=
  ((cs.take n).takeWhile fun c => (digit? radix c).isSome).filterMap (digit? radix)

def charOf? (n : Nat) : Option Char :=
  if h : n.isValidChar then some (Char.ofNatAux n h) else none

def hexEscape (n : Nat) (cs : List Char) (value : Nat → Except LexCause Escaped) : EscapeScan :=
  let ds := leadingDigits 16 n cs
  if ds.length < n then ⟨ds.length + 1, .error (.hexEscapeLength n)⟩
  else ⟨n + 1, value (ofDigits 16 ds)⟩

def codePoint (n : Nat) : Except LexCause Escaped :=
  match charOf? n with
  | some c => .ok (.char c)
  | none => .error .escapeCodePoint

def octalEscape (first : Nat) (cs : List Char) : EscapeScan :=
  let ds := leadingDigits 8 2 cs
  if ds.length < 2 then ⟨ds.length + 1, .error .octalEscapeLength⟩
  else
    let value := ofDigits 8 (first :: ds)
    ⟨3, if value ≤ 255 then .ok (.byte value.toUInt8) else .error .octalEscapeRange⟩

def escape (quoteMark : Char) : List Char → EscapeScan
  | [] => ⟨0, .error .openEscape⟩
  | c :: cs =>
    match letterEscape? c with
    | some l => ⟨1, .ok (.char l)⟩
    | none =>
      if c = quoteMark then ⟨1, .ok (.char c)⟩
      else match digit? 8 c with
        | some d => octalEscape d cs
        | none =>
          if c = 'x' then hexEscape 2 cs fun n => .ok (.byte n.toUInt8)
          else if c = 'u' then hexEscape 4 cs codePoint
          else if c = 'U' then hexEscape 8 cs codePoint
          else ⟨1, .error (.unknownEscape c)⟩

def closedString (length : Nat) (bytes : List UInt8) (faults : List Fault) : Lexeme :=
  if faults.isEmpty then
    match String.fromUTF8? ⟨bytes.toArray⟩ with
    | some s => .token (.string s) length
    | none => .fault .notUtf8 length
  else ⟨.gap, length, faults⟩

def stringRest (length : Nat) (bytes : List UInt8) (faults : List Fault) : List Char → Lexeme
  | [] => ⟨.gap, length, faults ++ [⟨.openString, length⟩]⟩
  | c :: cs =>
    if c = '\n' then ⟨.gap, length, faults ++ [⟨.openString, length⟩]⟩
    else if c = '"' then closedString (length + 1) bytes.reverse faults
    else if c = '\\' then
      let e := escape '"' cs
      let length := length + 1 + e.length
      match e.result with
      | .ok v => stringRest length (v.bytes.reverse ++ bytes) faults (cs.drop e.length)
      | .error cause => stringRest length bytes (faults ++ [⟨cause, length⟩]) (cs.drop e.length)
    else stringRest (length + 1) ((String.utf8EncodeChar c).reverse ++ bytes) faults cs
  termination_by cs => cs.length

def stringLiteral (cs : List Char) : Lexeme := stringRest 0 [] [] cs

def rawString (cs : List Char) : Lexeme :=
  let body := cs.takeWhile (· != '\x60')
  if body.length < cs.length then
    .token (.string (String.ofList (body.filter (· != '\r')))) (body.length + 1)
  else .fault .openRawString cs.length

def closeRune (value : Char) (length : Nat) (cs : List Char) : Lexeme :=
  match cs with
  | '\'' :: _ => .token (.rune value) (length + 1)
  | _ =>
    let line := cs.takeWhile (· != '\n')
    let body := line.takeWhile (· != '\'')
    let passed := if body.length < line.length then body.length + 1 else body.length
    ⟨.gap, length + passed, [⟨.longRune, length⟩]⟩

def runeLiteral : List Char → Lexeme
  | [] => .fault .openRune 0
  | c :: cs =>
    if c = '\n' then .fault .openRune 0
    else if c = '\'' then .fault .emptyRune 1
    else if c = '\\' then
      let e := escape '\'' cs
      match e.result with
      | .ok v => closeRune v.toChar (e.length + 1) (cs.drop e.length)
      | .error cause => .fault cause (e.length + 1)
    else closeRune c 1 cs

end GoEnum.Token
