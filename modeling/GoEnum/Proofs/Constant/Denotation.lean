import GoEnum.Proofs.Constant.Typing
import GoEnum.Proofs.Text.Utf8
import Mathlib.Data.Int.Bitwise

/-!
What constant expressions stand for, with integers of any size and texts as their bytes.
-/

namespace GoEnum.Constant

open Syntax

inductive Datum
  | bool (b : Bool)
  | bytes (bs : List UInt8)
  | int (n : Int)

def Datum.class : Datum → BasicClass
  | .bool _ => .boolean
  | .bytes _ => .string
  | .int _ => .integer

inductive Represents : Value → Datum → Prop
  | bool : Represents (.bool b) (.bool b)
  | string : Represents (.string s) (.bytes (Text.utf8 s))
  | int : fits n → Represents (.int n) (.int n)

def character (n : Int) : Char :=
  if 0 ≤ n ∧ n.toNat.isValidChar then Char.ofNat n.toNat else '\ufffd'

def Datum.convert? : BasicClass → Datum → Option Datum
  | .boolean, .bool b => some (.bool b)
  | .string, .bytes bs => some (.bytes bs)
  | .string, .int n => some (.bytes (String.utf8EncodeChar (character n)))
  | .integer, .int n => some (.int n)
  | _, _ => none

/-- All bits flipped: as many as an unsigned type has, or infinitely many. -/
def flipped (types : TypeScope) (t : ConstType) (n : Int) : Int :=
  match t.name?.bind types.basic? with
  | some b => if b.isUnsigned then 2 ^ b.bits - 1 - n else -n - 1
  | none => -n - 1

def Datum.unary? (types : TypeScope) (op : UnaryOp) (t : ConstType) (v : Datum) : Option Datum :=
  match op, v with
  | .plus, .int n => some (.int n)
  | .neg, .int n => some (.int (-n))
  | .complement, .int n => some (.int (flipped types t n))
  | .not, .bool b => some (.bool !b)
  | _, _ => none

def onIntegers? (op : BinaryOp) (a b : Int) : Option Int :=
  match op with
  | .add => some (a + b)
  | .sub => some (a - b)
  | .mul => some (a * b)
  | .div => if b = 0 then none else some (a.tdiv b)
  | .rem => if b = 0 then none else some (a.tmod b)
  | .and => some (Int.land a b)
  | .or => some (Int.lor a b)
  | .xor => some (Int.xor a b)
  | .andNot => some (Int.ldiff a b)
  | .shl => if 0 ≤ b then some (a * 2 ^ b.toNat) else none
  | .shr => if 0 ≤ b then some (a.fdiv (2 ^ b.toNat)) else none
  | _ => none

def holds? {α : Type} [LT α] [DecidableEq α] [DecidableLT α] (op : BinaryOp) (a b : α) :
    Option Bool :=
  match op with
  | .eq => some (a = b)
  | .notEq => some (a ≠ b)
  | .lt => some (a < b)
  | .ltEq => some (¬ b < a)
  | .gt => some (b < a)
  | .gtEq => some (¬ a < b)
  | _ => none

def Datum.binary? (op : BinaryOp) : Datum → Datum → Option Datum
  | .bool a, .bool b =>
    match op with
    | .logicalAnd => some (.bool (a && b))
    | .logicalOr => some (.bool (a || b))
    | .eq => some (.bool (a == b))
    | .notEq => some (.bool (a != b))
    | _ => none
  | .bytes a, .bytes b =>
    if op = .add then some (.bytes (a ++ b)) else (holds? op a b).map .bool
  | .int a, .int b =>
    if op.isComparison then (holds? op a b).map .bool else (onIntegers? op a b).map .int
  | _, _ => none

def joined? : ConstType → ConstType → Option ConstType
  | .typed x, .typed y => if x = y then some (.typed x) else none
  | .typed x, .untyped _ => some (.typed x)
  | .untyped _, .typed y => some (.typed y)
  | .untyped x, .untyped y =>
    if x = y then some (.untyped x)
    else if x.class = .integer ∧ y.class = .integer then some (.untyped .rune)
    else none

def resultType? (op : BinaryOp) (t u : ConstType) : Option ConstType :=
  if op.isShift then some t else if op.isComparison then some (.untyped .bool) else joined? t u

def literalDatum? : Literal → Option (Datum × Untyped)
  | .int n => some (.int n, .int)
  | .rune c => some (.int c.toNat, .rune)
  | .string s => some (.bytes (Text.utf8 s), .string)
  | .float _ | .imaginary _ => none

def predeclaredDatum? (iota : Nat) (name : String) : Option (Datum × Untyped) :=
  if name = "iota" then some (.int iota, .int)
  else if name = "true" then some (.bool true, .bool)
  else if name = "false" then some (.bool false, .bool)
  else none

structure Assignable (types : TypeScope) (v : Datum) (t : ConstType) (target : String) : Prop where
  type : t = .typed target ∨ t.name? = none
  «class» : ∃ b, types.basic? target = some b ∧ b.class = v.class

/-- An expression stands for a datum of a type, where `iota` has the given value. -/
inductive Denotes (s : Scope) : Nat → Expr → Datum → ConstType → Prop
  | literal : literalDatum? l = some (v, k) → Denotes s iota (.literal span l) v (.untyped k)
  | predeclared : s.defines name = false → predeclaredDatum? iota name = some (v, k) →
      Denotes s iota (.ident span name) v (.untyped k)
  | constant : s.find? name = some d → d.type = none → Denotes s d.iota d.expr v t →
      Denotes s iota (.ident span name) v t
  | declared : s.find? name = some d → d.type = some (.named target) →
      Denotes s d.iota d.expr v t → Assignable s.types v t target →
      Denotes s iota (.ident span name) v (.typed target)
  | paren : Denotes s iota e v t → Denotes s iota (.paren span e) v t
  | length : s.callee callee = .length → Denotes s iota arg (.bytes bs) t →
      Denotes s iota (.call span callee [arg]) (.int bs.length) (.untyped .int)
  | conversion : s.callee callee = .conversion target → s.types.basic? target = some b →
      Denotes s iota arg v t → v.convert? b.class = some w →
      Denotes s iota (.call span callee [arg]) w (.typed target)
  | unary : Denotes s iota e v t → v.unary? s.types op t = some w →
      Denotes s iota (.unary span op e) w t
  | binary : Denotes s iota l v t → Denotes s iota r w u → v.binary? op w = some x →
      resultType? op t u = some y → Denotes s iota (.binary span op l r) x y

theorem not_defines_of_find? {s : Scope} (hd : s.find? name = some d) : s.defines name ≠ false := by
  simp [Scope.defines, hd]

theorem Denotes.unique (h : Denotes s iota e v t) (h' : Denotes s iota e w u) :
    v = w ∧ t = u := by
  induction h generalizing w u with
  | literal hl =>
    cases h' with
    | literal hl' => grind
  | predeclared hd hn =>
    cases h' with
    | predeclared _ hn' => grind
    | constant hd' => exact absurd hd (not_defines_of_find? hd')
    | declared hd' => exact absurd hd (not_defines_of_find? hd')
  | constant hd ht _ ih =>
    cases h' with
    | predeclared hd' => exact absurd hd' (not_defines_of_find? hd)
    | constant hd' _ hv' =>
      cases hd.symm.trans hd'
      exact ih hv'
    | declared hd' ht' => grind
  | declared hd ht _ _ ih =>
    cases h' with
    | predeclared hd' => exact absurd hd' (not_defines_of_find? hd)
    | constant hd' ht' => grind
    | declared hd' ht' hv' =>
      cases hd.symm.trans hd'
      exact ⟨(ih hv').1, by grind⟩
  | paren _ ih =>
    cases h' with
    | paren hv' => exact ih hv'
  | length hf _ ih =>
    cases h' with
    | length _ hv' => grind
    | conversion hf' => cases hf.symm.trans hf'
  | conversion hf hb _ hw ih =>
    cases h' with
    | length hf' => cases hf.symm.trans hf'
    | conversion hf' hb' hv' hw' =>
      cases hf.symm.trans hf'
      cases hb.symm.trans hb'
      obtain ⟨rfl, -⟩ := ih hv'
      exact ⟨Option.some.inj (hw.symm.trans hw'), rfl⟩
  | unary _ hw ih =>
    cases h' with
    | unary hv' hw' =>
      obtain ⟨rfl, rfl⟩ := ih hv'
      exact ⟨Option.some.inj (hw.symm.trans hw'), rfl⟩
  | binary _ _ hx hy ihl ihr =>
    cases h' with
    | binary hl' hr' hx' hy' =>
      obtain ⟨rfl, rfl⟩ := ihl hl'
      obtain ⟨rfl, rfl⟩ := ihr hr'
      exact ⟨Option.some.inj (hx.symm.trans hx'), Option.some.inj (hy.symm.trans hy')⟩

/-- The parts that the evaluation of an expression leads to, each with the value of `iota` there:
operands and arguments, and the definitions of the constants that are named. -/
inductive Part (s : Scope) : Nat → Expr → Nat → Expr → Prop
  | self : Part s iota e iota e
  | constant : s.find? name = some d → Part s d.iota d.expr i p →
      Part s iota (.ident span name) i p
  | paren : Part s iota e i p → Part s iota (.paren span e) i p
  | argument : (∀ what, s.callee callee ≠ .other what) → Part s iota arg i p →
      Part s iota (.call span callee [arg]) i p
  | operand : Part s iota e i p → Part s iota (.unary span op e) i p
  | left : Part s iota l i p → Part s iota (.binary span op l r) i p
  | right : Part s iota r i p → Part s iota (.binary span op l r) i p

def Everywhere (s : Scope) (P : Nat → Expr → Prop) (iota : Nat) (e : Expr) : Prop :=
  ∀ i p, Part s iota e i p → P i p

namespace Everywhere

variable {s : Scope} {P : Nat → Expr → Prop}

theorem self (h : Everywhere s P iota e) : P iota e := h _ _ .self

theorem constant (h : Everywhere s P iota (.ident span name)) (hd : s.find? name = some d) :
    Everywhere s P d.iota d.expr :=
  fun i p hp => h i p (.constant hd hp)

theorem paren (h : Everywhere s P iota (.paren span e)) : Everywhere s P iota e :=
  fun i p hp => h i p (.paren hp)

theorem argument (h : Everywhere s P iota (.call span callee [arg]))
    (hf : ∀ what, s.callee callee ≠ .other what) : Everywhere s P iota arg :=
  fun i p hp => h i p (.argument hf hp)

theorem operand (h : Everywhere s P iota (.unary span op e)) : Everywhere s P iota e :=
  fun i p hp => h i p (.operand hp)

theorem left (h : Everywhere s P iota (.binary span op l r)) : Everywhere s P iota l :=
  fun i p hp => h i p (.left hp)

theorem right (h : Everywhere s P iota (.binary span op l r)) : Everywhere s P iota r :=
  fun i p hp => h i p (.right hp)

end Everywhere

def TypeScope.isFloat (types : TypeScope) (name : String) : Prop :=
  ∃ b, types.basic? name = some b ∧ b.class = .float

def MakesFloat (s : Scope) : Expr → Prop
  | .literal _ (.float _) => True
  | .literal _ (.imaginary _) => True
  | .ident _ name =>
    ∃ d target, s.find? name = some d ∧ d.type = some (.named target) ∧ s.types.isFloat target
  | .call _ callee _ => ∃ target, s.callee callee = .conversion target ∧ s.types.isFloat target
  | _ => False

def FloatFree (s : Scope) : Nat → Expr → Prop := Everywhere s fun _ p => ¬ MakesFloat s p

end GoEnum.Constant
