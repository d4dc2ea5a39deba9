import GoEnum.Constant.Value

namespace GoEnum.Constant

/-- The character that an integer names. Integers that name none give the replacement character. -/
def charOfInt (n : Int) : Char :=
  if h : n.toNat.isValidChar then
    if 0 ≤ n then Char.ofNatAux n.toNat h else '\ufffd'
  else '\ufffd'

/-- The value in a class of types. Only an explicit conversion makes a text of an integer. -/
def Value.convert? (explicit : Bool) (c : BasicClass) (v : Value) : Option Value :=
  match c, v with
  | .string, .string s => some (.string s)
  | .string, .int n => if explicit then some (.string (charOfInt n).toString) else none
  | .integer, .int n => some (.int n)
  | .integer, .float x => if x.isWhole then some (.int (clamp x.truncate)) else none
  | .float, .int n => some (.float (.ofInt n))
  | .float, .float x => some (.float x)
  | .boolean, .bool b => some (.bool b)
  | _, _ => none

def checkRange (type : String) (range : Int × Int) (v : Value) : Except EvalError Value :=
  let check (n : Int) : Except EvalError Value :=
    if n < range.1 || range.2 < n then .error (.overflow (toString n) type) else .ok (.int n)
  match v with
  | .int n => check n
  | .float x =>
    if x.isWhole then check (clamp x.truncate) else .error (.conversion x.plainText type)
  | _ => .ok v

def representable (types : TypeScope) (c : Const) : Except EvalError Const :=
  match c.type with
  | .untyped _ => .ok c
  | .typed name =>
    match (types.basic? name).bind BasicType.range? with
    | none => .ok c
    | some range => do return { c with value := ← checkRange name range c.value }

def convert (types : TypeScope) (explicit : Bool) (target : String) (c : Const) :
    Except EvalError Const :=
  match (types.basic? target).bind fun b => c.value.convert? explicit b.class with
  | none => .error (.conversion c.value.literal target)
  | some v => representable types ⟨v, .typed target⟩

def assign (types : TypeScope) (target : String) (c : Const) : Except EvalError Const :=
  match c.type with
  | .typed actual =>
    if actual = target then convert types false target c else .error (.mismatched actual target)
  | .untyped _ => convert types false target c

end GoEnum.Constant
