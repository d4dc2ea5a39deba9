import GoEnum.Enum.Member
import GoEnum.Package.TypeTable
import GoEnum.Text.Case

namespace GoEnum.Enum

structure Policy where
  errorOnUnknown : Bool
  preferTextual : Bool
  hasPlaceholder : Bool
  deriving DecidableEq, Repr

structure Reduced where
  values : List Member
  kind : Kind
  receiver : String
  isTextual : Bool
  default? : Option Member
  errorOnUnknown : Bool
  deriving DecidableEq, Repr

def defaultReceiver (type : String) : String :=
  match type.toList with
  | [] => ""
  | c :: _ => String.ofList (Text.lowerChar c)

/-- Each literal once, in order, under the name that came first. -/
def distinctSorted (members : List Member) : List Member :=
  (Package.distinctBy Member.literal members).mergeSort Member.le

/-- The index of a literal among members in order, if it is at least `lo` and less than `hi`. -/
def searchWithin (members : List Member) (literal : String) : Nat → Nat → Nat → Option Nat
  | 0, _, _ => none
  | n + 1, lo, hi =>
    let mid := (lo + hi) / 2
    match if lo < hi then members[mid]? else none with
    | none => none
    | some m =>
      if m.literal = literal then some mid
      else if m.literal < literal then searchWithin members literal n (mid + 1) hi
      else searchWithin members literal n lo mid

def search (members : List Member) (literal : String) : Option Nat :=
  searchWithin members literal members.length 0 members.length

/-- The kind, the receiver and the text of the whole type are those of its least member. The zero
member needs no case where unknown input becomes zero, which it does unless the policy objects, a
placeholder was found, or there is no zero member. -/
def reduce (type : String) (members : List Member) (policy : Policy) :
    Except GenerateError Reduced :=
  match distinctSorted members with
  | [] => .error (.discovery type)
  | least :: rest =>
    if least.kind.isInteger && policy.preferTextual && !least.isTextual then
      .error (.capability type)
    else
      let values := least :: rest
      let index? := search values least.kind.zero
      let zero? := index?.bind (values[·]?)
      let errorOnUnknown := policy.errorOnUnknown || policy.hasPlaceholder || zero?.isNone
      .ok {
        values := match index? with
          | some index => if errorOnUnknown then values else values.eraseIdx index
          | none => values
        kind := least.kind
        receiver := if least.receiverHint = "" then defaultReceiver type else least.receiverHint
        isTextual := least.isTextual
        default? := zero?
        errorOnUnknown := errorOnUnknown }

end GoEnum.Enum
