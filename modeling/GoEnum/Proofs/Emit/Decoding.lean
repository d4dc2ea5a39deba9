import GoEnum.Proofs.Emit.Reading
import GoEnum.Proofs.Enum.Literal
import GoEnum.Proofs.Enum.Reduction

/-!
What a switch makes of input: the member that the input stands for, and the zero member or an error
for all other input.
-/

namespace GoEnum.Emit

open Constant Enum Token

/-- What names stand for where the text of a method stands: constants, the text method of the
type, and conversions to a type. -/
structure Scope where
  value? : String → Option Value
  text : Value → String
  convert : String → Value → Value

inductive Outcome
  | value (v : Value)
  | failure
  deriving DecidableEq, Repr

namespace Scope

variable (scope : Scope)

def accepts (x : Value) : Label → Bool
  | .literal text => x.literal == text
  | .textOf constant => (scope.value? constant).any fun v => x == .string (scope.text v)

def assigned? (input : String) (x : Value) : Assigned → Option Value
  | .converted type name => if name = input then some (scope.convert type x) else none
  | .constant name => scope.value? name

def unknown? : Fallback → Option Outcome
  | .assign name => (scope.value? name).map .value
  | .fail => some .failure

/-- The outcome of a switch on the input, by the first case that accepts it. There is none if a
name is unknown. -/
def decode? (s : Switch) (x : Value) : Option Outcome :=
  match s.cases.find? fun k => k.labels.any (scope.accepts x) with
  | some k => (scope.assigned? s.input x k.assigned).map .value
  | none => scope.unknown? s.fallback

def Declared (members : List Member) (v : Value) : Prop :=
  ∃ m ∈ members, scope.value? m.name = some v

/-- The members are constants of the type and all of one kind, and their literals write their
values. Conversion to the type keeps the values that it has. -/
structure Declares (type : String) (kind : Kind) (members : List Member) : Prop where
  kind_eq : ∀ m ∈ members, m.kind = kind
  value : ∀ m ∈ members, ∃ v, scope.value? m.name = some v ∧ kind.Holds v ∧ m.literal = v.literal
  convert : ∀ v, scope.Declared members v → scope.convert type v = v

end Scope

structure WellNamed (c : TypeContext) (members : List Member) : Prop where
  type : isIdentifier c.type
  receiver : isIdentifier c.receiver
  names : ∀ m ∈ members, isIdentifier m.name
  integers : ∀ m ∈ members, ∀ n : Int, m.literal = toString n → n.natAbs < intLimit

theorem readable_label {m : Member} {v : Value} (hkind : m.kind.Holds v)
    (hliteral : m.literal = v.literal)
    (hbound : ∀ n, v = .int n → n.natAbs < intLimit) : (Label.literal m.label).Readable := by
  rw [m.label_eq hkind hliteral]
  have hint : (∃ n, v = .int n) → (Label.literal m.literal).Readable := by
    rintro ⟨n, rfl⟩
    exact .inl ⟨n, hliteral, hbound n rfl⟩
  cases hm : m.kind with
  | string =>
    rw [hm] at hkind
    obtain ⟨s, rfl⟩ := hkind
    exact .inr ⟨s, hliteral⟩
  | signed =>
    rw [hm] at hkind
    exact hint hkind
  | unsigned =>
    rw [hm] at hkind
    exact hint hkind

theorem readable_switch {members : List Member} (hr : Reduces members policy r)
    (htype : isIdentifier type) (hnames : ∀ m ∈ members, isIdentifier m.name)
    (hlabels : ∀ m ∈ members, (Label.literal m.label).Readable) (textual : Bool) :
    (Switch.of ⟨type, r, textual⟩).Readable where
  input := isIdentifier_input _
  cases := by
    intro k hk
    simp only [Switch.of] at hk
    split at hk
    · obtain ⟨m, hm, rfl⟩ := List.mem_map.1 hk
      have hname := hnames m (hr.mem_of_mem_values hm)
      exact ⟨by simpa [Label.Readable] using hname, by simp, hname⟩
    · split at hk
      · cases hk
      · rename_i hvalues
        obtain rfl := List.mem_singleton.1 hk
        refine ⟨?_, by simpa using hvalues, htype, isIdentifier_input _⟩
        intro l hl
        obtain ⟨m, hm, rfl⟩ := List.mem_map.1 hl
        exact hlabels m (hr.mem_of_mem_values hm)
  fallback := by
    intro name hname
    cases hpolicy : r.errorOnUnknown with
    | true => simp [Switch.of, TypeContext.defaultTarget?, hpolicy] at hname
    | false =>
      obtain ⟨z, hz, hdefault, -⟩ := hr.exists_default hpolicy
      simp [Switch.of, TypeContext.defaultTarget?, hpolicy, hdefault] at hname
      exact hname ▸ hnames z hz

theorem decode?_literals (scope : Scope) (hc : c.multiCase = false) (x : Value) :
    scope.decode? (Switch.of c) x =
      if c.set.values.any fun m => x.literal == m.label then
        some (.value (scope.convert c.type x))
      else scope.unknown? (Switch.of c).fallback := by
  by_cases hempty : c.set.values = []
  · simp [Scope.decode?, Switch.of, hc, hempty]
  · have hcases : (Switch.of c).cases = [⟨c.set.values.map fun m => .literal m.label,
        .converted c.type (Switch.of c).input⟩] := by
      simp [Switch.of, hc, hempty]
    have haccepts : (c.set.values.map fun m => Label.literal m.label).any (scope.accepts x) =
        c.set.values.any fun m => x.literal == m.label := List.any_map
    rw [Scope.decode?, hcases, List.find?_singleton, haccepts]
    cases c.set.values.any fun m => x.literal == m.label
    · rfl
    · simp [Scope.assigned?]

theorem decode?_texts (scope : Scope) (hc : c.multiCase = true) (x : Value) :
    scope.decode? (Switch.of c) x =
      match c.set.values.find? fun m => scope.accepts x (.textOf m.name) with
      | some m => (scope.value? m.name).map .value
      | none => scope.unknown? (Switch.of c).fallback := by
  have hcases : (Switch.of c).cases =
      c.set.values.map fun m => ⟨[.textOf m.name], .constant m.name⟩ := by
    simp [Switch.of, hc]
  have haccepts : (fun m : Member => [Label.textOf m.name].any (scope.accepts x)) =
      fun m => scope.accepts x (.textOf m.name) := by
    funext m
    simp
  rw [Scope.decode?, hcases, List.find?_map]
  simp only [Function.comp_def, haccepts]
  cases c.set.values.find? fun m => scope.accepts x (.textOf m.name) <;> rfl

def unknownOutcome (r : Reduced) : Outcome :=
  if r.errorOnUnknown then .failure else .value r.kind.zeroValue

variable {scope : Scope} {members : List Member} {policy : Policy} {r : Reduced} {kind : Kind}
  {type : String}

section

variable (hd : scope.Declares type kind members) (hr : Reduces members policy r)
include hd

theorem literal_of_value (hm : m ∈ members) (hv : scope.value? m.name = some v) :
    kind.Holds v ∧ m.literal = v.literal := by
  obtain ⟨w, hw, hkind, hliteral⟩ := hd.value m hm
  rw [hv] at hw
  cases hw
  exact ⟨hkind, hliteral⟩

theorem label_of_member (hm : m ∈ members) : m.label = m.literal := by
  obtain ⟨v, -, hkind, hliteral⟩ := hd.value m hm
  exact m.label_eq (hd.kind_eq m hm ▸ hkind) hliteral

include hr

theorem kind_of_reduces : r.kind = kind := by
  obtain ⟨m, hm, hkind, -⟩ := hr.least
  exact hkind ▸ hd.kind_eq m hm

theorem value_of_zero (hm : m ∈ members) (hzero : m.literal = r.kind.zero) :
    scope.value? m.name = some r.kind.zeroValue := by
  obtain ⟨v, hv, hkind, hliteral⟩ := hd.value m hm
  rw [← kind_of_reduces hd hr] at hkind
  rw [hv, r.kind.eq_of_literal hkind r.kind.holds_zeroValue]
  rw [r.kind.literal_zeroValue, ← hzero, hliteral]

theorem declared_zero (hpolicy : r.errorOnUnknown = false) :
    scope.Declared members r.kind.zeroValue := by
  obtain ⟨z, hz, -, hzero⟩ := hr.exists_default hpolicy
  exact ⟨z, hz, value_of_zero hd hr hz hzero⟩

theorem unknown?_fallback (textual : Bool) :
    scope.unknown? (Switch.of ⟨type, r, textual⟩).fallback = some (unknownOutcome r) := by
  cases hpolicy : r.errorOnUnknown with
  | true => simp [Switch.of, TypeContext.defaultTarget?, unknownOutcome, hpolicy, Scope.unknown?]
  | false =>
    obtain ⟨z, hz, hdefault, hzero⟩ := hr.exists_default hpolicy
    simp [Switch.of, TypeContext.defaultTarget?, unknownOutcome, hpolicy, hdefault, Scope.unknown?,
      value_of_zero hd hr hz hzero]

theorem case_or_unknown (hv : scope.Declared members v) :
    (∃ k ∈ r.values, scope.value? k.name = some v) ∨ unknownOutcome r = .value v := by
  obtain ⟨m, hm, hvalue⟩ := hv
  obtain ⟨hkind, hliteral⟩ := literal_of_value hd hm hvalue
  by_cases hzero : r.errorOnUnknown = false ∧ m.literal = r.kind.zero
  · right
    rw [value_of_zero hd hr hm hzero.2] at hvalue
    cases hvalue
    simp [unknownOutcome, hzero.1]
  · left
    obtain ⟨k, hk, hsame⟩ := hr.exists_mem_values hm fun hpolicy h => hzero ⟨hpolicy, h⟩
    obtain ⟨w, hw, hwkind, hwliteral⟩ := hd.value k (hr.mem_of_mem_values hk)
    have hvw : w = v := kind.eq_of_literal hwkind hkind (by rw [← hwliteral, hsame, hliteral])
    exact ⟨k, hk, hvw ▸ hw⟩

section

variable {textual : Bool} (hc : (TypeContext.mk type r textual).multiCase = false)
include hc

theorem decode?_declared (hv : scope.Declared members v) :
    scope.decode? (Switch.of ⟨type, r, textual⟩) v = some (.value v) := by
  rw [decode?_literals scope hc]
  split
  · rw [hd.convert v hv]
  · rename_i hnone
    rcases case_or_unknown hd hr hv with ⟨k, hk, hvalue⟩ | hunknown
    · have hm := hr.mem_of_mem_values hk
      have hliteral := (literal_of_value hd hm hvalue).2
      refine absurd (List.any_eq_true.2 ⟨k, hk, ?_⟩) hnone
      rw [label_of_member hd hm, hliteral, beq_self_eq_true]
    · rw [unknown?_fallback hd hr, hunknown]

theorem decode?_undeclared (hx : kind.Holds x) (hnot : ¬ scope.Declared members x) :
    scope.decode? (Switch.of ⟨type, r, textual⟩) x = some (unknownOutcome r) := by
  rw [decode?_literals scope hc]
  split
  · rename_i hany
    obtain ⟨k, hk, hsame⟩ := List.any_eq_true.1 hany
    have hm := hr.mem_of_mem_values hk
    obtain ⟨v, hv, hkind, hliteral⟩ := hd.value k hm
    rw [label_of_member hd hm, hliteral, beq_iff_eq] at hsame
    have hxv : x = v := kind.eq_of_literal hx hkind hsame
    exact absurd ⟨k, hm, hxv ▸ hv⟩ hnot
  · exact unknown?_fallback hd hr textual

end

section

variable {textual : Bool} (hc : (TypeContext.mk type r textual).multiCase = true)
include hc

theorem decode?_text_declared
    (hinjective : Set.InjOn scope.text {v | scope.Declared members v})
    (hv : scope.Declared members v) :
    scope.decode? (Switch.of ⟨type, r, textual⟩) (.string (scope.text v)) = some (.value v) := by
  rw [decode?_texts scope hc]
  split
  · rename_i k hfind
    have hm := hr.mem_of_mem_values (List.mem_of_find?_eq_some hfind)
    obtain ⟨w, hw, -⟩ := hd.value k hm
    have htext : scope.text v = scope.text w := by
      simpa [Scope.accepts, hw] using List.find?_some hfind
    rw [hw, hinjective hv ⟨k, hm, hw⟩ htext]
    rfl
  · rename_i hnone
    rcases case_or_unknown hd hr hv with ⟨k, hk, hvalue⟩ | hunknown
    · have hrejects := List.find?_eq_none.1 hnone k hk
      simp [Scope.accepts, hvalue] at hrejects
    · rw [unknown?_fallback hd hr, hunknown]

theorem decode?_text_undeclared (hnot : ∀ v, scope.Declared members v → scope.text v ≠ s) :
    scope.decode? (Switch.of ⟨type, r, textual⟩) (.string s) = some (unknownOutcome r) := by
  rw [decode?_texts scope hc]
  split
  · rename_i k hfind
    have hm := hr.mem_of_mem_values (List.mem_of_find?_eq_some hfind)
    obtain ⟨w, hw, -⟩ := hd.value k hm
    have htext : s = scope.text w := by
      simpa [Scope.accepts, hw] using List.find?_some hfind
    exact absurd htext.symm (hnot w ⟨k, hm, hw⟩)
  · exact unknown?_fallback hd hr textual

end

theorem readable_of {textual : Bool} (hnamed : WellNamed ⟨type, r, textual⟩ members) :
    (Switch.of ⟨type, r, textual⟩).Readable := by
  refine readable_switch hr hnamed.type hnamed.names (fun m hm => ?_) textual
  obtain ⟨v, -, hkind, hliteral⟩ := hd.value m hm
  refine readable_label (hd.kind_eq m hm ▸ hkind) hliteral ?_
  rintro n rfl
  exact hnamed.integers m hm n hliteral

end

/-- The emitted switch is read back from its text as it was made. On input of the kind it yields
each declared value for itself, on texts each declared value for its text, and all other input
becomes the declared zero or an error, as the reduced set says. -/
theorem decode_emitted (hd : scope.Declares type kind members)
    (hreduce : reduce type members policy = .ok r) (textual : Bool) :
    let c : TypeContext := ⟨type, r, textual⟩
    let s := Switch.of c
    let unknown := if r.errorOnUnknown then .failure else .value kind.zeroValue
    (WellNamed c members → ∀ operation, (∀ d ∈ operation.toList, isPlain d) → ∀ level,
      readText c.receiver ((Emitter.mk "" level).codes (s.code c operation)).text = some s) ∧
    (r.errorOnUnknown = false → scope.Declared members kind.zeroValue) ∧
    (textual = false →
      (∀ x, scope.Declared members x → scope.decode? s x = some (.value x)) ∧
      ∀ x, kind.Holds x → ¬ scope.Declared members x → scope.decode? s x = some unknown) ∧
    (textual = true → kind.isInteger →
      Set.InjOn scope.text {v | scope.Declared members v} →
      (∀ v, scope.Declared members v →
        scope.decode? s (.string (scope.text v)) = some (.value v)) ∧
      ∀ t, (∀ v, scope.Declared members v → scope.text v ≠ t) →
        scope.decode? s (.string t) = some unknown) := by
  intro c s unknown
  have hr := reduces_of_reduce hreduce
  have hkind := kind_of_reduces hd hr
  have hunknown : unknownOutcome r = unknown := by rw [unknownOutcome, hkind]
  refine ⟨?_, ?_, ?_, ?_⟩
  · intro hnamed operation hoperation level
    exact readText_code (readable_of hd hr hnamed) hnamed.receiver hnamed.type hoperation level
  · intro hpolicy
    exact hkind ▸ declared_zero hd hr hpolicy
  · intro htextual
    have hc : c.multiCase = false := by simp [c, TypeContext.multiCase, htextual]
    refine ⟨fun x hx => decode?_declared hd hr hc hx, fun x hx hnot => ?_⟩
    rw [← hunknown]
    exact decode?_undeclared hd hr hc hx hnot
  · intro htextual hinteger hinjective
    have hc : c.multiCase = true := by simp [c, TypeContext.multiCase, htextual, hkind, hinteger]
    refine ⟨fun v hv => decode?_text_declared hd hr hc hinjective hv, fun t hnot => ?_⟩
    rw [← hunknown]
    exact decode?_text_undeclared hd hr hc hnot

def levels : List Member :=
  [⟨"Low", .signed, "0", true, ""⟩, ⟨"High", .signed, "1", true, ""⟩]

def levelScope : Scope where
  value? name :=
    if name = "Low" then some (.int 0) else if name = "High" then some (.int 1) else none
  text v := if v = .int 0 then "low" else "high"
  convert _ v := v

theorem levelScope_declares : levelScope.Declares "Level" .signed levels where
  kind_eq := by decide
  value := by
    intro m hm
    simp only [levels, List.mem_cons, List.not_mem_nil, or_false] at hm
    rcases hm with rfl | rfl
    · exact ⟨.int 0, by decide, ⟨0, rfl⟩, by decide⟩
    · exact ⟨.int 1, by decide, ⟨1, rfl⟩, by decide⟩
  convert _ _ := rfl

def levelSet : Reduced where
  values := [⟨"High", .signed, "1", true, ""⟩]
  kind := .signed
  receiver := "l"
  isTextual := true
  default? := some ⟨"Low", .signed, "0", true, ""⟩
  errorOnUnknown := false

theorem reduce_levels : reduce "Level" levels ⟨false, true, false⟩ = .ok levelSet := by
  have hsorted : distinctSorted levels = levels :=
    (List.mergeSort_of_pairwise (by decide)).trans (by decide)
  rw [reduce, hsorted]
  decide

theorem declared_levels : levelScope.Declared levels v ↔ v = .int 0 ∨ v = .int 1 := by
  simp [Scope.Declared, levels, levelScope, eq_comm]

theorem wellNamed_levels : WellNamed ⟨"Level", levelSet, true⟩ levels where
  type := by decide
  receiver := by decide
  names := by decide
  integers := by
    intro m hm n hn
    obtain ⟨v, hv, -, hliteral⟩ := levelScope_declares.value m hm
    have hdeclared : levelScope.Declared levels v := ⟨m, hm, hv⟩
    rw [hliteral] at hn
    rcases declared_levels.1 hdeclared with rfl | rfl
    · cases Int.repr_injective (a := 0) hn
      decide
    · cases Int.repr_injective (a := 1) hn
      decide

theorem decode_emitted_levels :
    readText "l" ((Emitter.mk "" 1).codes
      ((Switch.of ⟨"Level", levelSet, true⟩).code ⟨"Level", levelSet, true⟩ "scan")).text =
        some (Switch.of ⟨"Level", levelSet, true⟩) ∧
      levelScope.decode? (Switch.of ⟨"Level", levelSet, true⟩) (.string "high") =
        some (.value (.int 1)) ∧
      levelScope.decode? (Switch.of ⟨"Level", levelSet, true⟩) (.string "High") =
        some (.value (.int 0)) ∧
      levelScope.decode? (Switch.of ⟨"Level", levelSet, false⟩) (.int 0) =
        some (.value (.int 0)) ∧
      levelScope.decode? (Switch.of ⟨"Level", levelSet, false⟩) (.int 7) =
        some (.value (.int 0)) := by
  obtain ⟨-, -, hliterals, -⟩ := decode_emitted levelScope_declares reduce_levels false
  obtain ⟨hread, -, -, htexts⟩ := decode_emitted levelScope_declares reduce_levels true
  obtain ⟨hdeclared, hundeclared⟩ := hliterals rfl
  have hinjective : Set.InjOn levelScope.text {v | levelScope.Declared levels v} := by
    intro v hv w hw h
    rcases declared_levels.1 hv with rfl | rfl <;> rcases declared_levels.1 hw with rfl | rfl
    · rfl
    · exact absurd h (by decide)
    · exact absurd h (by decide)
    · rfl
  obtain ⟨htext, hother⟩ := htexts rfl rfl hinjective
  refine ⟨hread wellNamed_levels "scan" (List.all_eq_true.1 (by decide)) 1,
    htext (.int 1) (declared_levels.2 (.inr rfl)), hother "High" ?_,
    hdeclared (.int 0) (declared_levels.2 (.inl rfl)), hundeclared (.int 7) ⟨7, rfl⟩ ?_⟩
  · intro v hv
    rcases declared_levels.1 hv with rfl | rfl <;> decide
  · rw [declared_levels]
    decide

end GoEnum.Emit
