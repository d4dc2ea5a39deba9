import GoEnum.Proofs.Constant.BigStep
import GoEnum.Proofs.Constant.Memo

namespace GoEnum.Constant

open Syntax

def Value.class : Value → BasicClass
  | .bool _ => .boolean
  | .string _ => .string
  | .int _ => .integer
  | .float _ => .float

def Untyped.class : Untyped → BasicClass
  | .bool => .boolean
  | .string => .string
  | .int | .rune => .integer
  | .float => .float

structure Value.HasType (v : Value) (b : BasicType) : Prop where
  notComplex : b.class ≠ .complex
  «class» : v.class = b.class
  inRange : ∀ n lower upper, v = .int n → b.range? = some (lower, upper) → lower ≤ n ∧ n ≤ upper

def Const.WellTyped (types : TypeScope) (c : Const) : Prop :=
  match c.type with
  | .untyped kind => c.value.class = kind.class
  | .typed name => ∃ b, types.basic? name = some b ∧ c.value.HasType b

def TypeScope.class? (types : TypeScope) : ConstType → Option BasicClass
  | .untyped kind => some kind.class
  | .typed name => (types.basic? name).map (·.class)

theorem Value.class_ne_complex (v : Value) : v.class ≠ .complex := by
  cases v <;> simp [Value.class]

theorem Const.WellTyped.class {c : Const} (h : c.WellTyped types) :
    types.class? c.type = some c.value.class := by
  unfold Const.WellTyped at h
  unfold TypeScope.class?
  split at h
  · rw [h]
  · obtain ⟨b, hb, hv⟩ := h
    rw [hb, Option.map_some, hv.class]

theorem Untyped.max_eq (a b : Untyped) : a.max b = a ∨ a.max b = b := by
  unfold Untyped.max
  split <;> simp

theorem class_of_range? {b : BasicType} (h : b.range? = some range) : b.class = .integer := by
  unfold BasicType.range? at h
  split at h
  · cases h
  · rename_i hinteger
    simpa [BasicType.isInteger] using hinteger

theorem class_of_range?_none {b : BasicType} (h : b.range? = none) : b.class ≠ .integer := by
  intro hclass
  simp only [BasicType.range?, BasicType.isInteger, hclass] at h
  split at h
  · contradiction
  · split at h <;> cases h

theorem hasType_of_class {v : Value} {b : BasicType} (h : v.class = b.class)
    (hb : b.class ≠ .integer) : v.HasType b where
  notComplex := h ▸ v.class_ne_complex
  «class» := h
  inRange := by
    rintro n - - rfl
    exact absurd h.symm hb

theorem hasType_int {b : BasicType} (hb : b.range? = some range) (hlower : range.1 ≤ n)
    (hupper : n ≤ range.2) : (Value.int n).HasType b where
  notComplex := by simp [class_of_range? hb]
  «class» := (class_of_range? hb).symm
  inRange := by
    intro k lower upper hk hrange
    cases hk
    cases hb.symm.trans hrange
    exact ⟨hlower, hupper⟩

theorem checkRange_eq_ok (h : checkRange type range v = .ok v') :
    (v.class ≠ .integer ∧ v.class ≠ .float) ∨ ∃ n, v' = .int n ∧ range.1 ≤ n ∧ n ≤ range.2 := by
  cases v with
  | bool b => simp [Value.class]
  | string s => simp [Value.class]
  | int n =>
    simp only [checkRange] at h
    split at h
    · cases h
    · cases h
      exact .inr ⟨n, rfl, by grind⟩
  | float x =>
    simp only [checkRange] at h
    split at h
    · split at h
      · cases h
      · cases h
        exact .inr ⟨_, rfl, by grind⟩
    · cases h

/-- A type takes the values of its class, and an integer type also floats that are integers. -/
def Takes (types : TypeScope) (t : ConstType) (v : Value) : Prop :=
  types.class? t = some v.class ∨ ∃ name, t = .typed name ∧ types.class? t = some .integer ∧
    v.class = .float

theorem representable_wellTyped (ht : Takes types t v)
    (h : representable types ⟨v, t⟩ = .ok c) : c.WellTyped types ∧ c.type = t := by
  cases t with
  | untyped kind =>
    cases h
    obtain hclass | ⟨name, hname, -⟩ := ht
    · exact ⟨(Option.some.inj hclass).symm, rfl⟩
    · cases hname
  | typed name =>
    cases hb : types.basic? name with
    | none => simp [Takes, TypeScope.class?, hb] at ht
    | some b =>
      have hclass : v.class = b.class ∨ b.class = .integer ∧ v.class = .float := by
        simpa [Takes, TypeScope.class?, hb, eq_comm] using ht
      simp only [representable, hb, Option.bind_some] at h
      split at h
      · have hb' := class_of_range?_none ‹_›
        cases h
        exact ⟨⟨b, hb, hasType_of_class (hclass.resolve_right fun h => hb' h.1) hb'⟩, rfl⟩
      · rename_i range hrange
        have hb' := class_of_range? hrange
        obtain ⟨v', hv', h⟩ := bind_eq_ok.1 h
        cases h
        obtain ⟨hint, hfloat⟩ | ⟨n, rfl, hlower, hupper⟩ := checkRange_eq_ok hv'
        · obtain hv | ⟨-, hv⟩ := hclass
          · exact absurd (hv.trans hb') hint
          · exact absurd hv hfloat
        · exact ⟨⟨b, hb, hasType_int hrange hlower hupper⟩, rfl⟩

theorem convert?_class {v v' : Value} (h : v.convert? explicit b = some v') : v'.class = b := by
  cases b <;> cases v <;> simp_all [Value.convert?] <;> grind [Value.class]

theorem convert_wellTyped (h : convert types explicit target c = .ok c') :
    c'.WellTyped types ∧ c'.type = .typed target := by
  unfold convert at h
  split at h
  · cases h
  · rename_i v hv
    obtain ⟨b, hb, hv⟩ := Option.bind_eq_some_iff.1 hv
    refine representable_wellTyped (.inl ?_) h
    rw [TypeScope.class?, hb, Option.map_some, convert?_class hv]

theorem declare_wellTyped (hc : c.WellTyped types) (h : declare types type c = .ok c') :
    c'.WellTyped types ∧ ∀ target, type = some (.named target) → c'.type = .typed target := by
  unfold declare assign at h
  split at h
  · cases h
    exact ⟨hc, by simp⟩
  · split at h
    · split at h
      · obtain ⟨hc', ht⟩ := convert_wellTyped h
        exact ⟨hc', by grind⟩
      · cases h
    · obtain ⟨hc', ht⟩ := convert_wellTyped h
      exact ⟨hc', by grind⟩
  · cases h

theorem countConst_wellTyped (h : countConst n = .ok c) : c.WellTyped types := by
  unfold countConst at h
  split at h
  · cases h
    rfl
  · cases h

theorem literalConst_wellTyped (h : literalConst v = .ok c) : c.WellTyped types := by
  cases v with
  | int n => exact countConst_wellTyped h
  | imaginary _ => cases h
  | _ =>
    cases h
    rfl

theorem predeclared_wellTyped (h : predeclared types iota name = .ok c) : c.WellTyped types := by
  unfold predeclared at h
  split at h
  · exact countConst_wellTyped h
  · cases h
    rfl
  · cases h
    rfl
  · cases h

theorem apply_wellTyped {f : Callee} (h : f.apply types c = .ok c') : c'.WellTyped types := by
  cases f with
  | length =>
    simp only [Callee.apply, lengthOf] at h
    split at h
    · exact countConst_wellTyped h
    · cases h
  | conversion type => exact (convert_wellTyped h).1
  | other what => cases h

theorem unaryValue_class (h : unaryValue types op t v = .ok v') : v'.class = v.class := by
  unfold unaryValue exact at h
  grind [Value.class]

theorem unary_wellTyped (hc : c.WellTyped types) (h : unary types op c = .ok c') :
    c'.WellTyped types := by
  obtain ⟨v, hv, h⟩ := bind_eq_ok.1 h
  refine (representable_wellTyped (.inl ?_) h).1
  rw [hc.class, unaryValue_class hv]

theorem shiftOperand_class (hc : c.WellTyped types) (h : shiftOperand c = .ok n) :
    types.class? (shiftType c.type) = some .integer := by
  have hclass := hc.class
  unfold shiftOperand at h
  unfold shiftType
  split at h
  · rename_i hv
    rw [hv] at hclass
    split
    · rfl
    · exact hclass
  · rename_i x hv
    split at h
    · rename_i hcond
      obtain ⟨kind, hkind⟩ : ∃ kind, c.type = .untyped kind := by
        cases ht : c.type with
        | untyped kind => exact ⟨kind, rfl⟩
        | typed name => simp [ht, ConstType.name?] at hcond
      have hfloat : kind = .float := by
        rw [hkind, hv] at hclass
        cases kind <;> simp [TypeScope.class?, Untyped.class, Value.class] at hclass ⊢
      rw [hkind, hfloat]
      rfl
    · cases h
  · cases h

theorem shift_wellTyped (hl : left.WellTyped types) (h : shift types op left right = .ok c) :
    c.WellTyped types := by
  obtain ⟨count, -, h⟩ := bind_eq_ok.1 h
  obtain ⟨n, hn, h⟩ := bind_eq_ok.1 h
  obtain ⟨value, -, h⟩ := bind_eq_ok.1 h
  exact (representable_wellTyped (.inl (shiftOperand_class hl hn)) h).1

theorem unify_eq_ok (h : unify a b = .ok t) : t = a ∨ t = b := by
  unfold unify at h
  split at h
  · grind
  · grind
  · grind
  · rename_i x y
    cases h
    obtain hx | hy := Untyped.max_eq x y
    · exact .inl (by rw [hx])
    · exact .inr (by rw [hy])

theorem unify_untyped (h : unify a b = .ok (.untyped kind)) :
    ∃ x y, a = .untyped x ∧ b = .untyped y ∧ kind = x.max y := by
  cases a <;> cases b <;> simp only [unify] at h
  case untyped.untyped x y =>
    cases h
    exact ⟨x, y, rfl, rfl, rfl⟩
  case typed.typed => split at h <;> cases h
  all_goals cases h

theorem Untyped.class_max_float (x y : Untyped) (h : x.class = .float ∨ y.class = .float) :
    (x.max y).class = .float := by
  cases x <;> cases y <;> simp_all [Untyped.class, Untyped.max, Untyped.rank]

theorem class_of_toFloat? {v : Value} (h : v.toFloat? = some x) :
    v.class = .integer ∨ v.class = .float := by
  cases v with
  | int n => exact .inl rfl
  | float x => exact .inr rfl
  | _ => cases h

theorem floatArithmetic_class (h : floatArithmetic op a b = .ok v) :
    v.class = .float ∧ (a.class = .integer ∨ a.class = .float) ∧
      (b.class = .integer ∨ b.class = .float) := by
  unfold floatArithmetic at h
  split at h
  · rename_i hx hy
    split at h
    · obtain ⟨z, -, rfl⟩ := map_eq_ok.1 h
      exact ⟨rfl, class_of_toFloat? hx, class_of_toFloat? hy⟩
    · cases h
  · cases h

theorem arithmetic_class (h : arithmetic op type a b = .ok v) :
    (v.class = a.class ∧ v.class = b.class) ∨
      v.class = .float ∧ (type = .untyped .float ∨ a.class = .float ∨ b.class = .float) ∧
        (a.class = .integer ∨ a.class = .float) ∧ (b.class = .integer ∨ b.class = .float) := by
  unfold arithmetic at h
  split at h
  · left
    split at h <;> cases h <;> exact ⟨rfl, rfl⟩
  · left
    split at h <;> cases h
    exact ⟨rfl, rfl⟩
  · split at h
    · exact .inr ⟨(floatArithmetic_class h).1, .inl ‹_›, .inl rfl, .inl rfl⟩
    · obtain ⟨n, -, rfl⟩ := map_eq_ok.1 h
      exact .inl ⟨rfl, rfl⟩
  · obtain ⟨hv, ha, hb⟩ := floatArithmetic_class h
    refine .inr ⟨hv, .inr ?_, ha, hb⟩
    cases a <;> cases b <;> simp_all [Value.class]

theorem unify_class {types : TypeScope} (hl : types.class? a = some ca)
    (hr : types.class? b = some cb) (h : unify a b = .ok t) :
    types.class? t = some ca ∨ types.class? t = some cb := by
  obtain rfl | rfl := unify_eq_ok h
  · exact .inl hl
  · exact .inr hr

theorem arithmetic_takes {types : TypeScope} (hl : types.class? s = some a.class)
    (hr : types.class? t = some b.class) (htype : unify s t = .ok type)
    (h : arithmetic op type a b = .ok v) : Takes types type v := by
  have hclass := unify_class hl hr htype
  obtain ⟨ha, hb⟩ | ⟨hv, hfloat, ha, hb⟩ := arithmetic_class h
  · left
    rw [← ha, ← hb] at hclass
    exact hclass.elim id id
  · cases type with
    | untyped kind =>
      left
      rw [hv]
      obtain hkind | hab := hfloat
      · rw [hkind]
        rfl
      · obtain ⟨x, y, rfl, rfl, rfl⟩ := unify_untyped htype
        rw [TypeScope.class?, x.class_max_float y]
        rwa [Option.some.inj hl, Option.some.inj hr]
    | typed name =>
      obtain hi | hf : types.class? (.typed name) = some .integer ∨
          types.class? (.typed name) = some .float := by grind
      · exact .inr ⟨name, rfl, hi, hv⟩
      · exact .inl (hf.trans (by rw [hv]))

theorem binary_wellTyped (hl : left.WellTyped types) (hr : right.WellTyped types)
    (h : binary types op left right = .ok c) : c.WellTyped types := by
  unfold binary at h
  split at h
  · exact shift_wellTyped hl h
  · obtain ⟨type, htype, h⟩ := bind_eq_ok.1 h
    split at h
    · unfold compared at h
      split at h
      · cases h
        rfl
      · cases h
    · obtain ⟨v, hv, h⟩ := bind_eq_ok.1 h
      exact (representable_wellTyped (arithmetic_takes hl.class hr.class htype hv) h).1

theorem Evaluates.wellTyped (h : Evaluates s iota e c) : c.WellTyped s.types := by
  induction h with
  | literal h => exact literalConst_wellTyped h
  | constant _ _ hdecl ih => exact (declare_wellTyped ih hdecl).1
  | predeclared _ h => exact predeclared_wellTyped h
  | paren _ ih => exact ih
  | call _ h _ => exact apply_wellTyped h
  | unary _ h ih => exact unary_wellTyped ih h
  | binary _ _ h ihl ihr => exact binary_wellTyped ihl ihr h

/-- A constant that a name can have: well typed, and of the declared type if the name has one. -/
structure Scope.Admits (s : Scope) (name : String) (c : Const) : Prop where
  wellTyped : c.WellTyped s.types
  declared : ∀ d target, s.find? name = some d → d.type = some (.named target) →
    c.type = .typed target

theorem EvaluatesName.admits (h : EvaluatesName s name c) : s.Admits name c := by
  obtain ⟨d, c₀, hd, hc₀, hdecl⟩ := h
  obtain ⟨hc, htype⟩ := declare_wellTyped hc₀.wellTyped hdecl
  refine ⟨hc, fun d' target hd' ht => htype target ?_⟩
  cases hd.symm.trans hd'
  exact ht

theorem Meets.admits (h : Meets (.ok c) (unfolding s name)) : s.Admits name c := by
  obtain ⟨n, hn⟩ | ⟨⟨other, hcycle⟩, -⟩ := h
  · exact (evaluatesName_of_unfoldWithin hn).admits
  · cases hcycle

/-- Every constant that is returned or remembered, whatever names are asked for in whatever order,
is well typed, and of the declared type if its name has one. -/
theorem evaluation_well_typed (s : Scope) (names : List String) :
    (∀ name c, (name, .ok c) ∈ names.zip (s.evalAll names) → s.Admits name c) ∧
    ∀ name c, (s.memoAfter names).results.lookup name = some (.ok c) → s.Admits name c := by
  obtain ⟨hrs, hm, -⟩ := mapM_eval_spec (sound_empty s) rfl names
  constructor
  · intro name c h
    exact ((List.forall₂_iff_zip.1 hrs).2 h).admits
  · intro name c h
    exact (hm.known name _ h).admits

end GoEnum.Constant
