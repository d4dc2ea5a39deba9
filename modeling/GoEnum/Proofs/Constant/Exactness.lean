import GoEnum.Proofs.Constant.Bits
import GoEnum.Proofs.Constant.Denotation

namespace GoEnum.Constant

open Syntax

/-- Where no floating-point numbers are involved, a check of the range changes nothing. -/
theorem representable_eq_ok (ha : Represents a v) (h : representable types ⟨a, t⟩ = .ok c) :
    c = ⟨a, t⟩ := by
  unfold representable at h
  split at h
  · exact (Except.ok.inj h).symm
  · split at h
    · exact (Except.ok.inj h).symm
    · obtain ⟨b, hb, h⟩ := bind_eq_ok.1 h
      cases h
      cases ha <;> simp only [checkRange] at hb
      case int =>
        split at hb <;> cases hb
        rfl
      all_goals
        cases hb
        rfl

def InRange (types : TypeScope) (t : ConstType) (n : Int) : Prop :=
  ∀ name b lower upper, t = .typed name → types.basic? name = some b →
    b.range? = some (lower, upper) → lower ≤ n ∧ n ≤ upper

theorem representable_eq_error (ha : Represents a v) (h : representable types ⟨a, t⟩ = .error e) :
    ∃ n, v = .int n ∧ ¬ InRange types t n := by
  unfold representable at h
  split at h
  · cases h
  · split at h
    · cases h
    · rename_i name ht _ range hrange
      obtain ⟨b, hb, hrange⟩ := Option.bind_eq_some_iff.1 hrange
      obtain h | ⟨w, hw, h⟩ := bind_eq_error.1 h
      · cases ha with
        | int hn =>
          refine ⟨_, rfl, fun hin => ?_⟩
          have := hin name b range.1 range.2 ht hb hrange
          simp only [checkRange] at h
          grind
        | _ => cases h
      · cases h

def Moderate (types : TypeScope) (v : Datum) (t : ConstType) : Prop :=
  ∀ n, v = .int n → -2 ^ 126 < n ∧ n < 2 ^ 126 ∧ InRange types t n

theorem not_moderate_of_not_inRange (h : ¬ InRange types t n) : ¬ Moderate types (.int n) t :=
  fun hm => h (hm n rfl).2.2

theorem not_moderate_of_not_fits (h : ¬ fits n) : ¬ Moderate types (.int n) t := by
  intro hm
  have := hm n rfl
  rw [fits_iff] at h
  omega

theorem fits_complement (bits : Option Nat) (n : Int) : fits (complement bits n) := by
  cases bits <;> exact fits_toInt _

theorem bits_le (b : BasicType) (h : b.isUnsigned) : b.bits ≤ 127 := by
  cases b <;> simp [BasicType.bits, BasicType.isUnsigned] at *

theorem range?_unsigned {b : BasicType} (hb : b.class = .integer) (h : b.isUnsigned) :
    b.range? = some (0, 2 ^ b.bits - 1) := by
  simp [BasicType.range?, BasicType.isInteger, hb, h]

theorem complement_eq_flipped (hc : Const.WellTyped types ⟨.int n, t⟩) (hn : fits n) :
    complement (unsignedBits? types t) n = flipped types t n := by
  cases t with
  | untyped kind => exact complement_signed hn
  | typed name =>
    obtain ⟨b, hb, hv⟩ := hc
    have hclass : b.class = .integer := hv.class.symm
    simp only [unsignedBits?, flipped, ConstType.name?, Option.bind_some, hb]
    split
    · rename_i hu
      simp only [Bool.and_eq_true] at hu
      obtain ⟨hlower, hupper⟩ := hv.inRange n _ _ rfl (range?_unsigned hclass hu.2)
      rw [if_pos hu.2, complement_unsigned (bits_le b hu.2) hlower (by omega)]
    · rename_i hu
      have hu : b.isUnsigned = false := by simpa [BasicType.isInteger, hclass] using hu
      rw [hu]
      exact complement_signed hn

theorem exact_eq_ok (h : exact text type n = .ok m) : m = n ∧ fits m := by
  unfold exact at h
  split at h
  · cases h
    exact ⟨rfl, ‹_›⟩
  · cases h

theorem exact_eq_error (h : exact text type n = .error e) : ¬ fits n := by
  unfold exact at h
  split at h
  · cases h
  · assumption

theorem unaryValue_exact (ha : Represents a v) (hw : Const.WellTyped types ⟨a, t⟩)
    (h : unaryValue types op t a = .ok b) : ∃ w, Represents b w ∧ v.unary? types op t = some w := by
  cases ha with
  | bool =>
    cases op with
    | not =>
      cases h
      exact ⟨_, .bool, rfl⟩
    | _ => cases h
  | string => cases op <;> cases h
  | int hn =>
    cases op with
    | plus =>
      cases h
      exact ⟨_, .int hn, rfl⟩
    | neg =>
      obtain ⟨m, hm, rfl⟩ := map_eq_ok.1 h
      obtain ⟨rfl, hm⟩ := exact_eq_ok hm
      exact ⟨_, .int hm, rfl⟩
    | complement =>
      cases h
      refine ⟨_, .int (fits_complement _ _), ?_⟩
      rw [complement_eq_flipped hw hn]
      rfl
    | not => cases h

theorem unaryValue_overflow (ha : Represents a v)
    (h : unaryValue types op t a = .error (.overflow value type)) :
    ∃ w, v.unary? types op t = some w ∧ ¬ Moderate types w t := by
  cases ha with
  | bool => cases op <;> cases h
  | string => cases op <;> cases h
  | int hn =>
    cases op with
    | neg => exact ⟨_, rfl, not_moderate_of_not_fits (exact_eq_error (map_eq_error.1 h))⟩
    | _ => cases h

/-- A constant that evaluation gives without floating-point numbers, and what it stands for. -/
structure Exact (types : TypeScope) (c : Const) (v : Datum) : Prop where
  wellTyped : c.WellTyped types
  represents : Represents c.value v

theorem unary_exact (hc : Exact types c v) (h : unary types op c = .ok c') :
    ∃ w, Exact types c' w ∧ v.unary? types op c.type = some w ∧ c'.type = c.type := by
  obtain ⟨b, hb, hr⟩ := bind_eq_ok.1 h
  obtain ⟨w, hw, hop⟩ := unaryValue_exact hc.represents hc.wellTyped hb
  have hc' := unary_wellTyped hc.wellTyped h
  obtain rfl := representable_eq_ok hw hr
  exact ⟨w, ⟨hc', hw⟩, hop, rfl⟩

theorem unary_overflow (hc : Exact types c v)
    (h : unary types op c = .error (.overflow value type)) :
    ∃ w, v.unary? types op c.type = some w ∧ ¬ Moderate types w c.type := by
  obtain h | ⟨b, hb, h⟩ := bind_eq_error.1 h
  · exact unaryValue_overflow hc.represents h
  · obtain ⟨w, hw, hop⟩ := unaryValue_exact hc.represents hc.wellTyped hb
    obtain ⟨n, rfl, hn⟩ := representable_eq_error hw h
    exact ⟨_, hop, not_moderate_of_not_inRange hn⟩

theorem fits_tmod (a : Int) (hb : fits b) (h : b ≠ 0) : fits (a.tmod b) := by
  have hlt := Nat.mod_lt a.natAbs (Int.natAbs_pos.2 h)
  rw [← Int.natAbs_tmod] at hlt
  rw [fits_iff] at *
  omega

theorem fits_tdiv (ha : -2 ^ 126 < a ∧ a < 2 ^ 126) (b : Int) : fits (a.tdiv b) := by
  have hle := Int.natAbs_tdiv_le_natAbs a b
  rw [fits_iff]
  omega

theorem intOperation_exact (ha : fits a) (hb : fits b) (h : intOperation op t a b = .ok n) :
    fits n ∧ op.isComparison = false ∧ onIntegers? op a b = some n := by
  cases op with
  | add | sub | mul =>
    obtain ⟨rfl, hn⟩ := exact_eq_ok h
    exact ⟨hn, rfl, rfl⟩
  | div =>
    simp only [intOperation] at h
    split at h
    · cases h
    · obtain ⟨rfl, hn⟩ := exact_eq_ok h
      exact ⟨hn, rfl, if_neg ‹_›⟩
  | rem =>
    simp only [intOperation] at h
    split at h
    · cases h
    · obtain ⟨m, -, h⟩ := bind_eq_ok.1 h
      cases h
      exact ⟨fits_tmod a hb ‹_›, rfl, if_neg ‹_›⟩
  | and =>
    cases h
    rw [bitwise_and ha hb]
    exact ⟨fits_of_testBit (· && ·) ha hb (Int.testBit_land _ _), rfl, rfl⟩
  | or =>
    cases h
    rw [bitwise_or ha hb]
    exact ⟨fits_of_testBit (· || ·) ha hb (Int.testBit_lor _ _), rfl, rfl⟩
  | xor =>
    cases h
    rw [bitwise_xor ha hb]
    exact ⟨fits_of_testBit (· ^^ ·) ha hb (Int.testBit_lxor _ _), rfl, rfl⟩
  | andNot =>
    cases h
    rw [bitwise_andNot ha hb]
    exact ⟨fits_of_testBit (fun x y => x && !y) ha hb (Int.testBit_ldiff _ _), rfl, rfl⟩
  | _ => cases h

theorem intOperation_overflow (ha : -2 ^ 126 < a ∧ a < 2 ^ 126)
    (h : intOperation op t a b = .error (.overflow value type)) :
    ∃ n, op.isComparison = false ∧ onIntegers? op a b = some n ∧ ¬ fits n := by
  cases op with
  | add | sub | mul => exact ⟨_, rfl, rfl, exact_eq_error h⟩
  | div =>
    simp only [intOperation] at h
    split at h
    · cases h
    · exact ⟨_, rfl, if_neg ‹_›, exact_eq_error h⟩
  | rem =>
    simp only [intOperation] at h
    split at h
    · cases h
    · obtain h | ⟨m, -, h⟩ := bind_eq_error.1 h
      · exact absurd (fits_tdiv ha b) (exact_eq_error h)
      · cases h
  | _ => cases h

theorem holdsFor?_compare [LinearOrder α] (op : BinaryOp) (x y : α) :
    holdsFor? op (compareOfLessAndEq x y) = holds? op x y := by
  unfold compareOfLessAndEq
  obtain h | rfl | h := lt_trichotomy x y
  · cases op <;> simp [holdsFor?, holds?, h, h.le, h.ne]
  · cases op <;> simp [holdsFor?, holds?]
  · cases op <;> simp [holdsFor?, holds?, h, h.ne', h.not_gt]

theorem holds?_utf8 (op : BinaryOp) (x y : String) :
    holds? op (Text.utf8 x) (Text.utf8 y) = holds? op x y := by
  have heq : Text.utf8 x = Text.utf8 y ↔ x = y := ⟨Text.utf8_injective, congrArg Text.utf8⟩
  cases op <;> simp [holds?, Text.utf8_lt_iff, heq]

theorem comparison?_exact (ha : Represents a v) (hb : Represents b w) (hop : op.isComparison)
    (h : comparison? op a b = some r) : v.binary? op w = some (.bool r) := by
  cases ha with
  | bool =>
    cases hb with
    | bool => cases op <;> cases h <;> rfl
    | _ => cases h
  | string =>
    cases hb with
    | @string t =>
      have hadd : op ≠ .add := by
        rintro rfl
        cases hop
      rw [Datum.binary?, if_neg hadd, holds?_utf8, Option.map_eq_some_iff]
      exact ⟨r, by rw [← h]; exact (holdsFor?_compare op _ t).symm, rfl⟩
    | _ => cases h
  | int =>
    cases hb with
    | @int y =>
      rw [Datum.binary?, if_pos hop, Option.map_eq_some_iff]
      exact ⟨r, by rw [← h]; exact (holdsFor?_compare op _ y).symm, rfl⟩
    | _ => cases h

theorem compared_exact (ha : Represents a v) (hb : Represents b w) (hop : op.isComparison)
    (h : compared op a b = .ok c) :
    ∃ x, Represents c.value x ∧ v.binary? op w = some x ∧ c.type = .untyped .bool := by
  unfold compared at h
  split at h
  · cases h
    exact ⟨_, .bool, comparison?_exact ha hb hop ‹_›, rfl⟩
  · cases h

theorem shiftCount_exact (hb : Represents b w) (h : shiftCount b = .ok count) :
    w = .int count ∧ 0 ≤ count := by
  cases hb with
  | int =>
    simp only [shiftCount] at h
    split at h
    · cases h
      exact ⟨rfl, ‹_›⟩
    · cases h
  | _ => cases h

theorem shiftOperand_exact (ha : Represents a v) (h : shiftOperand ⟨a, t⟩ = .ok n) :
    a = .int n ∧ v = .int n ∧ fits n := by
  cases ha with
  | int hn =>
    cases h
    exact ⟨rfl, rfl, hn⟩
  | _ => cases h

theorem shiftValue_exact (hop : op.isShift) (hn : fits n) (hc : 0 ≤ count)
    (h : shiftValue op n count = .ok m) : fits m ∧ onIntegers? op n count = some m := by
  unfold shiftValue at h
  split at h
  · rename_i hshl
    obtain ⟨rfl, hm⟩ := shiftLeft_eq_ok h
    rw [hshl]
    exact ⟨hm, if_pos hc⟩
  · have hshr : op = .shr := by cases op <;> simp_all [BinaryOp.isShift]
    cases h
    rw [hshr, shiftRight_eq hn]
    exact ⟨fits_fdiv hn _, if_pos hc⟩

theorem shiftType_eq (hc : Const.WellTyped types ⟨.int n, t⟩) : shiftType t = t := by
  unfold shiftType
  split
  · rename_i ht
    rw [ht] at hc
    cases hc
  · rfl

theorem binary?_shift (hop : op.isShift) (a b : Int) :
    Datum.binary? op (.int a) (.int b) = (onIntegers? op a b).map .int := by
  cases op <;> cases hop <;> rfl

theorem shift_exact (hl : Exact types ⟨a, t⟩ v) (hr : Represents b w) (hop : op.isShift)
    (h : shift types op ⟨a, t⟩ ⟨b, u⟩ = .ok c) :
    ∃ x, Represents c.value x ∧ v.binary? op w = some x ∧ c.type = t := by
  obtain ⟨count, hcount, h⟩ := bind_eq_ok.1 h
  obtain ⟨n, hn, h⟩ := bind_eq_ok.1 h
  obtain ⟨m, hm, h⟩ := bind_eq_ok.1 h
  obtain ⟨rfl, hcount⟩ := shiftCount_exact hr hcount
  obtain ⟨rfl, rfl, hn⟩ := shiftOperand_exact hl.represents hn
  obtain ⟨hm, hx⟩ := shiftValue_exact hop hn hcount hm
  obtain rfl := representable_eq_ok (.int hm) h
  refine ⟨_, .int hm, ?_, shiftType_eq hl.wellTyped⟩
  rw [binary?_shift hop, hx]
  rfl

theorem shiftValue_overflow (hc : 0 ≤ count)
    (h : shiftValue op n count = .error e) :
    ∃ m, onIntegers? op n count = some m ∧ ¬ (-2 ^ 126 < m ∧ m < 2 ^ 126) := by
  unfold shiftValue at h
  split at h
  · rename_i hshl
    rw [hshl]
    refine ⟨_, if_pos hc, fun hm => ?_⟩
    rw [shiftLeft_of_lt (by omega)] at h
    cases h
  · cases h

theorem shift_overflow (hl : Exact types ⟨a, t⟩ v) (hr : Represents b w) (hop : op.isShift)
    (h : shift types op ⟨a, t⟩ ⟨b, u⟩ = .error (.overflow value type)) :
    ∃ x, v.binary? op w = some x ∧ ¬ Moderate types x t := by
  obtain h | ⟨count, hcount, h⟩ := bind_eq_error.1 h
  · unfold shiftCount at h
    grind
  obtain h | ⟨n, hn, h⟩ := bind_eq_error.1 h
  · unfold shiftOperand at h
    grind
  obtain ⟨rfl, hcount⟩ := shiftCount_exact hr hcount
  obtain ⟨rfl, rfl, hn⟩ := shiftOperand_exact hl.represents hn
  rw [binary?_shift hop]
  obtain h | ⟨m, hm, h⟩ := bind_eq_error.1 h
  · obtain ⟨m, hm, hlarge⟩ := shiftValue_overflow hcount h
    exact ⟨.int m, by rw [hm]; rfl, fun hmod => hlarge ⟨(hmod m rfl).1, (hmod m rfl).2.1⟩⟩
  · obtain ⟨hm, hx⟩ := shiftValue_exact hop hn hcount hm
    rw [shiftType_eq hl.wellTyped] at h
    obtain ⟨_, hn, hrange⟩ := representable_eq_error (.int hm) h
    cases hn
    exact ⟨.int m, by rw [hx]; rfl, not_moderate_of_not_inRange hrange⟩

theorem joined?_of_unify {types : TypeScope} (hs : types.class? s = some c)
    (ht : types.class? t = some c) (h : unify s t = .ok r) : joined? s t = some r := by
  cases s <;> cases t <;> simp only [unify] at h
  case untyped.untyped x y =>
    cases h
    have hclass : x.class = y.class := Option.some.inj (hs.trans ht.symm)
    cases x <;> cases y <;> cases hclass <;> rfl
  case typed.typed x y =>
    split at h
    · cases h
      simp [joined?, *]
    · cases h
  all_goals
    cases h
    rfl

theorem arithmetic_exact (hl : Exact types ⟨a, s⟩ v) (hr : Exact types ⟨b, t⟩ w)
    (htype : unify s t = .ok type) (h : arithmetic op type a b = .ok c) :
    ∃ x, Represents c x ∧ v.binary? op w = some x ∧ joined? s t = some type := by
  obtain ⟨hwl, ha⟩ := hl
  obtain ⟨hwr, hb⟩ := hr
  have hs := hwl.class
  have ht := hwr.class
  have hfloat : ∀ {c}, floatArithmetic op a b = .ok c →
      (a.class = .integer ∨ a.class = .float) ∧ (b.class = .integer ∨ b.class = .float) :=
    fun h => (floatArithmetic_class h).2
  cases ha with
  | bool =>
    cases hb with
    | bool =>
      have hjoin := joined?_of_unify hs ht htype
      simp only [arithmetic] at h
      split at h
      · cases h
        exact ⟨_, .bool, rfl, hjoin⟩
      · cases h
        exact ⟨_, .bool, rfl, hjoin⟩
      · cases h
    | _ => cases (hfloat h).1 <;> contradiction
  | string =>
    cases hb with
    | string =>
      simp only [arithmetic] at h
      split at h
      · rename_i hop
        cases h
        refine ⟨_, .string, ?_, joined?_of_unify hs ht htype⟩
        rw [Datum.binary?, if_pos hop, Text.utf8_append]
      · cases h
    | _ => cases (hfloat h).1 <;> contradiction
  | int hm =>
    cases hb with
    | int hn =>
      have hnot : type ≠ .untyped .float := by
        rintro rfl
        obtain hclass | hclass := unify_class hs ht htype <;> cases hclass
      simp only [arithmetic, if_neg hnot] at h
      obtain ⟨k, hk, rfl⟩ := map_eq_ok.1 h
      obtain ⟨hk, hop, hx⟩ := intOperation_exact hm hn hk
      refine ⟨_, .int hk, ?_, joined?_of_unify hs ht htype⟩
      rw [Datum.binary?, hop, hx]
      rfl
    | _ => cases (hfloat h).2 <;> contradiction

theorem floatArithmetic_overflow (h : floatArithmetic op a b = .error e) :
    e ≠ .overflow value type := by
  unfold floatArithmetic floatOperation? invalidOperands at h
  grind

theorem arithmetic_overflow (hl : Exact types ⟨a, s⟩ v) (hr : Exact types ⟨b, t⟩ w)
    (hv : Moderate types v s) (htype : unify s t = .ok type)
    (h : arithmetic op type a b = .error (.overflow value text)) :
    ∃ x, v.binary? op w = some x ∧ joined? s t = some type ∧ ¬ Moderate types x type := by
  obtain ⟨hwl, ha⟩ := hl
  obtain ⟨hwr, hb⟩ := hr
  have hs := hwl.class
  have ht := hwr.class
  have hfloat : floatArithmetic op a b ≠ .error (.overflow value text) :=
    fun h => floatArithmetic_overflow h rfl
  cases ha with
  | bool =>
    cases hb with
    | bool =>
      simp only [arithmetic, invalidOperands] at h
      split at h <;> cases h
    | _ => exact absurd h hfloat
  | string =>
    cases hb with
    | string =>
      simp only [arithmetic, invalidOperands] at h
      split at h <;> cases h
    | _ => exact absurd h hfloat
  | int hm =>
    cases hb with
    | int hn =>
      have hnot : type ≠ .untyped .float := by
        rintro rfl
        obtain hclass | hclass := unify_class hs ht htype <;> cases hclass
      simp only [arithmetic, if_neg hnot] at h
      obtain ⟨hlower, hupper, -⟩ := hv _ rfl
      obtain ⟨k, hop, hx, hk⟩ := intOperation_overflow ⟨hlower, hupper⟩ (map_eq_error.1 h)
      refine ⟨.int k, ?_, joined?_of_unify hs ht htype, not_moderate_of_not_fits hk⟩
      rw [Datum.binary?, hop, hx]
      rfl
    | _ => exact absurd h hfloat

theorem binary_exact (hl : Exact types l v) (hr : Exact types r w)
    (h : binary types op l r = .ok c) :
    ∃ x, Exact types c x ∧ v.binary? op w = some x ∧
      resultType? op l.type r.type = some c.type := by
  have hc := binary_wellTyped hl.wellTyped hr.wellTyped h
  suffices ∃ x, Represents c.value x ∧ v.binary? op w = some x ∧
      resultType? op l.type r.type = some c.type from
    let ⟨x, hx, hop, htype⟩ := this
    ⟨x, ⟨hc, hx⟩, hop, htype⟩
  unfold resultType?
  unfold binary at h
  split at h
  · obtain ⟨x, hx, hop, htype⟩ := shift_exact hl hr.represents ‹_› h
    exact ⟨x, hx, hop, by simp [*]⟩
  · rename_i hshift
    rw [if_neg hshift]
    obtain ⟨type, htype, h⟩ := bind_eq_ok.1 h
    split at h
    · rename_i hcomp
      obtain ⟨x, hx, hop, ht⟩ := compared_exact hl.represents hr.represents hcomp h
      exact ⟨x, hx, hop, by rw [if_pos hcomp, ht]⟩
    · rename_i hcomp
      obtain ⟨a, ha, h⟩ := bind_eq_ok.1 h
      obtain ⟨x, hx, hop, hjoin⟩ := arithmetic_exact hl hr htype ha
      obtain rfl := representable_eq_ok hx h
      exact ⟨x, hx, hop, by rw [if_neg hcomp, hjoin]⟩

theorem binary_overflow (hl : Exact types l v) (hr : Exact types r w)
    (hv : Moderate types v l.type) (h : binary types op l r = .error (.overflow value text)) :
    ∃ x type, v.binary? op w = some x ∧ resultType? op l.type r.type = some type ∧
      ¬ Moderate types x type := by
  unfold resultType?
  unfold binary at h
  split at h
  · obtain ⟨x, hop, hx⟩ := shift_overflow hl hr.represents ‹_› h
    exact ⟨x, l.type, hop, by simp [*], hx⟩
  · rename_i hshift
    rw [if_neg hshift]
    obtain h | ⟨type, htype, h⟩ := bind_eq_error.1 h
    · unfold unify at h
      grind
    split at h
    · unfold compared invalidOperands at h
      grind
    · rename_i hcomp
      rw [if_neg hcomp]
      obtain h | ⟨a, ha, h⟩ := bind_eq_error.1 h
      · obtain ⟨x, hop, hjoin, hx⟩ := arithmetic_overflow hl hr hv htype h
        exact ⟨x, type, hop, hjoin, hx⟩
      · obtain ⟨x, hx, hop, hjoin⟩ := arithmetic_exact hl hr htype ha
        obtain ⟨n, rfl, hn⟩ := representable_eq_error hx h
        exact ⟨_, type, hop, hjoin, not_moderate_of_not_inRange hn⟩

theorem countConst_exact (h : countConst k = .ok c) :
    Represents c.value (.int k) ∧ c.type = .untyped .int := by
  unfold countConst at h
  split at h
  · cases h
    exact ⟨.int ‹_›, rfl⟩
  · cases h

theorem countConst_overflow (h : countConst k = .error e) (t : ConstType) :
    ¬ Moderate types (.int k) t := by
  unfold countConst at h
  split at h
  · cases h
  · exact not_moderate_of_not_fits ‹_›

theorem literalConst_exact (hfree : ¬ MakesFloat s (.literal span l))
    (h : literalConst l = .ok c) :
    ∃ v k, Represents c.value v ∧ literalDatum? l = some (v, k) ∧ c.type = .untyped k := by
  cases l with
  | int n =>
    obtain ⟨hn, ht⟩ := countConst_exact h
    exact ⟨_, _, hn, rfl, ht⟩
  | rune r =>
    cases h
    have hlt : r.toNat < 2 ^ 32 := r.val.toNat_lt
    exact ⟨_, _, .int (by rw [fits_iff]; omega), rfl, rfl⟩
  | string t =>
    cases h
    exact ⟨_, _, .string, rfl, rfl⟩
  | float x => exact absurd trivial hfree
  | imaginary x => cases h

theorem literalConst_overflow (types : TypeScope)
    (h : literalConst l = .error (.overflow value text)) :
    ∃ v k, literalDatum? l = some (v, k) ∧ ¬ Moderate types v (.untyped k) := by
  cases l with
  | int n => exact ⟨_, _, rfl, countConst_overflow h _⟩
  | _ => cases h

theorem predeclared_exact (h : predeclared types iota name = .ok c) :
    ∃ v k, Represents c.value v ∧ predeclaredDatum? iota name = some (v, k) ∧
      c.type = .untyped k := by
  unfold predeclared at h
  split at h
  · obtain ⟨hn, ht⟩ := countConst_exact h
    exact ⟨_, _, hn, rfl, ht⟩
  · cases h
    exact ⟨_, _, .bool, rfl, rfl⟩
  · cases h
    exact ⟨_, _, .bool, rfl, rfl⟩
  · cases h

theorem predeclared_overflow (h : predeclared types iota name = .error (.overflow value text)) :
    ∃ v k, predeclaredDatum? iota name = some (v, k) ∧ ¬ Moderate types v (.untyped k) := by
  unfold predeclared at h
  split at h
  · exact ⟨_, _, rfl, countConst_overflow h _⟩
  · cases h
  · cases h
  · split at h <;> cases h

theorem charOfInt_eq (n : Int) : charOfInt n = character n := by
  unfold charOfInt character
  by_cases hvalid : n.toNat.isValidChar
  · by_cases hn : 0 ≤ n
    · rw [dif_pos hvalid, if_pos hn, if_pos ⟨hn, hvalid⟩, Char.ofNat, dif_pos hvalid]
    · rw [dif_pos hvalid, if_neg hn, if_neg fun h => hn h.1]
  · rw [dif_neg hvalid, if_neg fun h => hvalid h.2]

theorem utf8_char (c : Char) : Text.utf8 c.toString = String.utf8EncodeChar c := by
  simp [Text.utf8]

theorem convert?_exact (ha : Represents a v) (hk : k ≠ .float)
    (h : a.convert? explicit k = some b) :
    ∃ w, Represents b w ∧ v.convert? k = some w ∧ (explicit = false → k = v.class ∧ w = v) := by
  cases ha with
  | bool =>
    cases k with
    | boolean =>
      cases h
      exact ⟨_, .bool, rfl, fun _ => ⟨rfl, rfl⟩⟩
    | _ => cases h
  | string =>
    cases k with
    | string =>
      cases h
      exact ⟨_, .string, rfl, fun _ => ⟨rfl, rfl⟩⟩
    | _ => cases h
  | int hn =>
    cases k with
    | integer =>
      cases h
      exact ⟨_, .int hn, rfl, fun _ => ⟨rfl, rfl⟩⟩
    | string =>
      cases explicit with
      | false => cases h
      | true =>
        cases h
        refine ⟨_, .string, ?_, by simp⟩
        rw [utf8_char, charOfInt_eq]
        rfl
    | float => exact absurd rfl hk
    | _ => cases h

theorem convert_exact (ha : Represents c.value v) (hfloat : ¬ types.isFloat target)
    (h : convert types explicit target c = .ok c') :
    ∃ b w, types.basic? target = some b ∧ Represents c'.value w ∧ v.convert? b.class = some w ∧
      c'.type = .typed target ∧ (explicit = false → b.class = v.class ∧ w = v) := by
  unfold convert at h
  split at h
  · cases h
  · rename_i a hconv
    obtain ⟨b, hb, hconv⟩ := Option.bind_eq_some_iff.1 hconv
    obtain ⟨w, hw, hv, himplicit⟩ := convert?_exact ha (fun hclass => hfloat ⟨b, hb, hclass⟩) hconv
    obtain rfl := representable_eq_ok hw h
    exact ⟨b, w, hb, hw, hv, rfl, himplicit⟩

theorem convert_overflow (ha : Represents c.value v) (hfloat : ¬ types.isFloat target)
    (h : convert types explicit target c = .error (.overflow value text)) :
    ∃ b w, types.basic? target = some b ∧ v.convert? b.class = some w ∧
      ¬ Moderate types w (.typed target) ∧ (explicit = false → b.class = v.class ∧ w = v) := by
  unfold convert at h
  split at h
  · cases h
  · rename_i a hconv
    obtain ⟨b, hb, hconv⟩ := Option.bind_eq_some_iff.1 hconv
    obtain ⟨w, hw, hv, himplicit⟩ := convert?_exact ha (fun hclass => hfloat ⟨b, hb, hclass⟩) hconv
    obtain ⟨n, rfl, hn⟩ := representable_eq_error hw h
    exact ⟨b, _, hb, hv, not_moderate_of_not_inRange hn, himplicit⟩

theorem assign_cases (types : TypeScope) (target : String) (c : Const) :
    (assign types target c = convert types false target c ∧
      (c.type = .typed target ∨ c.type.name? = none)) ∨
    ∃ actual, assign types target c = .error (.mismatched actual target) := by
  unfold assign
  split
  · split
    · rename_i hactual
      exact .inl ⟨rfl, .inl (by rw [← hactual]; assumption)⟩
    · exact .inr ⟨_, rfl⟩
  · exact .inl ⟨rfl, .inr (by simp [*, ConstType.name?])⟩

theorem assign_exact (ha : Represents c.value v) (hfloat : ¬ types.isFloat target)
    (h : assign types target c = .ok c') :
    Represents c'.value v ∧ c'.type = .typed target ∧ Assignable types v c.type target := by
  obtain ⟨heq, ht⟩ | ⟨actual, heq⟩ := assign_cases types target c <;> rw [heq] at h
  · obtain ⟨b, w, hb, hw, -, hc', himplicit⟩ := convert_exact ha hfloat h
    obtain ⟨hclass, rfl⟩ := himplicit rfl
    exact ⟨hw, hc', ht, b, hb, hclass⟩
  · cases h

theorem assign_overflow (ha : Represents c.value v) (hfloat : ¬ types.isFloat target)
    (h : assign types target c = .error (.overflow value text)) :
    Assignable types v c.type target ∧ ¬ Moderate types v (.typed target) := by
  obtain ⟨heq, ht⟩ | ⟨actual, heq⟩ := assign_cases types target c <;> rw [heq] at h
  · obtain ⟨b, w, hb, -, hm, himplicit⟩ := convert_overflow ha hfloat h
    obtain ⟨hclass, rfl⟩ := himplicit rfl
    exact ⟨⟨ht, b, hb, hclass⟩, hm⟩
  · cases h

theorem lengthOf_exact (ha : Represents c.value v) (h : lengthOf c = .ok c') :
    ∃ bs, v = .bytes bs ∧ Represents c'.value (.int bs.length) ∧ c'.type = .untyped .int := by
  unfold lengthOf at h
  split at h
  · rename_i hvalue
    rw [hvalue] at ha
    cases ha
    rw [← Text.length_utf8] at h
    exact ⟨_, rfl, countConst_exact h⟩
  · cases h

theorem lengthOf_overflow (ha : Represents c.value v)
    (h : lengthOf c = .error (.overflow value text)) :
    ∃ bs, v = .bytes bs ∧ ¬ Moderate types (.int bs.length) (.untyped .int) := by
  unfold lengthOf at h
  split at h
  · rename_i hvalue
    rw [hvalue] at ha
    cases ha
    rw [← Text.length_utf8] at h
    exact ⟨_, rfl, countConst_overflow h _⟩
  · cases h

theorem FloatFree.not_isFloat_declared (h : FloatFree s iota (.ident span name))
    (hd : s.find? name = some d) (ht : d.type = some (.named target)) :
    ¬ s.types.isFloat target :=
  fun hfloat => h.self ⟨d, target, hd, ht, hfloat⟩

theorem FloatFree.not_isFloat_conversion (h : FloatFree s iota (.call span callee args))
    (hf : s.callee callee = .conversion target) : ¬ s.types.isFloat target :=
  fun hfloat => h.self ⟨target, hf, hfloat⟩

theorem Evaluates.exact (h : Evaluates s iota e c) (hfree : FloatFree s iota e) :
    ∃ v, Represents c.value v ∧ Denotes s iota e v c.type := by
  induction h with
  | literal hl =>
    obtain ⟨v, k, hv, hl, ht⟩ := literalConst_exact hfree.self hl
    exact ⟨v, hv, ht ▸ .literal hl⟩
  | constant hd hc hdecl ih =>
    obtain ⟨v, hv, hden⟩ := ih (hfree.constant hd)
    unfold declare at hdecl
    split at hdecl
    · cases hdecl
      exact ⟨v, hv, .constant hd ‹_› hden⟩
    · rename_i ht
      obtain ⟨hv, htype, hassign⟩ := assign_exact hv (hfree.not_isFloat_declared hd ht) hdecl
      exact ⟨v, hv, htype ▸ .declared hd ht hden hassign⟩
    · cases hdecl
  | predeclared hd hn =>
    obtain ⟨v, k, hv, hn, ht⟩ := predeclared_exact hn
    exact ⟨v, hv, ht ▸ .predeclared hd hn⟩
  | paren _ ih =>
    obtain ⟨v, hv, hden⟩ := ih hfree.paren
    exact ⟨v, hv, .paren hden⟩
  | @call _ _ _ callee _ span harg happly ih =>
    have hf : ∀ what, s.callee callee ≠ .other what := by
      intro what hf
      rw [hf] at happly
      cases happly
    obtain ⟨v, hv, hden⟩ := ih (hfree.argument hf)
    cases hcallee : s.callee callee with
    | length =>
      rw [hcallee] at happly
      obtain ⟨bs, rfl, hlen, ht⟩ := lengthOf_exact hv happly
      exact ⟨_, hlen, ht ▸ .length hcallee hden⟩
    | conversion target =>
      rw [hcallee] at happly
      obtain ⟨b, w, hb, hw, hconv, ht, -⟩ :=
        convert_exact hv (hfree.not_isFloat_conversion hcallee) happly
      exact ⟨w, hw, ht ▸ .conversion hcallee hb hden hconv⟩
    | other what => exact absurd hcallee (hf what)
  | unary hc hop ih =>
    obtain ⟨v, hv, hden⟩ := ih hfree.operand
    obtain ⟨w, hw, hop, ht⟩ := unary_exact ⟨hc.wellTyped, hv⟩ hop
    exact ⟨w, hw.represents, ht ▸ .unary hden hop⟩
  | binary hl hr hop ihl ihr =>
    obtain ⟨v, hv, hdenl⟩ := ihl hfree.left
    obtain ⟨w, hw, hdenr⟩ := ihr hfree.right
    obtain ⟨x, hx, hop, ht⟩ := binary_exact ⟨hl.wellTyped, hv⟩ ⟨hr.wellTyped, hw⟩ hop
    exact ⟨x, hx.represents, .binary hdenl hdenr hop ht⟩

def AllModerate (s : Scope) : Nat → Expr → Prop :=
  Everywhere s fun i p => ∀ v t, Denotes s i p v t → Moderate s.types v t

theorem evalExpr_not_overflow {f : String → Unfolding Const}
    (hf : ∀ name c, (f name).run = some (.ok c) → EvaluatesName s name c)
    (hnames : ∀ iota span name, FloatFree s iota (.ident span name) →
      AllModerate s iota (.ident span name) → (f name).run ≠ some (.error (.overflow value text)))
    (hfree : FloatFree s iota e) (hmod : AllModerate s iota e) :
    (evalExpr s f iota e).run ≠ some (.error (.overflow value text)) := by
  intro h
  induction e using evalInduction s with
  | literal span l =>
    rw [evalExpr, run_liftExcept] at h
    obtain ⟨v, k, hl, hv⟩ := literalConst_overflow s.types (Option.some.inj h)
    exact hv (hmod.self _ _ (.literal hl))
  | constant span name hd =>
    rw [evalExpr_constant hd] at h
    exact hnames iota span name hfree hmod h
  | predeclared span name hd =>
    rw [evalExpr_predeclared hd, run_liftExcept] at h
    obtain ⟨v, k, hn, hv⟩ := predeclared_overflow (Option.some.inj h)
    exact hv (hmod.self _ _ (.predeclared hd hn))
  | paren span e ih => exact ih hfree.paren hmod.paren h
  | selector span base field => cases h
  | call span callee arg hcallee ih =>
    rw [evalExpr_call hcallee] at h
    obtain h | ⟨c, hc, h⟩ := run_bind_liftExcept_eq_error.1 h
    · exact ih (hfree.argument hcallee) (hmod.argument hcallee) h
    obtain ⟨v, hv, hden⟩ := (evaluates_of_evalExpr hf hc).exact (hfree.argument hcallee)
    cases hcallee' : s.callee callee with
    | length =>
      rw [hcallee'] at h
      obtain ⟨bs, rfl, hlen⟩ := lengthOf_overflow hv h
      exact hlen (hmod.self _ _ (.length hcallee' hden))
    | conversion target =>
      rw [hcallee'] at h
      obtain ⟨b, w, hb, hconv, hw, -⟩ :=
        convert_overflow hv (hfree.not_isFloat_conversion hcallee') h
      exact hw (hmod.self _ _ (.conversion hcallee' hb hden hconv))
    | other what => exact hcallee what hcallee'
  | notFunction span callee arg what hcallee =>
    rw [evalExpr_notFunction hcallee] at h
    cases h
  | wrongCount span callee args hargs =>
    rw [evalExpr_wrongCount hargs] at h
    cases hcallee : s.callee callee <;> simp [hcallee, Callee.wrongCount] at h
  | unary span op e ih =>
    obtain h | ⟨c, hc, h⟩ := run_bind_liftExcept_eq_error.1 h
    · exact ih hfree.operand hmod.operand h
    have hc := evaluates_of_evalExpr hf hc
    obtain ⟨v, hv, hden⟩ := hc.exact hfree.operand
    obtain ⟨w, hop, hw⟩ := unary_overflow ⟨hc.wellTyped, hv⟩ h
    exact hw (hmod.self _ _ (.unary hden hop))
  | binary span op l r ihl ihr =>
    obtain ⟨a, ha, h⟩ | ⟨e, hl, h⟩ := run_bind_eq_some.1 h
    · obtain h | ⟨b, hb, h⟩ := run_bind_liftExcept_eq_error.1 h
      · exact ihr hfree.right hmod.right h
      have ha := evaluates_of_evalExpr hf ha
      have hb := evaluates_of_evalExpr hf hb
      obtain ⟨v, hv, hdenl⟩ := ha.exact hfree.left
      obtain ⟨w, hw, hdenr⟩ := hb.exact hfree.right
      have hv' := hmod.left.self _ _ hdenl
      obtain ⟨x, t, hop, ht, hx⟩ :=
        binary_overflow ⟨ha.wellTyped, hv⟩ ⟨hb.wellTyped, hw⟩ hv' h
      exact hx (hmod.self _ _ (.binary hdenl hdenr hop ht))
    · cases h
      exact ihl hfree.left hmod.left hl
  | type span t => cases h

theorem unfoldWithin_not_overflow (hfree : FloatFree s iota (.ident span name))
    (hmod : AllModerate s iota (.ident span name)) :
    (unfoldWithin s n name).run ≠ some (.error (.overflow value text)) := by
  intro h
  induction n generalizing iota span name with
  | zero => cases h
  | succ n ih =>
    rw [unfoldWithin] at h
    split at h
    · cases h
    rename_i d hd
    have hf : ∀ name c, (unfoldWithin s n name).run = some (.ok c) → EvaluatesName s name c :=
      fun name c => evaluatesName_of_unfoldWithin
    obtain h | ⟨c, hc, h⟩ := run_bind_liftExcept_eq_error.1 h
    · exact evalExpr_not_overflow hf (fun iota span name => ih) (hfree.constant hd)
        (hmod.constant hd) h
    obtain ⟨v, hv, hden⟩ := (evaluates_of_evalExpr hf hc).exact (hfree.constant hd)
    unfold declare at h
    split at h
    · cases h
    · rename_i ht
      obtain ⟨hassign, hv⟩ := assign_overflow hv (hfree.not_isFloat_declared hd ht) h
      exact hv (hmod.self _ _ (.declared hd ht hden hassign))
    · cases h

/-- Whatever has been evaluated before, an expression without floating-point numbers gets the value
that it stands for, if it gets one; and it does not overflow if all integers that it leads to keep
within the ranges of their types and away from the limits of 128 bits. -/
theorem evaluation_exact (s : Scope) (names : List String) (iota : Nat) (e : Expr)
    (hfree : FloatFree s iota e) :
    let r := (runFrom (evalExpr s s.constant iota e) (s.memoAfter names)).1
    (∀ c, r = .ok c → ∃ v, Represents c.value v ∧ Denotes s iota e v c.type ∧
      ∀ w t, Denotes s iota e w t → w = v ∧ t = c.type) ∧
    (AllModerate s iota e → ∀ value type, r ≠ .error (.overflow value type)) := by
  intro r
  constructor
  · intro c hc
    obtain ⟨n, hn⟩ := evalExpr_spec hc (acyclic_ok c)
    have heval := evaluates_of_evalExpr (fun name c => evaluatesName_of_unfoldWithin) hn
    obtain ⟨v, hv, hden⟩ := heval.exact hfree
    exact ⟨v, hv, hden, fun w t hw => hw.unique hden⟩
  · intro hmod value type hover
    obtain ⟨n, hn⟩ := evalExpr_spec hover (by simp [Acyclic])
    exact evalExpr_not_overflow (fun name c => evaluatesName_of_unfoldWithin)
      (fun iota span name => unfoldWithin_not_overflow) hfree hmod hn

def flagScope : Scope where
  defs := [⟨"mask", .binary ⟨0, 9⟩ .shl (.literal ⟨0, 1⟩ (.int 1)) (.ident ⟨5, 9⟩ "iota"),
    some (.named "Flags"), 3⟩]
  types := ⟨(· == "Flags"), fun name => if name = "Flags" then some .uint8 else none⟩

def otherFlags : Expr := .unary ⟨0, 5⟩ .complement (.ident ⟨1, 5⟩ "mask")

section

variable {P : Nat → Expr → Prop}

theorem everywhere_otherFlags (hone : P 3 (.literal ⟨0, 1⟩ (.int 1)))
    (hiota : P 3 (.ident ⟨5, 9⟩ "iota"))
    (hshift : P 3 (.binary ⟨0, 9⟩ .shl (.literal ⟨0, 1⟩ (.int 1)) (.ident ⟨5, 9⟩ "iota")))
    (hmask : P 0 (.ident ⟨1, 5⟩ "mask")) (hother : P 0 otherFlags) :
    Everywhere flagScope P 0 otherFlags := by
  intro i p h
  cases h with
  | self => exact hother
  | operand h =>
    cases h with
    | self => exact hmask
    | constant hd h =>
      cases hd
      cases h with
      | self => exact hshift
      | left h =>
        cases h
        exact hone
      | right h =>
        cases h with
        | self => exact hiota
        | constant hd => cases hd

end

theorem denotes_mask : Denotes flagScope 0 (.ident ⟨1, 5⟩ "mask") (.int 8) (.typed "Flags") :=
  .declared rfl rfl (.binary (.literal rfl) (.predeclared rfl rfl) rfl rfl)
    ⟨.inr rfl, .uint8, rfl, rfl⟩

theorem floatFree_otherFlags : FloatFree flagScope 0 otherFlags := by
  apply everywhere_otherFlags
  · exact id
  · rintro ⟨d, target, hd, -⟩
    cases hd
  · exact id
  · rintro ⟨d, target, hd, ht, b, hb, hclass⟩
    cases hd
    cases ht
    cases hb
    cases hclass
  · exact id

theorem moderate_of_denotes (h : Denotes s i p (.int n) t) (hn : -2 ^ 126 < n ∧ n < 2 ^ 126)
    (hrange : InRange s.types t n) (w : Datum) (u : ConstType) (hw : Denotes s i p w u) :
    Moderate s.types w u := by
  obtain ⟨rfl, rfl⟩ := h.unique hw
  intro k hk
  cases hk
  exact ⟨hn.1, hn.2, hrange⟩

theorem inRange_untyped : InRange types (.untyped k) n := by
  rintro name b lower upper ⟨⟩

theorem inRange_flags (h0 : 0 ≤ n) (h : n ≤ 255) :
    InRange flagScope.types (.typed "Flags") n := by
  intro name b lower upper hname hb hrange
  cases hname
  cases hb
  cases hrange
  exact ⟨h0, h⟩

theorem allModerate_otherFlags : AllModerate flagScope 0 otherFlags := by
  apply everywhere_otherFlags
  · exact moderate_of_denotes (.literal rfl) (by decide) inRange_untyped
  · exact moderate_of_denotes (.predeclared rfl rfl) (by decide) inRange_untyped
  · exact moderate_of_denotes (.binary (.literal rfl) (.predeclared rfl rfl) rfl rfl) (by decide)
      inRange_untyped
  · exact moderate_of_denotes denotes_mask (by decide) (inRange_flags (by decide) (by decide))
  · exact moderate_of_denotes (.unary denotes_mask rfl) (by decide)
      (inRange_flags (by decide) (by decide))

theorem evaluation_exact_otherFlags :
    FloatFree flagScope 0 otherFlags ∧ AllModerate flagScope 0 otherFlags ∧
    (runFrom (evalExpr flagScope flagScope.constant 0 otherFlags)
      (flagScope.memoAfter ["mask"])).1 = .ok ⟨.int 247, .typed "Flags"⟩ ∧
    ∃ v, Represents (.int 247) v ∧ Denotes flagScope 0 otherFlags v (.typed "Flags") := by
  have hvalue : (runFrom (evalExpr flagScope flagScope.constant 0 otherFlags)
      (flagScope.memoAfter ["mask"])).1 = .ok ⟨.int 247, .typed "Flags"⟩ := by
    decide +kernel
  obtain ⟨v, hv, hden, -⟩ :=
    (evaluation_exact flagScope ["mask"] 0 otherFlags floatFree_otherFlags).1 _ hvalue
  exact ⟨floatFree_otherFlags, allModerate_otherFlags, hvalue, v, hv, hden⟩

end GoEnum.Constant
