import GoEnum.Proofs.Constant.Exactness

namespace GoEnum.Constant

open Syntax

def Value.Fits (v : Value) : Prop := ∀ n, v = .int n → fits n

theorem Value.fits_int (h : fits n) : (Value.int n).Fits := by
  rintro _ ⟨⟩
  exact h

theorem Value.fits_of_class {v : Value} (h : v.class ≠ .integer) : v.Fits := by
  rintro n rfl
  exact absurd rfl h

theorem fits_clamp (n : Int) : fits (clamp n) := by
  have hlower : minInt ≤ clamp n := le_max_left _ _
  have hupper : clamp n ≤ maxInt := max_le (by decide) (min_le_left _ _)
  simp [fits, hlower, hupper]

theorem checkRange_fits (hv : v.Fits) (h : checkRange type range v = .ok w) : w.Fits := by
  unfold checkRange at h
  split at h
  · dsimp only at h
    split at h
    · cases h
    · cases h
      exact hv
  · split at h
    · dsimp only at h
      split at h
      · cases h
      · cases h
        exact Value.fits_int (fits_clamp _)
    · cases h
  · cases h
    exact hv

theorem representable_fits (hv : v.Fits) (h : representable types ⟨v, t⟩ = .ok c) :
    c.value.Fits := by
  unfold representable at h
  split at h
  · cases h
    exact hv
  · split at h
    · cases h
      exact hv
    · obtain ⟨w, hw, h⟩ := bind_eq_ok.1 h
      cases h
      exact checkRange_fits hv hw

theorem convert?_fits {v : Value} (hv : v.Fits) (h : v.convert? explicit b = some w) :
    w.Fits := by
  unfold Value.convert? at h
  split at h
  · cases h
    exact hv
  · split at h
    · cases h
      exact Value.fits_of_class (by simp [Value.class])
    · cases h
  · cases h
    exact hv
  · split at h
    · cases h
      exact Value.fits_int (fits_clamp _)
    · cases h
  · cases h
    exact Value.fits_of_class (by simp [Value.class])
  · cases h
    exact hv
  · cases h
    exact hv
  · cases h

theorem convert_fits (hc : c.value.Fits) (h : convert types explicit target c = .ok c') :
    c'.value.Fits := by
  unfold convert at h
  split at h
  · cases h
  · rename_i w hw
    obtain ⟨b, -, hw⟩ := Option.bind_eq_some_iff.1 hw
    exact representable_fits (convert?_fits hc hw) h

theorem declare_fits (hc : c.value.Fits) (h : declare types type c = .ok c') : c'.value.Fits := by
  unfold declare at h
  split at h
  · cases h
    exact hc
  · rename_i target
    obtain ⟨heq, -⟩ | ⟨actual, heq⟩ := assign_cases types target c
    · rw [heq] at h
      exact convert_fits hc h
    · rw [heq] at h
      cases h
  · cases h

theorem countConst_fits (h : countConst k = .ok c) : c.value.Fits := by
  unfold countConst at h
  split at h
  · cases h
    exact Value.fits_int ‹_›
  · cases h

theorem literalConst_fits (h : literalConst l = .ok c) : c.value.Fits := by
  cases l with
  | int n => exact countConst_fits h
  | rune r =>
    cases h
    have hlt : r.toNat < 2 ^ 32 := r.val.toNat_lt
    exact Value.fits_int (by rw [fits_iff]; omega)
  | imaginary x => cases h
  | _ =>
    cases h
    exact Value.fits_of_class (by simp [Value.class])

theorem predeclared_fits (h : predeclared types iota name = .ok c) : c.value.Fits := by
  unfold predeclared at h
  split at h
  · exact countConst_fits h
  · cases h
    exact Value.fits_of_class (by simp [Value.class])
  · cases h
    exact Value.fits_of_class (by simp [Value.class])
  · cases h

theorem apply_fits {f : Callee} (hc : c.value.Fits) (h : f.apply types c = .ok c') :
    c'.value.Fits := by
  cases f with
  | length =>
    simp only [Callee.apply, lengthOf] at h
    split at h
    · exact countConst_fits h
    · cases h
  | conversion type => exact convert_fits hc h
  | other what => cases h

theorem unaryValue_fits (hv : v.Fits) (h : unaryValue types op t v = .ok w) : w.Fits := by
  unfold unaryValue at h
  split at h
  · cases h
    exact hv
  · cases h
    exact hv
  · obtain ⟨m, hm, rfl⟩ := map_eq_ok.1 h
    exact Value.fits_int (exact_eq_ok hm).2
  · cases h
    exact Value.fits_of_class (by simp [Value.class])
  · cases h
    exact Value.fits_int (fits_complement _ _)
  · cases h
    exact Value.fits_of_class (by simp [Value.class])
  · cases h

theorem unary_fits (hc : c.value.Fits) (h : unary types op c = .ok c') : c'.value.Fits := by
  obtain ⟨w, hw, h⟩ := bind_eq_ok.1 h
  exact representable_fits (unaryValue_fits hc hw) h

theorem shiftOperand_fits (hc : c.value.Fits) (h : shiftOperand c = .ok n) : fits n := by
  unfold shiftOperand at h
  split at h
  · rename_i hv
    cases h
    exact hc n hv
  · split at h
    · cases h
      exact fits_clamp _
    · cases h
  · cases h

theorem shiftValue_fits (hn : fits n) (h : shiftValue op n count = .ok m) : fits m := by
  unfold shiftValue at h
  split at h
  · exact (shiftLeft_eq_ok h).2
  · cases h
    rw [shiftRight_eq hn]
    exact fits_fdiv hn _

theorem shift_fits (hl : left.value.Fits) (h : shift types op left right = .ok c) :
    c.value.Fits := by
  obtain ⟨count, -, h⟩ := bind_eq_ok.1 h
  obtain ⟨n, hn, h⟩ := bind_eq_ok.1 h
  obtain ⟨m, hm, h⟩ := bind_eq_ok.1 h
  exact representable_fits (Value.fits_int (shiftValue_fits (shiftOperand_fits hl hn) hm)) h

theorem arithmetic_fits (ha : a.Fits) (hb : b.Fits) (h : arithmetic op type a b = .ok v) :
    v.Fits := by
  have hfloat : ∀ {v}, floatArithmetic op a b = .ok v → v.Fits := by
    intro v h
    refine Value.fits_of_class ?_
    simp [(floatArithmetic_class h).1]
  unfold arithmetic at h
  split at h
  · split at h
    · cases h
      exact Value.fits_of_class (by simp [Value.class])
    · cases h
      exact Value.fits_of_class (by simp [Value.class])
    · cases h
  · split at h
    · cases h
      exact Value.fits_of_class (by simp [Value.class])
    · cases h
  · split at h
    · exact hfloat h
    · obtain ⟨n, hn, rfl⟩ := map_eq_ok.1 h
      exact Value.fits_int (intOperation_exact (ha _ rfl) (hb _ rfl) hn).1
  · exact hfloat h

theorem binary_fits (hl : left.value.Fits) (hr : right.value.Fits)
    (h : binary types op left right = .ok c) : c.value.Fits := by
  unfold binary at h
  split at h
  · exact shift_fits hl h
  · obtain ⟨type, -, h⟩ := bind_eq_ok.1 h
    split at h
    · unfold compared at h
      split at h
      · cases h
        exact Value.fits_of_class (by simp [Value.class])
      · cases h
    · obtain ⟨v, hv, h⟩ := bind_eq_ok.1 h
      exact representable_fits (arithmetic_fits hl hr hv) h

theorem Evaluates.fits (h : Evaluates s iota e c) : c.value.Fits := by
  induction h with
  | literal h => exact literalConst_fits h
  | constant _ _ hdecl ih => exact declare_fits ih hdecl
  | predeclared _ h => exact predeclared_fits h
  | paren _ ih => exact ih
  | call _ h ih => exact apply_fits ih h
  | unary _ h ih => exact unary_fits ih h
  | binary _ _ h ihl ihr => exact binary_fits ihl ihr h

theorem EvaluatesName.fits (h : EvaluatesName s name c) : c.value.Fits := by
  obtain ⟨d, c₀, -, hc₀, hdecl⟩ := h
  exact declare_fits hc₀.fits hdecl

end GoEnum.Constant
