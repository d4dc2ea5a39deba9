import GoEnum.Constant.Value
import GoEnum.Enum.Member
import GoEnum.Proofs.Text.Digits
import GoEnum.Proofs.Token.Quotation
import Std.Data.String.ToInt

namespace GoEnum.Enum

open Constant

def Kind.Holds : Kind → Value → Prop
  | .string, v => ∃ s, v = .string s
  | .signed, v | .unsigned, v => ∃ n, v = .int n

def Kind.zeroValue : Kind → Value
  | .string => .string ""
  | .signed | .unsigned => .int 0

theorem Kind.holds_zeroValue (k : Kind) : k.Holds k.zeroValue := by cases k <;> exact ⟨_, rfl⟩

theorem Kind.literal_zeroValue (k : Kind) : k.zeroValue.literal = k.zero := by cases k <;> decide

theorem eq_of_int_literal (hv : ∃ n, v = Value.int n) (hw : ∃ n, w = Value.int n)
    (h : v.literal = w.literal) : v = w := by
  obtain ⟨m, rfl⟩ := hv
  obtain ⟨n, rfl⟩ := hw
  exact congrArg Value.int (Int.repr_injective h)

theorem dropWhile_quote {cs : List Char} (h : '"' ∉ cs) : cs.dropWhile (· == '"') = cs := by
  cases cs with
  | nil => rfl
  | cons c cs =>
    have hc : (c == '"') = false := by
      rw [beq_eq_false_iff_ne]
      rintro rfl
      exact h List.mem_cons_self
    simp [hc]

theorem quote_not_mem_toString (n : Int) : '"' ∉ (toString n).toList := by
  have hdigits : ∀ n : Nat, '"' ∉ (toString n).toList := by
    intro n hmem
    rw [Text.toList_toString] at hmem
    cases Nat.isDigit_of_mem_toDigits (by decide) (by decide) hmem
  cases n with
  | ofNat n => exact hdigits n
  | negSucc n =>
    have htext : (toString (Int.negSucc n)).toList = '-' :: (toString (n + 1)).toList :=
      String.toList_append
    rw [htext, List.mem_cons, not_or]
    exact ⟨by decide, hdigits (n + 1)⟩

theorem Member.label_eq (m : Member) (hv : m.kind.Holds v) (h : m.literal = v.literal) :
    m.label = m.literal := by
  have hint : (∃ n, v = .int n) → m.label = m.literal := by
    rintro ⟨n, rfl⟩
    have hquote : '"' ∉ m.literal.toList := h ▸ quote_not_mem_toString n
    have hreverse : '"' ∉ m.literal.toList.reverse := by simpa using hquote
    simp [Member.label, dropWhile_quote hquote, dropWhile_quote hreverse]
  unfold Kind.Holds at hv
  split at hv
  · rename_i hkind
    simp [Member.label, hkind, Kind.isInteger]
  · exact hint hv
  · exact hint hv

theorem Kind.eq_of_literal (k : Kind) (hv : k.Holds v) (hw : k.Holds w)
    (h : v.literal = w.literal) : v = w := by
  cases k with
  | string =>
    obtain ⟨s, rfl⟩ := hv
    obtain ⟨t, rfl⟩ := hw
    exact congrArg Value.string (Token.quote_injective h)
  | signed => exact eq_of_int_literal hv hw h
  | unsigned => exact eq_of_int_literal hv hw h

end GoEnum.Enum
