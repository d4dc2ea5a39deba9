import Mathlib.Data.String.Basic

namespace GoEnum.Text

def utf8 (s : String) : List UInt8 := s.toList.flatMap String.utf8EncodeChar

theorem utf8_append (s t : String) : utf8 (s ++ t) = utf8 s ++ utf8 t := by
  simp [utf8]

theorem toByteArray_utf8 (s : String) : s.toByteArray = (utf8 s).toByteArray := by
  rw [utf8, ← List.utf8Encode.eq_def, ← String.toByteArray_ofList, String.ofList_toList]

theorem length_utf8 (s : String) : (utf8 s).length = s.utf8ByteSize := by
  rw [← List.size_toByteArray, ← toByteArray_utf8]
  rfl

theorem utf8_injective (h : utf8 s = utf8 t) : s = t := by
  rw [← String.toByteArray_inj, toByteArray_utf8, h, ← toByteArray_utf8]

theorem digits_lt (h : v < w) : v / 262144 < w / 262144 ∨ v / 262144 = w / 262144 ∧
    (v / 4096 % 64 < w / 4096 % 64 ∨ v / 4096 % 64 = w / 4096 % 64 ∧
      (v / 64 % 64 < w / 64 % 64 ∨ v / 64 % 64 = w / 64 % 64 ∧ v % 64 < w % 64)) := by
  have hdigit : ∀ a b, a < b → a / 64 < b / 64 ∨ a / 64 = b / 64 ∧ a % 64 < b % 64 := by omega
  have hdiv : ∀ n, n / 4096 = n / 64 / 64 ∧ n / 262144 = n / 64 / 64 / 64 := by omega
  rw [(hdiv v).1, (hdiv v).2, (hdiv w).1, (hdiv w).2]
  obtain h | ⟨heq, h⟩ := hdigit v w h
  · obtain h | ⟨heq, h⟩ := hdigit _ _ h
    · obtain h | ⟨heq, h⟩ := hdigit _ _ h
      · exact .inl h
      · exact .inr ⟨heq, .inl h⟩
    · exact .inr ⟨by rw [heq], .inr ⟨by rw [heq], .inl h⟩⟩
  · exact .inr ⟨by rw [heq], .inr ⟨by rw [heq], .inr ⟨by rw [heq], h⟩⟩⟩

theorem digit_byte (n : Nat) : (n % 64 + 128) % 2 ^ 8 = n % 64 + 128 := by omega

theorem utf8EncodeChar_append_lt {c d : Char} (h : c < d) (xs ys : List UInt8) :
    String.utf8EncodeChar c ++ xs < String.utf8EncodeChar d ++ ys := by
  have hlt : c.val.toNat < d.val.toNat := h
  have hmax : d.val.toNat < 0x110000 := by
    have := d.valid
    unfold UInt32.isValidChar Nat.isValidChar at this
    omega
  unfold String.utf8EncodeChar
  dsimp only
  by_cases hc : c.val.toNat ≤ 0xffff
  · split_ifs <;>
      simp only [List.cons_append, List.nil_append, List.cons_lt_cons_iff, UInt8.lt_iff_toNat_lt,
        UInt8.toNat_ofNat', ← UInt8.toNat_inj] <;>
      omega
  · have hfirst : ∀ n < 0x110000, (n / 262144 % 8 + 240) % 2 ^ 8 = n / 262144 + 240 := by omega
    rw [if_neg (by omega), if_neg (by omega), if_neg hc, if_neg (by omega), if_neg (by omega),
      if_neg (by omega)]
    simp only [List.cons_append, List.nil_append, List.cons_lt_cons_iff, UInt8.lt_iff_toNat_lt,
      UInt8.toNat_ofNat', ← UInt8.toNat_inj, digit_byte, Nat.add_lt_add_iff_right,
      Nat.add_right_cancel_iff]
    rw [hfirst _ (by omega), hfirst _ hmax, Nat.add_lt_add_iff_right, Nat.add_right_cancel_iff]
    obtain h | ⟨h₀, h | ⟨h₁, h | ⟨h₂, h⟩⟩⟩ := digits_lt hlt
    · exact .inl h
    · exact .inr ⟨h₀, .inl h⟩
    · exact .inr ⟨h₀, .inr ⟨h₁, .inl h⟩⟩
    · exact .inr ⟨h₀, .inr ⟨h₁, .inr ⟨h₂, .inl h⟩⟩⟩

theorem flatMap_utf8EncodeChar_lt {cs ds : List Char} (h : cs < ds) :
    cs.flatMap String.utf8EncodeChar < ds.flatMap String.utf8EncodeChar := by
  induction h with
  | @nil d ds =>
    rw [List.flatMap_nil, List.flatMap_cons]
    obtain ⟨b, bs, hb⟩ := List.exists_cons_of_ne_nil (String.utf8EncodeChar_ne_nil (c := d))
    rw [hb]
    exact .nil
  | @cons c cs ds _ ih => exact List.append_left_lt ih
  | rel hlt => exact utf8EncodeChar_append_lt hlt _ _

theorem utf8_lt (h : s < t) : utf8 s < utf8 t :=
  flatMap_utf8EncodeChar_lt (String.lt_iff_toList_lt.1 h)

theorem utf8_lt_iff : utf8 s < utf8 t ↔ s < t := by
  refine ⟨fun h => ?_, utf8_lt⟩
  obtain hlt | rfl | hgt := lt_trichotomy s t
  · exact hlt
  · exact absurd h (List.lt_irrefl _)
  · exact absurd h (List.lt_asymm (utf8_lt hgt))

end GoEnum.Text
