import GoEnum.Text.Case
import GoEnum.Text.Letter

namespace GoEnum.Text

/-- Do all points from `lo` to `hi` lie in the set with these boundaries? `inside` tells whether the
boundaries that were passed before lead into it. -/
def covers (lo hi : Nat) (inside : Bool) : List Nat → Bool
  | [] => inside
  | b :: bs => bif Nat.ble b lo then covers lo hi (!inside) bs else inside && Nat.blt hi b

theorem contains_of_covers {bounds : List Nat} {lo hi : Nat} (h : covers lo hi false bounds)
    {c : Char} (hlo : lo ≤ c.toNat) (hhi : c.toNat ≤ hi) : (CodeSet.mk bounds).contains c := by
  have hparity : ∀ inside, covers lo hi inside bounds →
      (inside.toNat + (bounds.takeWhile (· ≤ c.toNat)).length) % 2 = 1 := by
    clear h
    intro inside h
    induction bounds generalizing inside with
    | nil =>
      obtain rfl : inside = true := h
      rfl
    | cons b bs ih =>
      rw [covers] at h
      cases hb : Nat.ble b lo with
      | true =>
        rw [hb, cond_true] at h
        have hpassed : b ≤ c.toNat := Nat.le_trans (Nat.le_of_ble_eq_true hb) hlo
        have hrest := ih (!inside) h
        rw [List.takeWhile_cons_of_pos (by simpa using hpassed), List.length_cons]
        cases inside <;> simp at hrest ⊢ <;> omega
      | false =>
        rw [hb, cond_false, Bool.and_eq_true] at h
        obtain ⟨rfl, hpast⟩ := h
        have hpast : hi < b := by simpa [Nat.blt_eq] using hpast
        rw [List.takeWhile_cons_of_neg (by simp; omega)]
        rfl
  have hodd := hparity false h
  simpa [CodeSet.contains] using hodd

def CaseRun.keepsLetters (r : CaseRun) : Bool :=
  let lo := (r.first + r.shift).toNat
  let hi := (r.last + r.shift).toNat
  Nat.ble 0x80 lo && (Nat.blt hi 0xd800 || Nat.blt 0xdfff lo && Nat.blt hi 0x110000) &&
    covers lo hi false letters.bounds

theorem isLetter_of_keepsLetters {r : CaseRun} (h : r.keepsLetters) (hlower : r.lower? n = some m) :
    isLetter (Char.ofNat m) := by
  simp only [CaseRun.keepsLetters, Bool.and_eq_true, Bool.or_eq_true, Nat.ble_eq, Nat.blt_eq] at h
  obtain ⟨⟨hascii, hvalid⟩, hcovers⟩ := h
  have hbounds : (r.first + r.shift).toNat ≤ m ∧ m ≤ (r.last + r.shift).toNat := by
    unfold CaseRun.lower? at hlower
    split at hlower
    · rename_i hrun
      cases hlower
      simp only [Bool.and_eq_true, decide_eq_true_eq] at hrun
      omega
    · cases hlower
  have hchar : m.isValidChar := by
    unfold Nat.isValidChar
    omega
  have hnat : (Char.ofNat m).toNat = m := by
    rw [Char.ofNat, dif_pos hchar]
    rfl
  unfold isLetter
  rw [hnat, if_neg (by omega)]
  exact contains_of_covers hcovers (le_of_le_of_eq hbounds.1 hnat.symm)
    (le_of_eq_of_le hnat hbounds.2)

theorem caseRuns_keepsLetters :
    caseRuns.all fun r => r.keepsLetters ||
      (r.first == 0x212a && r.last == 0x212a && r.shift == -0x20bf) := by
  decide +kernel

theorem isLetter_of_caseRun (h : caseRuns.findSome? (·.lower? n) = some m) :
    isLetter (Char.ofNat m) := by
  obtain ⟨r, hr, hlower⟩ := List.exists_of_findSome?_eq_some h
  obtain hkeeps | hkelvin := Bool.or_eq_true_iff.1 (List.all_eq_true.1 caseRuns_keepsLetters r hr)
  · exact isLetter_of_keepsLetters hkeeps hlower
  · simp only [Bool.and_eq_true, beq_iff_eq] at hkelvin
    obtain ⟨⟨hfirst, hlast⟩, hshift⟩ := hkelvin
    unfold CaseRun.lower? at hlower
    split at hlower
    · rename_i hrun
      cases hlower
      simp only [hfirst, hlast, Bool.and_eq_true, decide_eq_true_eq] at hrun
      obtain rfl : n = 0x212a := by omega
      rw [hshift]
      rfl
    · cases hlower

theorem isLetter_lowerChar (h : isLetter c) (hdotted : c ≠ 'İ') :
    ∃ d, lowerChar c = [d] ∧ isLetter d := by
  unfold lowerChar
  split
  · rename_i hascii
    have hsmall : ∀ n < 0x80, isLetter (Char.ofNat n) → isLetter (Char.ofNat n).toLower := by
      decide
    have hlower := hsmall c.toNat hascii
    rw [Char.ofNat_toNat] at hlower
    exact ⟨c.toLower, rfl, hlower h⟩
  · split
    · rename_i hrun
      exact ⟨_, rfl, isLetter_of_caseRun hrun⟩
    · exact ⟨c, rfl, h⟩

end GoEnum.Text
