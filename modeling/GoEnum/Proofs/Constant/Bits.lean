import GoEnum.Constant.Operation
import Mathlib.Algebra.Order.Ring.Int
import Mathlib.Data.Int.Bitwise

namespace GoEnum.Constant

theorem fits_iff : fits n = true ↔ -2 ^ 127 ≤ n ∧ n < 2 ^ 127 := by
  simp only [fits, Bool.and_eq_true, decide_eq_true_eq]
  simp only [minInt, maxInt, Nat.pow_eq]
  omega

theorem fits_toInt (x : BitVec 128) : fits x.toInt := by
  have hlower := x.le_toInt
  have hupper := x.toInt_lt
  simp only [fits_iff]
  omega

theorem toInt_ofInt_of_fits (h : fits n) : (BitVec.ofInt 128 n).toInt = n := by
  rw [fits_iff] at h
  rw [BitVec.toInt_ofInt]
  exact Int.bmod_eq_of_le (by omega) (by omega)

theorem getLsbD_ofInt (n : Int) (i : Nat) :
    (BitVec.ofInt w n).getLsbD i = (decide (i < w) && n.testBit i) := by
  cases n with
  | ofNat n => simp [Int.testBit, BitVec.getLsbD_ofNat]
  | negSucc n =>
    rw [BitVec.ofInt_negSucc_eq_not_ofNat, BitVec.getLsbD_not, BitVec.getLsbD_ofNat, Int.testBit]
    by_cases h : i < w <;> simp [h]

@[simp] theorem getElem_ofInt (n : Int) (h : i < w) : (BitVec.ofInt w n)[i] = n.testBit i := by
  rw [← BitVec.getLsbD_eq_getElem h, getLsbD_ofInt]
  simp [h]

def magnitude : Int → Nat
  | .ofNat n => n
  | .negSucc n => n

theorem testBit_magnitude (n : Int) (i : Nat) :
    n.testBit i = (decide (n < 0) ^^ (magnitude n).testBit i) := by
  cases n with
  | ofNat n =>
    rw [Int.ofNat_eq_natCast, decide_eq_false (Int.not_lt.2 (Int.natCast_nonneg n)),
      Bool.false_xor]
    rfl
  | negSucc n => simp [Int.testBit, magnitude]

theorem fits_iff_magnitude : fits n = true ↔ magnitude n < 2 ^ 127 := by
  rw [fits_iff]
  cases n with
  | ofNat n =>
    rw [magnitude, Int.ofNat_eq_natCast]
    omega
  | negSucc n =>
    rw [magnitude, Int.negSucc_eq]
    omega

theorem fits_iff_testBit : fits n = true ↔ ∃ sign, ∀ i, 127 ≤ i → n.testBit i = sign := by
  rw [fits_iff_magnitude]
  constructor
  · intro h
    refine ⟨decide (n < 0), fun i hi => ?_⟩
    have hlt := Nat.lt_of_lt_of_le h (Nat.pow_le_pow_right (by decide) hi)
    rw [testBit_magnitude, Nat.testBit_lt_two_pow hlt, Bool.xor_false]
  · rintro ⟨sign, hsign⟩
    apply Nat.lt_pow_two_of_testBit
    intro i hi
    have hfar : (magnitude n).testBit (127 + magnitude n) = false :=
      Nat.testBit_lt_two_pow (Nat.lt_of_lt_of_le Nat.lt_two_pow_self
        (Nat.pow_le_pow_right (by decide) (by omega)))
    have hsame := (hsign i hi).trans (hsign (127 + magnitude n) (by omega)).symm
    rw [testBit_magnitude, testBit_magnitude n, hfar] at hsame
    exact Bool.xor_right_inj.1 hsame

theorem fits_of_testBit (op : Bool → Bool → Bool) (ha : fits a) (hb : fits b)
    (hr : ∀ i, Int.testBit r i = op (a.testBit i) (b.testBit i)) : fits r := by
  obtain ⟨s, hs⟩ := fits_iff_testBit.1 ha
  obtain ⟨t, ht⟩ := fits_iff_testBit.1 hb
  exact fits_iff_testBit.2 ⟨op s t, fun i hi => by rw [hr, hs i hi, ht i hi]⟩

theorem bitwise_eq {f : BitVec 128 → BitVec 128 → BitVec 128} (op : Bool → Bool → Bool)
    (ha : fits a) (hb : fits b)
    (hf : ∀ x y i, i < 128 → (f x y).getLsbD i = op (x.getLsbD i) (y.getLsbD i))
    (hr : ∀ i, Int.testBit r i = op (a.testBit i) (b.testBit i)) : bitwise f a b = r := by
  have heq : f (.ofInt 128 a) (.ofInt 128 b) = .ofInt 128 r := by
    apply BitVec.eq_of_getLsbD_eq
    intro i hi
    rw [hf _ _ i hi, getLsbD_ofInt, getLsbD_ofInt, getLsbD_ofInt, hr]
    simp [hi]
  rw [bitwise, heq, toInt_ofInt_of_fits (fits_of_testBit op ha hb hr)]

theorem bitwise_and (ha : fits a) (hb : fits b) : bitwise (· &&& ·) a b = Int.land a b :=
  bitwise_eq (· && ·) ha hb (fun _ _ _ _ => BitVec.getLsbD_and) (Int.testBit_land a b)

theorem bitwise_or (ha : fits a) (hb : fits b) : bitwise (· ||| ·) a b = Int.lor a b :=
  bitwise_eq (· || ·) ha hb (fun _ _ _ _ => BitVec.getLsbD_or) (Int.testBit_lor a b)

theorem bitwise_xor (ha : fits a) (hb : fits b) : bitwise (· ^^^ ·) a b = Int.xor a b :=
  bitwise_eq (· ^^ ·) ha hb (fun _ _ _ _ => BitVec.getLsbD_xor) (Int.testBit_lxor a b)

theorem bitwise_andNot (ha : fits a) (hb : fits b) :
    bitwise (fun x y => x &&& ~~~y) a b = Int.ldiff a b :=
  bitwise_eq (fun x y => x && !y) ha hb (fun _ _ _ hi => by simp [hi]) (Int.testBit_ldiff a b)

theorem xor_two_pow_sub_one (h : n < 2 ^ w) : n ^^^ (2 ^ w - 1) = 2 ^ w - 1 - n := by
  apply Nat.eq_of_testBit_eq
  intro i
  rw [Nat.testBit_xor, Nat.testBit_two_pow_sub_one, Nat.sub_sub, Nat.add_comm 1 n,
    Nat.testBit_two_pow_sub_succ h]
  by_cases hi : i < w
  · simp [hi]
  · have hn : n.testBit i = false := by
      apply Nat.testBit_lt_two_pow
      exact Nat.lt_of_lt_of_le h (Nat.pow_le_pow_right (by decide) (by omega))
    simp [hi, hn]

theorem complement_unsigned (hw : w ≤ 127) (h0 : 0 ≤ n) (hn : n < 2 ^ w) :
    complement (some w) n = 2 ^ w - 1 - n := by
  obtain ⟨n, rfl⟩ := Int.eq_ofNat_of_zero_le h0
  have hn : n < 2 ^ w := by exact_mod_cast hn
  have hw : 2 ^ w ≤ 2 ^ 127 := Nat.pow_le_pow_right (by decide) hw
  have hpos : 1 ≤ 2 ^ w := Nat.one_le_two_pow
  have hmask : ((Nat.pow 2 w : Int) - 1) = ((2 ^ w - 1 : Nat) : Int) := by
    rw [Nat.cast_sub hpos, Nat.pow_eq]
    rfl
  have hfits : ∀ k : Nat, k < 2 ^ w → fits k := by
    intro k hk
    rw [fits_iff]
    omega
  rw [complement, hmask, bitwise_xor (hfits n hn) (hfits _ (by omega))]
  change ((n ^^^ (2 ^ w - 1) : Nat) : Int) = _
  rw [xor_two_pow_sub_one hn]
  push_cast [hpos, Nat.le_sub_one_of_lt hn]
  rfl

theorem complement_signed (h : fits n) : complement none n = -n - 1 := by
  have hnot : ~~~BitVec.ofInt 128 n = BitVec.ofInt 128 (-n - 1) := by
    apply BitVec.eq_of_getLsbD_eq
    intro i hi
    have hlnot : -n - 1 = n.lnot := by
      cases n with
      | ofNat n =>
        rw [Int.lnot, Int.negSucc_eq, Int.ofNat_eq_natCast]
        omega
      | negSucc n =>
        rw [Int.lnot, Int.negSucc_eq]
        omega
    simp [hi, hlnot, Int.testBit_lnot]
  rw [complement, hnot, toInt_ofInt_of_fits]
  rw [fits_iff] at *
  omega

theorem shiftLeft_ofInt (n : Int) (c : Nat) :
    BitVec.ofInt w n <<< c = BitVec.ofInt w (n * 2 ^ c) := by
  have htwo : BitVec.twoPow w c = BitVec.ofInt w (2 ^ c) := by
    apply BitVec.eq_of_toNat_eq
    rw [BitVec.toNat_twoPow, show (2 ^ c : Int) = ((2 ^ c : Nat) : Int) by push_cast; rfl,
      BitVec.ofInt_natCast, BitVec.toNat_ofNat]
  rw [BitVec.shiftLeft_eq_mul_twoPow, htwo, BitVec.ofInt_mul]

theorem pow_dvd_shiftLeft (n : Int) (h : c ≤ w) :
    2 ^ c ∣ (BitVec.ofInt w n <<< c).toInt := by
  rw [shiftLeft_ofInt, BitVec.toInt_ofInt]
  have hw : (2 ^ c : Int) ∣ ((2 ^ w : Nat) : Int) := by
    push_cast
    exact pow_dvd_pow 2 h
  rw [Int.bmod_eq_self_sub_mul_bdiv]
  exact Int.dvd_sub (Int.dvd_mul_left n (2 ^ c)) (hw.mul_right _)

theorem shiftLeft_eq_ok (h : shiftLeft n count = .ok m) :
    m = n * 2 ^ count.toNat ∧ fits m := by
  unfold shiftLeft at h
  split at h
  · cases h
    simp [*, fits_iff]
  · split at h
    · cases h
    · dsimp only at h
      split at h
      · rename_i hcount hback
        have hm := Except.ok.inj h
        rw [hm, Int.shiftRight_eq_div_pow] at hback
        push_cast at hback
        have hdvd := pow_dvd_shiftLeft n (show count.toNat ≤ 128 by omega)
        rw [hm] at hdvd
        refine ⟨?_, hm ▸ fits_toInt _⟩
        rw [← hback, Int.ediv_mul_cancel hdvd]
      · cases h

theorem pow_le_natAbs {n : Int} (hn : n ≠ 0) (c : Nat) : 2 ^ c ≤ (n * 2 ^ c).natAbs := by
  rw [Int.natAbs_mul, Int.natAbs_pow]
  exact Nat.le_mul_of_pos_left _ (Int.natAbs_pos.2 hn)

theorem shiftLeft_of_lt (h : (n * 2 ^ count.toNat).natAbs < 2 ^ 127) :
    shiftLeft n count = .ok (n * 2 ^ count.toNat) := by
  unfold shiftLeft
  split
  · simp [*]
  · have hpow : 2 ^ count.toNat < 2 ^ 127 := (pow_le_natAbs ‹n ≠ 0› _).trans_lt h
    have hcount : count.toNat < 127 := (Nat.pow_lt_pow_iff_right (by decide)).1 hpow
    have hshift : (BitVec.ofInt 128 n <<< count.toNat).toInt = n * 2 ^ count.toNat := by
      rw [shiftLeft_ofInt, toInt_ofInt_of_fits]
      rw [fits_iff]
      omega
    have hback : (n * 2 ^ count.toNat) >>> count.toNat = n := by
      rw [Int.shiftRight_eq_div_pow]
      push_cast
      exact Int.mul_ediv_cancel n (by simp)
    rw [if_neg (by omega)]
    dsimp only
    rw [hshift, if_pos hback]

theorem shiftRight_eq (hn : fits n) :
    shiftRight n count = n.fdiv (2 ^ count.toNat) := by
  have hpow : (0 : Int) < 2 ^ count.toNat := by simp
  rw [Int.fdiv_eq_ediv_of_nonneg _ hpow.le]
  unfold shiftRight
  split
  · have hle : (2 : Int) ^ 127 ≤ 2 ^ count.toNat :=
      pow_le_pow_right₀ (by decide) (by omega)
    rw [fits_iff] at hn
    split
    · have hlower : -1 ≤ n / 2 ^ count.toNat := Int.le_ediv_of_mul_le hpow (by omega)
      have hupper : n / 2 ^ count.toNat < 0 := Int.ediv_neg_of_neg_of_pos ‹n < 0› hpow
      omega
    · exact (Int.ediv_eq_zero_of_lt (by omega) (by omega)).symm
  · rw [Int.shiftRight_eq_div_pow]
    push_cast
    rfl

theorem fits_fdiv (hn : fits n) (c : Nat) : fits (n.fdiv (2 ^ c)) := by
  have hpow : (0 : Int) < 2 ^ c := by simp
  rw [Int.fdiv_eq_ediv_of_nonneg _ hpow.le]
  have hle := Int.natAbs_ediv_le_natAbs n (2 ^ c)
  rw [fits_iff] at *
  obtain hneg | hnonneg := lt_or_ge n 0
  · have hlt := Int.ediv_neg_of_neg_of_pos hneg hpow
    omega
  · omega

end GoEnum.Constant
