import GoEnum.Proofs.Text.Digits
import GoEnum.Proofs.Token.Atom

namespace GoEnum.Token

open Text

theorem isSome_digit?_ten (c : Char) : (digit? 10 c).isSome = c.isDigit := by
  have hdigit : ('0' ≤ c ∧ c ≤ '9') ↔ c.isDigit := by
    rw [Char.isDigit_iff_toNat, Char.le_def, Char.le_def, UInt32.le_iff_toNat_le,
      UInt32.le_iff_toNat_le]
    rfl
  unfold digit?
  split
  · rename_i h
    have hle := (Char.isDigit_iff_toNat.1 (hdigit.1 h)).2
    simp [hdigit.1 h]
    simp at hle
    omega
  · rename_i h
    rw [hdigit, Bool.not_eq_true] at h
    rw [h]
    split
    · simp
    · split <;> simp

theorem isIdentPart_of_isDigit (h : c.isDigit) : isIdentPart c := by
  have hle := (Char.isDigit_iff_toNat.1 h).2
  have hascii : c.toNat < 0x80 := Nat.lt_of_le_of_lt hle (by decide)
  simp [isIdentPart, isLetterOrNumber, isNumber, hascii, h]

theorem head?_toDigits (hn : 0 < n) : (Nat.toDigits 10 n).head? ≠ some '0' := by
  induction n using Nat.strongRecOn with
  | ind n ih =>
    rw [Nat.toDigits_eq_if (by decide)]
    split
    · interval_cases n <;> decide
    · rw [List.head?_append_of_ne_nil _ Nat.toDigits_ne_nil]
      exact ih (n / 10) (by omega) (by omega)

def isNumberPart (c : Char) : Bool := isIdentPart c || c == '.'

theorem plainInt_toDigits (n : Nat) : plainInt (Nat.toDigits 10 n) =
    if n < intLimit then .ok n else .error .outOfRange := by
  have hread := readNat?_toDigits (b := 10) (by decide) (by decide) n
  unfold plainInt
  split
  · rename_i d ds hds
    rcases Nat.eq_zero_or_pos n with rfl | hpos
    · cases hds
    · have hhead := head?_toDigits hpos
      rw [hds] at hhead
      exact absurd rfl hhead
  · rw [hread]

theorem digitRun_append (hcs : ∀ d ∈ cs, d.isDigit) (hrest : Stops isNumberPart rest) :
    digitRun 10 (cs ++ rest) = ⟨cs, cs.length⟩ := by
  have hstop : Stops (fun c => c == '_' || (digit? 10 c).isSome) rest := by
    intro c hc
    have hpart := hrest c hc
    simp only [isNumberPart, Bool.or_eq_false_iff] at hpart
    simp only [isSome_digit?_ten, Bool.or_eq_false_iff]
    constructor
    · simp_all [isIdentPart]
    · by_contra h
      simp [isIdentPart_of_isDigit (Bool.eq_true_of_not_eq_false h)] at hpart
  have hrun : ∀ c ∈ cs, (c == '_' || (digit? 10 c).isSome) = true := by
    intro c hc
    simp [isSome_digit?_ten, hcs c hc]
  have hplain : cs.filter (· != '_') = cs := by
    refine List.filter_eq_self.2 fun c hc => ?_
    rw [bne_iff_ne]
    rintro rfl
    cases hcs '_' hc
  rw [digitRun, takeWhile_append_of_stops hrun hstop, hplain]

theorem ne_of_stops (hrest : Stops isNumberPart (c :: rest)) (hd : isNumberPart d) : c ≠ d := by
  rintro rfl
  simp [hrest c rfl] at hd

theorem exponentPart_of_stops (hrest : Stops isNumberPart rest) :
    exponentPart rest = .ok none := by
  cases rest with
  | nil => rfl
  | cons c rest =>
    have hlower := ne_of_stops hrest (by decide : isNumberPart 'e')
    have hupper := ne_of_stops hrest (by decide : isNumberPart 'E')
    simp [exponentPart, hlower, hupper]

theorem decimalNumber_append (hc : c.isDigit) (hcs : ∀ d ∈ cs, d.isDigit)
    (hrest : Stops isNumberPart rest) (hvalue : plainInt (c :: cs) = .ok n) :
    decimalNumber c (cs ++ rest) = .token (.int n) cs.length := by
  have hpoint : c ≠ '.' := by
    rintro rfl
    cases hc
  have hexponent := exponentPart_of_stops hrest
  have himaginary : rest.head? ≠ some 'i' := by
    intro h
    cases hrest 'i' h
  cases rest with
  | nil =>
    have hrun := digitRun_append hcs hrest
    rw [List.append_nil] at hrun
    simp [decimalNumber, hrun, hpoint, hexponent, hvalue]
  | cons d rest =>
    have hd := ne_of_stops hrest (by decide : isNumberPart '.')
    simp only [List.head?_cons, ne_eq, Option.some.injEq] at himaginary
    simp [decimalNumber, digitRun_append hcs hrest, hpoint, hexponent, himaginary, hvalue, hd]

theorem number_append (hc : c.isDigit) (hcs : ∀ d ∈ cs, d.isDigit) (hzero : c = '0' → cs = [])
    (hrest : Stops isNumberPart rest) (hvalue : plainInt (c :: cs) = .ok n) :
    number c (cs ++ rest) = .token (.int n) cs.length := by
  have hdecimal := decimalNumber_append hc hcs hrest hvalue
  unfold number
  split
  · rename_i d ds happend
    have hradix : radixOf? d = none := by
      rw [hzero rfl, List.nil_append] at happend
      rw [happend] at hrest
      unfold radixOf?
      split <;> first | rfl | cases hrest _ rfl
    rw [hradix]
    exact happend ▸ hdecimal
  · exact hdecimal

theorem reads_decimal (hn : n < intLimit) :
    Reads (Stops isNumberPart) (Nat.toDigits 10 n) [.int n] := by
  have hvalue := (plainInt_toDigits n).trans (if_pos hn)
  have hdigits : ∀ c ∈ Nat.toDigits 10 n, c.isDigit :=
    fun c hc => Nat.isDigit_of_mem_toDigits (by decide) (by decide) hc
  have hzero : (Nat.toDigits 10 n).head? = some '0' → Nat.toDigits 10 n = ['0'] := by
    intro h
    rcases Nat.eq_zero_or_pos n with rfl | hpos
    · rfl
    · exact absurd h (head?_toDigits hpos)
  obtain ⟨c, cs, h⟩ := List.exists_cons_of_ne_nil (Nat.toDigits_ne_nil (n := n) (b := 10))
  rw [h] at hvalue hdigits hzero ⊢
  have hline : '\n' ∉ c :: cs := by
    intro hmem
    cases hdigits _ hmem
  refine reads_token hline fun rest hrest => ?_
  have hc := hdigits c List.mem_cons_self
  rw [lexeme_digit hc]
  refine number_append hc (fun d hd => hdigits d (List.mem_cons_of_mem c hd)) ?_ hrest hvalue
  rintro rfl
  exact (List.cons.inj (hzero rfl)).2

end GoEnum.Token
