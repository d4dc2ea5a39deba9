import GoEnum.Proofs.Token.Cut
import GoEnum.Proofs.Token.Number

namespace GoEnum.Token

open Text

/-- Digits of `n` in base `b`, in small or capital letters, after any number of zeros and with
separators in any places. -/
def WritesIn (b n : Nat) (cs : List Char) : Prop :=
  ∃ k, (cs.filter (· != '_')).map Char.toLower = List.replicate k '0' ++ Nat.toDigits b n

def baseLetters : List (Char × Nat) :=
  [('x', 16), ('X', 16), ('o', 8), ('O', 8), ('b', 2), ('B', 2)]

/-- The spellings of a number. A decimal numeral has no zeros in front of the number; digits after
a zero are octal. -/
inductive Numeral (n : Nat) : List Char → Prop
  | decimal : c ≠ '_' → (c :: cs).filter (· != '_') = Nat.toDigits 10 n → Numeral n (c :: cs)
  | inBase : (letter, b) ∈ baseLetters → WritesIn b n cs → Numeral n ('0' :: letter :: cs)
  | legacyOctal : WritesIn 8 n cs → Numeral n ('0' :: cs)

section

variable {c : Char} {cs : List Char} {n b : Nat}

def AllDigits (b : Nat) (cs : List Char) : Prop := ∀ d ∈ cs, d = '_' ∨ (digit? b d).isSome

theorem AllDigits.all (h : AllDigits b cs) :
    ∀ d ∈ cs, (d == '_' || (digit? b d).isSome) = true := by
  intro d hd
  rw [Bool.or_eq_true, beq_iff_eq]
  exact h d hd

theorem digitRun_whole (h : AllDigits b cs) :
    digitRun b cs = ⟨cs.filter (· != '_'), cs.length⟩ := by
  rw [digitRun, List.takeWhile_eq_self_iff.2 h.all]

def numeralLexeme (n length : Nat) (cause : LexCause) : Lexeme :=
  if n < intLimit then .token (.int n) length else .fault cause length

theorem prefixedInt_whole (h : AllDigits b cs) (hn : readNat? b (cs.filter (· != '_')) = some n) :
    prefixedInt b cs = numeralLexeme n (cs.length + 1) .outOfRange := by
  simp [prefixedInt, digitRun_whole h, hn, numeralLexeme]

theorem decimalNumber_whole (hc : c ≠ '.') (h : AllDigits 10 cs)
    (hn : plainInt (c :: cs.filter (· != '_')) = if n < intLimit then .ok n else .error cause) :
    decimalNumber c cs = numeralLexeme n cs.length cause := by
  simp only [decimalNumber, digitRun_whole h, List.drop_length, exponentPart, if_neg hc, hn,
    numeralLexeme]
  by_cases hlimit : n < intLimit <;> simp [hlimit]

theorem plainInt_octal (hds : ds ≠ []) (h : readNat? 8 ds = some n) :
    plainInt ('0' :: ds) = if n < intLimit then .ok n else .error .invalidOctal := by
  obtain ⟨d, ds, rfl⟩ := List.exists_cons_of_ne_nil hds
  rw [plainInt, h]

theorem radixOf?_eq_none (h : c = '_' ∨ (digit? 10 c).isSome) : radixOf? c = none := by
  unfold radixOf?
  split
  all_goals first | rfl | simp [digit?] at h

theorem number_of_allDigits (h : AllDigits 10 cs) : number c cs = decimalNumber c cs := by
  unfold number
  split
  · rename_i d rest
    rw [radixOf?_eq_none (h d List.mem_cons_self)]
  · rfl

theorem allDigits_of_readNat? (h : readNat? b (cs.filter (· != '_')) = some n) :
    AllDigits b cs := by
  intro d hd
  by_cases hsep : d = '_'
  · exact .inl hsep
  · have hmem : d ∈ cs.filter (· != '_') := List.mem_filter.2 ⟨hd, bne_iff_ne.2 hsep⟩
    exact .inr (isSome_of_readNat? h d hmem)

theorem AllDigits.weaken (h : AllDigits b cs) (hb : b ≤ b') : AllDigits b' cs :=
  fun d hd => (h d hd).imp_right (isSome_digit?_of_le hb)

theorem WritesIn.readNat? (h : WritesIn b n cs) (hb : 1 < b) (hb' : b ≤ 16) :
    Text.readNat? b (cs.filter (· != '_')) = some n := by
  obtain ⟨k, h⟩ := h
  rw [← readNat?_map_toLower, h, readNat?_zeros_append hb hb']

theorem number_inBase (hletter : (letter, b) ∈ baseLetters) (h : WritesIn b n cs) :
    number '0' (letter :: cs) = numeralLexeme n (letter :: cs).length .outOfRange := by
  have hbases : ∀ x ∈ baseLetters, radixOf? x.1 = some x.2 ∧ 1 < x.2 ∧ x.2 ≤ 16 := by decide
  obtain ⟨hradix, hb, hb'⟩ := hbases _ hletter
  have hread := h.readNat? hb hb'
  rw [number, hradix]
  exact prefixedInt_whole (allDigits_of_readNat? hread) hread

theorem number_legacyOctal (h : WritesIn 8 n cs) :
    number '0' cs = numeralLexeme n cs.length .invalidOctal := by
  have hread := h.readNat? (by decide) (by decide)
  have hdigits : AllDigits 10 cs := (allDigits_of_readNat? hread).weaken (by decide)
  have hne : cs.filter (· != '_') ≠ [] := by
    intro hnil
    rw [hnil] at hread
    cases hread
  rw [number_of_allDigits hdigits]
  exact decimalNumber_whole (by decide) hdigits (plainInt_octal hne hread)

theorem isDigit_of_mem_digits (h : cs.filter (· != '_') = Nat.toDigits 10 n) (hc : c ∈ cs)
    (hsep : c ≠ '_') : c.isDigit := by
  have hmem : c ∈ cs.filter (· != '_') := List.mem_filter.2 ⟨hc, bne_iff_ne.2 hsep⟩
  rw [h] at hmem
  exact Nat.isDigit_of_mem_toDigits (by decide) (by decide) hmem

theorem number_decimal (hc : c ≠ '_') (h : (c :: cs).filter (· != '_') = Nat.toDigits 10 n) :
    number c cs = numeralLexeme n cs.length .outOfRange := by
  have hdigits : AllDigits 10 cs := by
    intro d hd
    by_cases hsep : d = '_'
    · exact .inl hsep
    · rw [isSome_digit?_ten]
      exact .inr (isDigit_of_mem_digits h (List.mem_cons_of_mem c hd) hsep)
  have hpoint : c ≠ '.' := by
    rintro rfl
    cases isDigit_of_mem_digits h List.mem_cons_self hc
  have hvalue := plainInt_toDigits n
  rw [← h, List.filter_cons_of_pos (p := (· != '_')) (bne_iff_ne.2 hc)] at hvalue
  rw [number_of_allDigits hdigits]
  exact decimalNumber_whole hpoint hdigits hvalue

theorem Numeral.exists_lexeme (h : Numeral n text) : ∃ c cs cause, text = c :: cs ∧
    lexeme c cs = numeralLexeme n cs.length cause := by
  cases h with
  | decimal hc h =>
    refine ⟨_, _, .outOfRange, rfl, ?_⟩
    rw [lexeme_digit (isDigit_of_mem_digits h List.mem_cons_self hc), number_decimal hc h]
  | inBase hletter h =>
    refine ⟨_, _, .outOfRange, rfl, ?_⟩
    rw [lexeme_digit rfl, number_inBase hletter h]
  | legacyOctal h =>
    refine ⟨_, _, .invalidOctal, rfl, ?_⟩
    rw [lexeme_digit rfl, number_legacyOctal h]

/-- Every spelling of a number below the limit is lexed as one integer over the whole of it, which
the end of the text makes a statement. Every spelling of any other number is one error. -/
theorem lex_numeral (h : Numeral n text) :
    let s := String.ofList text
    (n < 2 ^ 128 → lex s = .ok [⟨.int n, ⟨0, s.utf8ByteSize⟩⟩,
      ⟨.punctuation .semicolon, .point s.utf8ByteSize⟩, ⟨.eof, .point s.utf8ByteSize⟩]) ∧
    (2 ^ 128 ≤ n → ∃ cause, lex s = .error [⟨cause, ⟨0, s.utf8ByteSize⟩⟩]) := by
  intro s
  obtain ⟨c, cs, cause, rfl, hlexeme⟩ := h.exists_lexeme
  have htext : s.toList = c :: cs := String.toList_ofList
  have hlimit : intLimit = 2 ^ 128 := rfl
  rw [numeralLexeme, hlimit] at hlexeme
  constructor
  · intro hn
    rw [if_pos hn] at hlexeme
    exact lex_of_token htext hlexeme
  · intro hn
    rw [if_neg (Nat.not_lt.2 hn)] at hlexeme
    exact ⟨cause, lex_of_fault htext hlexeme⟩

end

theorem lex_numeral_mixed :
    Numeral 0x2Af "0X_00_2aF_".toList ∧
    lex (String.ofList "0X_00_2aF_".toList) = .ok [⟨.int 0x2Af, ⟨0, 10⟩⟩,
      ⟨.punctuation .semicolon, .point 10⟩, ⟨.eof, .point 10⟩] ∧
    Numeral (2 ^ 128) "340282366920938463463374607431768211456".toList ∧
    ∃ cause, lex (String.ofList "340282366920938463463374607431768211456".toList) =
      .error [⟨cause, ⟨0, 39⟩⟩] := by
  have hmixed : Numeral 0x2Af "0X_00_2aF_".toList :=
    .inBase (b := 16) (by decide) ⟨2, by decide⟩
  have hlarge : Numeral (2 ^ 128) "340282366920938463463374607431768211456".toList :=
    .decimal (by decide) (by decide +kernel)
  exact ⟨hmixed, (lex_numeral hmixed).1 (by decide), hlarge, (lex_numeral hlarge).2 (by decide)⟩

end GoEnum.Token
