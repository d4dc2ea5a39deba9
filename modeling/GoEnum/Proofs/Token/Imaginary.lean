import GoEnum.Proofs.Token.Gaps
import GoEnum.Proofs.Token.Numeral

namespace GoEnum.Token

open Text

inductive IntegerText : Char → List Char → Prop
  | plain : c.isDigit → AllDigits 10 cs → IntegerText c cs
  | inBase : (letter, b) ∈ baseLetters → AllDigits b cs → IntegerText '0' (letter :: cs)

def Announces (b : Nat) (text : List Char) : Prop :=
  ∃ letter cs, (letter, b) ∈ baseLetters ∧ text = '0' :: letter :: cs

section

variable {s : String} {c : Char} {cs : List Char} {n b : Nat}

theorem exists_lexeme_of_lex (h : lex s = .ok (⟨k, ⟨0, s.utf8ByteSize⟩⟩ :: ts)) (hk : k ≠ .eof) :
    ∃ c cs length, s.toList = c :: cs ∧ lexeme c cs = .token k length ∧ cs.length ≤ length := by
  obtain ⟨ps, hcut, htokens⟩ := lex_eq_ok.1 h
  rw [← byteSize_toList] at htokens
  generalize s.toList = text at hcut htokens
  cases text with
  | nil =>
    cases hcut
    exact absurd (congrArg Spanned.node (List.cons.inj htokens).1).symm hk
  | cons c cs =>
    obtain ⟨form, length, qs, hlexeme, hrest, rfl⟩ := hcut.exists_cons
    have hsplit : byteSize (c :: cs) =
        byteSize (c :: cs.take length) + byteSize (cs.drop length) := by
      rw [← byteSize_append, List.cons_append, List.take_append_drop]
    by_cases hform : ∀ k', form ≠ .token k'
    · -- A token behind a gap would not start at the beginning.
      have htiles := tiles_of_cut hrest (0 + byteSize (c :: cs.take length)) false
      rw [← tokensAt_skip hform, htokens] at htiles
      have hzero : _ ≤ 0 := htiles.from_start _ List.mem_cons_self
      have hpos := c.utf8Size_pos
      rw [byteSize] at hzero
      omega
    · push Not at hform
      obtain ⟨k', rfl⟩ := hform
      obtain ⟨hfirst, -⟩ := List.cons.inj htokens
      obtain ⟨rfl, hspan⟩ := Spanned.mk.inj hfirst
      have hsize : 0 + byteSize (c :: cs.take length) = byteSize (c :: cs) :=
        congrArg Span.stop hspan
      have hnil : cs.drop length = [] := byteSize_eq_zero (by omega)
      exact ⟨c, cs, length, rfl, hlexeme, List.drop_eq_nil_iff.1 hnil⟩

theorem radixOf?_eq_some : radixOf? c = some b ↔ (c, b) ∈ baseLetters := by
  unfold radixOf?
  split <;> simp_all [baseLetters, eq_comm]

theorem string_of_stringRest (h : (stringRest k bytes faults cs).form = .token kind) :
    ∃ s, kind = .string s := by
  fun_induction stringRest with
  | case1 => cases h
  | case2 => cases h
  | case3 =>
    unfold closedString at h
    split at h
    · split at h <;> cases h
      exact ⟨_, rfl⟩
    · cases h
  | case4 =>
    rename_i ih
    exact ih h
  | case5 =>
    rename_i ih
    exact ih h
  | case6 =>
    rename_i ih
    exact ih h

theorem string_of_rawString (h : (rawString cs).form = .token kind) : ∃ s, kind = .string s := by
  unfold rawString at h
  dsimp only at h
  split at h <;> cases h
  exact ⟨_, rfl⟩

theorem rune_of_closeRune (h : (closeRune v k cs).form = .token kind) : ∃ v, kind = .rune v := by
  unfold closeRune at h
  split at h <;> cases h
  exact ⟨_, rfl⟩

theorem rune_of_runeLiteral (h : (runeLiteral cs).form = .token kind) : ∃ v, kind = .rune v := by
  unfold runeLiteral at h
  split at h
  · cases h
  · split at h
    · cases h
    · split at h
      · cases h
      · split at h
        · dsimp only at h
          split at h
          · exact rune_of_closeRune h
          · cases h
        · exact rune_of_closeRune h

theorem isLiteral_of_wordOrSymbol (h : (wordOrSymbol c cs).form = .token kind) :
    kind.isLiteral = false := by
  unfold wordOrSymbol at h
  split at h
  · unfold word at h
    dsimp only at h
    split at h <;> cases h <;> rfl
  · split at h
    · cases h
      rfl
    · split at h <;> cases h
      rfl

theorem length_of_fraction_eq_none (h : (mantissa c cs).fraction = none) :
    c ≠ '.' ∧ (mantissa c cs).length = (digitRun 10 cs).length := by
  by_cases hc : c = '.'
  · subst hc
    cases h
  · refine ⟨hc, ?_⟩
    unfold mantissa at h ⊢
    dsimp only at h ⊢
    rw [if_neg hc] at h ⊢
    split at h
    · cases h
    · rfl

theorem decimalNumber_eq_int (h : decimalNumber c cs = .token (.int n) length) :
    c ≠ '.' ∧ (digitRun 10 cs).length = length := by
  rw [decimalNumber_eq, Mantissa.number] at h
  split at h
  · cases h
  · rename_i exponent hexponent
    dsimp only at h
    split at h
    · cases h
    · split at h
      · cases h
      · rename_i hinteger
        simp only [Bool.or_eq_true, not_or, Bool.not_eq_true, Option.isSome_eq_false_iff,
          Option.isNone_iff_eq_none] at hinteger
        obtain ⟨hfraction, rfl⟩ := hinteger
        obtain ⟨hc, hlength⟩ := length_of_fraction_eq_none hfraction
        split at h <;> cases h
        exact ⟨hc, hlength.symm⟩

theorem isDigit_of_lexeme (h : lexeme c cs = .token (.int n) length) : c.isDigit := by
  have hform := congrArg Lexeme.form h
  unfold lexeme at h
  split at h
  · cases h
  · cases h
  · cases h
  · cases h
  · cases h
  · unfold blockComment at h
    split at h
    · cases h
    · split at h <;> cases h
  · obtain ⟨s, hs⟩ := string_of_stringRest hform
    cases hs
  · obtain ⟨s, hs⟩ := string_of_rawString hform
    cases hs
  · obtain ⟨v, hv⟩ := rune_of_runeLiteral hform
    cases hv
  · cases h
  · split at h
    · change decimalNumber '.' _ = _ at h
      exact absurd rfl (decimalNumber_eq_int h).1
    · cases h
  · split at h
    · assumption
    · cases isLiteral_of_wordOrSymbol (congrArg Lexeme.form h)

theorem allDigits_of_length (h : cs.length ≤ (digitRun b cs).length) : AllDigits b cs := by
  intro d hd
  have hrun : cs.takeWhile (fun c => c == '_' || (digit? b c).isSome) = cs :=
    (List.takeWhile_prefix _).eq_of_length_le h
  rw [← hrun] at hd
  have hdigit := List.mem_takeWhile_imp hd
  rwa [Bool.or_eq_true, beq_iff_eq] at hdigit

theorem integerText_of_prefixedInt (hletter : (letter, b) ∈ baseLetters)
    (h : prefixedInt b cs = .token (.int n) length) (hlength : cs.length + 1 ≤ length) :
    IntegerText '0' (letter :: cs) := by
  refine .inBase hletter (allDigits_of_length ?_)
  unfold prefixedInt at h
  dsimp only at h
  split at h
  · cases h
  · split at h
    · cases h
    · split at h
      · cases h
      · split at h <;> cases h
        exact Nat.le_of_succ_le_succ hlength

theorem integerText_of_lexeme (h : lexeme c cs = .token (.int n) length)
    (hlength : cs.length ≤ length) : IntegerText c cs := by
  have hc := isDigit_of_lexeme h
  rw [lexeme_digit hc] at h
  have hplain (h : decimalNumber c cs = .token (.int n) length) : IntegerText c cs := by
    refine .plain hc (allDigits_of_length ?_)
    rwa [(decimalNumber_eq_int h).2]
  unfold number at h
  split at h
  · split at h
    · rename_i hradix
      exact integerText_of_prefixedInt (radixOf?_eq_some.1 hradix) h hlength
    · exact hplain h
  · exact hplain h

theorem digitRun_suffix (h : AllDigits b cs) (hb : b ≤ 16) :
    digitRun b (cs ++ ['i']) = ⟨cs.filter (· != '_'), cs.length⟩ := by
  have hstops : Stops (fun d => d == '_' || (digit? b d).isSome) ['i'] := by
    refine stops_cons ?_
    simp [digit?]
    omega
  rw [digitRun, takeWhile_append_of_stops h.all hstops]

theorem prefixedInt_suffix (hletter : (letter, b) ∈ baseLetters) (h : AllDigits b cs) :
    prefixedInt b (cs ++ ['i']) = .fault (.invalidDigit b) (cs.length + 2) := by
  have hbases : ∀ x ∈ baseLetters, x.2 ≤ 16 := by decide
  simp [prefixedInt, digitRun_suffix h (hbases _ hletter)]

theorem decimalNumber_suffix (hc : c ≠ '.') (h : AllDigits 10 cs) :
    decimalNumber c (cs ++ ['i']) = .token (.imaginary (.ofDecimal
      (ofDigits 10 ((c :: cs.filter (· != '_')).filterMap (digit? 10))) 0)) (cs.length + 1) := by
  have hrun := digitRun_suffix h (by decide)
  have hwhole : mantissa c (cs ++ ['i']) = ⟨c :: cs.filter (· != '_'), none, cs.length⟩ := by
    rw [mantissa_whole hc (by simp [hrun]), hrun]
  rw [decimalNumber_eq, hwhole]
  simp [Mantissa.number, exponentPart, decimalValue]

theorem not_allDigits_of_mem_baseLetters (h : (letter, b) ∈ baseLetters) :
    ¬ AllDigits 10 (letter :: cs) := by
  intro hall
  have hnone := radixOf?_eq_none (hall letter List.mem_cons_self)
  rw [radixOf?_eq_some.2 h] at hnone
  cases hnone

theorem number_plain_suffix (h : AllDigits 10 cs) :
    number c (cs ++ ['i']) = decimalNumber c (cs ++ ['i']) := by
  unfold number
  split
  · rename_i d rest htext
    have hradix : radixOf? d = none := by
      cases cs with
      | nil =>
        obtain ⟨rfl, -⟩ := List.cons.inj htext
        rfl
      | cons e cs =>
        obtain ⟨rfl, -⟩ := List.cons.inj htext
        exact radixOf?_eq_none (h e List.mem_cons_self)
    rw [hradix]
  · rfl

theorem lexeme_plain_suffix (hc : c.isDigit) (hcs : AllDigits 10 cs) :
    ∃ m, readNat? 10 ((c :: cs).filter (· != '_')) = some m ∧
      lexeme c (cs ++ ['i']) = .token (.imaginary (.ofDecimal m 0)) (cs ++ ['i']).length := by
  have hsep : c ≠ '_' := by
    rintro rfl
    cases hc
  have hpoint : c ≠ '.' := by
    rintro rfl
    cases hc
  have hdigits : ∀ d ∈ c :: cs.filter (· != '_'), (digit? 10 d).isSome := by
    refine List.forall_mem_cons.2 ⟨by rwa [isSome_digit?_ten], fun d hd => ?_⟩
    obtain ⟨hmem, hne⟩ := List.mem_filter.1 hd
    exact (hcs d hmem).resolve_left (bne_iff_ne.1 hne)
  have hread := readNat?_eq_some (List.cons_ne_nil _ _) hdigits
  rw [List.filter_cons_of_pos (p := (· != '_')) (bne_iff_ne.2 hsep)]
  refine ⟨_, hread, ?_⟩
  rw [lexeme_digit hc, number_plain_suffix hcs, decimalNumber_suffix hpoint hcs,
    List.length_append, List.length_singleton]

theorem lexeme_inBase_suffix (hletter : (letter, b) ∈ baseLetters) (hcs : AllDigits b cs) :
    lexeme '0' (letter :: cs ++ ['i']) =
      .fault (.invalidDigit b) (letter :: cs ++ ['i']).length := by
  rw [lexeme_digit rfl, List.cons_append, number, radixOf?_eq_some.2 hletter]
  simpa using prefixedInt_suffix hletter hcs

/-- The suffix of imaginary numbers, after a text that is read as one integer. Without a prefix it
makes an imaginary number of the same digits, which are read as decimal digits even after a zero.
With a prefix it makes an error. -/
theorem lex_imaginary (h : lex s = .ok (⟨.int n, ⟨0, s.utf8ByteSize⟩⟩ :: ts)) :
    let t := s ++ "i"
    ((∀ b, ¬ Announces b s.toList) → ∃ m, readNat? 10 (s.toList.filter (· != '_')) = some m ∧
      lex t = .ok [⟨.imaginary (.ofDecimal m 0), ⟨0, t.utf8ByteSize⟩⟩,
        ⟨.punctuation .semicolon, .point t.utf8ByteSize⟩, ⟨.eof, .point t.utf8ByteSize⟩]) ∧
    ∀ b, Announces b s.toList →
      lex t = .error [⟨.invalidDigit b, ⟨0, t.utf8ByteSize⟩⟩] := by
  intro t
  obtain ⟨c, cs, length, htext, hlexeme, hlength⟩ := exists_lexeme_of_lex h nofun
  have htext' : t.toList = c :: (cs ++ ['i']) := by
    rw [String.toList_append, htext]
    rfl
  rw [htext]
  cases integerText_of_lexeme hlexeme hlength with
  | plain hc hcs =>
    constructor
    · intro _
      obtain ⟨m, hm, hsuffix⟩ := lexeme_plain_suffix hc hcs
      exact ⟨m, hm, lex_of_token htext' hsuffix⟩
    · rintro b ⟨letter, ds, hletter, heq⟩
      cases heq
      exact absurd hcs (not_allDigits_of_mem_baseLetters hletter)
  | inBase hletter hcs =>
    constructor
    · intro hnone
      exact absurd ⟨_, _, hletter, rfl⟩ (hnone _)
    · rintro b' ⟨letter', ds, hletter', heq⟩
      cases heq
      have hradix := (radixOf?_eq_some.2 hletter).symm.trans (radixOf?_eq_some.2 hletter')
      obtain rfl := Option.some.inj hradix
      exact lex_of_fault htext' (lexeme_inBase_suffix hletter hcs)

theorem lex_imaginary_octal :
    lex "0_17" = .ok [⟨.int 15, ⟨0, 4⟩⟩, ⟨.punctuation .semicolon, .point 4⟩, ⟨.eof, .point 4⟩] ∧
    lex "0_17i" = .ok [⟨.imaginary (.ofDecimal 17 0), ⟨0, 5⟩⟩,
      ⟨.punctuation .semicolon, .point 5⟩, ⟨.eof, .point 5⟩] ∧
    lex "0x1F" = .ok [⟨.int 31, ⟨0, 4⟩⟩, ⟨.punctuation .semicolon, .point 4⟩, ⟨.eof, .point 4⟩] ∧
    lex "0x1Fi" = .error [⟨.invalidDigit 16, ⟨0, 5⟩⟩] := by
  have hoctal : lex "0_17" = .ok [⟨.int 15, ⟨0, 4⟩⟩, ⟨.punctuation .semicolon, .point 4⟩,
      ⟨.eof, .point 4⟩] := by decide +kernel
  have hhex : lex "0x1F" = .ok [⟨.int 31, ⟨0, 4⟩⟩, ⟨.punctuation .semicolon, .point 4⟩,
      ⟨.eof, .point 4⟩] := by decide +kernel
  have hplain : ∀ b, ¬ Announces b "0_17".toList := by
    rintro b ⟨letter, cs, hletter, heq⟩
    cases heq
    have hletters : ∀ x ∈ baseLetters, x.1 ≠ '_' := by decide
    exact hletters _ hletter rfl
  obtain ⟨m, hm, hlex⟩ := (lex_imaginary hoctal).1 hplain
  obtain rfl : 17 = m := Option.some.inj hm
  have hannounced : Announces 16 "0x1F".toList := ⟨'x', ['1', 'F'], by decide, rfl⟩
  exact ⟨hoctal, hlex, hhex, (lex_imaginary hhex).2 16 hannounced⟩

/-- A hexadecimal integer that is no imaginary number with the suffix. -/
theorem prefixed_imaginary_rejected :
    lex "0x1F" = .ok [⟨.int 31, ⟨0, 4⟩⟩, ⟨.punctuation .semicolon, .point 4⟩, ⟨.eof, .point 4⟩] ∧
    ¬ ∃ x, lex ("0x1F" ++ "i") = .ok [⟨.imaginary x, ⟨0, 5⟩⟩,
      ⟨.punctuation .semicolon, .point 5⟩, ⟨.eof, .point 5⟩] := by
  have herror : lex ("0x1F" ++ "i") = .error [⟨.invalidDigit 16, ⟨0, 5⟩⟩] := by decide +kernel
  refine ⟨by decide +kernel, ?_⟩
  rintro ⟨x, hx⟩
  cases herror.symm.trans hx

end

end GoEnum.Token
