import GoEnum.Proofs.Token.Line
import GoEnum.Proofs.Token.Number
import GoEnum.Proofs.Token.Spelled

namespace GoEnum.Token

open Text

def Apart (rest : List Char) : Prop := ∀ c ∈ rest.head?, isBlank c

theorem apart_nil : Apart [] := by simp [Apart]

theorem apart_cons (h : isBlank c) (cs : List Char) : Apart (c :: cs) := by
  rintro _ ⟨⟩
  exact h

theorem forall_blank {p : Char → Bool} (h : ∀ n ∈ blankCodes, p (Char.ofNat n)) (hc : isBlank c) :
    p c := by
  have hcode := h _ (mem_blankCodes hc)
  rwa [Char.ofNat_toNat] at hcode

theorem ne_of_isBlank (hc : isBlank c) (hd : isBlank d = false) : c ≠ d := by
  rintro rfl
  rw [hc] at hd
  cases hd

theorem isIdentPart_of_isBlank (hc : isBlank c) : isIdentPart c = false := by
  by_contra h
  rw [isBlank_of_isIdentPart (Bool.eq_true_of_not_eq_false h)] at hc
  cases hc

theorem isAlphanum_of_isBlank (hc : isBlank c) : c.isAlphanum = false := by
  have hblank := forall_blank (p := fun c => !c.isAlphanum) (by decide) hc
  simpa using hblank

theorem digit?_of_isBlank (radix : Nat) (hc : isBlank c) : digit? radix c = none := by
  have hblank := forall_blank (p := fun c => !(decide ('0' ≤ c) && decide (c ≤ '9')) &&
    (!(decide ('a' ≤ c) && decide (c ≤ 'z')) && !(decide ('A' ≤ c) && decide (c ≤ 'Z'))))
    (by decide) hc
  simp only [Bool.and_eq_true, Bool.not_eq_true', Bool.and_eq_false_iff, decide_eq_false_iff_not,
    ← not_and_or] at hblank
  obtain ⟨hdigit, hlower, hupper⟩ := hblank
  rw [digit?, if_neg hdigit, if_neg hlower, if_neg hupper]
  rfl

theorem isOperatorChar_of_isBlank (hc : isBlank c) : isOperatorChar c = false := by
  have hblank := forall_blank (p := fun c => !isOperatorChar c) (by decide) hc
  simpa using hblank

section

variable {rest : List Char}

theorem Apart.stops {p : Char → Bool} (h : Apart rest) (hp : ∀ {c}, isBlank c → p c = false) :
    Stops p rest := fun c hc => hp (h c hc)

theorem Apart.take (h : Apart rest) (n : Nat) : Apart (rest.take n) := by
  cases n with
  | zero => exact apart_nil
  | succ n =>
    cases rest with
    | nil => exact apart_nil
    | cons c cs => exact apart_cons (h c rfl) _

theorem takeWhile_append_apart {p : Char → Bool} (h : Apart rest)
    (hp : ∀ {c}, isBlank c → p c = false) (cs : List Char) :
    (cs ++ rest).takeWhile p = cs.takeWhile p := by
  induction cs with
  | nil =>
    cases rest with
    | nil => rfl
    | cons c rest => simp [hp (h c rfl)]
  | cons c cs ih => rw [List.cons_append, List.takeWhile_cons, List.takeWhile_cons, ih]

theorem word_apart (h : Apart rest) (c : Char) (cs : List Char) :
    word c (cs ++ rest) = word c cs := by
  rw [word, takeWhile_append_apart h isIdentPart_of_isBlank, word]

theorem longest?_apart (h : Apart rest) (cs : List Char) :
    Operator.longest? (cs ++ rest) = Operator.longest? cs := by
  have hsame : ∀ p : Operator,
      p.spelling.toList.isPrefixOf (cs ++ rest) = p.spelling.toList.isPrefixOf cs :=
    fun p => isPrefixOf_append_of_stops (isOperatorChar_of_mem_spelling p)
      (h.stops isOperatorChar_of_isBlank)
  simp only [Operator.longest?, hsame]

theorem wordOrSymbol_apart (h : Apart rest) (c : Char) (cs : List Char) :
    wordOrSymbol c (cs ++ rest) = wordOrSymbol c cs := by
  rw [wordOrSymbol, word_apart h, ← List.cons_append, longest?_apart h, wordOrSymbol]

theorem digitRun_apart (h : Apart rest) (radix : Nat) (cs : List Char) :
    digitRun radix (cs ++ rest) = digitRun radix cs := by
  rw [digitRun, takeWhile_append_apart h, digitRun]
  intro c hc
  have hscore := ne_of_isBlank hc (d := '_') (by decide)
  simp [digit?_of_isBlank radix hc, hscore]

theorem length_digitRun_le (radix : Nat) (cs : List Char) :
    (digitRun radix cs).length ≤ cs.length := (List.takeWhile_prefix _).length_le

theorem drop_digitRun_append (radix : Nat) (cs rest : List Char) :
    (cs ++ rest).drop (digitRun radix cs).length = cs.drop (digitRun radix cs).length ++ rest :=
  List.drop_append_of_le_length (length_digitRun_le radix cs)

theorem head?_append_apart (h : Apart rest) (cs : List Char) :
    (cs ++ rest).head? = cs.head? ∨
      cs.head? = none ∧ ∃ c, (cs ++ rest).head? = some c ∧ isBlank c := by
  cases cs with
  | cons c cs => exact .inl rfl
  | nil =>
    cases rest with
    | nil => exact .inl rfl
    | cons c rest => exact .inr ⟨rfl, c, rfl, h c rfl⟩

theorem head?_ne_of_apart (h : Apart rest) (hd : isBlank d = false) (cs : List Char) :
    (cs ++ rest).head? = some d ↔ cs.head? = some d := by
  obtain heq | ⟨hnone, c, hc, hblank⟩ := head?_append_apart h cs
  · rw [heq]
  · simp [hnone, hc, ne_of_isBlank hblank hd]

theorem prefixedInt_apart (h : Apart rest) (radix : Nat) (cs : List Char) :
    prefixedInt radix (cs ++ rest) = prefixedInt radix cs := by
  have hany : ((cs.drop (digitRun radix cs).length ++ rest).head?).any Char.isAlphanum =
      ((cs.drop (digitRun radix cs).length).head?).any Char.isAlphanum := by
    obtain heq | ⟨hnone, c, hc, hblank⟩ :=
      head?_append_apart h (cs.drop (digitRun radix cs).length)
    · rw [heq]
    · simp [hnone, hc, isAlphanum_of_isBlank hblank]
  have hnext : ∀ d, isBlank d = false →
      ((cs.drop (digitRun radix cs).length ++ rest).head? = some d ↔
        (cs.drop (digitRun radix cs).length).head? = some d) :=
    fun d hd => head?_ne_of_apart h hd _
  simp only [prefixedInt, digitRun_apart h, drop_digitRun_append, hany,
    hnext '.' (by decide), hnext 'p' (by decide), hnext 'P' (by decide)]

theorem exponentPart_apart (h : Apart rest) (cs : List Char) :
    exponentPart (cs ++ rest) = exponentPart cs := by
  cases cs with
  | nil =>
    cases rest with
    | nil => rfl
    | cons c rest =>
      have hlower := ne_of_isBlank (h c rfl) (d := 'e') (by decide)
      have hupper := ne_of_isBlank (h c rfl) (d := 'E') (by decide)
      simp [exponentPart, hlower, hupper]
  | cons e cs =>
    cases cs with
    | nil =>
      cases rest with
      | nil => rfl
      | cons c rest =>
        have hminus := ne_of_isBlank (h c rfl) (d := '-') (by decide)
        have hplus := ne_of_isBlank (h c rfl) (d := '+') (by decide)
        have hrun := digitRun_apart h 10 []
        rw [List.nil_append] at hrun
        simp [exponentPart, hminus, hplus, hrun]
    | cons d cs =>
      have hrun := digitRun_apart h 10 (d :: cs)
      rw [List.cons_append] at hrun
      by_cases hminus : d = '-'
      · simp [exponentPart, hminus, digitRun_apart h]
      · by_cases hplus : d = '+'
        · simp [exponentPart, hplus, digitRun_apart h]
        · simp [exponentPart, hminus, hplus, hrun]

end

structure Mantissa where
  whole : List Char
  fraction : Option (List Char)
  length : Nat

def mantissa (first : Char) (cs : List Char) : Mantissa :=
  let run := digitRun 10 cs
  if first = '.' then ⟨['0'], some run.digits, run.length⟩
  else match cs.drop run.length with
    | '.' :: rest =>
      let frac := digitRun 10 rest
      ⟨first :: run.digits, some frac.digits, run.length + 1 + frac.length⟩
    | _ => ⟨first :: run.digits, none, run.length⟩

def Mantissa.number (m : Mantissa) (cs : List Char) : Lexeme :=
  match exponentPart cs with
  | .error n => .fault .emptyExponent (m.length + n)
  | .ok exponent =>
    let length := (exponent.map (·.2)).getD 0
    let value := decimalValue m.whole (m.fraction.getD []) ((exponent.map (·.1)).getD 0)
    if (cs.drop length).head? = some 'i' then .token (.imaginary value) (m.length + length + 1)
    else if m.fraction.isSome || exponent.isSome then .token (.float value) (m.length + length)
    else match plainInt m.whole with
      | .ok n => .token (.int n) (m.length + length)
      | .error cause => .fault cause (m.length + length)

theorem mantissa_point (cs : List Char) :
    mantissa '.' cs = ⟨['0'], some (digitRun 10 cs).digits, (digitRun 10 cs).length⟩ := rfl

theorem mantissa_fraction (hfirst : first ≠ '.') (h : cs.drop (digitRun 10 cs).length = '.' :: ds) :
    mantissa first cs = ⟨first :: (digitRun 10 cs).digits, some (digitRun 10 ds).digits,
      (digitRun 10 cs).length + 1 + (digitRun 10 ds).length⟩ := by
  simp [mantissa, hfirst, h]

theorem mantissa_whole (hfirst : first ≠ '.')
    (h : (cs.drop (digitRun 10 cs).length).head? ≠ some '.') :
    mantissa first cs = ⟨first :: (digitRun 10 cs).digits, none, (digitRun 10 cs).length⟩ := by
  unfold mantissa
  dsimp only
  rw [if_neg hfirst]
  split
  · rename_i hpoint
    rw [hpoint] at h
    exact absurd rfl h
  · rfl

theorem decimalNumber_eq (first : Char) (cs : List Char) : decimalNumber first cs =
    (mantissa first cs).number (cs.drop (mantissa first cs).length) := by
  by_cases hfirst : first = '.'
  · subst hfirst
    rw [mantissa_point]
    cases hexponent : exponentPart (cs.drop (digitRun 10 cs).length) <;>
      simp [decimalNumber, Mantissa.number, hexponent]
  · cases hdrop : cs.drop (digitRun 10 cs).length with
    | nil =>
      rw [mantissa_whole hfirst (by simp [hdrop])]
      cases hplain : plainInt (first :: (digitRun 10 cs).digits) <;>
        simp [decimalNumber, Mantissa.number, hfirst, hdrop, exponentPart, hplain]
    | cons d ds =>
      by_cases hpoint : d = '.'
      · subst hpoint
        rw [mantissa_fraction hfirst hdrop]
        cases hexponent : exponentPart
            (cs.drop ((digitRun 10 cs).length + 1 + (digitRun 10 ds).length)) <;>
          simp [decimalNumber, Mantissa.number, hfirst, hdrop, hexponent]
      · rw [mantissa_whole hfirst (by simp [hdrop, hpoint])]
        have hget : ∀ k, (d :: ds)[k]? = cs[(digitRun 10 cs).length + k]? := by
          intro k
          rw [← hdrop, List.getElem?_drop]
        cases hplain : plainInt (first :: (digitRun 10 cs).digits) <;>
        cases hexponent : exponentPart (d :: ds) <;>
          simp [decimalNumber, Mantissa.number, hfirst, hdrop, hpoint, hexponent, hplain, hget]

theorem length_mantissa_le (first : Char) (cs : List Char) :
    (mantissa first cs).length ≤ cs.length := by
  have hrun := length_digitRun_le 10 cs
  unfold mantissa
  dsimp only
  split
  · exact hrun
  · split
    · rename_i frac hfrac
      have hlength := congrArg List.length hfrac
      have hdigits := length_digitRun_le 10 frac
      rw [List.length_drop, List.length_cons] at hlength
      dsimp only
      omega
    · exact hrun

theorem length_exponentPart_le (h : exponentPart cs = .ok (some (n, length))) :
    length ≤ cs.length := by
  cases cs with
  | nil => cases h
  | cons e cs =>
    simp only [exponentPart] at h
    split at h
    · have hsigned : ∀ signed, signed ≤ cs.length →
          1 + signed + (digitRun 10 (cs.drop signed)).length ≤ (e :: cs).length := by
        intro signed hle
        have hrun := length_digitRun_le 10 (cs.drop signed)
        rw [List.length_drop] at hrun
        rw [List.length_cons]
        omega
      split at h
      · cases h
      · cases h
        split
        · exact hsigned 1 (by simp)
        · exact hsigned 1 (by simp)
        · exact hsigned 0 (Nat.zero_le _)
    · cases h

section

variable {rest : List Char}

theorem mantissa_apart (h : Apart rest) (first : Char) (cs : List Char) :
    mantissa first (cs ++ rest) = mantissa first cs := by
  simp only [mantissa, digitRun_apart h, drop_digitRun_append]
  cases hdrop : cs.drop (digitRun 10 cs).length with
  | cons d ds =>
    by_cases hpoint : d = '.'
    · simp [hpoint, digitRun_apart h]
    · simp [hpoint]
  | nil =>
    cases rest with
    | nil => rfl
    | cons c rest =>
      have hpoint := ne_of_isBlank (h c rfl) (d := '.') (by decide)
      simp [hpoint]

theorem Mantissa.number_apart (h : Apart rest) (m : Mantissa) (cs : List Char) :
    m.number (cs ++ rest) = m.number cs := by
  simp only [number, exponentPart_apart h]
  cases hexponent : exponentPart cs with
  | error n => rfl
  | ok exponent =>
    have hle : (exponent.map (·.2)).getD 0 ≤ cs.length := by
      cases exponent with
      | none => exact Nat.zero_le _
      | some e => exact length_exponentPart_le hexponent
    simp only [List.drop_append_of_le_length hle, head?_ne_of_apart h (d := 'i') (by decide)]

theorem decimalNumber_apart (h : Apart rest) (first : Char) (cs : List Char) :
    decimalNumber first (cs ++ rest) = decimalNumber first cs := by
  rw [decimalNumber_eq, mantissa_apart h, List.drop_append_of_le_length (length_mantissa_le _ _),
    Mantissa.number_apart h, decimalNumber_eq]

theorem radixOf?_of_isBlank (hc : isBlank c) : radixOf? c = none := by
  have hblank := forall_blank (p := fun c => radixOf? c == none) (by decide) hc
  simpa using hblank

theorem number_apart (h : Apart rest) (first : Char) (cs : List Char) :
    number first (cs ++ rest) = number first cs := by
  have hdecimal := decimalNumber_apart h first cs
  by_cases hfirst : first = '0'
  · subst hfirst
    cases cs with
    | cons d ds =>
      simp only [number, List.cons_append] at hdecimal ⊢
      rw [hdecimal]
      cases radixOf? d with
      | none => rfl
      | some radix => exact prefixedInt_apart h radix ds
    | nil =>
      cases rest with
      | nil => rfl
      | cons c rest => simpa [number, radixOf?_of_isBlank (h c rfl)] using hdecimal
  · have hnumber : ∀ ds, number first ds = decimalNumber first ds := by
      intro ds
      unfold number
      split
      · exact absurd rfl hfirst
      · rfl
    rw [hnumber, hnumber, hdecimal]

end

def Lexeme.Within (l : Lexeme) (cs : List Char) : Prop := l.faults = [] → l.length ≤ cs.length

theorem within_fault (cause : LexCause) (n : Nat) (cs : List Char) :
    (Lexeme.fault cause n).Within cs := by rintro ⟨⟩

theorem within_prefixedInt (radix : Nat) (c : Char) (cs : List Char) :
    (prefixedInt radix cs).Within (c :: cs) := by
  have hrun := length_digitRun_le radix cs
  unfold prefixedInt
  dsimp only
  split
  · exact within_fault _ _ _
  · split
    · exact within_fault _ _ _
    · split
      · exact within_fault _ _ _
      · split
        · exact fun _ => Nat.succ_le_succ hrun
        · exact within_fault _ _ _

theorem Mantissa.within_number (m : Mantissa) (h : m.length ≤ cs.length) :
    (m.number (cs.drop m.length)).Within cs := by
  unfold number
  split
  · exact within_fault _ _ _
  · rename_i exponent hexponent
    have hlength : (exponent.map (·.2)).getD 0 ≤ (cs.drop m.length).length := by
      cases exponent with
      | none => exact Nat.zero_le _
      | some e => exact length_exponentPart_le hexponent
    rw [List.length_drop] at hlength
    dsimp only
    split
    · rename_i himaginary
      have hlt := (List.getElem?_eq_some_iff.1 (List.head?_drop ▸ himaginary)).1
      rw [List.length_drop] at hlt
      intro _
      simp only [Lexeme.token]
      omega
    · split
      · intro _
        simp only [Lexeme.token]
        omega
      · split
        · intro _
          simp only [Lexeme.token]
          omega
        · exact within_fault _ _ _

theorem within_decimalNumber (c : Char) (cs : List Char) : (decimalNumber c cs).Within cs := by
  rw [decimalNumber_eq]
  exact Mantissa.within_number _ (length_mantissa_le c cs)

theorem within_number (c : Char) (cs : List Char) : (number c cs).Within cs := by
  unfold number
  split
  · split
    · exact within_prefixedInt _ _ _
    · exact within_decimalNumber _ _
  · exact within_decimalNumber _ _

theorem within_wordOrSymbol (c : Char) (cs : List Char) : (wordOrSymbol c cs).Within cs := by
  unfold wordOrSymbol
  split
  · intro _
    have hpart := (List.takeWhile_prefix (l := cs) isIdentPart).length_le
    unfold word
    dsimp only
    split <;> exact hpart
  · split
    · rename_i o ho
      intro _
      have hle := (longest?_spec ho).1.length_le
      rw [String.length_toList, List.length_cons] at hle
      exact Nat.sub_le_of_le_add hle
    · split
      · exact fun _ => Nat.zero_le _
      · exact within_fault _ _ _

/-- The same lexeme, within the text, whatever stands apart from it. -/
def Steady (c : Char) (cs : List Char) : Prop :=
  ∀ rest, Apart rest → lexeme c (cs ++ rest) = lexeme c cs ∧ (lexeme c cs).Within cs

theorem lexeme_dot_apart (h : Apart rest) : lexeme '.' rest = .mark .dot 0 := by
  cases rest with
  | nil => rfl
  | cons c cs =>
    have hblank := h c rfl
    have hdot := ne_of_isBlank hblank (d := '.') (by decide)
    have hdigit : c.isDigit = false := by
      have halphanum := isAlphanum_of_isBlank hblank
      rw [Char.isAlphanum, Bool.or_eq_false_iff] at halphanum
      exact halphanum.2
    exact lexeme_dot hdigit hdot cs

theorem lexeme_dot_digit (h : d.isDigit) (cs : List Char) :
    lexeme '.' (d :: cs) = number '.' (d :: cs) := by
  have hdot : d ≠ '.' := by
    rintro rfl
    cases h
  simp [lexeme, hdot, h]

theorem lexeme_dot_dot (hc : c ≠ '.') (cs : List Char) :
    lexeme '.' ('.' :: c :: cs) = .mark .dot 0 := by simp [lexeme, hc]

theorem steady_dot (cs : List Char) : Steady '.' cs := by
  intro rest h
  have hmark : (Lexeme.mark .dot 0).Within cs := fun _ => Nat.zero_le _
  cases cs with
  | nil => exact ⟨lexeme_dot_apart h, hmark⟩
  | cons d ds =>
    by_cases hdigit : d.isDigit
    · rw [List.cons_append, lexeme_dot_digit hdigit, lexeme_dot_digit hdigit, ← List.cons_append]
      exact ⟨number_apart h '.' (d :: ds), within_number '.' (d :: ds)⟩
    · rw [Bool.not_eq_true] at hdigit
      by_cases hdot : d = '.'
      · subst hdot
        cases ds with
        | nil =>
          refine ⟨?_, hmark⟩
          cases rest with
          | nil => rfl
          | cons c rest => exact lexeme_dot_dot (ne_of_isBlank (h c rfl) (by decide)) rest
        | cons e es =>
          by_cases he : e = '.'
          · subst he
            exact ⟨rfl, fun _ => Nat.le_add_left _ _⟩
          · simp only [List.cons_append, lexeme_dot_dot he]
            exact ⟨trivial, hmark⟩
      · simp only [List.cons_append, lexeme_dot hdigit hdot]
        exact ⟨trivial, hmark⟩

theorem steady_of_not_mem (hc : c ∉ ['/', '"', '\x60', '\'']) (cs : List Char) : Steady c cs := by
  intro rest h
  by_cases hspecial : c ∈ specials
  · simp only [List.mem_cons, List.not_mem_nil, or_false, not_or] at hc
    simp only [specials, List.mem_cons, List.not_mem_nil, or_false, hc, false_or] at hspecial
    obtain rfl | rfl | rfl | rfl | rfl := hspecial
    · exact ⟨rfl, fun _ => Nat.zero_le _⟩
    · exact ⟨rfl, fun _ => Nat.zero_le _⟩
    · exact ⟨rfl, fun _ => Nat.zero_le _⟩
    · exact ⟨rfl, fun _ => Nat.zero_le _⟩
    · exact steady_dot cs rest h
  · rw [lexeme_of_not_special hspecial, lexeme_of_not_special hspecial, number_apart h,
      wordOrSymbol_apart h]
    refine ⟨rfl, ?_⟩
    split
    · exact within_number c cs
    · exact within_wordOrSymbol c cs

theorem steady_slash (hs : Stops (fun c => c == '/' || c == '*') cs) : Steady '/' cs := by
  have hslash : ∀ {ds}, Stops (fun c => c == '/' || c == '*') ds →
      lexeme '/' ds = wordOrSymbol '/' ds := by
    intro ds hds
    unfold lexeme
    split <;> simp_all [Stops]
  intro rest h
  have happend : Stops (fun c => c == '/' || c == '*') (cs ++ rest) := by
    cases cs with
    | cons d ds => exact hs
    | nil =>
      refine h.stops fun hc => ?_
      simp [ne_of_isBlank hc (d := '/') (by decide), ne_of_isBlank hc (d := '*') (by decide)]
  rw [hslash hs, hslash happend, wordOrSymbol_apart h]
  exact ⟨rfl, within_wordOrSymbol '/' cs⟩

end GoEnum.Token
