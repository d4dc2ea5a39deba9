import GoEnum.Proofs.Token.Scan

namespace GoEnum.Token

open Text

def isIdentifier (s : String) : Bool :=
  match s.toList with
  | [] => false
  | c :: cs => isIdentStart c && cs.all isIdentPart && (Keyword.ofSpelling? s).isNone

theorem ofSpelling?_singleton (c : Char) : Keyword.ofSpelling? (String.singleton c) = none := by
  have hlong : ∀ k ∈ Keyword.all, k.spelling.length ≠ 1 := by decide
  rw [Keyword.ofSpelling?, List.find?_eq_none]
  intro k hk heq
  refine hlong k hk ?_
  rw [beq_iff_eq.1 heq, String.length_singleton]

theorem not_mem_of_all {p : Char → Bool} {l : List Char} (hl : l.all fun c => !p c) (h : p c) :
    c ∉ l := by
  intro hmem
  simpa [h] using List.all_eq_true.1 hl c hmem

theorem isIdentPart_of_isIdentStart (h : isIdentStart c) : isIdentPart c := by
  simp only [isIdentStart, isIdentPart, isLetterOrNumber, Bool.or_eq_true] at h ⊢
  exact h.imp_left .inl

theorem isIdentStart_of_isDigit (h : c.isDigit) : isIdentStart c = false := by
  have hsmall : ∀ n < 0x80, (Char.ofNat n).isDigit → isIdentStart (Char.ofNat n) = false := by
    decide
  have hascii : c.toNat < 0x80 := by
    simp only [Char.isDigit, Bool.and_eq_true, decide_eq_true_eq, UInt32.le_iff_toNat_le] at h
    exact Nat.lt_of_le_of_lt h.2 (by decide)
  have hc := hsmall c.toNat hascii
  rw [Char.ofNat_toNat] at hc
  exact hc h

def specials : List Char := [' ', '\t', '\r', '\n', '/', '"', '\x60', '\'', '.']

theorem lexeme_of_not_special (h : c ∉ specials) (cs : List Char) :
    lexeme c cs = if c.isDigit then number c cs else wordOrSymbol c cs := by
  simp [specials] at h
  unfold lexeme
  split <;> simp_all

theorem lexeme_word (h : isIdentStart c) (cs : List Char) : lexeme c cs = word c cs := by
  have hspecial : c ∉ specials := not_mem_of_all (by decide) h
  have hdigit : ¬ c.isDigit := by
    intro hd
    simp [isIdentStart_of_isDigit hd] at h
  rw [lexeme_of_not_special hspecial, if_neg hdigit, wordOrSymbol, if_pos h]

theorem lexeme_digit (h : c.isDigit) (cs : List Char) : lexeme c cs = number c cs := by
  have hspecial : c ∉ specials := not_mem_of_all (by decide) h
  rw [lexeme_of_not_special hspecial, if_pos h]

def wordKind (s : String) : TokenKind :=
  match Keyword.ofSpelling? s with
  | some k => .keyword k
  | none => .ident s

theorem lexeme_wordKind (hc : isIdentStart c) (hcs : ∀ d ∈ cs, isIdentPart d)
    (hrest : Stops isIdentPart rest) :
    lexeme c (cs ++ rest) = .token (wordKind (String.ofList (c :: cs))) cs.length := by
  rw [lexeme_word hc, word, takeWhile_append_of_stops hcs hrest, wordKind]
  cases Keyword.ofSpelling? (String.ofList (c :: cs)) <;> rfl

theorem reads_word (h : s.toList = c :: cs) (hc : isIdentStart c) (hcs : ∀ d ∈ cs, isIdentPart d) :
    Reads (Stops isIdentPart) s.toList [wordKind s] := by
  have hs : s = String.ofList (c :: cs) := by rw [← h, String.ofList_toList]
  have hline : '\n' ∉ c :: cs := by
    intro hmem
    obtain rfl | hmem := List.mem_cons.1 hmem
    · cases hc
    · cases hcs _ hmem
  rw [h, hs]
  exact reads_token hline fun rest hrest => lexeme_wordKind hc hcs hrest

theorem exists_cons_of_isIdentifier (h : isIdentifier s) : ∃ c cs, s.toList = c :: cs ∧
    isIdentStart c ∧ (∀ d ∈ cs, isIdentPart d) ∧ Keyword.ofSpelling? s = none := by
  unfold isIdentifier at h
  split at h
  · cases h
  · rename_i c cs hs
    simp only [Bool.and_eq_true, List.all_eq_true, Option.isNone_iff_eq_none] at h
    obtain ⟨⟨hc, hcs⟩, hkeyword⟩ := h
    exact ⟨c, cs, hs, hc, hcs, hkeyword⟩

theorem reads_ident (h : isIdentifier s) : Reads (Stops isIdentPart) s.toList [.ident s] := by
  obtain ⟨c, cs, hs, hc, hcs, hkeyword⟩ := exists_cons_of_isIdentifier h
  have hword := reads_word hs hc hcs
  rwa [wordKind, hkeyword] at hword

theorem reads_keyword (k : Keyword) :
    Reads (Stops isIdentPart) k.spelling.toList [.keyword k] := by
  obtain ⟨c, cs, hs, hc, hcs⟩ : ∃ c cs, k.spelling.toList = c :: cs ∧ isIdentStart c ∧
      ∀ d ∈ cs, isIdentPart d := by
    cases k <;> exact ⟨_, _, rfl, by decide, List.all_eq_true.1 (by decide)⟩
  have hword := reads_word hs hc hcs
  rwa [wordKind, Keyword.ofSpelling?_spelling] at hword

def operatorChars : List Char := "&|^<>=!+-*/%:".toList

def isOperatorChar (c : Char) : Bool := operatorChars.contains c

theorem isOperatorChar_of_mem_spelling (o : Operator) :
    ∀ c ∈ o.spelling.toList, isOperatorChar c := by
  cases o <;> exact List.all_eq_true.1 (by decide)

theorem isOperatorChar_eq_false (h : c ∉ operatorChars) : isOperatorChar c = false := by
  simpa [isOperatorChar] using h

theorem isOperatorChar_of_isDigit (h : c.isDigit) : isOperatorChar c = false :=
  isOperatorChar_eq_false (not_mem_of_all (by decide) h)

theorem isOperatorChar_of_isIdentStart (h : isIdentStart c) : isOperatorChar c = false :=
  isOperatorChar_eq_false (not_mem_of_all (by decide) h)

theorem isPlain_of_isIdentPart (h : isIdentPart c) : isPlain c := by
  have hmem : c ∉ ['\n', '"', '\\'] := not_mem_of_all (by decide) h
  simp at hmem
  simp [isPlain, hmem]

theorem isPlain_of_isIdentifier (h : isIdentifier s) : ∀ c ∈ s.toList, isPlain c := by
  obtain ⟨c, cs, hs, hc, hcs, -⟩ := exists_cons_of_isIdentifier h
  rw [hs, List.forall_mem_cons]
  exact ⟨isPlain_of_isIdentPart (isIdentPart_of_isIdentStart hc),
    fun d hd => isPlain_of_isIdentPart (hcs d hd)⟩

theorem stops_ident (h : isIdentifier s) : Stops isOperatorChar (s.toList ++ rest) := by
  obtain ⟨c, cs, hs, hc, -⟩ := exists_cons_of_isIdentifier h
  rw [hs]
  exact stops_cons (isOperatorChar_of_isIdentStart hc)

theorem isPrefixOf_append_of_stops {u v : List Char} (hu : ∀ c ∈ u, isOperatorChar c)
    (hrest : Stops isOperatorChar rest) : u.isPrefixOf (v ++ rest) = u.isPrefixOf v := by
  induction u generalizing v with
  | nil => simp
  | cons c u ih =>
    cases v with
    | cons d v => simp [List.isPrefixOf, ih fun e he => hu e (List.mem_cons_of_mem c he)]
    | nil =>
      cases rest with
      | nil => rfl
      | cons d rest =>
        have hne : c ≠ d := by
          rintro rfl
          simp [hrest c rfl] at hu
        simp [List.isPrefixOf, hne]

theorem longest?_spelling (o : Operator) (hrest : Stops isOperatorChar rest) :
    Operator.longest? (o.spelling.toList ++ rest) = some o := by
  have hsame : ∀ p : Operator,
      p.spelling.toList.isPrefixOf (o.spelling.toList ++ rest) =
        p.spelling.toList.isPrefixOf o.spelling.toList :=
    fun p => isPrefixOf_append_of_stops (isOperatorChar_of_mem_spelling p) hrest
  simp only [Operator.longest?, hsame]
  cases o <;> decide

theorem lexeme_slash (hrest : Stops isOperatorChar rest) :
    lexeme '/' rest = wordOrSymbol '/' rest := by
  cases rest with
  | nil => rfl
  | cons d rest =>
    have hslash : d ≠ '/' := by
      rintro rfl
      cases hrest '/' rfl
    have hstar : d ≠ '*' := by
      rintro rfl
      cases hrest '*' rfl
    unfold lexeme
    split <;> simp_all

theorem lexeme_operator (o : Operator) (h : o.spelling.toList = c :: cs)
    (hrest : Stops isOperatorChar rest) :
    lexeme c (cs ++ rest) = .token (.operator o) cs.length := by
  have hlongest := longest?_spelling o hrest
  have hlength : o.spelling.length = cs.length + 1 := by
    rw [← String.length_toList, h, List.length_cons]
  have hword : lexeme c (cs ++ rest) = wordOrSymbol c (cs ++ rest) := by
    cases o <;> cases h <;> first | rfl | exact lexeme_slash hrest
  have hstart : isIdentStart c = false := by
    cases o <;> cases h <;> decide
  rw [h] at hlongest
  rw [hword, wordOrSymbol, hstart, if_neg Bool.false_ne_true, ← List.cons_append, hlongest]
  simp [hlength]

theorem reads_operator (o : Operator) :
    Reads (Stops isOperatorChar) o.spelling.toList [.operator o] := by
  obtain ⟨c, cs, hs⟩ : ∃ c cs, o.spelling.toList = c :: cs := by
    cases o <;> exact ⟨_, _, rfl⟩
  have hline : '\n' ∉ c :: cs := by
    intro hmem
    rw [← hs] at hmem
    cases isOperatorChar_of_mem_spelling o _ hmem
  rw [hs]
  exact reads_token hline fun rest hrest => lexeme_operator o hs hrest

theorem reads_star : Reads (Stops (· == '=')) ['*'] [.operator .star] := by
  refine reads_token (by decide) fun rest hrest => ?_
  cases rest with
  | nil => rfl
  | cons c rest =>
    have hassign : ('=' == c) = false := by
      rw [beq_eq_false_iff_ne]
      rintro rfl
      cases hrest '=' rfl
    change wordOrSymbol '*' (c :: rest) = _
    have hlongest : Operator.longest? ('*' :: c :: rest) = some .star := by
      simp [Operator.longest?, Operator.all, Operator.spelling, List.isPrefixOf, hassign]
    rw [wordOrSymbol, hlongest]
    rfl

theorem lexeme_colon (hrest : Stops isOperatorChar rest) : lexeme ':' rest = .mark .colon 0 := by
  have hsame : ∀ p : Operator,
      p.spelling.toList.isPrefixOf ([':'] ++ rest) = p.spelling.toList.isPrefixOf [':'] :=
    fun p => isPrefixOf_append_of_stops (isOperatorChar_of_mem_spelling p) hrest
  have hnone : Operator.longest? (':' :: rest) = none := by
    change Operator.all.find? (fun o => o.spelling.toList.isPrefixOf ([':'] ++ rest)) = none
    simp only [hsame]
    decide
  change wordOrSymbol ':' rest = _
  rw [wordOrSymbol, hnone]
  rfl

theorem reads_colon : Reads (Stops isOperatorChar) [':'] [.punctuation .colon] :=
  reads_token (by decide) fun _ hrest => lexeme_colon hrest

theorem lexeme_dot (hc : c.isDigit = false) (hdot : c ≠ '.') (cs : List Char) :
    lexeme '.' (c :: cs) = .mark .dot 0 := by
  unfold lexeme
  split <;> simp_all

def AfterDot (rest : List Char) : Prop := ∃ c cs, rest = c :: cs ∧ c.isDigit = false ∧ c ≠ '.'

theorem afterDot_of_isIdentStart (h : isIdentStart c) (cs : List Char) : AfterDot (c :: cs) := by
  refine ⟨c, cs, rfl, ?_, ?_⟩
  · by_contra hd
    simp [isIdentStart_of_isDigit (Bool.eq_true_of_not_eq_false hd)] at h
  · rintro rfl
    cases h

theorem reads_dot : Reads AfterDot ['.'] [.punctuation .dot] := by
  refine reads_token (by decide) fun rest hrest => ?_
  obtain ⟨c, cs, rfl, hdigit, hdot⟩ := hrest
  exact lexeme_dot hdigit hdot cs

theorem reads_mark (h : ∀ rest, lexeme c rest = .mark p 0) :
    Reads Anything [c] [.punctuation p] := by
  refine reads_token ?_ fun rest _ => h rest
  intro hmem
  obtain rfl := List.mem_singleton.1 hmem
  cases h []

theorem reads_ellipsis : Reads Anything ['.', '.', '.'] [.punctuation .ellipsis] :=
  reads_token (by decide) fun _ _ => rfl

theorem reads_space : Reads Anything [' '] [] := reads_gap (by decide) fun _ _ => rfl

theorem reads_tab : Reads Anything ['\t'] [] := reads_gap (by decide) fun _ _ => rfl

theorem reads_tabs (n : Nat) : Reads Anything (List.replicate n '\t') [] := by
  induction n with
  | zero => exact reads_nil
  | succ n ih => exact reads_tab.followed ih

theorem toList_quote (s : String) : (quote s).toList = '"' :: s.toList.flatMap quoteChar ++ ['"'] :=
  String.toList_ofList

theorem reads_quote (s : String) : Reads Anything (quote s).toList [.string s] := by
  have hline : '\n' ∉ '"' :: (s.toList.flatMap quoteChar ++ ['"']) := by
    simp [lineBreak_not_mem_quoteChar]
  rw [toList_quote, List.cons_append]
  refine reads_token hline fun rest _ => ?_
  change stringLiteral _ = _
  rw [List.append_assoc, List.cons_append, List.nil_append, stringLiteral_quote]
  simp

theorem reads_plain (h : ∀ c ∈ s.toList, isPlain c) :
    Reads Anything ('"' :: s.toList ++ ['"']) [.string s] := by
  have hline : '\n' ∉ '"' :: (s.toList ++ ['"']) := by
    intro hmem
    have hplain : '\n' ∈ s.toList := by simpa using hmem
    cases h _ hplain
  rw [List.cons_append]
  refine reads_token hline fun rest _ => ?_
  change stringLiteral _ = _
  rw [List.append_assoc, List.cons_append, List.nil_append, stringLiteral_plain h]
  simp

theorem lexeme_lineComment (h : '\n' ∉ cs) (hrest : Stops (· != '\n') rest) :
    lexeme '/' ('/' :: cs ++ rest) = ⟨.gap, cs.length + 1, []⟩ := by
  have hline : ∀ c ∈ '/' :: cs, (c != '\n') = true := by
    refine List.forall_mem_cons.2 ⟨rfl, fun c hc => ?_⟩
    rw [bne_iff_ne]
    rintro rfl
    exact h hc
  have hread : lexeme '/' ('/' :: cs ++ rest) =
      .gap (('/' :: cs ++ rest).takeWhile (· != '\n')).length := rfl
  rw [hread, takeWhile_append_of_stops hline hrest]
  rfl

theorem reads_comment (h : '\n' ∉ cs) : Reads (Stops (· != '\n')) ('/' :: '/' :: cs) [] :=
  reads_gap (by simp [h]) fun _ hrest => lexeme_lineComment h hrest

end GoEnum.Token
