import GoEnum.Proofs.Token.Cut

namespace GoEnum.Token

open Text

def octal (b : UInt8) : List Char :=
  [Nat.digitChar (b.toNat / 64), Nat.digitChar (b.toNat / 8 % 8), Nat.digitChar (b.toNat % 8)]

/-- The escapes of a byte: two hexadecimal digits, each a small or a capital letter where it is one,
or three octal digits. -/
inductive ByteEscape (b : UInt8) : List Char → Prop
  | hex : cs.map Char.toLower = hex 2 b.toNat → ByteEscape b ('\\' :: 'x' :: cs)
  | octal : ByteEscape b ('\\' :: octal b)

section

variable {b : UInt8} {bs : List UInt8} {cs rest : List Char} {ess : List (List Char)}

theorem escape_hex (h : cs.map Char.toLower = hex 2 b.toNat) (rest : List Char) :
    escape '"' ('x' :: cs ++ rest) = ⟨('x' :: cs).length, .ok (.byte b)⟩ := by
  have hlt : b.toNat < 16 ^ 2 := b.toNat_lt
  obtain ⟨ds, hds, hvalue⟩ := digitsOf_hex 2 b.toNat
  have hcs : DigitsOf 16 cs ds := by
    rw [← h, DigitsOf, List.map_map] at hds
    simp only [Function.comp_def, digit?_toLower] at hds
    exact hds
  have hlength : cs.length = 2 := by
    rw [← List.length_map (f := Char.toLower), h, length_hex (by decide) hlt]
  have hread := hexEscape_of_digitsOf hcs rest fun n => .ok (.byte n.toUInt8)
  rw [hlength, hvalue] at hread
  rw [List.cons_append, escape_x, hread, List.length_cons, hlength]
  simp

theorem escape_of_octal_digit (h : digit? 8 c = some d) (cs : List Char) :
    escape '"' (c :: cs) = octalEscape d cs := by
  have hletter : letterEscape? c = none := by
    unfold letterEscape?
    split
    all_goals first | rfl | cases h
  have hquote : c ≠ '"' := by
    rintro rfl
    cases h
  rw [escape, hletter]
  dsimp only
  rw [if_neg hquote, h]

theorem escape_octal (b : UInt8) (rest : List Char) :
    escape '"' (octal b ++ rest) = ⟨(octal b).length, .ok (.byte b)⟩ := by
  have hlt := b.toNat_lt
  have hdigit : ∀ d < 8, digit? 8 (Nat.digitChar d) = some d :=
    fun d hd => digit?_digitChar (by decide) hd
  have hlast : DigitsOf 8 [Nat.digitChar (b.toNat / 8 % 8), Nat.digitChar (b.toNat % 8)]
      [b.toNat / 8 % 8, b.toNat % 8] := by
    simp [DigitsOf, hdigit _ (Nat.mod_lt _ _)]
  have hvalue : ofDigits 8 [b.toNat / 64, b.toNat / 8 % 8, b.toNat % 8] = b.toNat := by
    simp only [ofDigits, List.foldl_cons, List.foldl_nil]
    omega
  have hleading := leadingDigits_append hlast rest
  rw [octal, List.cons_append, escape_of_octal_digit (hdigit _ (by omega)), octalEscape]
  simp only [List.length_cons, List.length_nil, Nat.zero_add, Nat.reduceAdd] at hleading ⊢
  rw [hleading]
  simp [hvalue]
  omega

theorem ByteEscape.stringRest (h : ByteEscape b cs) (n : Nat) (bytes : List UInt8)
    (rest : List Char) :
    stringRest n bytes [] (cs ++ rest) = stringRest (n + cs.length) (b :: bytes) [] rest := by
  cases h with
  | hex hdigits => exact stringRest_escape (escape_hex hdigits rest)
  | octal => exact stringRest_escape (escape_octal b rest)

theorem stringRest_byteEscapes (h : List.Forall₂ ByteEscape bs ess) (n : Nat)
    (bytes : List UInt8) (rest : List Char) :
    stringRest n bytes [] (ess.flatten ++ rest) =
      stringRest (n + ess.flatten.length) (bs.reverse ++ bytes) [] rest := by
  induction h generalizing n bytes with
  | nil => rfl
  | cons hes _ ih =>
    rw [List.flatten_cons, List.append_assoc, hes.stringRest, ih]
    simp [Nat.add_assoc]

/-- A literal made of byte escapes is the text that the bytes encode. Bytes that encode no text are
one error. -/
theorem lex_byteEscapes (h : List.Forall₂ ByteEscape bs ess) :
    let s := String.ofList ('"' :: (ess.flatten ++ ['"']))
    (∀ t, utf8 t = bs → lex s = .ok [⟨.string t, ⟨0, s.utf8ByteSize⟩⟩,
      ⟨.punctuation .semicolon, .point s.utf8ByteSize⟩, ⟨.eof, .point s.utf8ByteSize⟩]) ∧
    ((∀ t, utf8 t ≠ bs) → lex s = .error [⟨.notUtf8, ⟨0, s.utf8ByteSize⟩⟩]) := by
  intro s
  have htext : s.toList = '"' :: (ess.flatten ++ ['"']) := String.toList_ofList
  have hlexeme : lexeme '"' (ess.flatten ++ ['"']) =
      closedString (ess.flatten ++ ['"']).length bs [] := by
    change stringLiteral _ = _
    rw [stringLiteral, stringRest_byteEscapes h, stringRest]
    simp
  constructor
  · rintro t rfl
    refine lex_of_token htext ?_
    rw [hlexeme, closedString, fromUTF8?_utf8]
    rfl
  · intro hnone
    refine lex_of_fault htext ?_
    have hutf8 : String.fromUTF8? ⟨bs.toArray⟩ = none := by
      rw [Option.eq_none_iff_forall_ne_some]
      exact fun t ht => hnone t (fromUTF8?_eq_some.1 ht)
    rw [hlexeme, closedString, hutf8]
    rfl

end

theorem lex_byteEscapes_mixed :
    List.Forall₂ ByteEscape [0xc3, 0xa9, 0x0a]
      ["\\xC3".toList, "\\251".toList, "\\x0a".toList] ∧
    lex "\"\\xC3\\251\\x0a\"" = .ok [⟨.string "é\n", ⟨0, 14⟩⟩,
      ⟨.punctuation .semicolon, .point 14⟩, ⟨.eof, .point 14⟩] ∧
    List.Forall₂ ByteEscape [0xff] ["\\377".toList] ∧
    lex "\"\\377\"" = .error [⟨.notUtf8, ⟨0, 6⟩⟩] := by
  have htext : List.Forall₂ ByteEscape [0xc3, 0xa9, 0x0a]
      ["\\xC3".toList, "\\251".toList, "\\x0a".toList] :=
    .cons (.hex (by decide)) (.cons .octal (.cons (.hex (by decide)) .nil))
  have hbyte : List.Forall₂ ByteEscape [0xff] ["\\377".toList] := .cons .octal .nil
  have hnone : ∀ t, utf8 t ≠ [0xff] := by
    intro t ht
    have hutf8 : String.fromUTF8? ⟨[0xff].toArray⟩ = none := by decide +kernel
    cases hutf8.symm.trans (fromUTF8?_eq_some.2 ht)
  exact ⟨htext, (lex_byteEscapes htext).1 "é\n" (by decide), hbyte,
    (lex_byteEscapes hbyte).2 hnone⟩

end GoEnum.Token
