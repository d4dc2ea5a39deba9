import GoEnum.Proofs.Text.Digits
import GoEnum.Proofs.Text.Utf8
import GoEnum.Text.Quoted
import GoEnum.Token.Quotation
import Mathlib.Data.List.TakeWhile

namespace GoEnum.Token

open Text

theorem leadingDigits_append (h : DigitsOf b cs ds) (rest : List Char) :
    leadingDigits b cs.length (cs ++ rest) = ds := by
  have hall : cs.takeWhile (fun c => (digit? b c).isSome) = cs :=
    List.takeWhile_eq_self_iff.2 h.isSome
  rw [leadingDigits, List.take_left, hall, h.filterMap]

theorem hexEscape_of_digitsOf (h : DigitsOf 16 cs ds) (rest : List Char)
    (value : Nat → Except LexCause Escaped) :
    hexEscape cs.length (cs ++ rest) value = ⟨cs.length + 1, value (ofDigits 16 ds)⟩ := by
  have hlength := h.length
  rw [hexEscape, leadingDigits_append h, if_neg (by omega)]

theorem hexEscape_hex (hw : 0 < w) (hn : n < 16 ^ w) (cs : List Char)
    (value : Nat → Except LexCause Escaped) :
    hexEscape w (hex w n ++ cs) value = ⟨w + 1, value n⟩ := by
  obtain ⟨ds, hds, hvalue⟩ := digitsOf_hex w n
  have hread := hexEscape_of_digitsOf hds cs value
  rwa [length_hex hw hn, hvalue] at hread

theorem escape_letter (h : escapeLetter? c = some l) (cs : List Char) :
    escape '"' ([l] ++ cs) = ⟨[l].length, .ok (.char c)⟩ := by
  unfold escapeLetter? at h
  split at h <;> cases h <;> rfl

theorem codePoint_toNat (c : Char) : codePoint c.toNat = .ok (.char c) := by
  have hvalid : c.toNat.isValidChar := c.valid
  rw [codePoint, charOf?, dif_pos hvalid]
  rfl

theorem utf8EncodeChar_ascii (h : c.toNat < 0x80) :
    String.utf8EncodeChar c = [c.toNat.toUInt8] := by
  have hval : c.val.toNat ≤ 0x7f := Nat.le_of_lt_succ h
  rw [String.utf8EncodeChar, if_pos hval]
  rfl

theorem stringRest_escape (h : escape '"' (cs ++ rest) = ⟨cs.length, .ok v⟩) :
    stringRest n bytes [] ('\\' :: (cs ++ rest)) =
      stringRest (n + (cs.length + 1)) (v.bytes.reverse ++ bytes) [] rest := by
  rw [stringRest, h]
  simp [Nat.add_right_comm, ← Nat.add_assoc]

theorem escape_x (cs : List Char) :
    escape '"' ('x' :: cs) = hexEscape 2 cs fun n => .ok (.byte n.toUInt8) := rfl

theorem escape_u (cs : List Char) : escape '"' ('u' :: cs) = hexEscape 4 cs codePoint := rfl

theorem escape_U (cs : List Char) : escape '"' ('U' :: cs) = hexEscape 8 cs codePoint := rfl

theorem escape_hex2 (h : n < 0x100) (cs : List Char) :
    escape '"' ('x' :: hex 2 n ++ cs) =
      ⟨('x' :: hex 2 n).length, .ok (.byte n.toUInt8)⟩ := by
  rw [List.cons_append, escape_x, hexEscape_hex (by decide) h, List.length_cons,
    length_hex (by decide) h]

theorem escape_hex4 (h : c.toNat < 0x10000) (cs : List Char) :
    escape '"' ('u' :: hex 4 c.toNat ++ cs) = ⟨('u' :: hex 4 c.toNat).length, .ok (.char c)⟩ := by
  rw [List.cons_append, escape_u, hexEscape_hex (by decide) h, codePoint_toNat, List.length_cons,
    length_hex (by decide) h]

theorem escape_hex8 (c : Char) (cs : List Char) :
    escape '"' ('U' :: hex 8 c.toNat ++ cs) = ⟨('U' :: hex 8 c.toNat).length, .ok (.char c)⟩ := by
  have h : c.toNat < 16 ^ 8 := c.val.toNat_lt
  rw [List.cons_append, escape_U, hexEscape_hex (by decide) h, codePoint_toNat, List.length_cons,
    length_hex (by decide) h]

def isControl (c : Char) : Bool := c.toNat < 0x20 || (0x7f ≤ c.toNat && c.toNat ≤ 0x9f)

theorem isControl_of_isSome_digit? (h : (digit? b c).isSome) : isControl c = false := by
  have hbetween : ∀ lo hi : Char, 0x20 ≤ lo.toNat → hi.toNat < 0x7f → lo ≤ c ∧ c ≤ hi →
      isControl c = false := by
    intro lo hi hlo hhi ⟨hge, hle⟩
    have hge : lo.toNat ≤ c.toNat := hge
    have hle : c.toNat ≤ hi.toNat := hle
    rw [isControl, Bool.or_eq_false_iff, decide_eq_false_iff_not, Bool.and_eq_false_iff,
      decide_eq_false_iff_not, decide_eq_false_iff_not]
    omega
  unfold digit? at h
  split at h
  · exact hbetween '0' '9' (by decide) (by decide) ‹_›
  · split at h
    · exact hbetween 'a' 'z' (by decide) (by decide) ‹_›
    · split at h
      · exact hbetween 'A' 'Z' (by decide) (by decide) ‹_›
      · cases h

theorem isControl_of_mem_hex (h : c ∈ hex w n) : isControl c = false := by
  obtain ⟨ds, hds, -⟩ := digitsOf_hex w n
  exact isControl_of_isSome_digit? (hds.isSome c h)

theorem isControl_of_isPrintable (h : isPrintable c) : isControl c = false := by
  simp only [isPrintable, Bool.not_eq_true', Bool.or_eq_false_iff] at h
  rw [isControl, Bool.or_eq_false_iff]
  exact h.1.1.1.1.1

theorem isControl_of_mem_quoteChar (h : d ∈ quoteChar c) : isControl d = false := by
  have hescape : ∀ w n l, isControl l = false → d ∈ '\\' :: l :: hex w n → isControl d = false := by
    intro w n l hl hd
    rcases List.mem_cons.1 hd with rfl | hd
    · rfl
    · rcases List.mem_cons.1 hd with rfl | hd
      · exact hl
      · exact isControl_of_mem_hex hd
  unfold quoteChar at h
  split at h
  · rename_i l hl
    have hd : d = '\\' ∨ d = l := by simpa using h
    unfold escapeLetter? at hl
    rcases hd with rfl | rfl
    · rfl
    · split at hl <;> cases hl <;> rfl
  · split at h
    · obtain rfl := List.mem_singleton.1 h
      exact isControl_of_isPrintable ‹_›
    · split at h
      · exact hescape 2 _ 'x' rfl h
      · split at h
        · exact hescape 4 _ 'u' rfl h
        · exact hescape 8 _ 'U' rfl h

theorem lineBreak_not_mem_quoteChar (c : Char) : '\n' ∉ quoteChar c := by
  intro h
  cases isControl_of_mem_quoteChar h

theorem stringRest_quoteChar (n : Nat) (bytes : List UInt8) (c : Char) (cs : List Char) :
    stringRest n bytes [] (quoteChar c ++ cs) =
      stringRest (n + (quoteChar c).length) ((String.utf8EncodeChar c).reverse ++ bytes) [] cs := by
  unfold quoteChar
  split
  · rename_i l hl
    exact stringRest_escape (escape_letter hl cs)
  · rename_i hnone
    split
    · have hne : c ≠ '\n' ∧ c ≠ '"' ∧ c ≠ '\\' := by
        refine ⟨?_, ?_, ?_⟩ <;> rintro rfl <;> cases hnone
      rw [List.cons_append, stringRest, if_neg hne.1, if_neg hne.2.1, if_neg hne.2.2]
      rfl
    · split
      · rename_i h
        rw [utf8EncodeChar_ascii h]
        exact stringRest_escape (escape_hex2 (by omega) cs)
      · split
        · exact stringRest_escape (escape_hex4 (by omega) cs)
        · exact stringRest_escape (escape_hex8 c cs)

theorem stringRest_flatMap_quoteChar (n : Nat) (bytes : List UInt8) (cs rest : List Char) :
    stringRest n bytes [] (cs.flatMap quoteChar ++ rest) =
      stringRest (n + (cs.flatMap quoteChar).length)
        ((cs.flatMap String.utf8EncodeChar).reverse ++ bytes) [] rest := by
  induction cs generalizing n bytes with
  | nil => rfl
  | cons c cs ih =>
    rw [List.flatMap_cons, List.append_assoc, stringRest_quoteChar, ih]
    simp [Nat.add_assoc]

theorem fromUTF8?_utf8 (s : String) : String.fromUTF8? ⟨(utf8 s).toArray⟩ = some s := by
  have hbytes : (⟨(utf8 s).toArray⟩ : ByteArray) = s.toByteArray := by
    rw [toByteArray_utf8]
    exact ByteArray.ext (by rw [List.data_toByteArray])
  rw [hbytes, String.fromUTF8?, dif_pos s.isValidUTF8]
  rfl

theorem fromUTF8?_eq_some {bs : List UInt8} :
    String.fromUTF8? ⟨bs.toArray⟩ = some s ↔ utf8 s = bs := by
  constructor
  · intro h
    unfold String.fromUTF8? at h
    split at h
    · have hbytes : (⟨bs.toArray⟩ : ByteArray) = (utf8 s).toByteArray := by
        rw [← toByteArray_utf8, ← Option.some.inj h]
        rfl
      simpa using (congrArg (·.data.toList) hbytes).symm
    · cases h
  · rintro rfl
    exact fromUTF8?_utf8 s

theorem stringRest_close (s : String) (n : Nat) (rest : List Char) :
    stringRest n (utf8 s).reverse [] ('"' :: rest) = .token (.string s) (n + 1) := by
  rw [stringRest]
  simp [closedString, fromUTF8?_utf8]

theorem stringLiteral_quote (s : String) (rest : List Char) :
    stringLiteral (s.toList.flatMap quoteChar ++ '"' :: rest) =
      .token (.string s) ((s.toList.flatMap quoteChar).length + 1) := by
  rw [stringLiteral, stringRest_flatMap_quoteChar, List.append_nil, Nat.zero_add]
  exact stringRest_close s _ rest

def isPlain (c : Char) : Bool := c != '\n' && c != '"' && c != '\\'

theorem stringRest_plain (h : ∀ c ∈ cs, isPlain c) (n : Nat) (bytes : List UInt8)
    (rest : List Char) :
    stringRest n bytes [] (cs ++ rest) =
      stringRest (n + cs.length) ((cs.flatMap String.utf8EncodeChar).reverse ++ bytes) [] rest := by
  induction cs generalizing n bytes with
  | nil => rfl
  | cons c cs ih =>
    have hc := h c List.mem_cons_self
    simp only [isPlain, Bool.and_eq_true, bne_iff_ne] at hc
    obtain ⟨⟨hline, hquote⟩, hslash⟩ := hc
    rw [List.cons_append, stringRest, if_neg hline, if_neg hquote, if_neg hslash,
      ih fun d hd => h d (List.mem_cons_of_mem c hd)]
    simp [Nat.add_assoc, Nat.add_comm 1]

theorem stringLiteral_plain (h : ∀ c ∈ s.toList, isPlain c) (rest : List Char) :
    stringLiteral (s.toList ++ '"' :: rest) = .token (.string s) (s.toList.length + 1) := by
  rw [stringLiteral, stringRest_plain h, List.append_nil, Nat.zero_add]
  exact stringRest_close s _ rest

theorem quote_injective (h : quote s = quote t) : s = t := by
  have hchars := String.ofList_injective h
  simp only [quoteChars, List.cons_append, List.cons.injEq, true_and] at hchars
  have hs := stringLiteral_quote s []
  rw [hchars, stringLiteral_quote t []] at hs
  simpa [Lexeme.token, eq_comm] using congrArg Lexeme.form hs

end GoEnum.Token
