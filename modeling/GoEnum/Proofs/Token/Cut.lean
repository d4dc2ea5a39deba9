import GoEnum.Proofs.Token.Atom

namespace GoEnum.Token

theorem byteSize_append (u v : List Char) : byteSize (u ++ v) = byteSize u + byteSize v := by
  induction u with
  | nil => rw [List.nil_append, byteSize, Nat.zero_add]
  | cons c u ih => rw [List.cons_append, byteSize, byteSize, ih, Nat.add_assoc]

theorem byteSize_eq_zero (h : byteSize cs = 0) : cs = [] := by
  cases cs with
  | nil => rfl
  | cons c cs =>
    have hpos := c.utf8Size_pos
    rw [byteSize] at h
    omega

theorem splitBytes_byteSize (u v : List Char) : splitBytes (byteSize u) (u ++ v) = (u, v) := by
  induction u with
  | nil =>
    cases v with
    | nil => rfl
    | cons c v =>
      have hpos : 0 < c.utf8Size := c.utf8Size_pos
      rw [List.nil_append, byteSize, splitBytes, if_pos hpos]
  | cons c u ih =>
    have hle : ¬ byteSize (c :: u) < c.utf8Size := by
      rw [byteSize]
      omega
    have hrest : byteSize (c :: u) - c.utf8Size = byteSize u := by
      rw [byteSize, Nat.add_sub_cancel_left]
    rw [List.cons_append, splitBytes, if_neg hle, hrest, ih]

def Span.slice (s : Span) (cs : List Char) : List Char :=
  (splitBytes s.length (splitBytes s.start cs).2).1

theorem Span.slice_append (u w v : List Char) :
    Span.slice ⟨byteSize u, byteSize u + byteSize w⟩ (u ++ (w ++ v)) = w := by
  rw [slice, length, Nat.add_sub_cancel_left, splitBytes_byteSize, splitBytes_byteSize]

theorem Span.slice_point (n : Nat) (cs : List Char) : (Span.point n).slice cs = [] := by
  rw [slice, length, point, Nat.sub_self]
  cases (splitBytes n cs).2 with
  | nil => rfl
  | cons c v => rw [splitBytes, if_pos c.utf8Size_pos]

/-- A lexeme with its characters. -/
structure Stretch where
  text : List Char
  form : Form
  deriving DecidableEq

inductive Cut : List Char → List Stretch → Prop
  | nil : Cut [] []
  | cons : (lexeme c cs).faults = [] → Cut (cs.drop (lexeme c cs).length) ps →
      Cut (c :: cs) (⟨c :: cs.take (lexeme c cs).length, (lexeme c cs).form⟩ :: ps)

def tokensAt (start : Nat) (ends : Bool) : List Stretch → List Token
  | [] => autoSemicolon ends start ++ [⟨.eof, .point start⟩]
  | ⟨w, .token k⟩ :: ps =>
    ⟨k, start, start + byteSize w⟩ :: tokensAt (start + byteSize w) k.endsStatement ps
  | ⟨w, .gap⟩ :: ps => tokensAt (start + byteSize w) ends ps
  | ⟨w, .lineBreak⟩ :: ps =>
    autoSemicolon ends start ++ tokensAt (start + byteSize w) false ps

/-- A token with its characters. The end has none, nor has a semicolon that a line end stands
for. -/
structure TokenText where
  kind : TokenKind
  text : List Char
  deriving DecidableEq

def TokenText.of (cs : List Char) (t : Token) : TokenText := ⟨t.node, t.span.slice cs⟩

def autoText (ends : Bool) : List TokenText :=
  if ends then [⟨.punctuation .semicolon, []⟩] else []

def textsOf (ends : Bool) : List Stretch → List TokenText
  | [] => autoText ends ++ [⟨.eof, []⟩]
  | ⟨w, .token k⟩ :: ps => ⟨k, w⟩ :: textsOf k.endsStatement ps
  | ⟨_, .gap⟩ :: ps => textsOf ends ps
  | ⟨_, .lineBreak⟩ :: ps => autoText ends ++ textsOf false ps

theorem exists_cut (h : (lexemes start cs).flatMap (·.errors) = []) : ∃ ps, Cut cs ps ∧
    ∀ ends, tokensOf (start + byteSize cs) ends (lexemes start cs) = tokensAt start ends ps := by
  fun_induction lexemes with
  | case1 start => exact ⟨[], .nil, fun ends => rfl⟩
  | case2 start c cs l place span ih =>
    rw [List.flatMap_cons, List.append_eq_nil_iff, List.map_eq_nil_iff] at h
    obtain ⟨ps, hcut, htokens⟩ := ih h.2
    refine ⟨_, .cons h.1 hcut, fun ends => ?_⟩
    have hsize : start + byteSize (c :: cs) = span.stop + byteSize (cs.drop l.length) := by
      rw [Nat.add_assoc, ← byteSize_append, List.cons_append, List.take_append_drop]
    cases hform : l.form <;> simp [tokensOf, tokensAt, hsize, htokens, l, span, place]

theorem errors_of_cut (h : Cut cs ps) (start : Nat) :
    (lexemes start cs).flatMap (·.errors) = [] := by
  induction h generalizing start with
  | nil => rw [lexemes, List.flatMap_nil]
  | cons hfaults _ ih =>
    rw [lexemes, List.flatMap_cons, ih, List.append_nil, hfaults, List.map_nil]

theorem Cut.lexeme (h : lexeme c cs = ⟨f, k, []⟩) (hcut : Cut (cs.drop k) ps) :
    Cut (c :: cs) (⟨c :: cs.take k, f⟩ :: ps) := by
  have hcons : Cut (c :: cs) _ := .cons (by rw [h]) (by rwa [h])
  rwa [h] at hcons

theorem Cut.exists_cons (h : Cut (c :: cs) ps) : ∃ f k qs, Token.lexeme c cs = ⟨f, k, []⟩ ∧
    Cut (cs.drop k) qs ∧ ps = ⟨c :: cs.take k, f⟩ :: qs := by
  cases h with
  | cons hfaults hcut => exact ⟨_, _, _, by rw [← hfaults], hcut, rfl⟩

theorem Cut.unique (h : Cut cs ps) (h' : Cut cs qs) : ps = qs := by
  induction h generalizing qs with
  | nil =>
    cases h'
    rfl
  | cons _ _ ih =>
    cases h' with
    | cons _ h' => rw [ih h']

theorem lex_eq_ok : lex s = .ok ts ↔ ∃ ps, Cut s.toList ps ∧ tokensAt 0 false ps = ts := by
  constructor
  · intro h
    unfold lex at h
    dsimp only at h
    split at h
    · rename_i herrors
      cases h
      obtain ⟨ps, hcut, htokens⟩ := exists_cut herrors
      refine ⟨ps, hcut, ?_⟩
      rw [← htokens, Nat.zero_add]
    · cases h
  · rintro ⟨ps, hcut, rfl⟩
    have herrors := errors_of_cut hcut 0
    obtain ⟨qs, hcut', htokens⟩ := exists_cut herrors
    obtain rfl := hcut.unique hcut'
    rw [lex, herrors, ← htokens, Nat.zero_add]

theorem texts_autoSemicolon (cs : List Char) (ends : Bool) (n : Nat) :
    (autoSemicolon ends n).map (TokenText.of cs) = autoText ends := by
  cases ends with
  | false => rfl
  | true => simp [autoSemicolon, autoText, TokenText.of, Span.slice_point]

theorem texts_tokensAt (h : Cut cs ps) (u : List Char) (ends : Bool) :
    (tokensAt (byteSize u) ends ps).map (TokenText.of (u ++ cs)) = textsOf ends ps := by
  induction h generalizing u ends with
  | nil => simp [tokensAt, textsOf, texts_autoSemicolon, TokenText.of, Span.slice_point]
  | @cons c cs ps hfaults hcut ih =>
    have htext : c :: cs = (c :: cs.take (lexeme c cs).length) ++ cs.drop (lexeme c cs).length := by
      rw [List.cons_append, List.take_append_drop]
    have hrest := ih (u ++ c :: cs.take (lexeme c cs).length)
    rw [byteSize_append, List.append_assoc, ← htext] at hrest
    cases hform : (lexeme c cs).form with
    | token k =>
      rw [tokensAt, textsOf, List.map_cons, hrest, TokenText.of, htext, Span.slice_append]
    | gap => rw [tokensAt, textsOf, hrest]
    | lineBreak => rw [tokensAt, textsOf, List.map_append, texts_autoSemicolon, hrest]

theorem lex_texts (hcut : Cut s.toList ps) (h : lex s = .ok ts) :
    ts.map (TokenText.of s.toList) = textsOf false ps := by
  obtain ⟨qs, hcut', rfl⟩ := lex_eq_ok.1 h
  obtain rfl := hcut.unique hcut'
  exact texts_tokensAt hcut [] false

theorem byteSize_toList (s : String) : byteSize s.toList = s.utf8ByteSize := by
  have hsize : ∀ cs : List Char, byteSize cs = (cs.flatMap String.utf8EncodeChar).length := by
    intro cs
    induction cs with
    | nil => rfl
    | cons c cs ih =>
      rw [byteSize, ih, List.flatMap_cons, List.length_append, String.length_utf8EncodeChar]
  rw [hsize, ← Text.length_utf8, Text.utf8]

theorem lexemes_whole (htext : String.toList s = c :: cs)
    (h : (lexeme c cs).length = cs.length) :
    lexemes 0 s.toList = [⟨(lexeme c cs).form, ⟨0, s.utf8ByteSize⟩,
      (lexeme c cs).faults.map fun f =>
        ⟨f.cause, ⟨0, byteSize (c :: cs.take f.length)⟩⟩⟩] := by
  rw [← byteSize_toList, htext, lexemes, h, List.drop_length, lexemes]
  dsimp only
  rw [List.take_length, Nat.zero_add]
  simp only [Nat.zero_add]

theorem lex_of_token (htext : String.toList s = c :: cs)
    (h : lexeme c cs = .token k cs.length) :
    lex s = .ok (⟨k, ⟨0, s.utf8ByteSize⟩⟩ ::
      (autoSemicolon k.endsStatement s.utf8ByteSize ++ [⟨.eof, .point s.utf8ByteSize⟩])) := by
  rw [lex, lexemes_whole htext (by rw [h]; rfl), h, byteSize_toList]
  rfl

theorem lex_of_fault (htext : String.toList s = c :: cs)
    (h : lexeme c cs = .fault cause cs.length) :
    lex s = .error [⟨cause, ⟨0, s.utf8ByteSize⟩⟩] := by
  rw [lex, lexemes_whole htext (by rw [h]; rfl), h, ← byteSize_toList, htext]
  simp [Lexeme.fault]

end GoEnum.Token
