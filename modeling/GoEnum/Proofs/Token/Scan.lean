import GoEnum.Proofs.Token.Quotation
import GoEnum.Token.Lexer

/-!
The tokens of a text that is put together from pieces. What a piece is read as depends on the text
after it only by its first character.
-/

namespace GoEnum.Token

open Text

/-- The forms of the lexemes in a text, unless one of them is at fault. -/
def scan : List Char → Option (List Form)
  | [] => some []
  | c :: cs =>
    let l := lexeme c cs
    if l.faults = [] then (scan (cs.drop l.length)).map (l.form :: ·) else none
  termination_by cs => cs.length

def kindsOf (ends : Bool) : List Form → List TokenKind
  | [] => (if ends then [.punctuation .semicolon] else []) ++ [.eof]
  | .token k :: fs => k :: kindsOf k.endsStatement fs
  | .gap :: fs => kindsOf ends fs
  | .lineBreak :: fs => (if ends then [.punctuation .semicolon] else []) ++ kindsOf false fs

theorem scan_nil : scan [] = some [] := by rw [scan]

theorem scan_cons (c : Char) (cs : List Char) :
    scan (c :: cs) = if (lexeme c cs).faults = [] then
      (scan (cs.drop (lexeme c cs).length)).map ((lexeme c cs).form :: ·) else none := by
  rw [scan]

theorem scan_cons_eq_some (h : scan (c :: cs) = some fs) :
    (lexeme c cs).faults = [] ∧ ∃ gs, scan (cs.drop (lexeme c cs).length) = some gs ∧
      fs = (lexeme c cs).form :: gs := by
  rw [scan_cons] at h
  split at h
  · obtain ⟨gs, hgs, rfl⟩ := Option.map_eq_some_iff.1 h
    exact ⟨‹_›, gs, hgs, rfl⟩
  · cases h

theorem lexemes_of_scan (h : scan cs = some fs) (start : Nat) :
    (lexemes start cs).map (·.form) = fs ∧ (lexemes start cs).flatMap (·.errors) = [] := by
  induction hn : cs.length using Nat.strongRecOn generalizing cs fs start with
  | ind n ih =>
    cases cs with
    | nil =>
      rw [scan_nil] at h
      cases h
      rw [lexemes]
      exact ⟨rfl, rfl⟩
    | cons c cs =>
      obtain ⟨hfaults, gs, hgs, rfl⟩ := scan_cons_eq_some h
      rw [lexemes]
      have hlt : (cs.drop (lexeme c cs).length).length < n := by
        rw [← hn, List.length_cons, List.length_drop]
        omega
      obtain ⟨hforms, herrors⟩ :=
        ih _ hlt hgs (start + byteSize (c :: cs.take (lexeme c cs).length)) rfl
      constructor
      · rw [← hforms]
        rfl
      · rw [List.flatMap_cons, hfaults]
        exact herrors

theorem map_node_autoSemicolon (ends : Bool) (n : Nat) :
    (autoSemicolon ends n).map (·.node) =
      if ends then [TokenKind.punctuation .semicolon] else [] := by
  cases ends <;> rfl

theorem map_node_tokensOf (size : Nat) (ends : Bool) (ls : List Located) :
    (tokensOf size ends ls).map (·.node) = kindsOf ends (ls.map (·.form)) := by
  induction ls generalizing ends with
  | nil => simp [tokensOf, kindsOf, map_node_autoSemicolon]
  | cons l ls ih =>
    obtain ⟨form, span, errors⟩ := l
    cases form <;> simp [tokensOf, kindsOf, ih, map_node_autoSemicolon]

theorem lex_of_scan (h : scan s.toList = some fs) :
    ∃ ts, lex s = .ok ts ∧ ts.map (·.node) = kindsOf false fs := by
  obtain ⟨hforms, herrors⟩ := lexemes_of_scan h 0
  rw [lex, herrors]
  exact ⟨_, rfl, by rw [map_node_tokensOf, hforms]⟩

theorem isSome_scan_of_lexemes (h : (lexemes start cs).flatMap (·.errors) = []) :
    (scan cs).isSome := by
  induction hn : cs.length using Nat.strongRecOn generalizing cs start with
  | ind n ih =>
    cases cs with
    | nil => rw [scan_nil]; rfl
    | cons c cs =>
      have hlt : (cs.drop (lexeme c cs).length).length < n := by
        rw [← hn, List.length_cons, List.length_drop]
        omega
      rw [lexemes] at h
      simp only [List.flatMap_cons, List.append_eq_nil_iff, List.map_eq_nil_iff] at h
      obtain ⟨fs, hfs⟩ := Option.isSome_iff_exists.1 (ih _ hlt h.2 rfl)
      rw [scan_cons, if_pos h.1, hfs]
      rfl

def kinds? (ends : Bool) (cs : List Char) : Option (List TokenKind) :=
  (scan cs).map (kindsOf ends)

theorem isSome_kinds?_of_lex (h : lex s = .ok ts) (ends : Bool) :
    (kinds? ends s.toList).isSome := by
  unfold lex at h
  dsimp only at h
  split at h
  · rename_i herrors
    rw [kinds?, Option.isSome_map]
    exact isSome_scan_of_lexemes herrors
  · cases h

def Anything (_ : List Char) : Prop := True

def Stops (p : Char → Bool) (cs : List Char) : Prop := ∀ c ∈ cs.head?, p c = false

theorem stops_cons (h : p c = false) : Stops p (c :: cs) := by
  rintro _ ⟨⟩
  exact h

theorem takeWhile_append_of_stops {p : Char → Bool} (h : ∀ c ∈ cs, p c) (hrest : Stops p rest) :
    (cs ++ rest).takeWhile p = cs := by
  rw [List.takeWhile_append_of_pos h]
  cases rest with
  | nil => simp
  | cons c rest => simp [hrest c rfl]

def endsAfter (ends : Bool) (ks : List TokenKind) : Bool :=
  ks.foldl (fun _ k => k.endsStatement) ends

theorem endsAfter_append (ends : Bool) (ks ls : List TokenKind) :
    endsAfter ends (ks ++ ls) = endsAfter (endsAfter ends ks) ls := List.foldl_append

/-- Where a text satisfying `P` follows, the piece, which is part of one line, is read as the
tokens `ks`. -/
structure Reads (P : List Char → Prop) (piece : List Char) (ks : List TokenKind) : Prop where
  oneLine : '\n' ∉ piece
  kinds : ∀ ends rest, P rest →
    kinds? ends (piece ++ rest) = (kinds? (endsAfter ends ks) rest).map (ks ++ ·)

def ReadsLines (piece : List Char) (ks : List TokenKind) : Prop :=
  ∀ rest, kinds? false (piece ++ rest) = (kinds? false rest).map (ks ++ ·)

def lineEnd (ends : Bool) : List TokenKind := if ends then [.punctuation .semicolon] else []

section

variable {P Q : List Char → Prop}

theorem Reads.append (hu : Reads P u ks) (hv : Reads Q v ls) (h : ∀ rest, Q rest → P (v ++ rest)) :
    Reads Q (u ++ v) (ks ++ ls) := by
  refine ⟨by simp [hu.oneLine, hv.oneLine], fun ends rest hrest => ?_⟩
  rw [List.append_assoc, hu.kinds _ _ (h rest hrest), hv.kinds _ _ hrest, endsAfter_append]
  cases kinds? _ rest <;> simp

theorem Reads.followed (hu : Reads Anything u ks) (hv : Reads P v ls) :
    Reads P (u ++ v) (ks ++ ls) :=
  hu.append hv fun _ _ => trivial

theorem Reads.weaken (hu : Reads P u ks) (h : ∀ rest, Q rest → P rest) : Reads Q u ks :=
  ⟨hu.oneLine, fun ends rest hrest => hu.kinds ends rest (h rest hrest)⟩

theorem reads_nil {P : List Char → Prop} : Reads P [] [] := by
  refine ⟨by simp, fun ends rest _ => ?_⟩
  cases h : kinds? ends rest <;> simp [endsAfter, h]

theorem ReadsLines.append (hu : ReadsLines u ks) (hv : ReadsLines v ls) :
    ReadsLines (u ++ v) (ks ++ ls) := by
  intro rest
  rw [List.append_assoc, hu, hv]
  cases kinds? false rest <;> simp

theorem readsLines_nil : ReadsLines [] [] := by
  intro rest
  cases h : kinds? false rest <;> simp [h]

theorem kinds?_cons (h : lexeme c (cs ++ rest) = ⟨f, cs.length, []⟩) :
    kinds? b (c :: cs ++ rest) = (scan rest).map fun fs => kindsOf b (f :: fs) := by
  rw [kinds?, List.cons_append, scan_cons, h]
  simp [Function.comp_def]

theorem reads_token (hline : '\n' ∉ c :: cs)
    (h : ∀ rest, P rest → lexeme c (cs ++ rest) = .token k cs.length) : Reads P (c :: cs) [k] := by
  refine ⟨hline, fun ends rest hrest => ?_⟩
  rw [kinds?_cons (h rest hrest), kinds?, Option.map_map]
  rfl

theorem reads_gap (hline : '\n' ∉ c :: cs)
    (h : ∀ rest, P rest → lexeme c (cs ++ rest) = .gap cs.length) : Reads P (c :: cs) [] := by
  refine ⟨hline, fun ends rest hrest => ?_⟩
  rw [kinds?_cons (h rest hrest), kinds?, Option.map_map]
  rfl

theorem kinds?_lineBreak (ends : Bool) (rest : List Char) :
    kinds? ends ('\n' :: rest) = (kinds? false rest).map (lineEnd ends ++ ·) := by
  change kinds? ends (['\n'] ++ rest) = _
  rw [kinds?_cons (f := .lineBreak) rfl, kinds?, Option.map_map]
  rfl

theorem Reads.line (hu : Reads P u ks) (hbreak : ∀ rest, P ('\n' :: rest)) :
    ReadsLines (u ++ ['\n']) (ks ++ lineEnd (endsAfter false ks)) := by
  intro rest
  rw [List.append_assoc, List.cons_append, List.nil_append, hu.kinds _ _ (hbreak rest),
    kinds?_lineBreak]
  cases kinds? false rest <;> simp

theorem readsLines_blank : ReadsLines ['\n'] [] := kinds?_lineBreak false

end

theorem lex_of_readsLines (h : ReadsLines s.toList ks) :
    ∃ ts, lex s = .ok ts ∧ ts.map (·.node) = ks ++ [.eof] := by
  have hkinds := h []
  rw [List.append_nil, kinds?, kinds?, scan_nil] at hkinds
  obtain ⟨fs, hfs, hks⟩ := Option.map_eq_some_iff.1 hkinds
  obtain ⟨ts, hts, hnodes⟩ := lex_of_scan hfs
  exact ⟨ts, hts, hnodes.trans hks⟩

end GoEnum.Token
