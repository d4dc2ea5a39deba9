import GoEnum.Proofs.Token.Lossless
import GoEnum.Proofs.Token.Line
import GoEnum.Proofs.Token.Number

namespace GoEnum.Token

open Text

/-- A stretch of a line: a space, or the spelling of one token. -/
inductive Piece
  | space
  | ident (name : String)
  | keyword (k : Keyword)
  | operator (o : Operator)
  | mark (p : Punctuation)
  | int (n : Nat)
  | plain (s : String)
  deriving DecidableEq, Repr

namespace Piece

def chars : Piece → List Char
  | .space => [' ']
  | .ident name => name.toList
  | .keyword k => k.spelling.toList
  | .operator o => o.spelling.toList
  | .mark p => p.spelling.toList
  | .int n => Nat.toDigits 10 n
  | .plain s => '"' :: s.toList ++ ['"']

def kinds : Piece → List TokenKind
  | .space => []
  | .ident name => [.ident name]
  | .keyword k => [.keyword k]
  | .operator o => [.operator o]
  | .mark p => [.punctuation p]
  | .int n => [.int n]
  | .plain s => [.string s]

def valid : Piece → Bool
  | .ident name => isIdentifier name
  | .int n => n < intLimit
  | .plain s => s.toList.all isPlain
  | _ => true

def Follows : Piece → List Char → Prop
  | .ident _ | .keyword _ => Stops isIdentPart
  | .operator _ | .mark .colon => Stops isOperatorChar
  | .mark .dot => AfterDot
  | .mark .ellipsis => fun _ => False
  | .int _ => Stops isNumberPart
  | _ => Anything

def isWord : Piece → Bool
  | .ident _ | .keyword _ | .int _ => true
  | _ => false

def isOperator : Piece → Bool
  | .operator _ | .mark .colon => true
  | _ => false

def joins : Piece → Piece → Bool
  | .ident _, q | .keyword _, q => !q.isWord
  | .operator _, q | .mark .colon, q => !q.isOperator
  | .mark .dot, .ident _ | .mark .dot, .mark .lparen => true
  | .mark .dot, _ | .mark .ellipsis, _ => false
  | .int _, .space | .int _, .mark .comma | .int _, .mark .rparen => true
  | .int _, _ => false
  | _, _ => true

def endsLine : Piece → Bool
  | .space | .mark .dot | .mark .ellipsis => false
  | _ => true

theorem reads {p : Piece} (h : p.valid) : Reads p.Follows p.chars p.kinds := by
  cases p with
  | space => exact reads_space
  | ident name => exact reads_ident h
  | keyword k => exact reads_keyword k
  | operator o => exact reads_operator o
  | mark p =>
    cases p with
    | colon => exact reads_colon
    | dot => exact reads_dot
    | ellipsis => exact ⟨by decide, fun _ _ h => h.elim⟩
    | _ => exact reads_mark fun _ => rfl
  | int n => exact reads_decimal (by simpa [valid] using h)
  | plain s => exact reads_plain (by simpa [valid] using h)

theorem stops_of_not_isWord {q : Piece} (h : q.isWord = false) (rest : List Char) :
    Stops isIdentPart (q.chars ++ rest) := by
  cases q with
  | space => exact stops_cons (by decide)
  | operator o => cases o <;> exact stops_cons (by decide)
  | mark p => cases p <;> exact stops_cons (by decide)
  | plain s => exact stops_cons (by decide)
  | _ => cases h

theorem stops_of_not_isOperator {q : Piece} (h : q.isOperator = false) (hq : q.valid)
    (rest : List Char) : Stops isOperatorChar (q.chars ++ rest) := by
  cases q with
  | space => exact stops_cons (by decide)
  | ident name => exact stops_ident hq
  | keyword k => cases k <;> exact stops_cons (by decide)
  | operator o => cases h
  | mark p =>
    cases p with
    | colon => cases h
    | _ => exact stops_cons (by decide)
  | int n =>
    obtain ⟨c, cs, hdigits⟩ := List.exists_cons_of_ne_nil (Nat.toDigits_ne_nil (n := n) (b := 10))
    rw [chars, hdigits, List.cons_append]
    refine stops_cons (isOperatorChar_of_isDigit ?_)
    exact Nat.isDigit_of_mem_toDigits (by decide) (by decide) (hdigits ▸ List.mem_cons_self)
  | plain s => exact stops_cons (by decide)

theorem follows_of_joins {p q : Piece} (h : p.joins q) (hq : q.valid) (rest : List Char) :
    p.Follows (q.chars ++ rest) := by
  cases p with
  | space => trivial
  | ident name => exact stops_of_not_isWord (by simpa [joins] using h) rest
  | keyword k => exact stops_of_not_isWord (by simpa [joins] using h) rest
  | operator o => exact stops_of_not_isOperator (by simpa [joins] using h) hq rest
  | mark p =>
    cases p with
    | colon => exact stops_of_not_isOperator (by simpa [joins] using h) hq rest
    | dot =>
      cases q with
      | ident name =>
        obtain ⟨c, cs, hs, hc, -⟩ := exists_cons_of_isIdentifier hq
        rw [chars, hs, List.cons_append]
        exact afterDot_of_isIdentStart hc _
      | mark p =>
        cases p with
        | lparen => exact ⟨_, _, rfl, by decide⟩
        | _ => cases h
      | _ => cases h
    | ellipsis => cases h
    | _ => trivial
  | int n =>
    cases q with
    | space => exact stops_cons (by decide)
    | mark p =>
      cases p with
      | comma => exact stops_cons (by decide)
      | rparen => exact stops_cons (by decide)
      | _ => cases h
    | _ => cases h
  | plain s => trivial

def AtBreak (rest : List Char) : Prop := rest = [] ∨ ∃ cs, rest = '\n' :: cs

theorem stops_of_atBreak {f : Char → Bool} (hf : f '\n' = false) (h : AtBreak rest) :
    Stops f rest := by
  obtain rfl | ⟨cs, rfl⟩ := h
  · simp [Stops]
  · exact stops_cons hf

theorem follows_of_endsLine {p : Piece} (h : p.endsLine) (hrest : AtBreak rest) :
    p.Follows rest := by
  cases p with
  | ident name => exact stops_of_atBreak (by decide) hrest
  | keyword k => exact stops_of_atBreak (by decide) hrest
  | operator o => exact stops_of_atBreak (by decide) hrest
  | mark p =>
    cases p with
    | colon => exact stops_of_atBreak (by decide) hrest
    | dot => cases h
    | ellipsis => cases h
    | _ => trivial
  | int n => exact stops_of_atBreak (by decide) hrest
  | plain s => trivial
  | space => trivial

theorem inked_chars {p : Piece} (hp : p.valid) (h : p.endsLine) : Inked p.chars := by
  cases p with
  | space => cases h
  | ident name => exact inked_of_isIdentifier hp
  | keyword k => cases k <;> exact ⟨_, rfl, by decide⟩
  | operator o => cases o <;> exact ⟨_, rfl, by decide⟩
  | mark p => cases p <;> exact ⟨_, rfl, by decide⟩
  | int n =>
    refine inked_of_forall Nat.toDigits_ne_nil fun c hc => isBlank_of_isIdentPart ?_
    exact isIdentPart_of_isDigit (Nat.isDigit_of_mem_toDigits (by decide) (by decide) hc)
  | plain s => exact inked_concat _ (by decide)

end Piece

open Piece (AtBreak)

def spell (ps : List Piece) : List Char := ps.flatMap Piece.chars

def pieceKinds (ps : List Piece) : List TokenKind := ps.flatMap Piece.kinds

def isFluent : List Piece → Bool
  | [] => false
  | [p] => p.endsLine
  | p :: q :: ps => p.joins q && isFluent (q :: ps)

theorem reads_spell (h : isFluent ps) (hvalid : ∀ p ∈ ps, p.valid) :
    Reads AtBreak (spell ps) (pieceKinds ps) := by
  induction ps with
  | nil => cases h
  | cons p ps ih =>
    have hp := Piece.reads (hvalid p List.mem_cons_self)
    have hvalid' : ∀ q ∈ ps, q.valid := fun q hq => hvalid q (List.mem_cons_of_mem p hq)
    cases ps with
    | nil =>
      simp only [spell, pieceKinds, List.flatMap_cons, List.flatMap_nil, List.append_nil]
      exact hp.weaken fun rest hrest => Piece.follows_of_endsLine h hrest
    | cons q ps =>
      obtain ⟨hjoins, hfluent⟩ := Bool.and_eq_true_iff.1 h
      refine hp.append (ih hfluent hvalid') fun rest _ => ?_
      change p.Follows (q.chars ++ spell ps ++ rest)
      rw [List.append_assoc]
      exact Piece.follows_of_joins hjoins (hvalid' q List.mem_cons_self) _

theorem inked_spell (h : isFluent ps) (hvalid : ∀ p ∈ ps, p.valid) : Inked (spell ps) := by
  induction ps with
  | nil => cases h
  | cons p ps ih =>
    cases ps with
    | nil =>
      simp only [spell, List.flatMap_cons, List.flatMap_nil, List.append_nil]
      exact Piece.inked_chars (hvalid p List.mem_cons_self) h
    | cons q ps =>
      have hfluent := (Bool.and_eq_true_iff.1 h).2
      exact (ih hfluent fun q hq => hvalid q (List.mem_cons_of_mem p hq)).append p.chars

theorem lex_spell (htext : s.toList = spell ps) (h : isFluent ps) (hvalid : ∀ p ∈ ps, p.valid) :
    ∃ ts, lex s = .ok ts ∧ ts.map (·.node) =
      pieceKinds ps ++ lineEnd (endsAfter false (pieceKinds ps)) ++ [.eof] := by
  have hread := (reads_spell h hvalid).kinds false [] (.inl rfl)
  rw [List.append_nil, ← htext, kinds?, kinds?, scan_nil] at hread
  obtain ⟨fs, hfs, hks⟩ := Option.map_eq_some_iff.1 hread
  obtain ⟨ts, hts, hnodes⟩ := lex_of_scan hfs
  refine ⟨ts, hts, hnodes.trans (hks.trans ?_)⟩
  rw [List.append_assoc]
  rfl

theorem isIdentifier_iff_lex (s : String) : isIdentifier s ↔
    ∃ ts, lex s = .ok ts ∧ ts.map (·.node) = [.ident s, .punctuation .semicolon, .eof] := by
  constructor
  · intro h
    have htext : s.toList = spell [.ident s] := by simp [spell, Piece.chars]
    exact lex_spell htext rfl (by simpa [Piece.valid] using h)
  · rintro ⟨ts, hlex, hkinds⟩
    exact isIdentifier_of_lex hlex (by simp [hkinds])

end GoEnum.Token
