import GoEnum.Proofs.Token.Cut
import GoEnum.Proofs.Token.Literal

namespace GoEnum.Token

open Text

theorem take_length_takeWhile (p : Char → Bool) (cs : List Char) :
    cs.take (cs.takeWhile p).length = cs.takeWhile p :=
  (List.prefix_iff_eq_take.1 (List.takeWhile_prefix p)).symm

theorem stops_drop_takeWhile (p : Char → Bool) (cs : List Char) :
    Stops p (cs.drop (cs.takeWhile p).length) := by
  induction cs with
  | nil => simp [Stops]
  | cons c cs ih =>
    by_cases hc : p c
    · simpa [List.takeWhile_cons, hc] using ih
    · simp [Stops, hc]

/-- A stretch that no token is made of, where `rest` follows: a blank, a comment up to the end of
its line, or a comment up to the first mark that closes it. -/
inductive Gap (rest : List Char) : List Char → Prop
  | blank : c ∈ [' ', '\t', '\r', '\n'] → Gap rest [c]
  | lineComment : '\n' ∉ cs → Stops (· != '\n') rest → Gap rest ('/' :: '/' :: cs)
  | blockComment : ¬ ['*', '/'] <:+: cs ++ ['*'] → Gap rest ('/' :: '*' :: (cs ++ ['*', '/']))

def IsLongest (o : Operator) (cs : List Char) : Prop :=
  ∀ p : Operator, p.spelling.toList <+: cs → p.spelling.length ≤ o.spelling.length

/-- The characters of a lexeme of some form, where `rest` follows. -/
inductive Spelled (rest : List Char) : List Char → Form → Prop
  | gap : Gap rest w → Spelled rest w .gap
  | lineBreak : Gap rest w → Spelled rest w .lineBreak
  | keyword (k : Keyword) : Spelled rest k.spelling.toList (.token (.keyword k))
  | ident : isIdentifier name → Spelled rest name.toList (.token (.ident name))
  | operator : IsLongest o (o.spelling.toList ++ rest) →
      Spelled rest o.spelling.toList (.token (.operator o))
  | mark (p : Punctuation) : Spelled rest p.spelling.toList (.token (.punctuation p))
  | literal : k.isLiteral → Spelled rest w (.token k)

def Lexeme.IsSpelled (l : Lexeme) (c : Char) (cs : List Char) : Prop :=
  l.faults = [] → Spelled (cs.drop l.length) (c :: cs.take l.length) l.form

theorem isSpelled_literal (h : Lexeme.Literal l) (c : Char) (cs : List Char) :
    l.IsSpelled c cs := by
  intro hfaults
  cases h with
  | fault _ hne => exact absurd hfaults hne
  | token hform hk =>
    rw [hform]
    exact .literal hk

theorem commentEnd?_spec (h : commentEnd? cs = some n) :
    ∃ body, cs.take n = body ++ ['*', '/'] ∧ ¬ ['*', '/'] <:+: body ++ ['*'] := by
  fun_induction commentEnd? generalizing n with
  | case1 => cases h
  | case2 cs =>
    cases h
    exact ⟨[], rfl, by decide⟩
  | case3 c cs hclose ih =>
    obtain ⟨m, hm, rfl⟩ := Option.map_eq_some_iff.1 h
    obtain ⟨body, hbody, hnone⟩ := ih hm
    refine ⟨c :: body, by rw [List.take_succ_cons, hbody, List.cons_append], ?_⟩
    rw [List.cons_append, List.infix_cons_iff]
    rintro (hstart | hwithin)
    · -- A mark that closes the comment here would have been found.
      cases body with
      | nil => simp at hstart
      | cons d body =>
        obtain ⟨rfl, rfl⟩ : '*' = c ∧ '/' = d := by simpa using hstart
        cases cs with
        | nil => simp at hbody
        | cons e cs =>
          cases m with
          | zero => simp at hbody
          | succ m =>
            rw [List.take_succ_cons] at hbody
            exact hclose cs rfl (by rw [(List.cons.inj hbody).1])
    · exact hnone hwithin

theorem isSpelled_blockComment (cs : List Char) :
    (blockComment cs).IsSpelled '/' ('*' :: cs) := by
  intro hfaults
  unfold blockComment at hfaults ⊢
  cases hend : commentEnd? cs with
  | none =>
    rw [hend] at hfaults
    cases hfaults
  | some n =>
    obtain ⟨body, hbody, hnone⟩ := commentEnd?_spec hend
    have hgap : ∀ rest, Gap rest ('/' :: ('*' :: cs).take (n + 1)) := by
      intro rest
      rw [List.take_succ_cons, hbody]
      exact .blockComment hnone
    dsimp only
    split
    · exact .lineBreak (hgap _)
    · exact .gap (hgap _)

theorem spelling_of_ofSpelling? (h : Keyword.ofSpelling? s = some k) : k.spelling = s := by
  rw [Keyword.ofSpelling?] at h
  have hfound := List.find?_some h
  exact beq_iff_eq.1 hfound

theorem isSpelled_word (h : isIdentStart c) (cs : List Char) : (word c cs).IsSpelled c cs := by
  intro _
  unfold word
  dsimp only
  split
  · rename_i k hk
    have hspelling := spelling_of_ofSpelling? hk
    have hword : Spelled (cs.drop (cs.takeWhile isIdentPart).length) k.spelling.toList _ :=
      .keyword k
    rw [hspelling, String.toList_ofList] at hword
    simpa only [Lexeme.token, take_length_takeWhile] using hword
  · rename_i hkeyword
    have hparts : (cs.takeWhile isIdentPart).all isIdentPart :=
      List.all_eq_true.2 fun d hd => List.mem_takeWhile_imp hd
    have hname : isIdentifier (String.ofList (c :: cs.takeWhile isIdentPart)) := by
      rw [isIdentifier, String.toList_ofList, hkeyword]
      simp [h, hparts]
    have hword : Spelled (cs.drop (cs.takeWhile isIdentPart).length) _ _ := .ident hname
    rw [String.toList_ofList] at hword
    simpa only [Lexeme.token, take_length_takeWhile] using hword

theorem longest?_spec (h : Operator.longest? cs = some o) :
    o.spelling.toList <+: cs ∧ IsLongest o cs := by
  have hsorted : Operator.all.Pairwise fun p q => q.spelling.length ≤ p.spelling.length := by
    decide
  have hall : ∀ p : Operator, p ∈ Operator.all := by
    intro p
    cases p <;> decide
  obtain ⟨ho, before, after, hsplit, hbefore⟩ := List.find?_eq_some_iff_append.1 h
  refine ⟨List.isPrefixOf_iff_prefix.1 ho, fun p hp => ?_⟩
  have hmem := hall p
  rw [hsplit] at hmem hsorted
  obtain hp' | hp' := List.mem_append.1 hmem
  · have hnot := hbefore p hp'
    rw [List.isPrefixOf_iff_prefix.2 hp] at hnot
    cases hnot
  · obtain rfl | hp' := List.mem_cons.1 hp'
    · exact Nat.le_refl _
    · exact List.rel_of_pairwise_cons (List.pairwise_append.1 hsorted).2.1 hp'

theorem mark?_spelling (h : mark? c = some p) : p.spelling.toList = [c] := by
  unfold mark? at h
  split at h <;> cases h <;> rfl

theorem isSpelled_mark (h : mark? c = some p) (cs : List Char) :
    (Lexeme.mark p 0).IsSpelled c cs := by
  intro _
  have hmark : Spelled cs p.spelling.toList _ := .mark p
  rwa [mark?_spelling h] at hmark

theorem isSpelled_wordOrSymbol (c : Char) (cs : List Char) :
    (wordOrSymbol c cs).IsSpelled c cs := by
  unfold wordOrSymbol
  split
  · exact isSpelled_word ‹_› cs
  · split
    · rename_i o ho
      intro _
      obtain ⟨hstart, hlongest⟩ := longest?_spec ho
      have hpos : o.spelling.length = o.spelling.length - 1 + 1 := by cases o <;> rfl
      have htext : c :: cs.take (o.spelling.length - 1) = o.spelling.toList := by
        rw [← List.take_succ_cons, ← hpos, ← String.length_toList]
        exact (List.prefix_iff_eq_take.1 hstart).symm
      have hsplit : o.spelling.toList ++ cs.drop (o.spelling.length - 1) = c :: cs := by
        rw [← htext, List.cons_append, List.take_append_drop]
      have hword : Spelled (cs.drop (o.spelling.length - 1)) o.spelling.toList _ :=
        .operator (hsplit ▸ hlongest)
      rwa [← htext] at hword
    · split
      · exact isSpelled_mark ‹_› cs
      · rintro ⟨⟩

theorem isSpelled_blank (h : c ∈ [' ', '\t', '\r', '\n']) (cs : List Char) :
    (Lexeme.gap 0).IsSpelled c cs := fun _ => .gap (.blank h)

theorem isSpelled_lineComment (cs : List Char) :
    (Lexeme.gap (('/' :: cs).takeWhile (· != '\n')).length).IsSpelled '/' ('/' :: cs) := by
  intro _
  have hline : ∀ d ∈ cs.takeWhile (· != '\n'), (d != '\n') = true :=
    fun d hd => List.mem_takeWhile_imp (p := (· != '\n')) hd
  refine .gap ?_
  simp only [Lexeme.gap, take_length_takeWhile]
  refine .lineComment (fun hmem => ?_) (stops_drop_takeWhile _ _)
  cases hline _ hmem

/-- The lexeme at the start of a text is spelled as its form tells. -/
theorem isSpelled_lexeme (c : Char) (cs : List Char) : (lexeme c cs).IsSpelled c cs := by
  have hother : ∀ (d : Char) (ds : List Char),
      (if d.isDigit then number d ds else wordOrSymbol d ds).IsSpelled d ds := by
    intro d ds
    split
    · exact isSpelled_literal (literal_number d ds) d ds
    · exact isSpelled_wordOrSymbol d ds
  unfold lexeme
  split
  · exact isSpelled_blank (by decide) _
  · exact isSpelled_blank (by decide) _
  · exact isSpelled_blank (by decide) _
  · exact fun _ => .lineBreak (.blank (by decide))
  · exact isSpelled_lineComment _
  · exact isSpelled_blockComment _
  · exact isSpelled_literal (literal_stringRest _ _ _ _) _ _
  · exact isSpelled_literal (literal_rawString _) _ _
  · exact isSpelled_literal (literal_runeLiteral _) _ _
  · exact fun _ => .mark .ellipsis
  · split
    · exact isSpelled_literal (literal_number _ _) _ _
    · exact isSpelled_mark rfl _
  · exact hother _ _

end GoEnum.Token
