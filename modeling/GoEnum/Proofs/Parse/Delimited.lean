import GoEnum.Parse.Delimited
import GoEnum.Proofs.Parse.Run
import GoEnum.Proofs.Syntax.Spelling
import Mathlib.Data.List.Forall2

namespace GoEnum.Parse

open Token Syntax

section

variable {all : List TokenKind} {P : α → Prop}

theorem stays_closeAll (start : Span) (n : Nat) (stack : List Punctuation) :
    Stays all (closeAll start out n stack) fun _ => True := by
  induction n generalizing stack with
  | zero =>
    cases stack with
    | nil => exact stays_pure trivial
    | cons top stack => exact stays_unexpected _
  | succ n ih =>
    cases stack with
    | nil => exact stays_pure trivial
    | cons top stack =>
      refine stays_get.bind fun c _ => ?_
      refine stays_check (stays_fail _ _) (fun _ _ => ?_) ()
      refine stays_advance.bind fun _ _ => ?_
      split
      · split
        · exact ih _
        · split
          · split
            · exact ih _
            · exact stays_fail _ _
          · exact ih _
      · exact ih _

theorem stays_skipBalanced : Stays all skipBalanced fun _ => True := by
  refine stays_peek.bind fun k _ => ?_
  split
  · exact stays_currentSpan.bind fun start _ => stays_advance.bind fun _ _ =>
      stays_bounded fun _ n => stays_closeAll start n _
  · exact stays_unexpected _

theorem stays_skipItem : Stays all skipItem fun _ => True := by
  refine stays_peek.bind fun k _ => ?_
  split
  · split
    · exact stays_skipBalanced
    · exact stays_advance
  · exact stays_advance

theorem stays_skipValues (n : Nat) : Stays all (skipValues out n) fun _ => True := by
  induction n with
  | zero => exact stays_unexpected _
  | succ n ih =>
    refine stays_peek.bind fun k _ => ?_
    split
    · exact stays_pure trivial
    · exact stays_pure trivial
    · exact stays_pure trivial
    · exact stays_skipItem.bind fun _ _ => ih

theorem stays_skipUntil (closer : Punctuation) (n : Nat) :
    Stays all (skipUntil closer out n) fun _ => True := by
  induction n with
  | zero => exact stays_unexpected _
  | succ n ih =>
    refine (stays_isNext _).bind fun b _ => ?_
    split
    · exact stays_pure trivial
    · refine stays_atEnd.bind fun b _ => ?_
      refine stays_check (stays_unexpected _) (fun _ _ => ?_) ()
      exact stays_skipItem.bind fun _ _ => ih

theorem stays_commaList (closer : Punctuation) {item : Parser α} (h : Stays all item P) (n : Nat) :
    Stays all (commaList closer item out n) fun xs => ∀ x ∈ xs, P x := by
  induction n with
  | zero => exact stays_unexpected _
  | succ n ih =>
    refine (stays_isNext _).bind fun b _ => ?_
    split
    · exact stays_pure (by simp)
    · refine h.bind fun x hx => (stays_accept _).bind fun b _ => ?_
      split
      · exact ih.bind fun xs hxs => stays_pure (by simpa [hx] using hxs)
      · exact stays_pure (by simp [hx])

theorem stays_commaSeparated {item : Parser α} (h : Stays all item P) (n : Nat) :
    Stays all (commaSeparated item out n) fun xs => xs ≠ [] ∧ ∀ x ∈ xs, P x := by
  induction n with
  | zero => exact stays_unexpected _
  | succ n ih =>
    refine h.bind fun x hx => (stays_accept _).bind fun b _ => ?_
    split
    · exact ih.bind fun xs hxs => stays_pure (by simpa [hx] using hxs.2)
    · exact stays_pure (by simp [hx])

theorem stays_endOfSpec (what : String) : Stays all (endOfSpec what) fun _ => True := by
  refine (stays_accept _).bind fun b _ => ?_
  split
  · exact stays_pure trivial
  · refine (stays_isNext _).bind fun b _ => stays_atEnd.bind fun b _ => ?_
    split
    · exact stays_unexpected _
    · exact stays_pure trivial

theorem stays_groupLines (closing ending : String) {line : Nat → Parser α} {P : Nat → α → Prop}
    (h : ∀ i, Stays all (line i) (P i)) (n first : Nat) :
    Stays all (groupLines closing ending line out n first) fun xs =>
      ∀ i x, xs[i]? = some x → P (first + i) x := by
  induction n generalizing first with
  | zero => exact stays_unexpected _
  | succ n ih =>
    refine (stays_accept _).bind fun b _ => ?_
    split
    · exact stays_pure (by simp)
    · refine stays_atEnd.bind fun b _ => ?_
      refine stays_check (stays_unexpected _) (fun _ _ => ?_) ()
      refine (h first).bind fun x hx => (stays_endOfSpec _).bind fun _ _ =>
        stays_skipSemicolons.bind fun _ _ => (ih (first + 1)).bind fun xs hxs => stays_pure ?_
      intro i y hy
      cases i with
      | zero =>
        cases hy
        exact hx
      | succ i => simpa only [Nat.add_assoc, Nat.add_comm 1] using hxs i y hy

theorem stays_numberedGroup (closing ending : String) {line : Nat → Parser α}
    {P : Nat → α → Prop} (h : ∀ i, Stays all (line i) (P i)) :
    Stays all (group closing ending line) fun g =>
      (∀ i x, g.2[i]? = some x → P i x) ∧ (g.1 = false → ∃ x, g.2 = [x]) := by
  refine (stays_accept _).bind fun b _ => ?_
  split
  · refine stays_skipSemicolons.bind fun _ _ =>
      (stays_bounded fun _ n => stays_groupLines closing ending h n 0).bind fun xs hxs =>
        stays_pure ⟨?_, by simp⟩
    simpa only [Nat.zero_add] using hxs
  · refine (h 0).bind fun x hx => stays_pure ⟨fun i y hy => ?_, fun _ => ⟨x, rfl⟩⟩
    obtain ⟨rfl, rfl⟩ : i = 0 ∧ x = y := by simpa [List.getElem?_singleton] using hy
    exact hx

theorem stays_group (closing ending : String) {line : Nat → Parser α}
    (h : ∀ i, Stays all (line i) P) :
    Stays all (group closing ending line) fun g => ∀ x ∈ g.2, P x := by
  refine (stays_numberedGroup closing ending h).imp fun g hg x hx => ?_
  obtain ⟨i, hi⟩ := List.mem_iff_getElem?.1 hx
  exact hg.1 i x hi

end

section

variable {ι : Type} {is : List ι} {R : ι → α → Prop} {kinds : ι → List TokenKind} {item : Parser α}
  {F : List TokenKind → Prop} {rest : List TokenKind}

/-- Items with commas between them are read one by one, where each can be read in front of a comma
and in front of what follows the last. -/
theorem yields_commaSeparated (hitem : ∀ i ∈ is, ∀ ls, F ls →
      Yields item (kinds i ++ ls) fun x ms => R i x ∧ ms = ls)
    (hcomma : ∀ ls, F (.punctuation .comma :: ls)) (hrest : F rest)
    (hnext : next rest ≠ .punctuation .comma) (hne : is ≠ []) (hn : is.length ≤ n) :
    Yields (commaSeparated item out n) (separated (is.map kinds) ++ rest) fun xs ls =>
      List.Forall₂ R is xs ∧ ls = rest := by
  induction is generalizing n with
  | nil => exact absurd rfl hne
  | cons i is ih =>
    obtain _ | n := n
    · simp at hn
    have hi := hitem i List.mem_cons_self
    cases is with
    | nil =>
      refine (hi rest hrest).bind ?_
      rintro x ls ⟨hx, rfl⟩
      refine (yields_refuse hnext).bind ?_
      rintro b ls ⟨rfl, rfl⟩
      exact yields_pure _ ⟨.cons hx .nil, rfl⟩
    | cons j is =>
      have htail := ih (n := n) (fun k hk => hitem k (List.mem_cons_of_mem i hk)) (by simp)
        (by simpa using hn)
      simp only [List.map_cons, separated, List.append_assoc, List.cons_append] at htail ⊢
      refine (hi _ (hcomma _)).bind ?_
      rintro x ls ⟨hx, rfl⟩
      refine (yields_accept (by simp)).bind ?_
      rintro b ls ⟨rfl, rfl⟩
      refine htail.bind ?_
      rintro xs ls ⟨hxs, rfl⟩
      exact yields_pure _ ⟨.cons hx hxs, rfl⟩

theorem yields_endOfSpec (what : String) :
    Yields (endOfSpec what) (.punctuation .semicolon :: rest) fun _ ls => ls = rest := by
  refine (yields_accept (by simp)).bind ?_
  rintro b ls ⟨rfl, rfl⟩
  exact yields_pure _ rfl

theorem next_lines (h : ∀ i ∈ is, ∀ ls, next (kinds i ++ ls) ∉
      [.punctuation .semicolon, .punctuation .rparen, .eof]) :
    next (is.flatMap (fun i => kinds i ++ [.punctuation .semicolon]) ++
      .punctuation .rparen :: rest) ≠ .punctuation .semicolon := by
  cases is with
  | nil => simp
  | cons i is =>
    have hi := h i List.mem_cons_self
    simp only [List.mem_cons, not_or] at hi
    simpa only [List.flatMap_cons, List.append_assoc] using (hi _).1

theorem length_lines (kinds : ι → List TokenKind) (is : List ι) :
    is.length ≤ (is.flatMap fun i => kinds i ++ [.punctuation .semicolon]).length := by
  induction is with
  | nil => simp
  | cons i is ih =>
    simp only [List.flatMap_cons, List.length_append, List.length_cons, List.length_nil]
    omega

theorem yields_groupLines (closing ending : String) {line : Nat → Parser α} (first : Nat)
    (hline : ∀ j i, is[j]? = some i → ∀ ls, Yields (line (first + j))
      (kinds i ++ .punctuation .semicolon :: ls) fun x ms =>
        R i x ∧ ms = .punctuation .semicolon :: ls)
    (hstart : ∀ i ∈ is, ∀ ls, next (kinds i ++ ls) ∉
      [.punctuation .semicolon, .punctuation .rparen, .eof])
    (hn : is.length < n) :
    Yields (groupLines closing ending line out n first)
      (is.flatMap (fun i => kinds i ++ [.punctuation .semicolon]) ++ .punctuation .rparen :: rest)
      fun xs ls => List.Forall₂ R is xs ∧ ls = rest := by
  induction is generalizing n first with
  | nil =>
    obtain _ | n := n
    · simp at hn
    refine (yields_accept (by simp)).bind ?_
    rintro b ls ⟨rfl, rfl⟩
    exact yields_pure _ ⟨.nil, rfl⟩
  | cons i is ih =>
    obtain _ | n := n
    · simp at hn
    have hi := hstart i List.mem_cons_self
    simp only [List.mem_cons, List.not_mem_nil, or_false, not_or] at hi
    have hstart' : ∀ j ∈ is, ∀ ls, next (kinds j ++ ls) ∉
        [.punctuation .semicolon, .punctuation .rparen, .eof] :=
      fun j hj => hstart j (List.mem_cons_of_mem i hj)
    have htail := ih (n := n) (first + 1)
      (fun j k hk ls => by simpa only [Nat.add_assoc, Nat.add_comm 1] using hline (j + 1) k hk ls)
      hstart' (by simpa using hn)
    simp only [List.flatMap_cons, List.append_assoc, List.cons_append, List.nil_append]
    refine (yields_refuse (hi _).2.1).bind ?_
    rintro b ls ⟨rfl, rfl⟩
    refine yields_atEnd.bind ?_
    rintro b ls ⟨rfl, rfl⟩
    rw [beq_eq_false_iff_ne.2 (hi _).2.2]
    refine (hline 0 i rfl _).bind ?_
    rintro x ls ⟨hx, rfl⟩
    refine (yields_endOfSpec _).bind ?_
    rintro - ls rfl
    refine yields_skipSemicolons.bind ?_
    rintro - ls rfl
    rw [dropSemicolons_eq_self (next_lines hstart')]
    refine htail.bind ?_
    rintro xs ls ⟨hxs, rfl⟩
    exact yields_pure _ ⟨.cons hx hxs, rfl⟩

theorem yields_group (closing ending : String) {line : Nat → Parser α}
    (hline : ∀ j i, is[j]? = some i → ∀ ls, Yields (line j)
      (kinds i ++ .punctuation .semicolon :: ls) fun x ms =>
        R i x ∧ ms = .punctuation .semicolon :: ls)
    (hstart : ∀ i ∈ is, ∀ ls, next (kinds i ++ ls) ∉
      [.punctuation .semicolon, .punctuation .rparen, .eof]) :
    Yields (group closing ending line)
      (.punctuation .lparen :: (is.flatMap (fun i => kinds i ++ [.punctuation .semicolon]) ++
        .punctuation .rparen :: rest))
      fun g ls => (g.1 = true ∧ List.Forall₂ R is g.2) ∧ ls = rest := by
  refine (yields_accept (by simp)).bind ?_
  rintro b ls ⟨rfl, rfl⟩
  refine yields_skipSemicolons.bind ?_
  rintro - ls rfl
  rw [dropSemicolons_eq_self (next_lines hstart)]
  have hn : is.length < (is.flatMap (fun i => kinds i ++ [TokenKind.punctuation .semicolon]) ++
      TokenKind.punctuation .rparen :: rest).length := by
    have hlength := length_lines kinds is
    simp only [List.length_append, List.length_cons]
    omega
  refine (yields_bounded fun out => yields_groupLines closing ending 0 (by simpa using hline)
    hstart (Nat.lt_succ_of_lt hn)).bind ?_
  rintro xs ls ⟨hxs, rfl⟩
  exact yields_pure _ ⟨⟨rfl, hxs⟩, rfl⟩

theorem yields_single (closing ending : String) {line : Nat → Parser α} {ks : List TokenKind}
    (hnext : next ks ≠ .punctuation .lparen)
    (hline : Yields (line 0) ks fun x ls => R i x ∧ ls = rest) :
    Yields (group closing ending line) ks fun g ls =>
      (g.1 = false ∧ List.Forall₂ R [i] g.2) ∧ ls = rest := by
  refine (yields_refuse hnext).bind ?_
  rintro b ls ⟨rfl, rfl⟩
  refine hline.bind ?_
  rintro x ls ⟨hx, rfl⟩
  exact yields_pure _ ⟨⟨rfl, .cons hx .nil⟩, rfl⟩

end

end GoEnum.Parse
