import GoEnum.Proofs.Parse.Delimited
import GoEnum.Proofs.Token.Balanced

namespace GoEnum.Parse

open Token

variable {rest : List TokenKind} {Q : Unit → List TokenKind → Prop}

theorem closeAll_nil (start : Span) (n : Nat) : closeAll start out n [] = pure () := by
  cases n <;> rfl

theorem closeAll_token (h : afterToken (top :: stack) c.kind = some stack') (start : Span)
    (n : Nat) :
    closeAll start out (n + 1) (top :: stack) c = closeAll start out n stack' c.advance := by
  have heof : c.head.node ≠ .eof := by
    intro heof
    rw [Cursor.kind, heof] at h
    cases h
  rw [closeAll, get_bind_eq]
  dsimp only
  rw [if_neg heof, advance_bind_run]
  rw [Cursor.kind] at h
  cases hk : c.head.node with
  | punctuation p =>
    rw [hk] at h
    simp only [afterToken] at h ⊢
    split at h
    · cases h
      rw [if_pos ‹_›]
    · rw [if_neg ‹_›]
      split at h
      · rw [if_pos ‹_›]
        split at h
        · cases h
          rw [if_pos ‹_›]
        · cases h
      · cases h
        rw [if_neg ‹_›]
  | eof => exact absurd hk heof
  | _ =>
    rw [hk] at h
    cases h
    rfl

theorem afterToken_of_closeAll (h : closeAll start out n (top :: stack) c = .ok u d) :
    ∃ stack', afterToken (top :: stack) c.kind = some stack' := by
  obtain _ | n := n
  · cases h
  rw [closeAll, get_bind_eq] at h
  dsimp only at h
  split at h
  · cases h
  · rename_i heof
    rw [Cursor.kind]
    cases hk : c.head.node with
    | punctuation p =>
      rw [hk, advance_bind_run] at h
      dsimp only at h
      simp only [afterToken]
      split
      · exact ⟨_, rfl⟩
      · rw [if_neg ‹_›] at h
        split
        · rw [if_pos ‹_›] at h
          split
          · exact ⟨_, rfl⟩
          · rw [if_neg ‹_›] at h
            cases h
        · exact ⟨_, rfl⟩
    | eof => exact absurd hk heof
    | _ => exact ⟨_, rfl⟩
theorem yields_closeAll_token (hstack : stack ≠ []) (h : afterToken stack k = some stack')
    (hrest : Yields (closeAll start out n stack') rest Q) :
    Yields (closeAll start out (n + 1) stack) (k :: rest) Q := by
  obtain ⟨top, stack, rfl⟩ := List.exists_cons_of_ne_nil hstack
  intro c hc
  have hk : c.kind = k := by rw [c.kind_eq, hc, next_cons]
  have heof : k ≠ .eof := by
    rintro rfl
    cases h
  rw [closeAll_token (hk ▸ h)]
  refine hrest c.advance ?_
  rw [c.kinds_advance, hk, if_neg heof, hc, List.tail_cons]

theorem yields_closeAll_tokens (houter : outer ≠ []) (h : afterTokens stack ks = some stack')
    (hrest : Yields (closeAll start out n (stack' ++ outer)) rest Q) :
    Yields (closeAll start out (ks.length + n) (stack ++ outer)) (ks ++ rest) Q := by
  induction ks generalizing stack with
  | nil =>
    cases h
    simpa using hrest
  | cons k ks ih =>
    rw [afterTokens_cons] at h
    obtain ⟨stack₁, hk, hks⟩ := Option.bind_eq_some_iff.1 h
    have hstack : stack ++ outer ≠ [] := by simp [houter]
    rw [List.length_cons, Nat.add_right_comm, List.cons_append]
    exact yields_closeAll_token hstack (afterToken_outer hk outer) (ih hks)

theorem yields_skipBalanced (hopen : p.closing? = some q) (h : Balanced ks) :
    Yields skipBalanced (.punctuation p :: ks ++ .punctuation q :: rest) fun _ ls => ls = rest := by
  have hclose : afterToken [p] (.punctuation q) = some [] := by
    cases p <;> cases hopen <;> rfl
  rw [List.cons_append]
  refine yields_peek.bind ?_
  rintro k ls ⟨rfl, rfl⟩
  refine yields_currentSpan.bind ?_
  rintro start ls rfl
  refine (yields_advance (by simp)).bind ?_
  rintro - ls rfl
  refine yields_bounded fun out => ?_
  rw [List.length_append, List.length_cons, Nat.add_assoc]
  refine yields_closeAll_tokens (List.cons_ne_nil p []) h ?_
  refine yields_closeAll_token (by simp) hclose ?_
  rw [closeAll_nil]
  exact yields_pure _ rfl

theorem yields_skipItem_token (hopen : k.isOpener = false) (heof : k ≠ .eof) :
    Yields skipItem (k :: rest) fun _ ls => ls = rest := by
  have hadvance : Yields advance (k :: rest) fun _ ls => ls = rest := yields_advance heof
  refine yields_peek.bind ?_
  rintro k ls ⟨rfl, rfl⟩
  cases k with
  | punctuation p =>
    have hp : ¬ p.isOpener = true := ne_true_of_eq_false hopen
    simpa only [if_neg hp] using hadvance
  | _ => exact hadvance

theorem yields_skipItem_group (hopen : p.closing? = some q) (h : Balanced ks) :
    Yields skipItem (.punctuation p :: (ks ++ .punctuation q :: rest)) fun _ ls => ls = rest := by
  refine yields_peek.bind ?_
  rintro k ls ⟨rfl, rfl⟩
  have hp : p.isOpener = true := by rw [Punctuation.isOpener, hopen, Option.isSome_some]
  simp only [next_cons, hp, if_true]
  exact yields_skipBalanced hopen h

theorem yields_skipUntil (hcloser : closer.isOpener = false)
    (h : Items (fun k => k ≠ .punctuation closer ∧ k ≠ .eof) ks) (hn : ks.length < n) :
    Yields (skipUntil closer out n) (ks ++ .punctuation closer :: rest)
      fun _ ls => ls = .punctuation closer :: rest := by
  induction h generalizing n with
  | nil =>
    obtain _ | n := n
    · simp at hn
    refine (yields_isNext _).bind ?_
    rintro b ls ⟨rfl, rfl⟩
    rw [List.nil_append, next_cons, beq_self_eq_true]
    exact yields_pure _ rfl
  | @token k ks hopen hfree _ ih =>
    obtain _ | n := n
    · simp at hn
    rw [List.cons_append]
    refine (yields_isNext _).bind ?_
    rintro b ls ⟨rfl, rfl⟩
    rw [next_cons, beq_eq_false_iff_ne.2 hfree.1]
    refine yields_atEnd.bind ?_
    rintro b ls ⟨rfl, rfl⟩
    rw [next_cons, beq_eq_false_iff_ne.2 hfree.2]
    refine (yields_skipItem_token hopen hfree.2).bind ?_
    rintro - ls rfl
    exact ih (by simpa using hn)
  | @group q ks ls p hopen hks _ ih =>
    obtain _ | n := n
    · simp at hn
    have hne : p ≠ closer := by
      rintro rfl
      simp [Punctuation.isOpener, hopen] at hcloser
    simp only [List.cons_append, List.append_assoc]
    refine (yields_isNext _).bind ?_
    rintro b _ ⟨rfl, rfl⟩
    rw [next_cons, beq_eq_false_iff_ne.2 (by simpa using hne)]
    refine yields_atEnd.bind ?_
    rintro b _ ⟨rfl, rfl⟩
    refine (yields_skipItem_group hopen hks).bind ?_
    rintro - _ rfl
    exact ih (by simp only [List.length_cons, List.length_append] at hn; omega)

end GoEnum.Parse
