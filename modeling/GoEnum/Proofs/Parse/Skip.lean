import GoEnum.Proofs.Parse.Balanced
import GoEnum.Proofs.Parse.Budget
import GoEnum.Proofs.Parse.Strip

/-!
What is skipped makes no difference to what follows it. The statements are about tokens without a
place, so that a cursor is nothing but the tokens that are left.
-/

namespace GoEnum.Parse

open Token

/-- Tokens that are nowhere in particular. -/
def plain (ks : List TokenKind) : Cursor := ⟨.point 0, ks.map (⟨·, .point 0⟩)⟩

@[simp] theorem kinds_plain (ks : List TokenKind) : (plain ks).kinds = ks := by
  simp [plain, Cursor.kinds, Function.comp_def]

@[simp] theorem kind_plain (ks : List TokenKind) : (plain ks).kind = next ks := by
  rw [Cursor.kind_eq, kinds_plain]

@[simp] theorem length_plain (ks : List TokenKind) : (plain ks).rest.length = ks.length :=
  List.length_map _

theorem start_plain (ks : List TokenKind) : Cursor.start (plain ks).rest = plain ks := by
  cases ks <;> rfl

theorem isEmpty_rest_plain (h : .eof ∈ ks) : (plain ks).rest.isEmpty = false := by
  cases ks with
  | nil => cases h
  | cons => rfl

theorem span_plain (ks : List TokenKind) : (plain ks).head.span = .point 0 := by
  cases ks <;> rfl

theorem advance_plain (hk : k ≠ .eof) (ks : List TokenKind) :
    (plain (k :: ks)).advance = plain ks := if_neg hk

theorem skipWhile_plain (p : TokenKind → Bool) (ks : List TokenKind) :
    Cursor.skipWhile p (.point 0) (plain ks).rest = plain (ks.dropWhile p) := by
  induction ks with
  | nil => rfl
  | cons k ks ih =>
    change Cursor.skipWhile p _ (⟨k, .point 0⟩ :: (plain ks).rest) = _
    rw [Cursor.skipWhile, List.dropWhile_cons]
    split
    · exact ih
    · rfl

theorem skipSemicolons_plain (ks : List TokenKind) :
    (plain ks).skipSemicolons = plain (dropSemicolons ks) := skipWhile_plain _ ks

theorem left_append (h : .eof ∉ ks) (rest : List TokenKind) :
    (plain (ks ++ rest)).left = ks.length + (plain rest).left := by
  have hks : ∀ k ∈ ks, (k != .eof) = true := by
    intro k hk
    refine bne_iff_ne.2 ?_
    rintro rfl
    exact h hk
  rw [Cursor.left, kinds_plain, List.takeWhile_append_of_pos hks, List.length_append, Cursor.left,
    kinds_plain]

theorem left_cons (hk : k ≠ .eof) (ks : List TokenKind) :
    (plain (k :: ks)).left = (plain ks).left + 1 := by
  have hkind : (plain (k :: ks)).kind ≠ .eof := by rwa [kind_plain]
  rw [Cursor.left_of_kind hkind, advance_plain hk]

theorem closeAll_tokens (start : Span) (n : Nat) (houter : outer ≠ [])
    (h : afterTokens stack ks = some stack') (rest : List TokenKind) :
    closeAll start out (ks.length + n) (stack ++ outer) (plain (ks ++ rest)) =
      closeAll start out n (stack' ++ outer) (plain rest) := by
  induction ks generalizing stack with
  | nil =>
    cases h
    rw [List.length_nil, Nat.zero_add, List.nil_append]
  | cons k ks ih =>
    rw [afterTokens_cons] at h
    obtain ⟨stack₁, hk, hks⟩ := Option.bind_eq_some_iff.1 h
    have hend : k ≠ .eof := by
      rintro rfl
      cases hk
    obtain ⟨top, open_, hopen⟩ := List.exists_cons_of_ne_nil
      (List.append_ne_nil_of_right_ne_nil stack houter)
    have hstep := afterToken_outer hk outer
    rw [hopen] at hstep ⊢
    rw [List.length_cons, Nat.add_right_comm, List.cons_append,
      closeAll_token (by rwa [kind_plain, next_cons]), advance_plain hend]
    exact ih hks

theorem exists_closeAll (h : Balanced ks) (hstack : stack ≠ [])
    (hn : (plain (ks ++ rest)).left < n) : ∃ i, (plain rest).left < i ∧
      closeAll start out n stack (plain (ks ++ rest)) =
        closeAll start out i stack (plain rest) := by
  rw [left_append (eof_not_mem_of_afterTokens h)] at hn
  refine ⟨n - ks.length, by omega, ?_⟩
  have hn : n = ks.length + (n - ks.length) := by omega
  rw [hn, Nat.add_sub_cancel_left]
  exact closeAll_tokens start (n - ks.length) hstack h rest

theorem strip_eq_plain (ts : List Token) :
    ts.map (Spanned.strip (TokenKind.strip id)) = (plain (ts.map (·.node))).rest := by
  have hstrip : ∀ k : TokenKind, k.strip id = k := by
    intro k
    cases k <;> rfl
  simp [plain, Spanned.strip, hstrip]

theorem Yields.run_plain {p : Parser Unit} (hp : Same id p)
    (h : Yields p ks fun _ ls => ls = rest) : p (plain ks) = .ok () (plain rest) := by
  have hstrip : ∀ c : Cursor, c.strip id = plain c.kinds := fun c =>
    congrArg (Cursor.mk (.point 0)) (strip_eq_plain c.rest)
  obtain ⟨⟨⟩, d, hd, rfl⟩ := h (plain ks) (kinds_plain ks)
  have hsame := hp (plain ks)
  rw [hstrip, kinds_plain, hd, stripResult, hstrip] at hsame
  exact hd.trans hsame

theorem skipBalanced_group (hopen : p.closing? = some q) (h : Balanced ks)
    (rest : List TokenKind) :
    skipBalanced (plain (.punctuation p :: (ks ++ .punctuation q :: rest))) =
      .ok () (plain rest) :=
  (yields_skipBalanced hopen h).run_plain strips_skipBalanced

theorem skipItem_token (hopen : k.isOpener = false) (hend : k ≠ .eof) (rest : List TokenKind) :
    skipItem (plain (k :: rest)) = .ok () (plain rest) :=
  (yields_skipItem_token hopen hend).run_plain strips_skipItem

theorem skipItem_opener (hopen : p.isOpener = true) (rest : List TokenKind) :
    skipItem (plain (.punctuation p :: rest)) = skipBalanced (plain (.punctuation p :: rest)) := by
  rw [skipItem, peek_bind_eq, kind_plain, next_cons]
  dsimp only
  rw [if_pos hopen]

structure SkipsItems (stops : TokenKind → Bool) (p : String → Nat → Parser Unit) : Prop where
  line : k.isCloser = false → k ≠ .eof → k ≠ .punctuation .semicolon → stops k = false
  stop : stops c.kind = true → p out (n + 1) c = .ok () c
  fail : stops c.kind = false → c.kind = .eof → p out (n + 1) c ≠ .ok u d
  item : stops c.kind = false → c.kind ≠ .eof → p out (n + 1) c = (do skipItem; p out n) c
  settles : Settles p

theorem skipsItems_skipUntil (hcloser : closer.isCloser = true) :
    SkipsItems (· == .punctuation closer) (skipUntil closer) where
  line hclose _ _ := by
    refine beq_eq_false_iff_ne.2 ?_
    rintro rfl
    rw [TokenKind.isCloser, hcloser] at hclose
    cases hclose
  stop hstop := by
    rw [skipUntil, isNext_bind_eq, hstop]
    rfl
  fail hgo hend := by
    rw [skipUntil, isNext_bind_eq, hgo, if_neg Bool.false_ne_true, atEnd_bind_eq, hend]
    rintro ⟨⟩
  item hgo hend := by
    rw [skipUntil, isNext_bind_eq, hgo, if_neg Bool.false_ne_true, atEnd_bind_eq,
      beq_eq_false_iff_ne.2 hend]
    rfl
  settles := settles_skipUntil closer

def endsValues : TokenKind → Bool
  | .eof | .punctuation .semicolon | .punctuation .rparen => true
  | _ => false

theorem skipsItems_skipValues : SkipsItems endsValues skipValues where
  line hclose hend hsemicolon := by
    unfold endsValues
    split
    · exact absurd rfl hend
    · exact absurd rfl hsemicolon
    · cases hclose
    · rfl
  stop {_ _ c} hstop := by
    rw [skipValues, peek_bind_eq]
    generalize c.kind = k at hstop
    unfold endsValues at hstop
    split at hstop
    · rfl
    · rfl
    · rfl
    · cases hstop
  fail hgo hend := by
    rw [hend] at hgo
    cases hgo
  item {_ _ c} hgo _ := by
    rw [skipValues, peek_bind_eq]
    generalize c.kind = k at hgo
    split
    · cases hgo
    · cases hgo
    · cases hgo
    · rfl
  settles := settles_skipValues

theorem SkipsItems.exists_line {p : String → Nat → Parser Unit} (hp : SkipsItems stops p)
    (h : Line ks) (hn : (plain (ks ++ rest)).left < n) :
    ∃ i, (plain rest).left < i ∧ p out n (plain (ks ++ rest)) = p out i (plain rest) := by
  have hitem : ∀ {k ls ms n}, stops k = false → k ≠ .eof →
      skipItem (plain (k :: ls)) = .ok () (plain ms) → (plain (k :: ls)).left < n →
      ∃ i, (plain ms).left < i ∧ p out n (plain (k :: ls)) = p out i (plain ms) := by
    intro k ls ms n hgo hend hskip hn
    have hleft := left_skipItem (by rwa [kind_plain]) hskip
    obtain _ | n := n
    · cases hn
    refine ⟨n, by omega, ?_⟩
    rw [hp.item (by rwa [kind_plain]) (by rwa [kind_plain])]
    change EStateM.bind skipItem (fun _ => p out n) _ = _
    rw [EStateM.bind, hskip]
  induction h generalizing n with
  | nil => exact ⟨n, hn, rfl⟩
  | token hopen hfree _ ih =>
    obtain ⟨i, hi, hpass⟩ := hitem (hp.line hfree.1 hfree.2.1 hfree.2.2) hfree.2.1
      (skipItem_token hopen hfree.2.1 _) hn
    obtain ⟨j, hj, hrest⟩ := ih hi
    exact ⟨j, hj, hpass.trans hrest⟩
  | @group q ks ls p hopen hks _ ih =>
    have hp' : p.isOpener = true := by rw [Punctuation.isOpener, hopen, Option.isSome_some]
    have hskip := skipBalanced_group hopen hks (ls ++ rest)
    rw [← skipItem_opener hp'] at hskip
    have hgo : stops (.punctuation p) = false := by
      refine hp.line ?_ (by simp) ?_
      · cases p <;> first | rfl | cases hopen
      · rintro ⟨⟩
        cases hopen
    rw [List.cons_append, List.append_assoc, List.cons_append] at hn ⊢
    obtain ⟨i, hi, hpass⟩ := hitem hgo (by simp) hskip hn
    obtain ⟨j, hj, hrest⟩ := ih hi
    exact ⟨j, hj, hpass.trans hrest⟩

end GoEnum.Parse
