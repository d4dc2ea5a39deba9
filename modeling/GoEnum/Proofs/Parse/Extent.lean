import GoEnum.Proofs.Parse.Orderly
import GoEnum.Proofs.Syntax.Outline

namespace GoEnum.Parse

open Token Syntax Outline

/-- Tokens one after the other from byte `lo` to byte `size`. A semicolon may be empty, and so may
the end. -/
inductive Lies (size : Nat) : Nat → List Token → Prop
  | nil : lo ≤ size → Lies size lo []
  | cons : lo ≤ t.span.start → t.span.start ≤ t.span.stop →
      (t.node ≠ .punctuation .semicolon → t.node ≠ .eof → t.span.start < t.span.stop) →
      Lies size t.span.stop ts → Lies size lo (t :: ts)

namespace Cursor

structure Sorted (size : Nat) (c : Cursor) : Prop where
  prev : c.prev.start ≤ c.prev.stop
  rest : Lies size c.prev.stop c.rest

def front (c : Cursor) : Nat := (c.rest.head?.map (·.span.start)).getD c.prev.stop

inductive Reaches : Cursor → Cursor → Prop
  | refl : Reaches c c
  | step : Reaches ⟨t.span, ts⟩ d → Reaches ⟨s, t :: ts⟩ d

end Cursor

section

variable {size : Nat} {c d e : Cursor}

theorem Lies.le (h : Lies size lo ts) : lo ≤ size := by
  induction h with
  | nil hle => exact hle
  | cons hlo hle _ _ ih => exact Nat.le_trans hlo (Nat.le_trans hle ih)

theorem Lies.mono (h : Lies size lo ts) (hlo : lo' ≤ lo) : Lies size lo' ts := by
  cases h with
  | nil hle => exact .nil (Nat.le_trans hlo hle)
  | cons hstart hle hne hts => exact .cons (Nat.le_trans hlo hstart) hle hne hts

theorem Cursor.Sorted.prev_le_front (h : c.Sorted size) : c.prev.stop ≤ c.front := by
  obtain ⟨prev, rest⟩ := c
  cases h.rest with
  | nil => exact Nat.le_refl _
  | cons hlo => exact hlo

theorem Cursor.Sorted.step (h : Cursor.Sorted size ⟨s, t :: ts⟩) :
    Cursor.Sorted size ⟨t.span, ts⟩ := by
  cases h.rest with
  | cons _ hle _ hts => exact ⟨hle, hts⟩

theorem Cursor.Sorted.inked (h : Cursor.Sorted size ⟨s, t :: ts⟩)
    (hsemicolon : t.node ≠ .punctuation .semicolon) (hend : t.node ≠ .eof) :
    t.span.start < t.span.stop := by
  cases h.rest with
  | cons _ _ hne => exact hne hsemicolon hend

theorem Cursor.exists_cons (h : c.kind ≠ .eof) :
    ∃ s t ts, c = ⟨s, t :: ts⟩ ∧ t.node ≠ .eof := by
  obtain ⟨s, _ | ⟨t, ts⟩⟩ := c
  · exact absurd rfl h
  · exact ⟨s, t, ts, rfl, h⟩

theorem advance_cons (h : t.node ≠ .eof) : Cursor.advance ⟨s, t :: ts⟩ = ⟨t.span, ts⟩ := if_neg h

namespace Cursor.Reaches

theorem trans (h : c.Reaches d) (h' : d.Reaches e) : c.Reaches e := by
  induction h with
  | refl => exact h'
  | step _ ih => exact .step (ih h')

theorem sorted (h : c.Reaches d) (hc : c.Sorted size) : d.Sorted size := by
  induction h with
  | refl => exact hc
  | step _ ih => exact ih hc.step

theorem prev_le (h : c.Reaches d) (hc : c.Sorted size) : c.prev.stop ≤ d.prev.stop := by
  induction h with
  | refl => exact Nat.le_refl _
  | step _ ih =>
    cases hc.rest with
    | cons hlo hle => exact Nat.le_trans hlo (Nat.le_trans hle (ih hc.step))

theorem front_le (h : c.Reaches d) (hc : c.Sorted size) : c.front ≤ d.front := by
  induction h with
  | refl => exact Nat.le_refl _
  | step _ ih => exact Nat.le_trans hc.step.prev (Nat.le_trans hc.step.prev_le_front (ih hc.step))

theorem start_le (h : c.Reaches d) (hc : c.Sorted size) : c.prev.start ≤ d.prev.start := by
  induction h with
  | refl => exact Nat.le_refl _
  | step _ ih =>
    cases hc.rest with
    | cons hlo => exact Nat.le_trans hc.prev (Nat.le_trans hlo (ih hc.step))

theorem exists_lies (h : c.Reaches d) (hc : Lies size lo c.rest) :
    ∃ lo', Lies size lo' d.rest := by
  induction h generalizing lo with
  | refl => exact ⟨lo, hc⟩
  | step _ ih =>
    cases hc with
    | cons _ _ _ hts => exact ih hts

theorem exists_cons (h : c.Reaches d) (hlt : d.left < c.left) :
    ∃ s t ts, c = ⟨s, t :: ts⟩ ∧ t.node ≠ .eof ∧ Reaches ⟨t.span, ts⟩ d := by
  cases h with
  | refl => exact absurd hlt (Nat.lt_irrefl _)
  | step h =>
    refine ⟨_, _, _, rfl, fun hend => ?_, h⟩
    simp [left, kinds, hend] at hlt

end Cursor.Reaches

theorem reaches_advance (c : Cursor) : c.Reaches c.advance := by
  obtain ⟨prev, _ | ⟨t, ts⟩⟩ := c
  · exact .refl
  · unfold Cursor.advance
    dsimp only
    split
    · exact .refl
    · exact .step .refl

theorem reaches_skipWhile (p : TokenKind → Bool) (prev : Span) (ts : List Token) :
    Cursor.Reaches ⟨prev, ts⟩ (Cursor.skipWhile p prev ts) := by
  induction ts generalizing prev with
  | nil => exact .refl
  | cons t ts ih =>
    rw [Cursor.skipWhile]
    split
    · exact .step (ih t.span)
    · exact .refl

end

def Proceeds (p : Parser α) : Prop := ∀ c x d, p c = .ok x d → c.Reaches d

section

variable {p : Parser α} {f : α → Parser β}

theorem proceeds_pure (x : α) : Proceeds (pure x) := by
  rintro c y d ⟨⟩
  exact .refl

theorem proceeds_fail (cause : SyntaxCause) (span : Span) :
    Proceeds (fail cause span : Parser α) := by
  rintro c x d ⟨⟩

theorem Proceeds.bind (hp : Proceeds p) (hf : ∀ x, Proceeds (f x)) : Proceeds (p >>= f) := by
  intro c y d h
  obtain ⟨x, c', hx, hy⟩ := bind_ok.1 h
  exact (hp c x c' hx).trans (hf x c' y d hy)

theorem Proceeds.map {g : α → β} (hp : Proceeds p) : Proceeds (g <$> p) :=
  hp.bind fun _ => proceeds_pure _

theorem Proceeds.ite {cond : Prop} [Decidable cond] {q : Parser α} (hp : Proceeds p)
    (hq : Proceeds q) : Proceeds (if cond then p else q) := by
  split
  · exact hp
  · exact hq

theorem Proceeds.when {cond : Prop} [Decidable cond] {q : Parser β} (hp : Proceeds p)
    (hq : Proceeds q) : Proceeds (if cond then p >>= fun _ => q else q) :=
  .ite (hp.bind fun _ => hq) hq

theorem Proceeds.get {f : Cursor → Parser β} (hf : ∀ c, Proceeds (f c)) :
    Proceeds (get >>= f) := fun c => hf c c

theorem Proceeds.peek {f : TokenKind → Parser β} (hf : ∀ k, Proceeds (f k)) :
    Proceeds (peek >>= f) := fun c => hf c.kind c

theorem proceeds_unexpected (what : String) : Proceeds (unexpected what : Parser α) := by
  rintro c x d ⟨⟩

theorem proceeds_isNext (k : TokenKind) : Proceeds (isNext k) := .peek fun _ => proceeds_pure _

theorem proceeds_peekAt (n : Nat) : Proceeds (peekAt n) := .get fun _ => proceeds_pure _

theorem proceeds_atEnd : Proceeds atEnd := .get fun _ => proceeds_pure _

theorem proceeds_advance : Proceeds advance := by
  rintro c x d ⟨⟩
  exact reaches_advance c

theorem proceeds_skipSemicolons : Proceeds skipSemicolons := by
  rintro c x d ⟨⟩
  exact reaches_skipWhile _ _ _

theorem proceeds_accept (k : TokenKind) : Proceeds (accept k) :=
  (proceeds_isNext k).bind fun _ =>
    .ite (proceeds_advance.bind fun _ => proceeds_pure _) (proceeds_pure _)

theorem proceeds_expect (k : TokenKind) (what : String) : Proceeds (expect k what) :=
  (proceeds_accept k).bind fun _ => .ite (proceeds_unexpected what) (proceeds_pure _)

theorem proceeds_closeAll (start : Span) (n : Nat) (stack : List Punctuation) :
    Proceeds (closeAll start out n stack) := by
  induction n generalizing stack with
  | zero =>
    cases stack with
    | nil => exact proceeds_pure _
    | cons top stack => exact proceeds_unexpected _
  | succ n ih =>
    cases stack with
    | nil => exact proceeds_pure _
    | cons top stack =>
      refine .get fun c => .when (proceeds_fail _ _) ?_
      refine proceeds_advance.bind fun _ => ?_
      split
      · exact .ite (ih _) (.ite (.ite (ih _) (proceeds_fail _ _)) (ih _))
      · exact ih _

theorem proceeds_skipBalanced : Proceeds skipBalanced := by
  refine .peek fun k => ?_
  split
  · exact fun c => proceeds_advance.bind (fun _ c => proceeds_closeAll _ _ _ c) c
  · exact proceeds_unexpected _

theorem proceeds_skipItem : Proceeds skipItem := by
  refine .peek fun k => ?_
  split
  · exact .ite proceeds_skipBalanced proceeds_advance
  · exact proceeds_advance

theorem proceeds_skipValues (n : Nat) : Proceeds (skipValues out n) := by
  induction n with
  | zero => exact proceeds_unexpected _
  | succ n ih =>
    refine .peek fun k => ?_
    split
    · exact proceeds_pure _
    · exact proceeds_pure _
    · exact proceeds_pure _
    · exact proceeds_skipItem.bind fun _ => ih

theorem proceeds_skipUntil (closer : Punctuation) (n : Nat) :
    Proceeds (skipUntil closer out n) := by
  induction n with
  | zero => exact proceeds_unexpected _
  | succ n ih =>
    refine (proceeds_isNext _).bind fun _ => .ite (proceeds_pure _) ?_
    refine proceeds_atEnd.bind fun _ => .when (proceeds_unexpected _) ?_
    exact proceeds_skipItem.bind fun _ => ih

theorem Orderly.proceeds (h : Orderly opens K p) (c : Cursor) (hc : K c.kind) :
    ∀ x d, p c = .ok x d → c.Reaches d := by
  induction h generalizing c with
  | pure x => exact proceeds_pure x c
  | fail cause span => exact proceeds_fail cause span c
  | bind _ _ hp hf =>
    intro y d h
    obtain ⟨x, c', hx, hy⟩ := bind_ok.1 h
    exact (hp c hc x c' hx).trans (hf x c' trivial y d hy)
  | peek _ hf => exact hf c.kind hc c rfl
  | peekOne _ _ hf => exact hf c.kind (c.kindAt 1) hc c rfl
  | peekTwo _ _ _ hf => exact hf c.kind (c.kindAt 1) (c.kindAt 2) hc c rfl
  | currentSpan _ hf => exact hf c.head.span c hc
  | previousSpan =>
    rintro x d ⟨⟩
    exact .refl
  | advance => exact proceeds_advance c
  | skipSemicolons => exact proceeds_skipSemicolons c
  | bounded _ _ hp => exact hp "nothing" (c.rest.length + 1) c hc
  | skipBalanced => exact proceeds_skipBalanced c
  | skipValues => exact proceeds_skipValues _ c
  | skipUntil => exact proceeds_skipUntil _ _ c

theorem Orderly.anywhere (h : OrderlyAnywhere opens p) : Proceeds p := fun c => h.proceeds c trivial

end

end GoEnum.Parse
