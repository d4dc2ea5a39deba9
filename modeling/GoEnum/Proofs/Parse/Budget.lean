import GoEnum.Parse.Delimited
import GoEnum.Proofs.Parse.Run

/-!
How many tokens are left, and parsers whose budgets do not matter as long as they are larger than
that number.
-/

namespace GoEnum.Parse

open Token

namespace Cursor

/-- The number of tokens in front of the end. -/
def left (c : Cursor) : Nat := (c.kinds.takeWhile (· != .eof)).length

theorem left_of_kind {c : Cursor} (h : c.kind ≠ .eof) : c.left = c.advance.left + 1 := by
  rw [left, c.kinds_of_kind h, List.takeWhile_cons_of_pos (by simpa using h)]
  rfl

theorem advance_of_kind {c : Cursor} (h : c.kind = .eof) : c.advance = c := by
  obtain ⟨prev, _ | ⟨t, ts⟩⟩ := c
  · rfl
  · exact if_pos h

theorem left_advance (c : Cursor) : c.advance.left ≤ c.left := by
  by_cases h : c.kind = .eof
  · exact Nat.le_of_eq (congrArg left (advance_of_kind h))
  · rw [left_of_kind h]
    exact Nat.le_succ _

theorem left_lt_bound (c : Cursor) : c.left < c.rest.length + 1 := by
  rw [c.length_rest]
  exact Nat.lt_succ_of_le (List.takeWhile_sublist _).length_le

theorem left_skipWhile (p : TokenKind → Bool) (hp : p .eof = false) (prev : Span)
    (ts : List Token) : (skipWhile p prev ts).left ≤ (Cursor.mk prev ts).left := by
  induction ts generalizing prev with
  | nil => exact Nat.le_refl _
  | cons t ts ih =>
    rw [skipWhile]
    split
    · rename_i ht
      have hkind : (Cursor.mk prev (t :: ts)).kind ≠ .eof := by
        intro h
        change t.node = .eof at h
        rw [h, hp] at ht
        cases ht
      have hadvance : (Cursor.mk prev (t :: ts)).advance = ⟨t.span, ts⟩ := if_neg hkind
      rw [left_of_kind hkind, hadvance]
      exact Nat.le_succ_of_le (ih t.span)
    · exact Nat.le_refl _

theorem left_skipSemicolons (c : Cursor) : c.skipSemicolons.left ≤ c.left :=
  left_skipWhile _ rfl _ _

theorem left_synchronize (c : Cursor) : c.synchronize.left ≤ c.left :=
  Nat.le_trans (left_skipWhile _ rfl _ _) c.left_advance

end Cursor

def stop : EStateM.Result SyntaxError Cursor α → Cursor
  | .ok _ c => c
  | .error _ c => c

def Moves (p : Parser α) : Prop := ∀ c, (stop (p c)).left ≤ c.left

def Shrinks (p : Parser α) : Prop := ∀ c x d, p c = .ok x d → d.left < c.left

section

variable {p : Parser α} {f : α → Parser β}

theorem Moves.left_le (h : Moves p) (hp : p c = .ok x d) : d.left ≤ c.left := by
  have hle := h c
  rw [hp] at hle
  exact hle

theorem moves_pure (x : α) : Moves (pure x) := fun _ => Nat.le_refl _

theorem Moves.bind (hp : Moves p) (hf : ∀ x, Moves (f x)) : Moves (p >>= f) := by
  intro c
  change (stop (EStateM.bind p f c)).left ≤ _
  have hle := hp c
  unfold EStateM.bind
  cases hc : p c with
  | error e d =>
    rw [hc] at hle
    exact hle
  | ok x d =>
    rw [hc] at hle
    exact Nat.le_trans (hf x d) hle

theorem moves_get : Moves get := fun _ => Nat.le_refl _

theorem moves_peek : Moves peek := fun _ => Nat.le_refl _

theorem moves_peekAt (n : Nat) : Moves (peekAt n) := fun _ => Nat.le_refl _

theorem moves_isNext (k : TokenKind) : Moves (isNext k) := fun _ => Nat.le_refl _

theorem moves_atEnd : Moves atEnd := fun _ => Nat.le_refl _

theorem moves_currentSpan : Moves currentSpan := fun _ => Nat.le_refl _

theorem moves_fail (cause : SyntaxCause) (span : Span) : Moves (fail cause span : Parser α) :=
  fun _ => Nat.le_refl _

theorem moves_unexpected (what : String) : Moves (unexpected what : Parser α) :=
  fun _ => Nat.le_refl _

theorem moves_advance : Moves advance := fun c => c.left_advance

theorem moves_skipSemicolons : Moves skipSemicolons := fun c => c.left_skipSemicolons

theorem Moves.ite {c : Prop} [Decidable c] {q : Parser α} (hp : Moves p) (hq : Moves q) :
    Moves (if c then p else q) := by
  split
  · exact hp
  · exact hq

theorem Moves.map {g : α → β} (hp : Moves p) : Moves (g <$> p) := by
  rw [← bind_pure_comp]
  exact hp.bind fun x => moves_pure _

theorem moves_accept (k : TokenKind) : Moves (accept k) :=
  (moves_isNext k).bind fun _ => Moves.ite (moves_advance.bind fun _ => moves_pure _) (moves_pure _)

theorem moves_expect (k : TokenKind) (what : String) : Moves (expect k what) :=
  (moves_accept k).bind fun _ => Moves.ite (moves_unexpected what) (moves_pure _)

theorem moves_endOfSpec (what : String) : Moves (endOfSpec what) :=
  (moves_accept _).bind fun _ => Moves.ite (moves_pure _) ((moves_isNext _).bind fun _ =>
    moves_atEnd.bind fun _ => Moves.ite (moves_unexpected _) (moves_pure _))

theorem moves_bounded {p : String → Nat → Parser α} (h : ∀ out n, Moves (p out n)) :
    Moves (bounded p) :=
  fun c => h "nothing" (c.rest.length + 1) c

theorem moves_closeAll (start : Span) (n : Nat) (stack : List Punctuation) :
    Moves (closeAll start out n stack) := by
  induction n generalizing stack with
  | zero =>
    cases stack with
    | nil => exact moves_pure _
    | cons top stack => exact moves_unexpected _
  | succ n ih =>
    cases stack with
    | nil => exact moves_pure _
    | cons top stack =>
      refine moves_get.bind fun c => ?_
      refine Moves.ite ((moves_fail _ _).bind fun _ => ?_) ?_
      all_goals
        refine moves_advance.bind fun _ => ?_
        split
        · refine Moves.ite (ih _) (Moves.ite (Moves.ite (ih _) (moves_fail _ _)) (ih _))
        · exact ih _

theorem moves_skipBalanced : Moves skipBalanced := by
  refine moves_peek.bind fun k => ?_
  split
  · exact moves_currentSpan.bind fun start => moves_advance.bind fun _ =>
      moves_bounded fun _ n => moves_closeAll start n _
  · exact moves_unexpected _

theorem moves_skipItem : Moves skipItem := by
  refine moves_peek.bind fun k => ?_
  split
  · exact Moves.ite moves_skipBalanced moves_advance
  · exact moves_advance

theorem left_advance_bind (hkind : c.kind ≠ .eof) (hp : Moves p)
    (h : (advance >>= fun _ => p) c = .ok x d) : d.left < c.left := by
  rw [Cursor.left_of_kind hkind]
  exact Nat.lt_succ_of_le (hp.left_le (c := c.advance) h)

theorem left_skipItem (hkind : c.kind ≠ .eof) (h : skipItem c = .ok u d) : d.left < c.left := by
  obtain ⟨k, _, hk, h⟩ := bind_ok.1 h
  obtain ⟨-, rfl⟩ := peek_ok.1 hk
  split at h
  · split at h
    · obtain ⟨k, _, hk, h⟩ := bind_ok.1 h
      obtain ⟨-, rfl⟩ := peek_ok.1 hk
      split at h
      · obtain ⟨start, _, hstart, h⟩ := bind_ok.1 h
        obtain ⟨-, rfl⟩ := pure_ok.1 hstart
        exact left_advance_bind hkind (moves_bounded fun _ n => moves_closeAll _ n _) h
      · cases h
    · exact left_advance_bind hkind (moves_pure ()) h
  · exact left_advance_bind hkind (moves_pure ()) h

theorem moves_skipValues (n : Nat) : Moves (skipValues out n) := by
  induction n with
  | zero => exact moves_unexpected _
  | succ n ih =>
    refine moves_peek.bind fun k => ?_
    split
    · exact moves_pure _
    · exact moves_pure _
    · exact moves_pure _
    · exact moves_skipItem.bind fun _ => ih

theorem moves_skipUntil (closer : Punctuation) (n : Nat) : Moves (skipUntil closer out n) := by
  induction n with
  | zero => exact moves_unexpected _
  | succ n ih =>
    refine (moves_isNext _).bind fun b => Moves.ite (moves_pure _) ?_
    refine moves_atEnd.bind fun b => Moves.ite ((moves_unexpected _).bind fun _ => ?_) ?_
    all_goals exact moves_skipItem.bind fun _ => ih

theorem moves_commaSeparated {item : Parser α} (h : Moves item) (n : Nat) :
    Moves (commaSeparated item out n) := by
  induction n with
  | zero => exact moves_unexpected _
  | succ n ih =>
    refine h.bind fun x => (moves_accept _).bind fun b => Moves.ite ?_ (moves_pure _)
    exact ih.bind fun _ => moves_pure _

theorem Shrinks.bind (hp : Shrinks p) (hf : ∀ x, Moves (f x)) : Shrinks (p >>= f) := by
  intro c y d h
  obtain ⟨x, c', hx, hy⟩ := bind_ok.1 h
  exact Nat.lt_of_le_of_lt ((hf x).left_le hy) (hp c x c' hx)

theorem shrinks_unexpected (what : String) : Shrinks (unexpected what : Parser α) :=
  fun _ _ _ h => absurd h (unexpected_ne_ok _)

theorem shrinks_commaSeparated {item : Parser α} (h : Shrinks item) (hmoves : Moves item)
    (n : Nat) : Shrinks (commaSeparated item out n) := by
  cases n with
  | zero => exact shrinks_unexpected _
  | succ n =>
    refine h.bind fun x => (moves_accept _).bind fun b => Moves.ite ?_ (moves_pure _)
    exact (moves_commaSeparated hmoves n).bind fun _ => moves_pure _

theorem Cursor.left_of_kinds {c d : Cursor} (h : c.kinds = k :: d.kinds) (hk : k ≠ .eof) :
    d.left < c.left := by
  rw [Cursor.left, Cursor.left, h, List.takeWhile_cons_of_pos (by simpa using hk)]
  exact Nat.lt_succ_self _

theorem shrinks_expect (hk : k ≠ .eof) (what : String) : Shrinks (expect k what) :=
  fun _ _ _ h => Cursor.left_of_kinds (expect_ok hk h) hk

theorem shrinks_identifier : Shrinks identifier :=
  fun _ _ _ h => Cursor.left_of_kinds (identifier_ok h) (by simp)

end

def Agrees (n : Nat) (p q : Parser α) : Prop := ∀ c : Cursor, c.left < n → p c = q c

/-- Budgets that are larger than the number of tokens left make no difference, and no more does what
would be reported at their end. -/
def Settles (p : String → Nat → Parser α) : Prop :=
  ∀ out out' n m, Agrees (min n m) (p out n) (p out' m)

section

variable {n m : Nat} {p q : Parser α} {f g : α → Parser β}

theorem agrees_refl (p : Parser α) : Agrees n p p := fun _ _ => rfl

theorem agrees_zero : Agrees 0 p q := fun _ h => absurd h (Nat.not_lt_zero _)

theorem Agrees.mono (h : Agrees n p q) (hm : m ≤ n) : Agrees m p q :=
  fun c hc => h c (Nat.lt_of_lt_of_le hc hm)

theorem bind_congr {c : Cursor} (h : ∀ x d, p c = .ok x d → f x d = g x d) :
    (p >>= f) c = (p >>= g) c := by
  change EStateM.bind p f c = EStateM.bind p g c
  rw [EStateM.bind, EStateM.bind]
  cases hx : p c with
  | error e d => rfl
  | ok x d => exact h x d hx

theorem Agrees.before (hp : Agrees n p q) (f : α → Parser β) :
    Agrees n (p >>= f) (q >>= f) := by
  intro c hc
  change EStateM.bind p f c = EStateM.bind q f c
  rw [EStateM.bind, EStateM.bind, hp c hc]

theorem Agrees.bind (hp : Agrees n p q) (hmoves : Moves p) (hf : ∀ x, Agrees n (f x) (g x)) :
    Agrees n (p >>= f) (q >>= g) := by
  intro c hc
  change EStateM.bind p f c = EStateM.bind q g c
  have hle := hmoves c
  rw [EStateM.bind, EStateM.bind, ← hp c hc]
  cases hx : p c with
  | error e d => rfl
  | ok x d =>
    rw [hx] at hle
    exact hf x d (Nat.lt_of_le_of_lt hle hc)

theorem Agrees.bind_shrinks (hp : Agrees (n + 1) p q) (hshrinks : Shrinks p)
    (hf : ∀ x, Agrees n (f x) (g x)) : Agrees (n + 1) (p >>= f) (q >>= g) := by
  intro c hc
  change EStateM.bind p f c = EStateM.bind q g c
  rw [EStateM.bind, EStateM.bind, ← hp c hc]
  cases hx : p c with
  | error e d => rfl
  | ok x d => exact hf x d (Nat.lt_of_lt_of_le (hshrinks c x d hx) (Nat.le_of_lt_succ hc))

theorem Agrees.accept_bind {f g : Bool → Parser β} (hk : k ≠ .eof)
    (htrue : Agrees n (f true) (g true)) (hfalse : Agrees (n + 1) (f false) (g false)) :
    Agrees (n + 1) (accept k >>= f) (accept k >>= g) := by
  intro c hc
  change EStateM.bind (accept k) f c = EStateM.bind (accept k) g c
  rw [EStateM.bind, EStateM.bind, accept_run]
  by_cases heq : c.kind == k
  · have hkind : c.kind ≠ .eof := by rwa [beq_iff_eq.1 heq]
    rw [Cursor.left_of_kind hkind] at hc
    rw [if_pos heq]
    exact htrue c.advance (Nat.lt_of_succ_lt_succ hc)
  · rw [if_neg heq]
    exact hfalse c hc

theorem Agrees.peek_bind {f g : TokenKind → Parser β}
    (h : ∀ c : Cursor, c.left < n → f c.kind c = g c.kind c) : Agrees n (peek >>= f) (peek >>= g) :=
  h

theorem Agrees.get_bind {f g : Cursor → Parser β}
    (h : ∀ c : Cursor, c.left < n → f c c = g c c) : Agrees n (get >>= f) (get >>= g) :=
  h

theorem Agrees.atEnd_bind {f g : Bool → Parser β}
    (h : ∀ c : Cursor, c.left < n → f (c.kind == .eof) c = g (c.kind == .eof) c) :
    Agrees n (atEnd >>= f) (atEnd >>= g) :=
  h

theorem advance_bind_eq (h : Agrees n p q) {c : Cursor} (hkind : c.kind ≠ .eof)
    (hc : c.left < n + 1) : (advance >>= fun _ => p) c = (advance >>= fun _ => q) c := by
  rw [Cursor.left_of_kind hkind] at hc
  exact h c.advance (Nat.lt_of_succ_lt_succ hc)

end

section

variable {N n m : Nat}

theorem settles_of_agrees {p : String → Nat → Parser α}
    (h : ∀ out out' N n m, N ≤ n → N ≤ m → Agrees N (p out n) (p out' m)) : Settles p :=
  fun out out' n m => h out out' _ n m (Nat.min_le_left n m) (Nat.min_le_right n m)

theorem Agrees.ite {c : Prop} [Decidable c] {p q p' q' : Parser α} (hp : Agrees n p p')
    (hq : Agrees n q q') : Agrees n (if c then p else q) (if c then p' else q') := by
  split
  · exact hp
  · exact hq

theorem Agrees.ite_bind {c : Prop} [Decidable c] {p q p' q' : Parser α} {f g : α → Parser β}
    (hp : Agrees n p p') (hmoves : Moves p) (hq : Agrees n q q') (hmoves' : Moves q)
    (hf : ∀ x, Agrees n (f x) (g x)) :
    Agrees n (if c then p >>= f else q >>= f) (if c then p' >>= g else q' >>= g) :=
  .ite (hp.bind hmoves hf) (hq.bind hmoves' hf)

theorem Agrees.when {c : Prop} [Decidable c] {p p' : Parser α} {q q' : Parser β}
    (hp : Agrees n p p') (hmoves : Moves p) (hq : Agrees n q q') :
    Agrees n (if c then p >>= fun _ => q else q) (if c then p' >>= fun _ => q' else q') :=
  .ite (hp.bind hmoves fun _ => hq) hq

theorem agrees_closeAll (start : Span) (stack : List Punctuation) (hn : N ≤ n) (hm : N ≤ m) :
    Agrees N (closeAll start out n stack) (closeAll start out' m stack) := by
  induction N generalizing n m stack with
  | zero => exact agrees_zero
  | succ N ih =>
    obtain _ | n := n
    · cases hn
    obtain _ | m := m
    · cases hm
    have ih := fun stack => ih stack (Nat.le_of_succ_le_succ hn) (Nat.le_of_succ_le_succ hm)
    cases stack with
    | nil => exact agrees_refl _
    | cons top stack =>
      refine Agrees.get_bind fun c hc => ?_
      dsimp only
      split
      · rfl
      · rename_i hkind
        refine advance_bind_eq ?_ hkind hc
        cases c.head.node with
        | punctuation p =>
          exact (ih _).ite (Agrees.ite (Agrees.ite (ih _) (agrees_refl _)) (ih _))
        | _ => exact ih _

theorem settles_closeAll (start : Span) (stack : List Punctuation) :
    Settles fun out n => closeAll start out n stack :=
  settles_of_agrees fun _ _ _ _ _ => agrees_closeAll start stack

theorem agrees_skipValues (hn : N ≤ n) (hm : N ≤ m) :
    Agrees N (skipValues out n) (skipValues out' m) := by
  induction N generalizing n m with
  | zero => exact agrees_zero
  | succ N ih =>
    obtain _ | n := n
    · cases hn
    obtain _ | m := m
    · cases hm
    have ih := ih (Nat.le_of_succ_le_succ hn) (Nat.le_of_succ_le_succ hm)
    refine Agrees.peek_bind fun c hc => ?_
    have hitem : c.kind ≠ .eof → (skipItem >>= fun _ => skipValues out n) c =
        (skipItem >>= fun _ => skipValues out' m) c := by
      intro hkind
      refine bind_congr fun _ d hd => ih d ?_
      have hleft := left_skipItem hkind hd
      omega
    generalize hkind : c.kind = k at hitem ⊢
    split
    · rfl
    · rfl
    · rfl
    · exact hitem ‹_›

theorem settles_skipValues : Settles skipValues :=
  settles_of_agrees fun _ _ _ _ _ => agrees_skipValues

theorem agrees_skipUntil (closer : Punctuation) (hn : N ≤ n) (hm : N ≤ m) :
    Agrees N (skipUntil closer out n) (skipUntil closer out' m) := by
  induction N generalizing n m with
  | zero => exact agrees_zero
  | succ N ih =>
    obtain _ | n := n
    · cases hn
    obtain _ | m := m
    · cases hm
    have ih := ih (Nat.le_of_succ_le_succ hn) (Nat.le_of_succ_le_succ hm)
    refine (agrees_refl _).bind (moves_isNext _) fun b => (agrees_refl _).ite ?_
    refine Agrees.atEnd_bind fun c hc => ?_
    split
    · rfl
    · rename_i hkind
      refine bind_congr fun _ d hd => ih d ?_
      have hleft := left_skipItem (by simpa using hkind) hd
      omega

theorem settles_skipUntil (closer : Punctuation) : Settles (skipUntil closer) :=
  settles_of_agrees fun _ _ _ _ _ => agrees_skipUntil closer

theorem agrees_commaList (closer : Punctuation) {item item' : Parser α} (hmoves : Moves item)
    (hitem : Agrees N item item') (hn : N ≤ n) (hm : N ≤ m) :
    Agrees N (commaList closer item out n) (commaList closer item' out' m) := by
  induction N generalizing n m with
  | zero => exact agrees_zero
  | succ N ih =>
    obtain _ | n := n
    · cases hn
    obtain _ | m := m
    · cases hm
    have ih := ih (hitem.mono (Nat.le_succ N)) (Nat.le_of_succ_le_succ hn)
      (Nat.le_of_succ_le_succ hm)
    refine (agrees_refl _).bind (moves_isNext _) fun b => (agrees_refl _).ite ?_
    refine hitem.bind hmoves fun x => ?_
    refine Agrees.accept_bind (by simp) ?_ (agrees_refl _)
    exact ih.before _

theorem agrees_commaSeparated {item item' : Parser α} (hmoves : Moves item)
    (hitem : Agrees N item item') (hn : N ≤ n) (hm : N ≤ m) :
    Agrees N (commaSeparated item out n) (commaSeparated item' out' m) := by
  induction N generalizing n m with
  | zero => exact agrees_zero
  | succ N ih =>
    obtain _ | n := n
    · cases hn
    obtain _ | m := m
    · cases hm
    have ih := ih (hitem.mono (Nat.le_succ N)) (Nat.le_of_succ_le_succ hn)
      (Nat.le_of_succ_le_succ hm)
    refine hitem.bind hmoves fun x => ?_
    refine Agrees.accept_bind (by simp) ?_ (agrees_refl _)
    exact ih.before _

theorem agrees_groupLines (closing ending : String) {line : Nat → Parser α}
    (hline : ∀ i, Shrinks (line i)) (i : Nat) (hn : N ≤ n) (hm : N ≤ m) :
    Agrees N (groupLines closing ending line out n i)
      (groupLines closing ending line out' m i) := by
  induction N generalizing n m i with
  | zero => exact agrees_zero
  | succ N ih =>
    obtain _ | n := n
    · cases hn
    obtain _ | m := m
    · cases hm
    have ih := fun i => ih i (Nat.le_of_succ_le_succ hn) (Nat.le_of_succ_le_succ hm)
    refine (agrees_refl _).bind (moves_accept _) fun b => (agrees_refl _).ite ?_
    refine (agrees_refl _).bind moves_atEnd fun b => ?_
    refine (agrees_refl _).when (moves_unexpected _) ?_
    exact (agrees_refl _).bind_shrinks (hline i) fun x => (agrees_refl _).bind (moves_endOfSpec _)
      fun _ => (agrees_refl _).bind moves_skipSemicolons fun _ => (ih _).before _

end

end GoEnum.Parse
