import GoEnum.Parse.Type
import GoEnum.Proofs.Parse.Budget

/-!
How parsers are put together. What some tokens open is never entered token by token, but passed over
as a whole.
-/

namespace GoEnum.Parse

open Token Syntax

/-- Parsers that look at one token after the other, as far as they go. Where the next token
satisfies `K`, they pass it only if it opens nothing, and do not look behind one that does. -/
inductive Orderly (opens : TokenKind → Bool) : {α : Type} → (TokenKind → Prop) → Parser α → Prop
  | pure (x : α) : Orderly opens K (pure x)
  | fail (cause : SyntaxCause) (span : Span) : Orderly opens K (fail cause span : Parser α)
  | bind {p : Parser α} {f : α → Parser β} : Orderly opens K p →
      (∀ x, Orderly opens (fun _ => True) (f x)) → Orderly opens K (p >>= f)
  | peek {f : TokenKind → Parser α} : (∀ k, K k → Orderly opens (· = k) (f k)) →
      Orderly opens K (peek >>= f)
  | peekOne {f : TokenKind → TokenKind → Parser α} :
      (∀ k k₁, K k → Orderly opens (· = k) (f k k₁)) →
      (∀ k k₁ l₁, opens k = true → f k k₁ = f k l₁) →
      Orderly opens K (do f (← peek) (← peekAt 1))
  | peekTwo {f : TokenKind → TokenKind → TokenKind → Parser α} :
      (∀ k k₁ k₂, K k → Orderly opens (· = k) (f k k₁ k₂)) →
      (∀ k k₁ k₂ l₁ l₂, opens k = true → f k k₁ k₂ = f k l₁ l₂) →
      (∀ k k₁ k₂ l₂, opens k₁ = true → f k k₁ k₂ = f k k₁ l₂) →
      Orderly opens K (do f (← peek) (← peekAt 1) (← peekAt 2))
  | currentSpan {f : Span → Parser α} : (∀ span, Orderly opens K (f span)) →
      Orderly opens K (currentSpan >>= f)
  | previousSpan : Orderly opens K previousSpan
  | advance : (∀ k, K k → opens k = false) → Orderly opens K advance
  | skipSemicolons : Orderly opens K skipSemicolons
  | bounded {p : String → Nat → Parser α} : Settles p → (∀ out n, Orderly opens K (p out n)) →
      Orderly opens K (bounded p)
  | skipBalanced : Orderly opens K skipBalanced
  | skipValues : Orderly opens K (bounded skipValues)
  | skipUntil : Orderly opens K (bounded (skipUntil .rbracket))

abbrev OrderlyAnywhere (opens : TokenKind → Bool) (p : Parser α) : Prop :=
  Orderly opens (fun _ => True) p

section

variable {opens : TokenKind → Bool} {K : TokenKind → Prop} {p : Parser α} {f : α → Parser β}

theorem Orderly.left_le (h : Orderly opens K p) (c : Cursor) (hc : K c.kind) :
    (stop (p c)).left ≤ c.left := by
  induction h generalizing c with
  | pure => exact Nat.le_refl _
  | fail => exact Nat.le_refl _
  | @bind _ _ _ p f _ _ hp hf =>
    have hle := hp c hc
    change (stop (EStateM.bind p f c)).left ≤ _
    unfold EStateM.bind
    cases hx : p c with
    | error e d =>
      rw [hx] at hle
      exact hle
    | ok x d =>
      rw [hx] at hle
      exact Nat.le_trans (hf x d trivial) hle
  | peek _ hf => exact hf c.kind hc c rfl
  | peekOne _ _ hf => exact hf c.kind (c.kindAt 1) hc c rfl
  | peekTwo _ _ _ hf => exact hf c.kind (c.kindAt 1) (c.kindAt 2) hc c rfl
  | currentSpan _ hf => exact hf c.head.span c hc
  | previousSpan => exact Nat.le_refl _
  | advance => exact c.left_advance
  | skipSemicolons => exact c.left_skipSemicolons
  | bounded _ _ hp => exact hp "nothing" (c.rest.length + 1) c hc
  | skipBalanced => exact moves_skipBalanced c
  | skipValues => exact moves_bounded (fun _ => moves_skipValues) c
  | skipUntil => exact moves_bounded (fun _ => moves_skipUntil _) c

theorem Orderly.mono {K' : TokenKind → Prop} (h : Orderly opens K p) (hK : ∀ k, K' k → K k) :
    Orderly opens K' p := by
  induction h generalizing K' with
  | pure => exact .pure _
  | fail => exact .fail _ _
  | bind _ hf hp _ => exact .bind (hp hK) hf
  | peek hf _ => exact .peek fun k hk => hf k (hK k hk)
  | peekOne hf hopens _ => exact .peekOne (fun k k₁ hk => hf k k₁ (hK k hk)) hopens
  | peekTwo hf hopens hopens₁ _ =>
    exact .peekTwo (fun k k₁ k₂ hk => hf k k₁ k₂ (hK k hk)) hopens hopens₁
  | currentSpan _ hf => exact .currentSpan fun span => hf span hK
  | previousSpan => exact .previousSpan
  | advance h => exact .advance fun k hk => h k (hK k hk)
  | skipSemicolons => exact .skipSemicolons
  | bounded hsettles _ hp => exact .bounded hsettles fun out n => hp out n hK
  | skipBalanced => exact .skipBalanced
  | skipValues => exact .skipValues
  | skipUntil => exact .skipUntil

theorem Orderly.here (h : OrderlyAnywhere opens p) : Orderly opens K p := h.mono fun _ _ => trivial

theorem Orderly.moves (h : OrderlyAnywhere opens p) : Moves p := fun c => h.left_le c trivial

structure Passes (opens : TokenKind → Bool) (K : TokenKind → Prop) (p : Parser α) : Prop where
  orderly : Orderly opens K p
  shrinks : ∀ c x d, K c.kind → p c = .ok x d → d.left < c.left

theorem Passes.anywhere (h : Passes opens (fun _ => True) p) : Shrinks p :=
  fun c x d => h.shrinks c x d trivial

theorem Passes.bind (hp : Passes opens K p) (hf : ∀ x, OrderlyAnywhere opens (f x)) :
    Passes opens K (p >>= f) := by
  refine ⟨hp.orderly.bind hf, fun c y d hc h => ?_⟩
  obtain ⟨x, c', hx, hy⟩ := bind_ok.1 h
  exact Nat.lt_of_le_of_lt ((hf x).moves.left_le hy) (hp.shrinks c x c' hc hx)

theorem Passes.after (hp : OrderlyAnywhere opens p)
    (hf : ∀ x, Passes opens (fun _ => True) (f x)) :
    Passes opens (fun _ => True) (p >>= f) := by
  refine ⟨hp.bind fun x => (hf x).orderly, fun c y d hc h => ?_⟩
  obtain ⟨x, c', hx, hy⟩ := bind_ok.1 h
  exact Nat.lt_of_lt_of_le ((hf x).shrinks c' y d trivial hy) (hp.moves.left_le hx)

theorem Passes.peek {f : TokenKind → Parser α} (h : ∀ k, Passes opens (· = k) (f k)) :
    Passes opens K (peek >>= f) :=
  ⟨.peek fun k _ => (h k).orderly, fun c x d _ hx => (h c.kind).shrinks c x d rfl hx⟩

theorem Passes.currentSpan {f : Span → Parser α} (h : ∀ span, Passes opens K (f span)) :
    Passes opens K (currentSpan >>= f) :=
  ⟨.currentSpan fun span => (h span).orderly,
    fun c x d hc hx => (h c.head.span).shrinks c x d hc hx⟩

theorem Passes.here (h : Passes opens (fun _ => True) p) : Passes opens K p :=
  ⟨h.orderly.here, fun c x d _ => h.shrinks c x d trivial⟩

theorem passes_fail (cause : SyntaxCause) (span : Span) :
    Passes opens K (fail cause span : Parser α) :=
  ⟨.fail _ _, by rintro c x d - ⟨⟩⟩

theorem Orderly.map {g : α → β} (h : Orderly opens K p) : Orderly opens K (g <$> p) := by
  rw [← bind_pure_comp]
  exact h.bind fun x => .pure _

theorem Orderly.ite {c : Prop} [Decidable c] {q : Parser α} (hp : Orderly opens K p)
    (hq : Orderly opens K q) : Orderly opens K (if c then p else q) := by
  split
  · exact hp
  · exact hq

theorem Orderly.ite_bind {c : Prop} [Decidable c] {q : Parser α} (hp : Orderly opens K p)
    (hq : Orderly opens K q) (hf : ∀ x, OrderlyAnywhere opens (f x)) :
    Orderly opens K (if c then p >>= f else q >>= f) :=
  .ite (.bind hp hf) (.bind hq hf)

theorem Orderly.when {c : Prop} [Decidable c] {q : Parser β} (hp : Orderly opens K p)
    (hq : OrderlyAnywhere opens q) : Orderly opens K (if c then p >>= fun _ => q else q) :=
  .ite (.bind hp fun _ => hq) hq.here

theorem orderly_unexpected (what : String) : Orderly opens K (unexpected what : Parser α) :=
  .peek fun _ _ => .currentSpan fun _ => .fail _ _

theorem passes_unexpected (what : String) : Passes opens K (unexpected what : Parser α) :=
  ⟨orderly_unexpected what, by rintro c x d - ⟨⟩⟩

theorem orderly_isNext (k : TokenKind) : Orderly opens K (isNext k) := .peek fun _ _ => .pure _

theorem orderly_atEnd : Orderly opens K atEnd :=
  Orderly.peek (f := fun k => pure (k == .eof)) fun _ _ => .pure _

theorem orderly_advance_bind {q : Parser β} (hk : opens k = false) (hq : OrderlyAnywhere opens q) :
    Orderly opens (· = k) (do advance; q) := by
  refine .bind (.advance ?_) fun _ => hq
  rintro _ rfl
  exact hk

theorem passes_advance_bind {q : Parser β} (hk : opens k = false) (hend : k ≠ .eof)
    (hq : OrderlyAnywhere opens q) : Passes opens (· = k) (do advance; q) := by
  refine ⟨orderly_advance_bind hk hq, ?_⟩
  rintro c x d rfl h
  exact left_advance_bind hend hq.moves h

theorem orderly_accept (hk : opens k = false) : Orderly opens K (accept k) := by
  have haccept : accept k = do
      let l ← peek
      if l == k then advance; return true else return false := rfl
  rw [haccept]
  refine .peek fun l _ => ?_
  split
  · rename_i heq
    refine orderly_advance_bind ?_ (.pure _)
    rwa [beq_iff_eq.1 heq]
  · exact .pure _

theorem orderly_expect (hk : opens k = false) (what : String) :
    Orderly opens K (expect k what) :=
  (orderly_accept hk).bind fun _ => .ite (orderly_unexpected what) (.pure _)

theorem passes_expect (hk : opens k = false) (hend : k ≠ .eof) (what : String) :
    Passes opens K (expect k what) :=
  ⟨orderly_expect hk what, fun _ _ _ _ h => Cursor.left_of_kinds (expect_ok hend h) hend⟩

theorem orderly_bracedBody (word : String) : OrderlyAnywhere opens (bracedBody word) :=
  (orderly_isNext _).bind fun _ => .ite .skipBalanced (orderly_unexpected _)

theorem orderly_spanned (h : OrderlyAnywhere opens p) : OrderlyAnywhere opens (spanned p) :=
  .currentSpan fun _ => h.bind fun _ => .bind .previousSpan fun _ => .pure _

theorem passes_spanned (h : Passes opens (fun _ => True) p) :
    Passes opens (fun _ => True) (spanned p) :=
  .currentSpan fun _ => h.bind fun _ => .bind .previousSpan fun _ => .pure _

/-- The tokens that open bodies and declarations of variables. -/
def opensHole : TokenKind → Bool
  | .punctuation .lbrace | .keyword .var => true
  | _ => false

def opensNone (_ : TokenKind) : Bool := false

theorem opensHole_of_opensNone (k : TokenKind) (h : opensNone k = true) : opensHole k = true := by
  cases h

theorem opensHole_of_beq (h : opensHole l = true) (k : TokenKind) (hk : (k == l) = true) :
    opensHole k = true := by
  rwa [beq_iff_eq.1 hk]

theorem orderly_nextAndOne {l : TokenKind} {f : Bool → TokenKind → Parser α}
    (h : ∀ k k₁, Orderly opens (· = k) (f (k == l) k₁)) (hl : opens l = false)
    (hfalse : ∀ k₁ l₁, f false k₁ = f false l₁) :
    Orderly opens K (do f (← isNext l) (← peekAt 1)) := by
  refine Orderly.peekOne (f := fun k k₁ => f (k == l) k₁) (fun k k₁ _ => h k k₁) ?_
  intro k k₁ l₁ hk
  have hne : (k == l) = false := by
    refine beq_eq_false_iff_ne.2 ?_
    rintro rfl
    rw [hl] at hk
    cases hk
  simp only [hne, hfalse k₁ l₁]

theorem orderly_nextAndTwo {l : TokenKind} {f : Bool → TokenKind → TokenKind → Parser α}
    (h : ∀ k k₁ k₂, Orderly opens (· = k) (f (k == l) k₁ k₂)) (hl : opens l = false)
    (hfalse : ∀ k₁ k₂ l₁ l₂, f false k₁ k₂ = f false l₁ l₂)
    (hopens : ∀ b k₁ k₂ l₂, opens k₁ = true → f b k₁ k₂ = f b k₁ l₂) :
    Orderly opens K (do f (← isNext l) (← peekAt 1) (← peekAt 2)) := by
  refine Orderly.peekTwo (f := fun k k₁ k₂ => f (k == l) k₁ k₂) (fun k k₁ k₂ _ => h k k₁ k₂) ?_
    fun k k₁ k₂ l₂ hk => hopens _ _ _ _ hk
  intro k k₁ k₂ l₁ l₂ hk
  have hne : (k == l) = false := by
    refine beq_eq_false_iff_ne.2 ?_
    rintro rfl
    rw [hl] at hk
    cases hk
  simp only [hne, hfalse k₁ k₂ l₁ l₂]

variable (ho : ∀ k, opens k = true → opensHole k = true)

include ho

theorem cases_opens (h : opens k = true) : k = .punctuation .lbrace ∨ k = .keyword .var := by
  have hk := ho k h
  unfold opensHole at hk
  split at hk
  · exact .inl rfl
  · exact .inr rfl
  · cases hk

theorem opens_eq_false (h : opensHole k = false) : opens k = false := by
  cases hk : opens k with
  | false => rfl
  | true =>
    rw [ho k hk] at h
    cases h

theorem orderly_identifier : Orderly opens K identifier := by
  refine .peek fun k _ => ?_
  split
  · exact .currentSpan fun span => orderly_advance_bind (opens_eq_false ho rfl) (.pure _)
  · exact orderly_unexpected _

theorem passes_identifier : Passes opens K identifier :=
  ⟨orderly_identifier ho, fun _ _ _ _ h => shrinks_identifier _ _ _ h⟩

section

variable {item : Parser α}

theorem orderly_commaList (closer : Punctuation) (hitem : OrderlyAnywhere opens item) (n : Nat) :
    OrderlyAnywhere opens (commaList closer item out n) := by
  induction n with
  | zero => exact orderly_unexpected _
  | succ n ih =>
    refine (orderly_isNext _).bind fun b => .ite (.pure _) (hitem.bind fun x => ?_)
    refine (orderly_accept (opens_eq_false ho rfl)).bind fun b => ?_
    exact .ite (ih.bind fun xs => .pure _) (.pure _)

theorem orderly_commaSeparated (hitem : OrderlyAnywhere opens item) (n : Nat) :
    OrderlyAnywhere opens (commaSeparated item out n) := by
  induction n with
  | zero => exact orderly_unexpected _
  | succ n ih =>
    refine hitem.bind fun x => (orderly_accept (opens_eq_false ho rfl)).bind fun b => ?_
    exact .ite (ih.bind fun xs => .pure _) (.pure _)

theorem orderly_commaSeparatedAll (hitem : OrderlyAnywhere opens item) :
    OrderlyAnywhere opens (bounded (commaSeparated item)) :=
  .bounded (settles_of_agrees fun _ _ _ _ _ => agrees_commaSeparated hitem.moves (agrees_refl _))
    fun _ => orderly_commaSeparated ho hitem

theorem orderly_endOfSpec (what : String) : OrderlyAnywhere opens (endOfSpec what) :=
  (orderly_accept (opens_eq_false ho rfl)).bind fun _ => .ite (.pure _)
    ((orderly_isNext _).bind fun _ => orderly_atEnd.bind fun _ =>
      .ite (orderly_unexpected _) (.pure _))

variable {line : Nat → Parser α}

theorem orderly_groupLines (closing ending : String) (hline : ∀ i, OrderlyAnywhere opens (line i))
    (n i : Nat) : OrderlyAnywhere opens (groupLines closing ending line out n i) := by
  induction n generalizing i with
  | zero => exact orderly_unexpected _
  | succ n ih =>
    refine (orderly_accept (opens_eq_false ho rfl)).bind fun b => .ite (.pure _) ?_
    refine orderly_atEnd.bind fun b => .when (orderly_unexpected _) ?_
    exact (hline i).bind fun x => (orderly_endOfSpec ho _).bind fun _ => .bind .skipSemicolons
      fun _ => (ih _).bind fun _ => .pure _

theorem orderly_group (closing ending : String)
    (hline : ∀ i, Passes opens (fun _ => True) (line i)) :
    OrderlyAnywhere opens (group closing ending line) := by
  refine (orderly_accept (opens_eq_false ho rfl)).bind fun b => .ite ?_
    ((hline 0).orderly.bind fun _ => .pure _)
  refine .bind .skipSemicolons fun _ => .bind (.bounded ?_ fun _ n => ?_) fun _ => .pure _
  · exact settles_of_agrees fun _ _ _ _ _ =>
      agrees_groupLines closing ending (fun i => (hline i).anywhere) 0
  · exact orderly_groupLines ho closing ending (fun i => (hline i).orderly) n 0

end

section

variable {type : Parser TypeExpr} (htype : OrderlyAnywhere opens type)

include htype

theorem passes_typeName (n : Nat) : Passes opens (fun _ => True) (typeName type out n) := by
  have hafter : ∀ base, OrderlyAnywhere opens (do
      if ← accept Punctuation.lbracket then
        let args ← commaList .rbracket type out n
        expect Punctuation.rbracket "']' after type arguments"
        return TypeExpr.applied base args
      else return base) := fun base =>
    (orderly_accept (opens_eq_false ho rfl)).bind fun b => .ite
      ((orderly_commaList ho _ htype n).bind fun args =>
        (orderly_expect (opens_eq_false ho rfl) _).bind fun _ => .pure _) (.pure _)
  refine (passes_identifier ho).bind fun first => ?_
  refine orderly_nextAndOne (fun k k₁ => ?_) (opens_eq_false ho rfl) fun _ _ => rfl
  dsimp only
  split
  · rename_i hqualified
    obtain rfl : k = .punctuation .dot := beq_iff_eq.1 (Bool.and_eq_true_iff.1 hqualified).1
    exact orderly_advance_bind (opens_eq_false ho rfl)
      ((orderly_identifier ho).bind fun _ => .bind (.pure _) hafter)
  · exact .bind (.pure _) hafter

theorem orderly_sliceOrArray : OrderlyAnywhere opens (sliceOrArray type) := by
  refine (orderly_accept (opens_eq_false ho rfl)).bind fun b => .ite (htype.bind fun _ => .pure _)
    ?_
  refine (orderly_accept (opens_eq_false ho rfl)).bind fun b => .when .skipUntil ?_
  exact (orderly_expect (opens_eq_false ho rfl) _).bind fun _ => htype.bind fun _ => .pure _

theorem orderly_mapType : OrderlyAnywhere opens (mapType type) :=
  (orderly_expect (opens_eq_false ho rfl) _).bind fun _ => htype.bind fun _ =>
    (orderly_expect (opens_eq_false ho rfl) _).bind fun _ => htype.bind fun _ => .pure _

theorem orderly_paramEntry : OrderlyAnywhere opens (paramEntry type) := by
  refine .peekTwo (fun k k₁ k₂ _ => ?_) (fun k k₁ k₂ l₁ l₂ hk => ?_) fun k k₁ k₂ l₂ hk => ?_
  · exact .ite_bind (orderly_identifier ho).map.map (.pure _) fun _ =>
      (orderly_accept (opens_eq_false ho rfl)).bind fun _ => htype.bind fun _ => .pure _
  · obtain rfl | rfl := cases_opens ho hk <;> rfl
  · obtain rfl | rfl := cases_opens ho hk <;> rfl

theorem orderly_parameters (n : Nat) : OrderlyAnywhere opens (parameters type out n) := by
  refine .currentSpan fun start => (orderly_expect (opens_eq_false ho rfl) _).bind fun _ => ?_
  refine (orderly_commaList ho _ (orderly_paramEntry ho htype) n).bind fun entries => ?_
  refine (orderly_expect (opens_eq_false ho rfl) _).bind fun _ => .ite (.pure _) ?_
  split
  · exact .pure _
  · exact .bind .previousSpan fun _ => .fail _ _

theorem orderly_signatureOver (n : Nat) : OrderlyAnywhere opens (signatureOver type out n) := by
  refine (orderly_parameters ho htype n).bind fun params => .peek fun k _ => .here ?_
  exact .ite ((orderly_parameters ho htype n).bind fun _ => .pure _)
    (.ite (htype.bind fun _ => .pure _) (.pure _))

end

theorem passes_typeWithin (n : Nat) : Passes opens (fun _ => True) (typeWithin out n) := by
  induction n with
  | zero => exact passes_unexpected _
  | succ n ih =>
    have ih' := ih.orderly
    have hwrap : ∀ f : TypeExpr → TypeExpr,
        OrderlyAnywhere opens (typeWithin out n >>= fun t => pure (f t)) :=
      fun f => ih'.bind fun t => .pure _
    have hafter : ∀ {k : TokenKind} {p : Parser TypeExpr}, opensHole k = false → k ≠ .eof →
        OrderlyAnywhere opens p → Passes opens (· = k) (do advance; p) :=
      fun hk hend hp => passes_advance_bind (opens_eq_false ho hk) hend hp
    refine .peek fun k => ?_
    split
    · exact .here (passes_typeName ho ih' n)
    · exact hafter rfl (by simp) (hwrap .pointer)
    · exact hafter rfl (by simp)
        ((orderly_expect (opens_eq_false ho rfl) _).bind fun _ => hwrap .chan)
    · exact hafter rfl (by simp) (orderly_sliceOrArray ho ih')
    · exact hafter rfl (by simp) (ih'.bind fun _ =>
        (orderly_expect (opens_eq_false ho rfl) _).bind fun _ => .pure _)
    · exact hafter rfl (by simp) (orderly_mapType ho ih')
    · exact hafter rfl (by simp)
        ((orderly_accept (opens_eq_false ho rfl)).map.bind fun _ => hwrap .chan)
    · exact hafter rfl (by simp) ((orderly_signatureOver ho ih' n).bind fun _ => .pure _)
    · exact hafter rfl (by simp) ((orderly_bracedBody _).bind fun _ => .pure _)
    · exact hafter rfl (by simp) ((orderly_bracedBody _).bind fun _ => .pure _)
    · exact passes_unexpected _

end

section

variable {N n m : Nat} {opens : TokenKind → Bool} {type type' : Parser TypeExpr}
  (htype : Agrees N type type')

include htype

theorem agrees_sliceOrArray : Agrees N (sliceOrArray type) (sliceOrArray type') := by
  refine (agrees_refl _).bind (moves_accept _) fun b => .ite (htype.before _) ?_
  refine (agrees_refl _).bind (moves_accept _) fun b => ?_
  refine (agrees_refl _).when (moves_bounded fun _ n => moves_skipUntil _ n) ?_
  exact (agrees_refl _).bind (moves_expect _ _) fun _ => htype.before _

theorem agrees_mapType (hmoves : Moves type) : Agrees N (mapType type) (mapType type') :=
  (agrees_refl _).bind (moves_expect _ _) fun _ => htype.bind hmoves fun _ =>
    (agrees_refl _).bind (moves_expect _ _) fun _ => htype.before _

variable (ho : ∀ k, opens k = true → opensHole k = true)

include ho

theorem agrees_paramEntry : Agrees N (paramEntry type) (paramEntry type') := by
  refine (agrees_refl _).bind moves_peek fun k => (agrees_refl _).bind (moves_peekAt 1) fun k₁ =>
    (agrees_refl _).bind (moves_peekAt 2) fun k₂ => ?_
  refine (agrees_refl _).ite_bind (orderly_identifier ho).map.map.moves (agrees_refl _)
    (moves_pure _) fun name => ?_
  exact (agrees_refl _).bind (moves_accept _) fun b => htype.before _

variable (horderly : OrderlyAnywhere opens type)

include horderly

theorem agrees_typeName (hn : N ≤ n) (hm : N ≤ m) :
    Agrees (N + 1) (typeName type out n) (typeName type' out' m) := by
  have hafter : ∀ base, Agrees N (do
      if ← accept Punctuation.lbracket then
        let args ← commaList .rbracket type out n
        expect Punctuation.rbracket "']' after type arguments"
        return TypeExpr.applied base args
      else return base) (do
      if ← accept Punctuation.lbracket then
        let args ← commaList .rbracket type' out' m
        expect Punctuation.rbracket "']' after type arguments"
        return TypeExpr.applied base args
      else return base) := by
    intro base
    obtain _ | N := N
    · exact agrees_zero
    · refine Agrees.accept_bind (by simp) ?_ (agrees_refl _)
      exact (agrees_commaList _ horderly.moves (htype.mono (Nat.le_succ N)) (Nat.le_of_succ_le hn)
        (Nat.le_of_succ_le hm)).before _
  refine (agrees_refl _).bind_shrinks shrinks_identifier fun first => ?_
  refine (agrees_refl _).bind (moves_isNext _) fun b => ?_
  refine (agrees_refl _).bind (moves_peekAt 1) fun k => .ite ?_ ?_
  · refine (agrees_refl _).bind moves_advance fun _ => ?_
    exact (agrees_refl _).bind (orderly_identifier ho).moves
      fun _ => (agrees_refl _).bind (moves_pure _) hafter
  · exact (agrees_refl _).bind (moves_pure _) hafter

theorem agrees_parameters (hn : N ≤ n) (hm : N ≤ m) :
    Agrees N (parameters type out n) (parameters type' out' m) := by
  refine (agrees_refl _).bind moves_currentSpan fun start => ?_
  obtain _ | N := N
  · exact agrees_zero
  refine (agrees_refl _).bind_shrinks (shrinks_expect (by simp) _) fun _ => ?_
  exact (agrees_commaList _ (orderly_paramEntry ho horderly).moves
    (agrees_paramEntry (htype.mono (Nat.le_succ N)) ho) (Nat.le_of_succ_le hn)
    (Nat.le_of_succ_le hm)).before _

theorem agrees_signatureOver (hn : N ≤ n) (hm : N ≤ m) :
    Agrees N (signatureOver type out n) (signatureOver type' out' m) := by
  have hparams : Agrees N (parameters type out n) (parameters type' out' m) :=
    agrees_parameters htype ho horderly hn hm
  refine hparams.bind (orderly_parameters ho horderly n).moves fun params => ?_
  refine (agrees_refl _).bind moves_peek fun k => .ite ?_ (.ite ?_ (agrees_refl _))
  · exact hparams.before _
  · exact htype.before _

end

section

variable {N n m : Nat}

theorem agrees_typeWithin (hn : N ≤ n) (hm : N ≤ m) :
    Agrees N (typeWithin out n) (typeWithin out' m) := by
  induction N generalizing n m with
  | zero => exact agrees_zero
  | succ N ih =>
    obtain _ | n := n
    · cases hn
    obtain _ | m := m
    · cases hm
    have hn := Nat.le_of_succ_le_succ hn
    have hm := Nat.le_of_succ_le_succ hm
    have ih := ih hn hm
    have ho := opensHole_of_opensNone
    have horderly : OrderlyAnywhere _ (typeWithin out n) := (passes_typeWithin ho n).orderly
    refine Agrees.peek_bind fun c hc => ?_
    generalize hk : c.kind = k
    split
    · exact agrees_typeName ih ho horderly hn hm c hc
    · exact advance_bind_eq (ih.before _) (by simp [hk]) hc
    · exact advance_bind_eq ((agrees_refl _).bind (moves_expect _ _) fun _ => ih.before _)
        (by simp [hk]) hc
    · exact advance_bind_eq (agrees_sliceOrArray ih) (by simp [hk]) hc
    · exact advance_bind_eq (ih.before _) (by simp [hk]) hc
    · exact advance_bind_eq (agrees_mapType ih horderly.moves) (by simp [hk]) hc
    · exact advance_bind_eq ((agrees_refl _).bind (moves_accept _).map fun _ => ih.before _)
        (by simp [hk]) hc
    · exact advance_bind_eq ((agrees_signatureOver ih ho horderly hn hm).before _)
        (by simp [hk]) hc
    · rfl
    · rfl
    · rfl

theorem settles_typeWithin : Settles typeWithin :=
  settles_of_agrees fun _ _ _ _ _ => agrees_typeWithin

theorem settles_signature : Settles fun out n => signatureOver (typeWithin out n) out n := by
  refine settles_of_agrees fun out out' N n m hn hm => ?_
  exact agrees_signatureOver (agrees_typeWithin hn hm) opensHole_of_opensNone
    (passes_typeWithin opensHole_of_opensNone n).orderly hn hm

variable {opens : TokenKind → Bool} (ho : ∀ k, opens k = true → opensHole k = true)

include ho

theorem passes_typeExpr : Passes opens (fun _ => True) typeExpr :=
  ⟨.bounded settles_typeWithin fun _ n => (passes_typeWithin ho n).orderly,
    fun c => (passes_typeWithin ho (c.rest.length + 1)).shrinks c⟩

theorem orderly_signature : OrderlyAnywhere opens signature :=
  .bounded settles_signature fun _ n =>
    orderly_signatureOver ho (passes_typeWithin ho n).orderly n

end

end GoEnum.Parse
