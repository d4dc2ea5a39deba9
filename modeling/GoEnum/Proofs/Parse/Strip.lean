import GoEnum.Parse.Type
import GoEnum.Proofs.Syntax.Strip

/-!
Parsing commutes with stripping: no parser looks at a place in the text or at the text of a string
literal. The rule for a parser follows how it is put together.
-/

namespace GoEnum.Parse

open Token Syntax

variable (g : String → String)

def SyntaxCause.strip : SyntaxCause → SyntaxCause
  | .expected what found => .expected what (found.strip g)
  | cause => cause

def SyntaxError.strip (e : SyntaxError) : SyntaxError := ⟨e.cause.strip g, .point 0⟩

namespace Cursor

def strip (c : Cursor) : Cursor := ⟨.point 0, c.rest.map (Spanned.strip (TokenKind.strip g))⟩

theorem start_strip (ts : List Token) :
    start (ts.map (Spanned.strip (TokenKind.strip g))) = (start ts).strip g := by
  cases ts <;> rfl

theorem head_strip (c : Cursor) : (c.strip g).head = c.head.strip (TokenKind.strip g) := by
  obtain ⟨prev, rest⟩ := c
  cases rest <;> rfl

theorem kind_strip (c : Cursor) : (c.strip g).kind = c.kind.strip g := by
  rw [kind, head_strip]
  rfl

theorem kindAt_strip (c : Cursor) (n : Nat) : (c.strip g).kindAt n = (c.kindAt n).strip g := by
  rw [kindAt, strip, List.getElem?_map, kindAt]
  cases c.rest[n]? <;> rfl

theorem atEnd_strip (c : Cursor) : (c.strip g).atEnd = c.atEnd := by
  rw [atEnd, kind_strip, TokenKind.strip_beq g rfl, atEnd]

theorem advance_strip (c : Cursor) : (c.strip g).advance = c.advance.strip g := by
  obtain ⟨prev, rest⟩ := c
  cases rest with
  | nil => rfl
  | cons t ts =>
    have hend : (t.strip (TokenKind.strip g)).node = .eof ↔ t.node = .eof :=
      TokenKind.strip_eq_eof g
    simp only [advance, strip, List.map_cons, hend]
    split <;> rfl

theorem skipWhile_strip {p : TokenKind → Bool} (hp : ∀ k, p (k.strip g) = p k) (prev : Span)
    (ts : List Token) :
    skipWhile p (.point 0) (ts.map (Spanned.strip (TokenKind.strip g))) =
      (skipWhile p prev ts).strip g := by
  induction ts generalizing prev with
  | nil => rfl
  | cons t ts ih =>
    have ht : p (t.strip (TokenKind.strip g)).node = p t.node := hp t.node
    rw [List.map_cons, skipWhile, skipWhile, ht]
    split
    · exact ih t.span
    · rfl

theorem skipSemicolons_strip (c : Cursor) :
    (c.strip g).skipSemicolons = c.skipSemicolons.strip g :=
  skipWhile_strip g (TokenKind.strip_beq g rfl) _ _

theorem synchronize_strip (c : Cursor) : (c.strip g).synchronize = c.synchronize.strip g := by
  have hrestart : ∀ k : TokenKind, (!isRestart (k.strip g)) = !isRestart k := by
    intro k
    cases k <;> rfl
  rw [synchronize, advance_strip]
  exact skipWhile_strip g hrestart _ _

end Cursor

def stripResult (f : α → β) :
    EStateM.Result SyntaxError Cursor α → EStateM.Result SyntaxError Cursor β
  | .ok x c => .ok (f x) (c.strip g)
  | .error e c => .error (e.strip g) (c.strip g)

/-- On stripped tokens `q` does what `p` does, stripped. -/
def Strips (f : α → β) (p : Parser α) (q : Parser β) : Prop :=
  ∀ c, q (c.strip g) = stripResult g f (p c)

abbrev Same (p : Parser α) : Prop := Strips g id p p

section

variable {g} {f : α → β} {f' : γ → δ} {p : Parser α} {q : Parser β}

theorem strips_pure (h : f x = y) : Strips g f (pure x) (pure y) := by
  rintro c
  rw [← h]
  rfl

theorem Strips.bind {k : α → Parser γ} {l : β → Parser δ} (h : Strips g f p q)
    (hk : ∀ x, Strips g f' (k x) (l (f x))) : Strips g f' (p >>= k) (q >>= l) := by
  intro c
  change EStateM.bind q l (c.strip g) = stripResult g f' (EStateM.bind p k c)
  rw [EStateM.bind, EStateM.bind, h c]
  cases p c with
  | ok x c' => exact hk x c'
  | error e c' => rfl

theorem Strips.map {k : α → γ} {l : β → δ} (h : Strips g f p q) (hk : ∀ x, f' (k x) = l (f x)) :
    Strips g f' (k <$> p) (l <$> q) := by
  rw [← bind_pure_comp, ← bind_pure_comp]
  exact h.bind fun x => strips_pure (hk x)

theorem Strips.ite_bind {c : Prop} [Decidable c] {p' : Parser α} {q' : Parser β}
    {k : α → Parser γ} {l : β → Parser δ} (hp : Strips g f p q) (hp' : Strips g f p' q')
    (hk : ∀ x, Strips g f' (k x) (l (f x))) :
    Strips g f' (if c then p >>= k else p' >>= k) (if c then q >>= l else q' >>= l) := by
  split
  · exact hp.bind hk
  · exact hp'.bind hk

theorem Strips.when {c : Prop} [Decidable c] {k : Parser γ} {l : Parser δ} (hp : Strips g f p q)
    (hk : Strips g f' k l) :
    Strips g f' (if c then p >>= fun _ => k else k) (if c then q >>= fun _ => l else l) := by
  split
  · exact hp.bind fun _ => hk
  · exact hk

theorem strips_fail (cause : SyntaxCause) (span : Span) :
    Strips g f (fail cause span) (fail (cause.strip g) (.point 0)) := fun _ => rfl

theorem strips_fail_bind {k : α → Parser γ} {l : β → Parser δ} (cause : SyntaxCause) (span : Span) :
    Strips g f' (fail cause span >>= k) (fail (cause.strip g) (.point 0) >>= l) := fun _ => rfl

theorem strips_get : Strips g (Cursor.strip g) get get := fun _ => rfl

theorem strips_peek : Strips g (TokenKind.strip g) peek peek :=
  strips_get.bind fun c => strips_pure (c.kind_strip g).symm

theorem strips_peekAt (n : Nat) : Strips g (TokenKind.strip g) (peekAt n) (peekAt n) :=
  strips_get.bind fun c => strips_pure (c.kindAt_strip g n).symm

theorem Strips.cases {p q : Parser TokenKind} {k : TokenKind → Parser α} {l : TokenKind → Parser β}
    (hp : Strips g (TokenKind.strip g) p q)
    (h : ∀ t, t.isString = false → Strips g f (k t) (l t))
    (hstring : ∀ s, Strips g f (k (.string s)) (l (.string (g s)))) :
    Strips g f (p >>= k) (q >>= l) := by
  refine hp.bind fun t => ?_
  cases t with
  | string s => exact hstring s
  | _ => exact h _ rfl

theorem strips_currentSpan : Strips g (fun _ => Span.point 0) currentSpan currentSpan :=
  strips_get.bind fun c => strips_pure (by rw [c.head_strip g]; rfl)

theorem strips_previousSpan : Strips g (fun _ => Span.point 0) previousSpan previousSpan :=
  strips_get.bind fun _ => strips_pure rfl

theorem strips_atEnd : Same g atEnd :=
  strips_get.bind fun c => strips_pure (c.atEnd_strip g).symm

theorem strips_isNext (h : k.isString = false) : Same g (isNext k) :=
  strips_peek.bind fun l => strips_pure (TokenKind.strip_beq g h l).symm

theorem strips_advance : Same g advance := by
  intro c
  change EStateM.Result.ok () (c.strip g).advance = _
  rw [c.advance_strip g]
  rfl

theorem strips_skipSemicolons : Same g skipSemicolons := by
  intro c
  change EStateM.Result.ok () (c.strip g).skipSemicolons = _
  rw [c.skipSemicolons_strip g]
  rfl

theorem strips_unexpected (what : String) : Strips g f (unexpected what) (unexpected what) :=
  strips_peek.bind fun t => strips_currentSpan.bind fun s => strips_fail (.expected what t) s

theorem strips_unexpected_bind {k : α → Parser γ} {l : β → Parser δ} (what : String) :
    Strips g f' (unexpected what >>= k) (unexpected what >>= l) := by
  intro c
  change EStateM.Result.error
    (SyntaxError.mk (.expected what (c.strip g).kind) (c.strip g).head.span) _ = _
  rw [c.kind_strip g, c.head_strip g]
  rfl

theorem strips_accept (h : k.isString = false) : Same g (accept k) := by
  refine (strips_isNext h).bind fun b => ?_
  cases b with
  | true => exact strips_advance.bind fun _ => strips_pure rfl
  | false => exact strips_pure rfl

theorem strips_expect (h : k.isString = false) (what : String) :
    Same g (expect k what) := by
  refine (strips_accept h).bind fun b => ?_
  cases b with
  | true => exact strips_pure rfl
  | false => exact strips_unexpected what

theorem strips_identifier : Strips g (Spanned.strip id) identifier identifier := by
  refine strips_peek.cases (fun t _ => ?_) fun s => strips_unexpected _
  split
  · exact strips_currentSpan.bind fun s => strips_advance.bind fun _ => strips_pure rfl
  · exact strips_unexpected _

theorem strips_bounded {p : String → Nat → Parser α} {q : String → Nat → Parser β}
    (h : ∀ out n, Strips g f (p out n) (q out n)) : Strips g f (bounded p) (bounded q) := by
  intro c
  change q "nothing" ((c.strip g).rest.length + 1) (c.strip g) =
    stripResult g f (p "nothing" (c.rest.length + 1) c)
  rw [Cursor.strip, List.length_map]
  exact h _ _ c

theorem strips_closeAll (start : Span) (n : Nat) (stack : List Punctuation) :
    Strips g id (closeAll start out n stack) (closeAll (.point 0) out n stack) := by
  induction n generalizing stack with
  | zero =>
    cases stack with
    | nil => exact strips_pure rfl
    | cons top stack => exact strips_unexpected _
  | succ n ih =>
    cases stack with
    | nil => exact strips_pure rfl
    | cons top stack =>
      refine strips_get.bind fun c => ?_
      rw [c.head_strip g]
      obtain ⟨k, span⟩ := c.head
      cases k with
      | eof => exact strips_fail_bind _ _
      | punctuation p =>
        refine strips_advance.bind fun _ => ?_
        dsimp only [Spanned.strip, TokenKind.strip]
        split
        · exact ih _
        · split
          · split
            · exact ih _
            · exact strips_fail _ _
          · exact ih _
      | _ => exact strips_advance.bind fun _ => ih _

theorem strips_skipBalanced : Same g skipBalanced := by
  refine strips_peek.cases (fun t _ => ?_) fun s => strips_unexpected _
  split
  · exact strips_currentSpan.bind fun start => strips_advance.bind fun _ =>
      strips_bounded fun _ n => strips_closeAll start n _
  · exact strips_unexpected _

theorem strips_skipItem : Same g skipItem := by
  refine strips_peek.cases (fun t _ => ?_) fun s => strips_advance
  split
  · split
    · exact strips_skipBalanced
    · exact strips_advance
  · exact strips_advance

theorem strips_skipValues (n : Nat) : Same g (skipValues out n) := by
  induction n with
  | zero => exact strips_unexpected _
  | succ n ih =>
    have hskip : Same g (skipItem >>= fun _ => skipValues out n) :=
      strips_skipItem.bind fun _ => ih
    refine strips_peek.cases (fun t _ => ?_) fun s => hskip
    split
    · exact strips_pure rfl
    · exact strips_pure rfl
    · exact strips_pure rfl
    · exact hskip

theorem strips_skipUntil (closer : Punctuation) (n : Nat) :
    Same g (skipUntil closer out n) := by
  induction n with
  | zero => exact strips_unexpected _
  | succ n ih =>
    refine (strips_isNext rfl).bind fun b => ?_
    cases b with
    | true => exact strips_pure rfl
    | false =>
      refine strips_atEnd.bind fun b => ?_
      cases b with
      | true => exact strips_unexpected_bind _
      | false => exact strips_skipItem.bind fun _ => ih

theorem strips_commaList (closer : Punctuation) (h : Strips g f p q) (n : Nat) :
    Strips g (List.map f) (commaList closer p out n) (commaList closer q out n) := by
  induction n with
  | zero => exact strips_unexpected _
  | succ n ih =>
    refine (strips_isNext rfl).bind fun b => ?_
    cases b with
    | true => exact strips_pure rfl
    | false =>
      refine h.bind fun x => (strips_accept rfl).bind fun b => ?_
      cases b with
      | true => exact ih.bind fun xs => strips_pure rfl
      | false => exact strips_pure rfl

theorem strips_commaSeparated (h : Strips g f p q) (n : Nat) :
    Strips g (List.map f) (commaSeparated p out n) (commaSeparated q out n) := by
  induction n with
  | zero => exact strips_unexpected _
  | succ n ih =>
    refine h.bind fun x => (strips_accept rfl).bind fun b => ?_
    cases b with
    | true => exact ih.bind fun xs => strips_pure rfl
    | false => exact strips_pure rfl

theorem strips_endOfSpec (what : String) : Same g (endOfSpec what) := by
  refine (strips_accept rfl).bind fun b => ?_
  cases b with
  | true => exact strips_pure rfl
  | false =>
    refine (strips_isNext rfl).bind fun b => strips_atEnd.bind fun b' => ?_
    dsimp only [id]
    split
    · exact strips_unexpected _
    · exact strips_pure rfl

theorem strips_groupLines (closing ending : String) {line : Nat → Parser α} {line' : Nat → Parser β}
    (h : ∀ i, Strips g f (line i) (line' i)) (n i : Nat) : Strips g (List.map f)
      (groupLines closing ending line out n i) (groupLines closing ending line' out n i) := by
  induction n generalizing i with
  | zero => exact strips_unexpected _
  | succ n ih =>
    refine (strips_accept rfl).bind fun b => ?_
    cases b with
    | true => exact strips_pure rfl
    | false =>
      refine strips_atEnd.bind fun b => ?_
      cases b with
      | true => exact strips_unexpected_bind _
      | false =>
        exact (h i).bind fun x => (strips_endOfSpec _).bind fun _ =>
          strips_skipSemicolons.bind fun _ => (ih (i + 1)).bind fun xs => strips_pure rfl

theorem strips_group (closing ending : String) {line : Nat → Parser α} {line' : Nat → Parser β}
    (h : ∀ i, Strips g f (line i) (line' i)) : Strips g (Prod.map id (List.map f))
      (group closing ending line) (group closing ending line') := by
  refine (strips_accept rfl).bind fun b => ?_
  cases b with
  | true =>
    exact strips_skipSemicolons.bind fun _ =>
      (strips_bounded fun _ n => strips_groupLines closing ending h n 0).bind fun xs =>
        strips_pure rfl
  | false => exact (h 0).bind fun x => strips_pure rfl

end

section

variable {g} {type : Parser TypeExpr}

theorem isIdent_strip (k : TokenKind) : (k.strip g).isIdent = k.isIdent := by
  cases k <;> rfl

theorem strips_typeName (h : Same g type) (n : Nat) : Same g (typeName type out n) := by
  have hargs : ∀ base, Same g (do
      if ← accept Punctuation.lbracket then
        let args ← commaList .rbracket type out n
        expect Punctuation.rbracket "']' after type arguments"
        return TypeExpr.applied base args
      else return base) := by
    intro base
    refine (strips_accept rfl).bind fun b => ?_
    cases b with
    | true =>
      refine (strips_commaList _ h n).bind fun args => (strips_expect rfl _).bind fun _ => ?_
      rw [List.map_id]
      exact strips_pure rfl
    | false => exact strips_pure rfl
  refine strips_identifier.bind fun first => (strips_isNext rfl).bind fun b =>
    (strips_peekAt 1).bind fun k => ?_
  rw [isIdent_strip]
  dsimp only [id, Spanned.strip]
  split
  · exact strips_advance.bind fun _ => strips_identifier.bind fun name =>
      (strips_pure rfl).bind hargs
  · exact (strips_pure rfl).bind hargs

theorem strips_bracedBody (word : String) : Same g (bracedBody word) := by
  refine (strips_isNext rfl).bind fun b => ?_
  cases b with
  | true => exact strips_skipBalanced
  | false => exact strips_unexpected _

theorem strips_sliceOrArray (h : Same g type) : Same g (sliceOrArray type) := by
  refine (strips_accept rfl).bind fun b => ?_
  cases b with
  | true => exact h.bind fun t => strips_pure rfl
  | false =>
    refine (strips_accept rfl).bind fun b => ?_
    refine (strips_bounded fun _ n => strips_skipUntil _ n).when ?_
    exact (strips_expect rfl _).bind fun _ => h.bind fun t => strips_pure rfl

theorem strips_mapType (h : Same g type) : Same g (mapType type) :=
  (strips_expect rfl _).bind fun _ => h.bind fun _ => (strips_expect rfl _).bind fun _ =>
    h.bind fun _ => strips_pure rfl

theorem namesParam_strip (k l : TokenKind) :
    namesParam (k.strip g) (l.strip g) = namesParam k l := by
  cases l with
  | string s =>
    cases k with
    | operator o => cases o <;> rfl
    | punctuation p => cases p <;> rfl
    | _ => rfl
  | _ => cases k <;> rfl

theorem strips_paramEntry (h : Same g type) : Same g (paramEntry type) := by
  have hnode : Same g (Spanned.node <$> identifier) := strips_identifier.map fun _ => rfl
  have hname : Same g (some <$> Spanned.node <$> identifier) := hnode.map fun _ => rfl
  refine strips_peek.bind fun k => (strips_peekAt 1).bind fun l => (strips_peekAt 2).bind
    fun m => ?_
  rw [isIdent_strip, namesParam_strip]
  exact Strips.ite_bind hname (strips_pure rfl) fun name => (strips_accept rfl).bind fun _ =>
    h.bind fun _ => strips_pure rfl

theorem strips_parameters (h : Same g type) (n : Nat) : Same g (parameters type out n) := by
  refine strips_currentSpan.bind fun start => (strips_expect rfl _).bind fun _ =>
    (strips_commaList _ (strips_paramEntry h) n).bind fun entries => (strips_expect rfl _).bind
      fun _ => ?_
  rw [List.map_id]
  split
  · exact strips_pure rfl
  · split
    · exact strips_pure rfl
    · exact strips_previousSpan.bind fun stop => strips_fail _ _

theorem strips_signatureOver (h : Same g type) (n : Nat) : Same g (signatureOver type out n) := by
  refine (strips_parameters h n).bind fun params => ?_
  refine strips_peek.cases (fun t _ => ?_) fun s => strips_pure rfl
  split
  · exact (strips_parameters h n).bind fun results => strips_pure rfl
  · split
    · exact h.bind fun t => strips_pure rfl
    · exact strips_pure rfl

theorem strips_typeWithin (n : Nat) : Same g (typeWithin out n) := by
  induction n with
  | zero => exact strips_unexpected _
  | succ n ih =>
    have hwrap : ∀ f : TypeExpr → TypeExpr, Same g (do return f (← typeWithin out n)) :=
      fun f => ih.bind fun _ => strips_pure rfl
    have harrow : Same g (discard (accept Operator.arrow)) := (strips_accept rfl).map fun _ => rfl
    refine strips_peek.cases (fun t _ => ?_) fun s => strips_unexpected _
    split
    · exact strips_typeName ih n
    · exact strips_advance.bind fun _ => hwrap .pointer
    · exact strips_advance.bind fun _ => (strips_expect rfl _).bind fun _ => hwrap .chan
    · exact strips_advance.bind fun _ => strips_sliceOrArray ih
    · exact strips_advance.bind fun _ => ih.bind fun inner => (strips_expect rfl _).bind fun _ =>
        strips_pure rfl
    · exact strips_advance.bind fun _ => strips_mapType ih
    · exact strips_advance.bind fun _ => harrow.bind fun _ => hwrap .chan
    · exact strips_advance.bind fun _ => (strips_signatureOver ih n).bind fun _ => strips_pure rfl
    · exact strips_advance.bind fun _ => (strips_bracedBody _).bind fun _ => strips_pure rfl
    · exact strips_advance.bind fun _ => (strips_bracedBody _).bind fun _ => strips_pure rfl
    · exact strips_unexpected _

theorem strips_typeExpr : Same g typeExpr := strips_bounded fun _ => strips_typeWithin

theorem strips_signature : Same g signature :=
  strips_bounded fun _ n => strips_signatureOver (strips_typeWithin n) n

theorem strips_spanned {f : α → β} {p : Parser α} {q : Parser β} (h : Strips g f p q) :
    Strips g (Spanned.strip f) (spanned p) (spanned q) :=
  strips_currentSpan.bind fun _ => h.bind fun _ => strips_previousSpan.bind fun _ =>
    strips_pure rfl

end

end GoEnum.Parse
