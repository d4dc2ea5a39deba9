import GoEnum.Parse.File
import GoEnum.Proofs.Parse.Run

namespace GoEnum.Parse

open Token Syntax

structure Cursor.Within (S : Span → Prop) (c : Cursor) : Prop where
  prev : S c.prev
  rest : ∀ t ∈ c.rest, S t.span

inductive Blamed (S : Span → Prop) : EStateM.Result SyntaxError Cursor α → Prop
  | ok : c.Within S → Blamed S (.ok x c)
  | error : S e.span → c.Within S → Blamed S (.error e c)

/-- On tokens at places in `S` the parser finds errors at such places only. -/
def Blames (S : Span → Prop) (p : Parser α) : Prop := ∀ c, c.Within S → Blamed S (p c)

section

variable {S : Span → Prop} {c : Cursor}

theorem Cursor.Within.head (h : c.Within S) : S c.head.span := by
  obtain ⟨prev, rest⟩ := c
  cases rest with
  | nil => exact h.prev
  | cons t ts => exact h.rest t List.mem_cons_self

theorem within_start (h : ∀ t ∈ ts, S t.span) (hne : ts ≠ []) : (Cursor.start ts).Within S := by
  cases ts with
  | nil => exact absurd rfl hne
  | cons t ts => exact ⟨h t List.mem_cons_self, h⟩

theorem Cursor.Within.advance (h : c.Within S) : c.advance.Within S := by
  obtain ⟨prev, rest⟩ := c
  cases rest with
  | nil => exact h
  | cons t ts =>
    obtain ⟨ht, hts⟩ := List.forall_mem_cons.1 h.rest
    have hpassed : Cursor.Within S ⟨t.span, ts⟩ := ⟨ht, hts⟩
    unfold Cursor.advance
    dsimp only
    split
    · exact h
    · exact hpassed

theorem within_skipWhile (p : TokenKind → Bool) (hprev : S prev) (hts : ∀ t ∈ ts, S t.span) :
    (Cursor.skipWhile p prev ts).Within S := by
  induction ts generalizing prev with
  | nil => exact ⟨hprev, hts⟩
  | cons t ts ih =>
    obtain ⟨ht, hrest⟩ := List.forall_mem_cons.1 hts
    rw [Cursor.skipWhile]
    split
    · exact ih ht hrest
    · exact ⟨hprev, hts⟩

theorem Cursor.Within.skipSemicolons (h : c.Within S) : c.skipSemicolons.Within S :=
  within_skipWhile _ h.prev h.rest

theorem Cursor.Within.synchronize (h : c.Within S) : c.synchronize.Within S :=
  within_skipWhile _ h.advance.prev h.advance.rest

end

section

variable {S : Span → Prop} {p : Parser α} {f : α → Parser β}

theorem blames_pure (x : α) : Blames S (pure x) := fun _ hc => .ok hc

theorem Blames.bind_ok (hp : Blames S p)
    (hf : ∀ c x d, c.Within S → p c = .ok x d → Blames S (f x)) : Blames S (p >>= f) := by
  intro c hc
  have hrun := hp c hc
  change Blamed S (EStateM.bind p f c)
  unfold EStateM.bind
  cases hx : p c with
  | ok x d =>
    rw [hx] at hrun
    cases hrun with
    | ok hd => exact hf c x d hc hx d hd
  | error e d =>
    rw [hx] at hrun
    cases hrun with
    | error he hd => exact .error he hd

theorem Blames.bind (hp : Blames S p) (hf : ∀ x, Blames S (f x)) : Blames S (p >>= f) :=
  hp.bind_ok fun _ x _ _ _ => hf x

theorem Blames.map {g : α → β} (hp : Blames S p) : Blames S (g <$> p) := by
  rw [← bind_pure_comp]
  exact hp.bind fun x => blames_pure _

theorem Blames.ite {cond : Prop} [Decidable cond] {q : Parser α} (hp : Blames S p)
    (hq : Blames S q) : Blames S (if cond then p else q) := by
  split
  · exact hp
  · exact hq

theorem Blames.ite_bind {cond : Prop} [Decidable cond] {q : Parser α} (hp : Blames S p)
    (hq : Blames S q) (hf : ∀ x, Blames S (f x)) :
    Blames S (if cond then p >>= f else q >>= f) :=
  .ite (hp.bind hf) (hq.bind hf)

theorem Blames.when {cond : Prop} [Decidable cond] {q : Parser β} (hp : Blames S p)
    (hq : Blames S q) : Blames S (if cond then p >>= fun _ => q else q) :=
  .ite (hp.bind fun _ => hq) hq

theorem blames_fail (cause : SyntaxCause) (h : S span) :
    Blames S (fail cause span : Parser α) := fun _ hc => .error h hc

theorem Blames.get {f : Cursor → Parser β} (hf : ∀ c, c.Within S → Blames S (f c)) :
    Blames S (get >>= f) := fun c hc => hf c hc c hc

theorem Blames.currentSpan {f : Span → Parser β} (hf : ∀ span, S span → Blames S (f span)) :
    Blames S (currentSpan >>= f) := fun c hc => hf c.head.span hc.head c hc

theorem Blames.previousSpan {f : Span → Parser β} (hf : ∀ span, S span → Blames S (f span)) :
    Blames S (previousSpan >>= f) := fun c hc => hf c.prev hc.prev c hc

theorem blames_peek : Blames S peek := fun _ hc => .ok hc

theorem blames_peekAt (n : Nat) : Blames S (peekAt n) := fun _ hc => .ok hc

theorem blames_isNext (k : TokenKind) : Blames S (isNext k) := fun _ hc => .ok hc

theorem blames_atEnd : Blames S atEnd := fun _ hc => .ok hc

theorem blames_advance : Blames S advance := fun _ hc => .ok hc.advance

theorem blames_skipSemicolons : Blames S skipSemicolons := fun _ hc => .ok hc.skipSemicolons

theorem blames_unexpected (what : String) : Blames S (unexpected what : Parser α) :=
  blames_peek.bind fun _ => .currentSpan fun _ h => blames_fail _ h

theorem blames_accept (k : TokenKind) : Blames S (accept k) :=
  (blames_isNext k).bind fun _ => .ite (blames_advance.bind fun _ => blames_pure _) (blames_pure _)

theorem blames_expect (k : TokenKind) (what : String) : Blames S (expect k what) :=
  (blames_accept k).bind fun _ => .ite (blames_unexpected what) (blames_pure _)

theorem blames_identifier : Blames S identifier := by
  refine blames_peek.bind fun k => ?_
  split
  · exact .currentSpan fun span _ => blames_advance.bind fun _ => blames_pure _
  · exact blames_unexpected _

theorem Blames.identifier {f : Spanned String → Parser β}
    (hf : ∀ name, S name.span → Blames S (f name)) : Blames S (identifier >>= f) := by
  refine blames_identifier.bind_ok fun c name d hc h => hf name ?_
  rw [identifier_span h]
  exact hc.head

theorem blames_bounded {p : String → Nat → Parser α} (h : ∀ out n, Blames S (p out n)) :
    Blames S (bounded p) := fun c hc => h "nothing" (c.rest.length + 1) c hc

end

section

variable {S : Span → Prop} {item : Parser α}

theorem blames_closeAll (hstart : S start) (n : Nat) (stack : List Punctuation) :
    Blames S (closeAll start out n stack) := by
  induction n generalizing stack with
  | zero =>
    cases stack with
    | nil => exact blames_pure _
    | cons top stack => exact blames_unexpected _
  | succ n ih =>
    cases stack with
    | nil => exact blames_pure _
    | cons top stack =>
      refine .get fun c hc => .when (blames_fail _ hstart) ?_
      refine blames_advance.bind fun _ => ?_
      split
      · exact .ite (ih _) (.ite (.ite (ih _) (blames_fail _ hc.head)) (ih _))
      · exact ih _

theorem blames_skipBalanced : Blames S skipBalanced := by
  refine blames_peek.bind fun k => ?_
  split
  · exact .currentSpan fun start hstart => blames_advance.bind fun _ =>
      blames_bounded fun _ n => blames_closeAll hstart n _
  · exact blames_unexpected _

theorem blames_skipItem : Blames S skipItem := by
  refine blames_peek.bind fun k => ?_
  split
  · exact .ite blames_skipBalanced blames_advance
  · exact blames_advance

theorem blames_skipValues (n : Nat) : Blames S (skipValues out n) := by
  induction n with
  | zero => exact blames_unexpected _
  | succ n ih =>
    refine blames_peek.bind fun k => ?_
    split
    · exact blames_pure _
    · exact blames_pure _
    · exact blames_pure _
    · exact blames_skipItem.bind fun _ => ih

theorem blames_skipUntil (closer : Punctuation) (n : Nat) : Blames S (skipUntil closer out n) := by
  induction n with
  | zero => exact blames_unexpected _
  | succ n ih =>
    refine (blames_isNext _).bind fun _ => .ite (blames_pure _) ?_
    refine blames_atEnd.bind fun _ => .when (blames_unexpected _) ?_
    exact blames_skipItem.bind fun _ => ih

theorem blames_commaList (closer : Punctuation) (h : Blames S item) (n : Nat) :
    Blames S (commaList closer item out n) := by
  induction n with
  | zero => exact blames_unexpected _
  | succ n ih =>
    exact (blames_isNext _).bind fun _ => .ite (blames_pure _) <| h.bind fun x =>
      (blames_accept _).bind fun _ => .ite (ih.bind fun xs => blames_pure _) (blames_pure _)

theorem blames_commaSeparated (h : Blames S item) (n : Nat) :
    Blames S (commaSeparated item out n) := by
  induction n with
  | zero => exact blames_unexpected _
  | succ n ih =>
    exact h.bind fun x => (blames_accept _).bind fun _ =>
      .ite (ih.bind fun xs => blames_pure _) (blames_pure _)

theorem blames_endOfSpec (what : String) : Blames S (endOfSpec what) :=
  (blames_accept _).bind fun _ => .ite (blames_pure _) <| (blames_isNext _).bind fun _ =>
    blames_atEnd.bind fun _ => .ite (blames_unexpected what) (blames_pure _)

theorem blames_groupLines (closing ending : String) {line : Nat → Parser α}
    (h : ∀ i, Blames S (line i)) (n i : Nat) :
    Blames S (groupLines closing ending line out n i) := by
  induction n generalizing i with
  | zero => exact blames_unexpected _
  | succ n ih =>
    refine (blames_accept _).bind fun _ => .ite (blames_pure _) ?_
    refine blames_atEnd.bind fun _ => .when (blames_unexpected _) ?_
    exact (h i).bind fun x => (blames_endOfSpec _).bind fun _ =>
      blames_skipSemicolons.bind fun _ => (ih _).bind fun xs => blames_pure _

theorem blames_group (closing ending : String) {line : Nat → Parser α}
    (h : ∀ i, Blames S (line i)) : Blames S (group closing ending line) :=
  (blames_accept _).bind fun _ => .ite
    (blames_skipSemicolons.bind fun _ =>
      (blames_bounded fun _ n => blames_groupLines _ _ h n 0).bind fun _ => blames_pure _)
    ((h 0).bind fun _ => blames_pure _)

end

section

variable {S : Span → Prop} (hmerge : ∀ s t, S s → S t → S (s.merge t))

section

variable {type : Parser TypeExpr} (htype : Blames S type)

include htype

theorem blames_typeName (n : Nat) : Blames S (typeName type out n) := by
  have hargs : ∀ base, Blames S (do
      if ← accept Punctuation.lbracket then
        let args ← commaList .rbracket type out n
        expect Punctuation.rbracket "']' after type arguments"
        return TypeExpr.applied base args
      else return base) := fun base =>
    (blames_accept _).bind fun _ => .ite ((blames_commaList _ htype n).bind fun _ =>
      (blames_expect _ _).bind fun _ => blames_pure _) (blames_pure _)
  exact blames_identifier.bind fun first => (blames_isNext _).bind fun _ =>
    (blames_peekAt 1).bind fun _ => .ite
      (blames_advance.bind fun _ => blames_identifier.bind fun _ => (blames_pure _).bind hargs)
      ((blames_pure _).bind hargs)

theorem blames_sliceOrArray : Blames S (sliceOrArray type) := by
  refine (blames_accept _).bind fun _ => .ite (htype.bind fun _ => blames_pure _) ?_
  refine (blames_accept _).bind fun _ => .when (blames_bounded fun _ n => blames_skipUntil _ n) ?_
  exact (blames_expect _ _).bind fun _ => htype.bind fun _ => blames_pure _

theorem blames_mapType : Blames S (mapType type) :=
  (blames_expect _ _).bind fun _ => htype.bind fun _ => (blames_expect _ _).bind fun _ =>
    htype.bind fun _ => blames_pure _

theorem blames_paramEntry : Blames S (paramEntry type) :=
  blames_peek.bind fun _ => (blames_peekAt 1).bind fun _ => (blames_peekAt 2).bind fun _ =>
    .ite_bind blames_identifier.map.map (blames_pure _) fun _ =>
      (blames_accept _).bind fun _ => htype.bind fun _ => blames_pure _

include hmerge

theorem blames_parameters (n : Nat) : Blames S (parameters type out n) := by
  refine .currentSpan fun start hstart => (blames_expect _ _).bind fun _ =>
    (blames_commaList _ (blames_paramEntry htype) n).bind fun entries =>
      (blames_expect _ _).bind fun _ => .ite (blames_pure _) ?_
  split
  · exact blames_pure _
  · exact .previousSpan fun stop hstop => blames_fail _ (hmerge start stop hstart hstop)

theorem blames_signatureOver (n : Nat) : Blames S (signatureOver type out n) :=
  have hparams := blames_parameters hmerge htype n
  hparams.bind fun _ => blames_peek.bind fun _ => .ite (hparams.bind fun _ => blames_pure _)
    (.ite (htype.bind fun _ => blames_pure _) (blames_pure _))

end

theorem blames_bracedBody (word : String) : Blames S (bracedBody word) :=
  (blames_isNext _).bind fun _ => .ite blames_skipBalanced (blames_unexpected _)

theorem blames_spanned {p : Parser α} (hp : Blames S p) : Blames S (spanned p) :=
  .currentSpan fun _ _ => hp.bind fun _ => .previousSpan fun _ _ => blames_pure _

include hmerge

theorem blames_typeWithin (n : Nat) : Blames S (typeWithin out n) := by
  induction n with
  | zero => exact blames_unexpected _
  | succ n ih =>
    have hwrap : ∀ f : TypeExpr → TypeExpr, Blames S (do return f (← typeWithin out n)) :=
      fun f => ih.bind fun _ => blames_pure _
    refine blames_peek.bind fun k => ?_
    split
    · exact blames_typeName ih n
    · exact blames_advance.bind fun _ => hwrap .pointer
    · exact blames_advance.bind fun _ => (blames_expect _ _).bind fun _ => hwrap .chan
    · exact blames_advance.bind fun _ => blames_sliceOrArray ih
    · exact blames_advance.bind fun _ => ih.bind fun _ => (blames_expect _ _).bind fun _ =>
        blames_pure _
    · exact blames_advance.bind fun _ => blames_mapType ih
    · exact blames_advance.bind fun _ => (blames_accept _).map.bind fun _ => hwrap .chan
    · exact blames_advance.bind fun _ => (blames_signatureOver hmerge ih n).bind fun _ =>
        blames_pure _
    · exact blames_advance.bind fun _ => (blames_bracedBody _).bind fun _ => blames_pure _
    · exact blames_advance.bind fun _ => (blames_bracedBody _).bind fun _ => blames_pure _
    · exact blames_unexpected _

theorem blames_typeExpr : Blames S typeExpr := blames_bounded fun _ => blames_typeWithin hmerge

theorem blames_signature : Blames S signature :=
  blames_bounded fun _ n => blames_signatureOver hmerge (blames_typeWithin hmerge n) n

theorem blames_primary {expr : Parser Expr} (hexpr : Blames S expr) : Blames S (primary expr) := by
  have htype : ∀ start : Span, Blames S (do
      let type ← typeExpr
      return Expr.type (start.merge (← previousSpan)) type) := fun start =>
    (blames_typeExpr hmerge).bind fun _ => .previousSpan fun _ _ => blames_pure _
  refine .currentSpan fun start _ => blames_peek.bind fun k => ?_
  cases k with
  | int | float | imaginary | rune | string | ident =>
    exact blames_advance.bind fun _ => blames_pure _
  | operator | eof => exact blames_unexpected _
  | punctuation p =>
    cases p with
    | lparen =>
      exact blames_advance.bind fun _ => hexpr.bind fun _ => (blames_expect _ _).bind fun _ =>
        .previousSpan fun _ _ => blames_pure _
    | lbracket => exact htype start
    | _ => exact blames_unexpected _
  | keyword w =>
    cases w with
    | map | chan | func | struct | interface => exact htype start
    | _ => exact blames_unexpected _

omit hmerge

theorem blames_postfixes {expr : Parser Expr} (hexpr : Blames S expr) (n : Nat) (e : Expr) :
    Blames S (postfixes expr out n e) := by
  induction n generalizing e with
  | zero => exact blames_unexpected _
  | succ n ih =>
    exact (blames_accept _).bind fun _ => .ite
      (blames_identifier.bind fun _ => .previousSpan fun _ _ => ih _)
      ((blames_accept _).bind fun _ => .ite
        ((blames_commaList _ hexpr n).bind fun _ => (blames_expect _ _).bind fun _ =>
          .previousSpan fun _ _ => ih _)
        (blames_pure _))

theorem blames_unaries {operand : Parser Expr} (hoperand : Blames S operand) (n : Nat) :
    Blames S (unaries operand out n) := by
  induction n with
  | zero => exact blames_unexpected _
  | succ n ih =>
    refine .currentSpan fun start _ => blames_peek.bind fun k => ?_
    split
    · dsimp only
      split
      · exact blames_advance.bind fun _ => ih.bind fun _ => blames_pure _
      · exact hoperand
    · exact hoperand

theorem blames_climb {operand : Nat → Parser Expr} {least : Nat}
    (hoperand : ∀ l, Blames S (operand l)) (n : Nat) (e : Expr) :
    Blames S (climb operand least out n e) := by
  induction n generalizing e with
  | zero => exact blames_unexpected _
  | succ n ih =>
    refine blames_peek.bind fun k => ?_
    split
    · dsimp only
      split
      · exact .ite (blames_pure _) (blames_advance.bind fun _ => (hoperand _).bind fun _ => ih _)
      · exact blames_pure _
    · exact blames_pure _

include hmerge

theorem blames_exprWithin (n least : Nat) : Blames S (exprWithin out n least) := by
  induction n generalizing least with
  | zero => exact blames_unexpected _
  | succ n ih =>
    have hoperand : Blames S (do
        postfixes (exprWithin out n 1) out n (← primary (exprWithin out n 1))) :=
      (blames_primary hmerge (ih 1)).bind fun e => blames_postfixes (ih 1) n e
    exact (blames_unaries hoperand (n + 1)).bind fun e => blames_climb ih n e

theorem blames_expressionList : Blames S expressionList :=
  blames_bounded fun _ n =>
    blames_commaSeparated (blames_bounded fun _ n => blames_exprWithin hmerge n 1) n

end

section

variable {S : Span → Prop} (hmerge : ∀ s t, S s → S t → S (s.merge t))

theorem blames_identifiers : Blames S identifiers :=
  blames_bounded fun _ n => blames_commaSeparated blames_identifier n

theorem blames_endOfDecl (what : String) : Blames S (endOfDecl what) :=
  (blames_accept _).bind fun _ => .ite (blames_pure _) <| blames_atEnd.bind fun _ =>
    .ite (blames_unexpected what) (blames_pure _)

theorem blames_packageClause : Blames S packageClause :=
  (blames_expect _ _).bind fun _ => .identifier fun _ hname =>
    .when (blames_fail _ hname) ((blames_endOfDecl _).bind fun _ => blames_pure _)

theorem blames_importName : Blames S importName := by
  refine blames_peek.bind fun k => ?_
  split
  · exact blames_advance.bind fun _ => blames_pure _
  · exact blames_advance.bind fun _ => blames_pure _
  · exact blames_pure _

theorem blames_importSpec : Blames S importSpec := by
  refine blames_importName.bind fun name => blames_peek.bind fun k => ?_
  split
  · exact blames_advance.bind fun _ => blames_pure _
  · exact blames_unexpected _

theorem blames_importDecl : Blames S importDecl :=
  (blames_expect _ _).bind fun _ => (blames_group _ _ fun _ => blames_importSpec).bind fun _ =>
    (blames_endOfDecl _).bind fun _ => blames_pure _

theorem blames_varSpec : Blames S varSpec :=
  blames_identifiers.bind fun _ => (blames_bounded fun _ => blames_skipValues).bind fun _ =>
    blames_pure _

theorem blames_varDecl : Blames S varDecl :=
  (blames_expect _ _).bind fun _ => (blames_group _ _ fun _ => blames_varSpec).bind fun _ =>
    blames_pure _

theorem blames_receiverName : Blames S receiverName := by
  refine blames_peek.bind fun k => (blames_peekAt 1).bind fun l => ?_
  split
  · exact blames_advance.bind fun _ => blames_pure _
  · exact blames_advance.bind fun _ => blames_pure _
  · exact blames_advance.bind fun _ => blames_pure _
  · exact blames_pure _

include hmerge

theorem blames_constTail : Blames S constTail := by
  refine blames_peek.bind fun k => ?_
  split
  · exact blames_pure _
  · exact blames_pure _
  · exact blames_pure _
  · exact .ite_bind (blames_pure _) (blames_spanned (blames_typeExpr hmerge)).map fun _ =>
      (blames_expect _ _).bind fun _ => (blames_expressionList hmerge).bind fun _ => blames_pure _

theorem blames_constSpec (iota : Nat) : Blames S (constSpec iota) := by
  refine .currentSpan fun start hstart => blames_identifiers.bind fun names =>
    (blames_constTail hmerge).bind fun tail => .previousSpan fun stop hstop => ?_
  dsimp only
  split
  · exact blames_fail _ (hmerge start stop hstart hstop)
  · exact blames_pure _

theorem blames_constDecl : Blames S constDecl :=
  (blames_expect _ _).bind fun _ => (blames_group _ _ (blames_constSpec hmerge)).bind fun _ =>
    blames_pure _

theorem blames_typeSpec : Blames S typeSpec := by
  refine blames_spanned (blames_identifier.bind fun name => (blames_isNext _).bind fun _ => ?_)
  refine (blames_peekAt 1).bind fun _ => (blames_peekAt 2).bind fun _ => ?_
  refine .when blames_skipBalanced ?_
  exact (blames_accept _).bind fun _ =>
    (blames_spanned (blames_typeExpr hmerge)).bind fun _ => blames_pure _

theorem blames_typeDecl : Blames S typeDecl :=
  (blames_expect _ _).bind fun _ => (blames_group _ _ fun _ => blames_typeSpec hmerge).bind
    fun _ => blames_pure _

theorem blames_receiver : Blames S receiver :=
  (blames_expect _ _).bind fun _ => blames_receiverName.bind fun _ =>
    (blames_spanned (blames_typeExpr hmerge)).bind fun _ => (blames_accept _).map.bind fun _ =>
      (blames_expect _ _).bind fun _ => blames_pure _

theorem blames_funcDecl : Blames S funcDecl := by
  refine (blames_expect _ _).bind fun _ => (blames_isNext _).bind fun _ => ?_
  refine .ite_bind (blames_receiver hmerge).map (blames_pure _) fun _ => ?_
  refine blames_identifier.bind fun _ => (blames_isNext _).bind fun _ => ?_
  refine .when blames_skipBalanced ((blames_signature hmerge).bind fun _ => ?_)
  exact (blames_isNext _).bind fun _ => .when blames_skipBalanced (blames_pure _)

theorem blames_declaration : Blames S declaration := by
  refine (blames_spanned (blames_peek.bind fun k => ?_)).bind fun _ =>
    (blames_endOfDecl _).bind fun _ => blames_pure _
  split
  · exact (blames_constDecl hmerge).bind fun _ => blames_pure _
  · exact blames_varDecl.bind fun _ => blames_pure _
  · exact (blames_typeDecl hmerge).bind fun _ => blames_pure _
  · exact (blames_funcDecl hmerge).bind fun _ => blames_pure _
  · exact .currentSpan fun _ hspan => blames_fail _ hspan
  · exact blames_unexpected _

end

section

variable {S : Span → Prop} {item : Parser α}

theorem blames_harvest (hitem : Blames S item) (more : Cursor → Bool) (n : Nat) (hc : c.Within S) :
    (∀ e ∈ (harvest more item n c).errors, S e.span) ∧
      (harvest more item n c).cursor.Within S := by
  induction n generalizing c with
  | zero => exact ⟨by simp [harvest], hc⟩
  | succ n ih =>
    have hrun := hitem c hc
    rw [harvest]
    split
    · cases hx : item c with
      | ok x d =>
        rw [hx] at hrun
        cases hrun with
        | ok hd => exact ih hd.skipSemicolons
      | error e d =>
        rw [hx] at hrun
        cases hrun with
        | error he hd =>
          obtain ⟨hrest, hlast⟩ := ih hd.synchronize.skipSemicolons
          exact ⟨List.forall_mem_cons.2 ⟨he, hrest⟩, hlast⟩
    · exact ⟨by simp, hc⟩

theorem blames_parse (hmerge : ∀ s t, S s → S t → S (s.merge t)) (hts : ∀ t ∈ ts, S t.span)
    (hne : ts ≠ []) (h : parse ts = .error es) : ∀ e ∈ es, S e.span := by
  unfold parse at h
  rw [if_neg (by simpa using hne)] at h
  have hpackage := blames_packageClause _ (within_start hts hne).skipSemicolons
  split at h
  · rename_i e d hrun
    rw [hrun] at hpackage
    cases hpackage with
    | error he hd =>
      cases h
      simpa using he
  · rename_i package d hrun
    rw [hrun] at hpackage
    cases hpackage with
    | ok hd =>
      obtain ⟨himports, hcursor⟩ := blames_harvest blames_importDecl
        (·.kind == .keyword .import) ts.length hd.skipSemicolons
      obtain ⟨hdecls, -⟩ := blames_harvest (blames_declaration hmerge) (!·.atEnd) ts.length hcursor
      dsimp only at h
      split at h
      · cases h
      · cases h
        rw [List.forall_mem_append]
        exact ⟨himports, hdecls⟩

end

end GoEnum.Parse
