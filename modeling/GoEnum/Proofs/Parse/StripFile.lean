import GoEnum.Parse.File
import GoEnum.Proofs.Parse.Strip

namespace GoEnum.Parse

open Token Syntax

section

variable {g : String → String} {expr : Parser Expr}

theorem strips_primary (h : Strips g (Expr.strip g) expr expr) :
    Strips g (Expr.strip g) (primary expr) (primary expr) := by
  refine strips_currentSpan.bind fun start => ?_
  have hliteral : ∀ v : Literal, Strips g (Expr.strip g)
      (advance >>= fun _ => pure (Expr.literal start v))
      (advance >>= fun _ => pure (Expr.literal (.point 0) (v.strip g))) :=
    fun v => strips_advance.bind fun _ => strips_pure rfl
  have htype : Strips g (Expr.strip g)
      (typeExpr >>= fun t => previousSpan >>= fun stop => pure (Expr.type (start.merge stop) t))
      (typeExpr >>= fun t => previousSpan >>= fun stop =>
        pure (Expr.type ((Span.point 0).merge stop) t)) :=
    strips_typeExpr.bind fun _ => strips_previousSpan.bind fun _ => strips_pure rfl
  refine strips_peek.cases (fun t ht => ?_) fun s => hliteral (.string s)
  cases t with
  | int n => exact hliteral (.int n)
  | float x => exact hliteral (.float x)
  | imaginary x => exact hliteral (.imaginary x)
  | rune c => exact hliteral (.rune c)
  | string s => cases ht
  | ident name => exact strips_advance.bind fun _ => strips_pure rfl
  | operator o => exact strips_unexpected _
  | eof => exact strips_unexpected _
  | punctuation p =>
    cases p with
    | lparen =>
      exact strips_advance.bind fun _ => h.bind fun _ => (strips_expect rfl _).bind fun _ =>
        strips_previousSpan.bind fun _ => strips_pure rfl
    | lbracket => exact htype
    | _ => exact strips_unexpected _
  | keyword k =>
    cases k with
    | map | chan | func | struct | interface => exact htype
    | _ => exact strips_unexpected _

theorem strips_postfixes (h : Strips g (Expr.strip g) expr expr) (n : Nat) (e : Expr) :
    Strips g (Expr.strip g) (postfixes expr out n e) (postfixes expr out n (e.strip g)) := by
  induction n generalizing e with
  | zero => exact strips_unexpected _
  | succ n ih =>
    refine (strips_accept rfl).bind fun b => ?_
    cases b with
    | true =>
      refine strips_identifier.bind fun name => strips_previousSpan.bind fun stop => ?_
      rw [Expr.span_strip]
      exact ih (.selector (e.span.merge stop) e name.node)
    | false =>
      refine (strips_accept rfl).bind fun b => ?_
      cases b with
      | true =>
        refine (strips_commaList _ h n).bind fun args => (strips_expect rfl _).bind fun _ =>
          strips_previousSpan.bind fun stop => ?_
        rw [Expr.span_strip, ← Expr.stripList_eq]
        exact ih (.call (e.span.merge stop) e args)
      | false => exact strips_pure rfl

theorem strips_unaries (h : Strips g (Expr.strip g) expr expr) (n : Nat) :
    Strips g (Expr.strip g) (unaries expr out n) (unaries expr out n) := by
  induction n with
  | zero => exact strips_unexpected _
  | succ n ih =>
    refine strips_currentSpan.bind fun start => strips_peek.cases (fun t _ => ?_) fun s => h
    dsimp only
    split
    · refine strips_advance.bind fun _ => ih.bind fun e => strips_pure ?_
      rw [Expr.span_strip]
      rfl
    · exact h

theorem strips_climb {operand : Nat → Parser Expr}
    (h : ∀ least, Strips g (Expr.strip g) (operand least) (operand least)) (least n : Nat)
    (e : Expr) :
    Strips g (Expr.strip g) (climb operand least out n e)
      (climb operand least out n (e.strip g)) := by
  induction n generalizing e with
  | zero => exact strips_unexpected _
  | succ n ih =>
    refine strips_peek.cases (fun t _ => ?_) fun s => strips_pure rfl
    dsimp only
    split
    · rename_i op _
      split
      · exact strips_pure rfl
      · refine strips_advance.bind fun _ => (h _).bind fun right => ?_
        rw [Expr.span_strip, Expr.span_strip]
        exact ih (.binary (e.span.merge right.span) op e right)
    · exact strips_pure rfl

theorem strips_exprWithin (n least : Nat) :
    Strips g (Expr.strip g) (exprWithin out n least) (exprWithin out n least) := by
  induction n generalizing least with
  | zero => exact strips_unexpected _
  | succ n ih =>
    have hoperand : Strips g (Expr.strip g)
        (primary (exprWithin out n 1) >>= postfixes (exprWithin out n 1) out n)
        (primary (exprWithin out n 1) >>= postfixes (exprWithin out n 1) out n) :=
      (strips_primary (ih 1)).bind fun e => strips_postfixes (ih 1) n e
    exact (strips_unaries hoperand (n + 1)).bind fun e => strips_climb ih least n e

theorem strips_expression : Strips g (Expr.strip g) expression expression :=
  strips_bounded fun _ n => strips_exprWithin n 1

theorem strips_expressionList :
    Strips g (List.map (Expr.strip g)) expressionList expressionList :=
  strips_bounded fun _ n => strips_commaSeparated strips_expression n

theorem strips_identifiers : Strips g (List.map (Spanned.strip id)) identifiers identifiers :=
  strips_bounded fun _ n => strips_commaSeparated strips_identifier n

theorem strips_endOfDecl (what : String) : Same g (endOfDecl what) := by
  refine (strips_accept rfl).bind fun b => ?_
  cases b with
  | true => exact strips_pure rfl
  | false =>
    refine strips_atEnd.bind fun b => ?_
    cases b with
    | true => exact strips_pure rfl
    | false => exact strips_unexpected _

theorem strips_packageClause : Strips g (Spanned.strip id) packageClause packageClause := by
  refine (strips_expect rfl _).bind fun _ => strips_identifier.bind fun name => ?_
  have hrest : Strips g (Spanned.strip id)
      (endOfDecl "';' after package clause" >>= fun _ => pure name)
      (endOfDecl "';' after package clause" >>= fun _ => pure (name.strip id)) :=
    (strips_endOfDecl _).bind fun _ => strips_pure rfl
  by_cases hblank : name.node = blankName
  · have hblank' : (name.strip id).node = blankName := hblank
    rw [if_pos hblank, if_pos hblank']
    exact strips_fail_bind _ _
  · have hblank' : (name.strip id).node ≠ blankName := hblank
    rw [if_neg hblank, if_neg hblank']
    exact hrest

theorem strips_importName : Same g importName := by
  refine strips_peek.cases (fun t _ => ?_) fun s => strips_pure rfl
  split
  · exact strips_advance.bind fun _ => strips_pure rfl
  · exact strips_advance.bind fun _ => strips_pure rfl
  · exact strips_pure rfl

theorem strips_importSpec : Strips g (ImportSpec.strip g) importSpec importSpec := by
  refine strips_importName.bind fun name => strips_peek.cases (fun t ht => ?_) fun s =>
    strips_advance.bind fun _ => strips_pure rfl
  split
  · cases ht
  · exact strips_unexpected _

theorem strips_importDecl : Strips g (List.map (ImportSpec.strip g)) importDecl importDecl :=
  (strips_expect rfl _).bind fun _ => (strips_group _ _ fun _ => strips_importSpec).bind
    fun _ => (strips_endOfDecl _).bind fun _ => strips_pure rfl

theorem strips_constTail :
    Strips g (Prod.map (Option.map (Spanned.strip id)) (List.map (Expr.strip g)))
      constTail constTail := by
  have htype : Strips g (Option.map (Spanned.strip id)) (some <$> spanned typeExpr)
      (some <$> spanned typeExpr) := (strips_spanned strips_typeExpr).map fun _ => rfl
  refine strips_peek.cases (fun t _ => ?_) fun s => htype.bind fun type => ?_
  · split
    · exact strips_pure rfl
    · exact strips_pure rfl
    · exact strips_pure rfl
    · exact Strips.ite_bind (strips_pure rfl) htype fun type => (strips_expect rfl _).bind fun _ =>
        strips_expressionList.bind fun _ => strips_pure rfl
  · exact (strips_expect rfl _).bind fun _ => strips_expressionList.bind fun _ => strips_pure rfl

theorem constArity?_strip (h : constArity? iota names values = some cause) :
    cause.strip g = cause := by
  unfold constArity? at h
  split at h
  · split at h <;> cases h
    rfl
  · split at h
    · cases h
      rfl
    · split at h <;> cases h
      rfl

theorem strips_constSpec (iota : Nat) :
    Strips g (Spanned.strip (ConstSpec.strip g)) (constSpec iota) (constSpec iota) := by
  refine strips_currentSpan.bind fun start => strips_identifiers.bind fun names =>
    strips_constTail.bind fun tail => strips_previousSpan.bind fun stop => ?_
  obtain ⟨type, values⟩ := tail
  dsimp only [Prod.map]
  rw [List.length_map, List.length_map]
  split
  · rename_i cause hcause
    have hfail := strips_fail (g := g) (f := Spanned.strip (ConstSpec.strip g)) cause
      (start.merge stop)
    rw [constArity?_strip hcause] at hfail
    exact hfail
  · exact strips_pure rfl

theorem strips_constDecl : Strips g (ConstDecl.strip g) constDecl constDecl :=
  (strips_expect rfl _).bind fun _ => (strips_group _ _ strips_constSpec).bind fun _ =>
    strips_pure rfl

theorem strips_varSpec : Strips g (List.map (Spanned.strip id)) varSpec varSpec :=
  strips_identifiers.bind fun _ => (strips_bounded fun _ => strips_skipValues).bind fun _ =>
    strips_pure rfl

theorem strips_varDecl : Strips g (List.map (Spanned.strip id)) varDecl varDecl :=
  (strips_expect rfl _).bind fun _ => (strips_group _ _ fun _ => strips_varSpec).bind
    fun _ => strips_pure List.map_flatten

theorem beginsTypeParams_strip (k l : TokenKind) :
    beginsTypeParams (k.strip g) (l.strip g) = beginsTypeParams k l := by
  unfold beginsTypeParams
  rw [isIdent_strip]
  cases l <;> rfl

theorem strips_typeSpec : Strips g (Spanned.strip TypeSpec.strip) typeSpec typeSpec := by
  refine strips_spanned ?_
  refine strips_identifier.bind fun name => (strips_isNext rfl).bind fun b =>
    (strips_peekAt 1).bind fun k => (strips_peekAt 2).bind fun l => ?_
  rw [beginsTypeParams_strip]
  exact strips_skipBalanced.when ((strips_accept rfl).bind fun _ =>
    (strips_spanned strips_typeExpr).bind fun _ => strips_pure rfl)

theorem strips_typeDecl : Strips g (List.map (Spanned.strip TypeSpec.strip)) typeDecl typeDecl :=
  (strips_expect rfl _).bind fun _ => (strips_group _ _ fun _ => strips_typeSpec).bind
    fun _ => strips_pure rfl

theorem strips_receiverName : Same g receiverName := by
  have hnone : Same g (pure none : Parser (Option String)) := strips_pure rfl
  refine strips_peek.cases (fun t _ => ?_) fun s => (strips_peekAt 1).bind fun _ => hnone
  refine (strips_peekAt 1).cases (fun u _ => ?_) fun s => ?_
  · split
    · exact strips_advance.bind fun _ => strips_pure rfl
    · exact strips_advance.bind fun _ => strips_pure rfl
    · exact strips_advance.bind fun _ => strips_pure rfl
    · exact hnone
  · cases t <;> exact hnone

theorem strips_receiver : Strips g Receiver.strip receiver receiver := by
  have hcomma : Same g (discard (accept Punctuation.comma)) := (strips_accept rfl).map fun _ => rfl
  exact (strips_expect rfl _).bind fun _ => strips_receiverName.bind fun _ =>
    (strips_spanned strips_typeExpr).bind fun _ => hcomma.bind fun _ =>
      (strips_expect rfl _).bind fun _ => strips_pure rfl

theorem strips_funcDecl : Strips g FuncDecl.strip funcDecl funcDecl := by
  have hreceiver : Strips g (Option.map Receiver.strip) (some <$> receiver) (some <$> receiver) :=
    strips_receiver.map fun _ => rfl
  refine (strips_expect rfl _).bind fun _ => (strips_isNext rfl).bind fun b => ?_
  refine hreceiver.ite_bind (strips_pure rfl) fun r => strips_identifier.bind fun name =>
    (strips_isNext rfl).bind fun b => strips_skipBalanced.when ?_
  exact strips_signature.bind fun s => (strips_isNext rfl).bind fun b =>
    strips_skipBalanced.when (strips_pure rfl)

theorem strips_declaration :
    Strips g (Spanned.strip (Decl.strip g)) declaration declaration := by
  refine (strips_spanned (strips_peek.cases (fun t _ => ?_) fun s => strips_unexpected _)).bind
    fun _ => (strips_endOfDecl _).bind fun _ => strips_pure rfl
  split
  · exact strips_constDecl.bind fun _ => strips_pure rfl
  · exact strips_varDecl.bind fun _ => strips_pure rfl
  · exact strips_typeDecl.bind fun _ => strips_pure rfl
  · exact strips_funcDecl.bind fun _ => strips_pure rfl
  · exact strips_currentSpan.bind fun s => strips_fail _ s
  · exact strips_unexpected _

end

section

variable (g : String → String)

def Harvest.strip (f : α → β) (h : Harvest α) : Harvest β :=
  ⟨h.items.map f, h.errors.map (SyntaxError.strip g), h.cursor.strip g⟩

theorem harvest_strip {more : Cursor → Bool} (hmore : ∀ c, more (c.strip g) = more c)
    {f : α → β} {p : Parser α} {q : Parser β} (h : Strips g f p q) (n : Nat) (c : Cursor) :
    harvest more q n (c.strip g) = (harvest more p n c).strip g f := by
  induction n generalizing c with
  | zero => rfl
  | succ n ih =>
    rw [harvest, harvest, hmore, h c]
    split
    · cases p c with
      | ok x c =>
        dsimp only [stripResult]
        rw [c.skipSemicolons_strip g, ih]
        rfl
      | error e c =>
        dsimp only [stripResult]
        rw [c.synchronize_strip g, Cursor.skipSemicolons_strip, ih]
        rfl
    · rfl

/-- Parsing commutes with stripping. -/
theorem parse_strip (ts : List Token) : parse (ts.map (Spanned.strip (TokenKind.strip g))) =
    (File.strip g <$> parse ts).mapError (List.map (SyntaxError.strip g)) := by
  unfold parse
  rw [List.isEmpty_map, List.length_map, Cursor.start_strip, Cursor.skipSemicolons_strip,
    strips_packageClause]
  split
  · rfl
  · cases packageClause (Cursor.start ts).skipSemicolons with
    | error e c => rfl
    | ok package c =>
      have himports : ∀ c : Cursor, ((c.strip g).kind == .keyword .import) =
          (c.kind == .keyword .import) := by
        intro c
        rw [c.kind_strip g, TokenKind.strip_beq g rfl]
      have hdecls : ∀ c : Cursor, (!(c.strip g).atEnd) = !c.atEnd := by
        intro c
        rw [c.atEnd_strip g]
      dsimp only [stripResult]
      rw [c.skipSemicolons_strip g, harvest_strip g himports strips_importDecl]
      dsimp only [Harvest.strip]
      rw [harvest_strip g hdecls strips_declaration]
      generalize
        harvest (·.kind == .keyword .import) importDecl ts.length c.skipSemicolons = imports
      generalize harvest (!·.atEnd) declaration ts.length imports.cursor = decls
      dsimp only [Harvest.strip]
      rw [← List.map_append, ← List.map_flatten]
      cases imports.errors ++ decls.errors with
      | nil => rfl
      | cons e es => rfl

theorem parse_of_strip_eq {ts us : List Token} (hsame : us.map (Spanned.strip (TokenKind.strip g)) =
    ts.map (Spanned.strip (TokenKind.strip g))) (h : parse ts = .ok file) :
    ∃ file', parse us = .ok file' ∧ file'.strip g = file.strip g := by
  have hparse := parse_strip g us
  rw [hsame, parse_strip, h] at hparse
  cases hus : parse us with
  | ok file' =>
    rw [hus] at hparse
    exact ⟨file', rfl, (Except.ok.inj hparse).symm⟩
  | error es =>
    rw [hus] at hparse
    cases hparse

end

end GoEnum.Parse
