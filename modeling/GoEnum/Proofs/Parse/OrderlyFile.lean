import GoEnum.Parse.File
import GoEnum.Proofs.Parse.Orderly

namespace GoEnum.Parse

open Token Syntax

section

variable {opens : TokenKind → Bool} {K : TokenKind → Prop}
  (ho : ∀ k, opens k = true → opensHole k = true)

include ho

section

variable {expr : Parser Expr} (hexpr : OrderlyAnywhere opens expr)

include hexpr

theorem passes_primary : Passes opens (fun _ => True) (primary expr) := by
  have hafter : ∀ {k : TokenKind} {p : Parser Expr}, opensHole k = false → k ≠ .eof →
      OrderlyAnywhere opens p → Passes opens (· = k) (do advance; p) :=
    fun hk hend hp => passes_advance_bind (opens_eq_false ho hk) hend hp
  have htype : ∀ {K : TokenKind → Prop} (start : Span), Passes opens K (do
      let type ← typeExpr
      return Expr.type (start.merge (← previousSpan)) type) := fun start =>
    .here ((passes_typeExpr ho).bind fun _ => .bind .previousSpan fun _ => .pure _)
  refine .currentSpan fun start => .peek fun k => ?_
  cases k with
  | int | float | imaginary | rune | string | ident => exact hafter rfl (by simp) (.pure _)
  | operator | eof => exact passes_unexpected _
  | punctuation p =>
    cases p with
    | lparen =>
      exact hafter rfl (by simp) (hexpr.bind fun _ =>
        (orderly_expect (opens_eq_false ho rfl) _).bind fun _ =>
          .bind .previousSpan fun _ => .pure _)
    | lbracket => exact htype start
    | _ => exact passes_unexpected _
  | keyword w =>
    cases w with
    | map | chan | func | struct | interface => exact htype start
    | _ => exact passes_unexpected _

theorem orderly_postfixes (n : Nat) (e : Expr) :
    OrderlyAnywhere opens (postfixes expr out n e) := by
  induction n generalizing e with
  | zero => exact orderly_unexpected _
  | succ n ih =>
    refine (orderly_accept (opens_eq_false ho rfl)).bind fun b => .ite ?_ ?_
    · exact (orderly_identifier ho).bind fun _ => .bind .previousSpan fun _ => ih _
    · refine (orderly_accept (opens_eq_false ho rfl)).bind fun b => .ite ?_ (.pure _)
      exact (orderly_commaList ho _ hexpr n).bind fun args =>
        (orderly_expect (opens_eq_false ho rfl) _).bind fun _ => .bind .previousSpan fun _ => ih _

theorem passes_operand (n : Nat) :
    Passes opens (fun _ => True) (do postfixes expr out n (← primary expr)) :=
  (passes_primary ho hexpr).bind fun e => orderly_postfixes ho hexpr n e

end

theorem orderly_operator {q : Parser α} (hq : OrderlyAnywhere opens q) (o : Operator) :
    Orderly opens (· = .operator o) (do advance; q) :=
  orderly_advance_bind (opens_eq_false ho rfl) hq

theorem passes_unaries {operand : Parser Expr} (hoperand : Passes opens (fun _ => True) operand)
    (n : Nat) : Passes opens (fun _ => True) (unaries operand out n) := by
  induction n with
  | zero => exact passes_unexpected _
  | succ n ih =>
    refine .currentSpan fun start => .peek fun k => ?_
    split
    · dsimp only
      split
      · exact passes_advance_bind (opens_eq_false ho rfl) (by simp)
          (ih.orderly.bind fun _ => .pure _)
      · exact hoperand.here
    · exact hoperand.here

theorem orderly_climb {operand : Nat → Parser Expr} {least : Nat}
    (hoperand : ∀ l, OrderlyAnywhere opens (operand l)) (n : Nat) (e : Expr) :
    OrderlyAnywhere opens (climb operand least out n e) := by
  induction n generalizing e with
  | zero => exact orderly_unexpected _
  | succ n ih =>
    refine .peek fun k _ => ?_
    split
    · dsimp only
      split
      · exact .ite (.pure _) (orderly_operator ho ((hoperand _).bind fun _ => ih _) _)
      · exact .pure _
    · exact .pure _

theorem orderly_exprWithin (n least : Nat) : OrderlyAnywhere opens (exprWithin out n least) := by
  induction n generalizing least with
  | zero => exact orderly_unexpected _
  | succ n ih =>
    exact (passes_unaries ho (passes_operand ho (ih 1) n) (n + 1)).orderly.bind fun e =>
      orderly_climb ho ih n e

end

section

variable {N n m : Nat} {opens : TokenKind → Bool}
  (ho : ∀ k, opens k = true → opensHole k = true)

theorem agrees_primary {expr expr' : Parser Expr} (hexpr : Agrees N expr expr') :
    Agrees (N + 1) (primary expr) (primary expr') := by
  refine (agrees_refl _).bind moves_currentSpan fun start => Agrees.peek_bind fun c hc => ?_
  generalize hk : c.kind = k
  cases k with
  | punctuation p =>
    cases p with
    | lparen => exact advance_bind_eq (hexpr.before _) (by simp [hk]) hc
    | _ => rfl
  | keyword w => cases w <;> rfl
  | _ => rfl

include ho

theorem agrees_postfixes {expr expr' : Parser Expr} (hexpr : Agrees N expr expr')
    (horderly : OrderlyAnywhere opens expr) (e : Expr) (hn : N ≤ n) (hm : N ≤ m) :
    Agrees N (postfixes expr out n e) (postfixes expr' out' m e) := by
  induction N generalizing n m e with
  | zero => exact agrees_zero
  | succ N ih =>
    obtain _ | n := n
    · cases hn
    obtain _ | m := m
    · cases hm
    have hn := Nat.le_of_succ_le_succ hn
    have hm := Nat.le_of_succ_le_succ hm
    have hexpr := hexpr.mono (Nat.le_succ N)
    have ih := fun e => ih hexpr e hn hm
    refine Agrees.accept_bind (by simp) ?_ ?_
    · exact (agrees_refl _).bind (orderly_identifier ho).moves fun _ =>
        (agrees_refl _).bind (fun _ => Nat.le_refl _) fun _ => ih _
    · refine Agrees.accept_bind (by simp) ?_ (agrees_refl _)
      exact (agrees_commaList _ horderly.moves hexpr hn hm).bind
        (orderly_commaList ho _ horderly n).moves fun args =>
          (agrees_refl _).bind (moves_expect _ _) fun _ =>
            (agrees_refl _).bind (fun _ => Nat.le_refl _) fun _ => ih _

omit ho

theorem agrees_unaries {operand operand' : Parser Expr} (hoperand : Agrees N operand operand')
    (hn : N ≤ n) (hm : N ≤ m) :
    Agrees N (unaries operand out n) (unaries operand' out' m) := by
  induction N generalizing n m with
  | zero => exact agrees_zero
  | succ N ih =>
    obtain _ | n := n
    · cases hn
    obtain _ | m := m
    · cases hm
    have ih := ih (hoperand.mono (Nat.le_succ _)) (Nat.le_of_succ_le_succ hn)
      (Nat.le_of_succ_le_succ hm)
    refine (agrees_refl _).bind moves_currentSpan fun start => Agrees.peek_bind fun c hc => ?_
    generalize hk : c.kind = k
    split
    · rename_i o
      cases UnaryOp.ofOperator? o with
      | none => exact hoperand c hc
      | some op => exact advance_bind_eq (ih.before _) (by simp [hk]) hc
    · exact hoperand c hc

theorem agrees_climb {operand operand' : Nat → Parser Expr} {least : Nat}
    (hoperand : ∀ l, Agrees N (operand l) (operand' l)) (hmoves : ∀ l, Moves (operand l))
    (e : Expr) (hn : N ≤ n) (hm : N ≤ m) :
    Agrees N (climb operand least out n e) (climb operand' least out' m e) := by
  induction N generalizing n m e with
  | zero => exact agrees_zero
  | succ N ih =>
    obtain _ | n := n
    · cases hn
    obtain _ | m := m
    · cases hm
    have ih := fun e => ih (fun l => (hoperand l).mono (Nat.le_succ N)) e
      (Nat.le_of_succ_le_succ hn) (Nat.le_of_succ_le_succ hm)
    refine Agrees.peek_bind fun c hc => ?_
    generalize hk : c.kind = k
    split
    · rename_i o
      cases BinaryOp.ofOperator? o with
      | none => rfl
      | some op =>
        dsimp only
        split
        · rfl
        · exact advance_bind_eq (((hoperand _).mono (Nat.le_succ N)).bind (hmoves _)
            fun _ => ih _) (by simp [hk]) hc
    · rfl

theorem agrees_exprWithin (least : Nat) (hn : N ≤ n) (hm : N ≤ m) :
    Agrees N (exprWithin out n least) (exprWithin out' m least) := by
  induction N generalizing n m least with
  | zero => exact agrees_zero
  | succ N ih =>
    obtain _ | n := n
    · cases hn
    obtain _ | m := m
    · cases hm
    have hn := Nat.le_of_succ_le_succ hn
    have hm := Nat.le_of_succ_le_succ hm
    have ih := fun least => ih least hn hm
    have ho := opensHole_of_opensNone
    have horderly : ∀ least, OrderlyAnywhere _ (exprWithin out n least) := orderly_exprWithin ho n
    have hoperand : Agrees (N + 1)
        (do postfixes (exprWithin out n 1) out n (← primary (exprWithin out n 1)))
        (do postfixes (exprWithin out' m 1) out' m (← primary (exprWithin out' m 1))) :=
      (agrees_primary (ih 1)).bind_shrinks (passes_primary ho (horderly 1)).anywhere fun e =>
        agrees_postfixes ho (ih 1) (horderly 1) e hn hm
    refine (agrees_unaries hoperand (Nat.succ_le_succ hn) (Nat.succ_le_succ hm)).bind_shrinks
      ?_ fun e => agrees_climb ih (fun l => (horderly l).moves) e hn hm
    exact (passes_unaries ho (passes_operand ho (horderly 1) n) (n + 1)).anywhere

end

section

variable {opens : TokenKind → Bool} {K : TokenKind → Prop}
  (ho : ∀ k, opens k = true → opensHole k = true)

include ho

theorem orderly_expression : OrderlyAnywhere opens expression :=
  .bounded (settles_of_agrees fun _ _ _ _ _ => agrees_exprWithin 1) fun _ n =>
    orderly_exprWithin ho n 1

theorem orderly_expressionList : OrderlyAnywhere opens expressionList :=
  orderly_commaSeparatedAll ho (orderly_expression ho)

theorem passes_identifiers : Passes opens (fun _ => True) identifiers := by
  refine ⟨orderly_commaSeparatedAll ho (orderly_identifier ho), fun c xs d _ h => ?_⟩
  exact shrinks_commaSeparated shrinks_identifier (orderly_identifier ho).moves _ c xs d h

theorem orderly_endOfDecl (what : String) : OrderlyAnywhere opens (endOfDecl what) :=
  (orderly_accept (opens_eq_false ho rfl)).bind fun _ => .ite (.pure _)
    (orderly_atEnd.bind fun _ => .ite (orderly_unexpected _) (.pure _))

theorem orderly_packageClause : OrderlyAnywhere opens packageClause :=
  (orderly_expect (opens_eq_false ho rfl) _).bind fun _ => (orderly_identifier ho).bind fun _ =>
    .when (.fail _ _) ((orderly_endOfDecl ho _).bind fun _ => .pure _)

theorem orderly_importName : OrderlyAnywhere opens importName := by
  refine .peek fun k _ => ?_
  split
  · exact orderly_advance_bind (opens_eq_false ho rfl) (.pure _)
  · exact orderly_advance_bind (opens_eq_false ho rfl) (.pure _)
  · exact .pure _

theorem passes_importSpec : Passes opens (fun _ => True) importSpec := by
  refine .after (orderly_importName ho) fun name => .peek fun k => ?_
  split
  · exact passes_advance_bind (opens_eq_false ho rfl) (by simp) (.pure _)
  · exact passes_unexpected _

theorem passes_importDecl : Passes opens (fun _ => True) importDecl :=
  (passes_expect (opens_eq_false ho rfl) (by simp) _).bind fun _ =>
    (orderly_group ho _ _ fun _ => passes_importSpec ho).bind fun _ =>
      (orderly_endOfDecl ho _).bind fun _ => .pure _

theorem orderly_constTail : OrderlyAnywhere opens constTail := by
  refine .peek fun k _ => .here ?_
  split
  · exact .pure _
  · exact .pure _
  · exact .pure _
  · exact .ite_bind (.pure _) (orderly_spanned (passes_typeExpr ho).orderly).map fun _ =>
      (orderly_expect (opens_eq_false ho rfl) _).bind fun _ =>
        (orderly_expressionList ho).bind fun _ => .pure _

theorem passes_constSpec (iota : Nat) : Passes opens (fun _ => True) (constSpec iota) := by
  refine .currentSpan fun start => (passes_identifiers ho).bind fun names => ?_
  refine (orderly_constTail ho).bind fun tail => .bind .previousSpan fun prev => ?_
  dsimp only
  split
  · exact .fail _ _
  · exact .pure _

theorem passes_constDecl : Passes opens (fun _ => True) constDecl :=
  (passes_expect (opens_eq_false ho rfl) (by simp) _).bind fun _ =>
    (orderly_group ho _ _ (passes_constSpec ho)).bind fun _ => .pure _

theorem passes_varSpec : Passes opens (fun _ => True) varSpec :=
  (passes_identifiers ho).bind fun _ => .bind .skipValues fun _ => .pure _

theorem passes_typeSpec : Passes opens (fun _ => True) typeSpec := by
  refine passes_spanned ((passes_identifier ho).bind fun name => ?_)
  refine orderly_nextAndTwo (f := fun b k₁ k₂ => do
    let isGeneric := b && beginsTypeParams k₁ k₂
    if isGeneric then skipBalanced
    let isAlias ← accept Operator.assign
    return (⟨name, isAlias, isGeneric, ← spanned typeExpr⟩ : TypeSpec)) (fun k k₁ k₂ => ?_)
    (opens_eq_false ho rfl) (fun _ _ _ _ => rfl) fun b k₁ k₂ l₂ hk => ?_
  · exact .when .skipBalanced ((orderly_accept (opens_eq_false ho rfl)).bind fun _ =>
      (orderly_spanned (passes_typeExpr ho).orderly).bind fun _ => .pure _)
  · have hname : ∀ k, beginsTypeParams k₁ k = false := by
      obtain rfl | rfl := cases_opens ho hk <;> exact fun k => rfl
    simp only [hname]

theorem passes_typeDecl : Passes opens (fun _ => True) typeDecl :=
  (passes_expect (opens_eq_false ho rfl) (by simp) _).bind fun _ =>
    (orderly_group ho _ _ fun _ => passes_typeSpec ho).bind fun _ => .pure _

theorem orderly_receiverName : OrderlyAnywhere opens receiverName := by
  refine .peekOne (fun k k₁ _ => ?_) fun k k₁ l₁ hk => ?_
  · split
    · exact orderly_advance_bind (opens_eq_false ho rfl) (.pure _)
    · exact orderly_advance_bind (opens_eq_false ho rfl) (.pure _)
    · exact orderly_advance_bind (opens_eq_false ho rfl) (.pure _)
    · exact .pure _
  · obtain rfl | rfl := cases_opens ho hk <;> rfl

theorem orderly_receiver : OrderlyAnywhere opens receiver :=
  (orderly_expect (opens_eq_false ho rfl) _).bind fun _ => (orderly_receiverName ho).bind fun _ =>
    (orderly_spanned (passes_typeExpr ho).orderly).bind fun _ =>
      (orderly_accept (opens_eq_false ho rfl)).map.bind fun _ =>
        (orderly_expect (opens_eq_false ho rfl) _).bind fun _ => .pure _

theorem passes_funcDecl : Passes opens (fun _ => True) funcDecl := by
  refine (passes_expect (opens_eq_false ho rfl) (by simp) _).bind fun _ => ?_
  refine (orderly_isNext _).bind fun _ => .ite_bind (orderly_receiver ho).map (.pure _) fun _ => ?_
  refine (orderly_identifier ho).bind fun _ => (orderly_isNext _).bind fun _ => ?_
  refine .when .skipBalanced ((orderly_signature ho).bind fun _ => ?_)
  exact (orderly_isNext _).bind fun _ => .when .skipBalanced (.pure _)

section

variable (hvar : opens (.keyword .var) = false)

include hvar

theorem passes_varDecl : Passes opens (fun _ => True) varDecl :=
  (passes_expect hvar (by simp) _).bind fun _ =>
    (orderly_group ho _ _ fun _ => passes_varSpec ho).bind fun _ => .pure _

theorem passes_declared : Passes opens (fun _ => True) (do
    match ← peek with
    | .keyword .const => return Decl.const (← constDecl)
    | .keyword .var => return .var (← varDecl)
    | .keyword .type => return .type (← typeDecl)
    | .keyword .func => return .func (← funcDecl)
    | .keyword .import => fail .lateImport (← currentSpan)
    | _ => unexpected "declaration") := by
  refine .peek fun k => ?_
  split
  · exact .here ((passes_constDecl ho).bind fun _ => .pure _)
  · exact .here ((passes_varDecl ho hvar).bind fun _ => .pure _)
  · exact .here ((passes_typeDecl ho).bind fun _ => .pure _)
  · exact .here ((passes_funcDecl ho).bind fun _ => .pure _)
  · exact .currentSpan fun _ => passes_fail _ _
  · exact passes_unexpected _

theorem passes_declaration : Passes opens (fun _ => True) declaration :=
  (passes_spanned (passes_declared ho hvar)).bind fun _ =>
    (orderly_endOfDecl ho _).bind fun _ => .pure _

end

end

end GoEnum.Parse
