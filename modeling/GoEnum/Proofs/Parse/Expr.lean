import GoEnum.Parse.Expr
import GoEnum.Proofs.Parse.Type

namespace GoEnum.Parse

open Token Syntax

def Loose (least : Nat) (ks : List TokenKind) : Prop :=
  ∀ op : BinaryOp, next ks = .operator op.operator → op.precedence < least

theorem ofOperator?_unary (h : UnaryOp.ofOperator? o = some op) : o = op.operator := by
  cases o <;> cases h <;> rfl

theorem ofOperator?_binary (h : BinaryOp.ofOperator? o = some op) : o = op.operator := by
  cases o <;> cases h <;> rfl

theorem binaryOperator_injective (op op' : BinaryOp) (h : op.operator = op'.operator) :
    op = op' := by
  have hop := BinaryOp.ofOperator?_operator op
  rw [h, BinaryOp.ofOperator?_operator] at hop
  exact (Option.some.inj hop).symm

theorem loose_of_ne (h : ∀ o, next ks ≠ .operator o) : Loose least ks :=
  fun _ hop => absurd hop (h _)

theorem Loose.mono (h : Loose least ks) (hle : least ≤ more) : Loose more ks :=
  fun op hop => Nat.lt_of_lt_of_le (h op hop) hle

section

variable {expr operand : Parser Expr} {c d c' : Cursor}

def SpelledBy (e : Expr) (c c' : Cursor) : Prop :=
  ∃ ks, c.kinds = ks ++ c'.kinds ∧ e.Spells ks ∧ e.Grouped

theorem SpelledBy.shorter (h : SpelledBy e c c') : c'.kinds.length < c.kinds.length := by
  obtain ⟨ks, hks, hspells, -⟩ := h
  have := List.length_pos_iff.2 hspells.ne_nil
  rw [hks, List.length_append]
  omega

theorem typeOperand_ok {start : Span} (h : (do
      let type ← typeExpr
      return Expr.type (start.merge (← previousSpan)) type : Parser Expr) c = .ok e c') :
    SpelledBy e c c' ∧ e.level = 7 := by
  obtain ⟨t, d, ht, h⟩ := bind_ok.1 h
  obtain ⟨ks, hne, hks⟩ := typeExpr_ok ht
  cases h
  exact ⟨⟨ks, hks, .type hne, .type⟩, rfl⟩

theorem primary_ok
    (hexpr : ∀ c e c', c.kinds.length ≤ n → expr c = .ok e c' → SpelledBy e c c')
    (h : primary expr c = .ok e c') (hn : c.kinds.length ≤ n + 1) :
    SpelledBy e c c' ∧ e.level = 7 := by
  obtain ⟨start, _, ⟨⟩, h⟩ := bind_ok.1 h
  obtain ⟨k, _, hk, h⟩ := bind_ok.1 h
  obtain ⟨hkind, rfl⟩ := peek_ok.1 hk
  have hks : k ≠ .eof → c.kinds = k :: c.advance.kinds := by
    rintro hne
    rw [← hkind] at hne ⊢
    exact c.kinds_of_kind hne
  cases k with
  | int | float | imaginary | rune | string =>
    cases h
    exact ⟨⟨_, hks (by simp), .literal, .literal⟩, rfl⟩
  | ident name =>
    cases h
    exact ⟨⟨_, hks (by simp), .ident, .ident⟩, rfl⟩
  | punctuation mark =>
    cases mark with
    | lparen =>
      obtain ⟨_, d, hd, h⟩ := bind_ok.1 h
      obtain rfl := advance_ok.1 hd
      obtain ⟨inner, d, hinner, h⟩ := bind_ok.1 h
      obtain ⟨_, d', hclose, h⟩ := bind_ok.1 h
      have hopen := hks (by simp)
      rw [hopen, List.length_cons] at hn
      obtain ⟨ks, hinner, hspells, hgrouped⟩ := hexpr _ _ _ (by omega) hinner
      have hclose := expect_ok (by simp) hclose
      cases h
      refine ⟨⟨_, ?_, .paren hspells, .paren hgrouped⟩, rfl⟩
      rw [hopen, hinner, hclose]
      simp
    | lbracket => exact typeOperand_ok h
    | _ => exact absurd h (unexpected_ne_ok _)
  | keyword word =>
    cases word with
    | map | chan | func | struct | interface => exact typeOperand_ok h
    | _ => exact absurd h (unexpected_ne_ok _)
  | operator op => exact absurd h (unexpected_ne_ok _)
  | eof => exact absurd h (unexpected_ne_ok _)

theorem commaList_ok
    (hexpr : ∀ c e c', c.kinds.length ≤ n → expr c = .ok e c' → SpelledBy e c c')
    (h : commaList closer expr out m c = .ok es c') (hn : c.kinds.length ≤ n) :
    ∃ ks, c.kinds = ks ++ c'.kinds ∧ Expr.SpellsArgs es ks ∧ ∀ e ∈ es, e.Grouped := by
  induction m generalizing c es c' with
  | zero => exact absurd h (unexpected_ne_ok _)
  | succ m ih =>
    obtain ⟨b, d, ⟨⟩, h⟩ := bind_ok.1 h
    split at h
    · cases h
      exact ⟨[], rfl, .none, by simp⟩
    · obtain ⟨e, d, he, h⟩ := bind_ok.1 h
      have hspelled := hexpr _ _ _ hn he
      have hshorter := hspelled.shorter
      obtain ⟨ks, hks, hspells, hgrouped⟩ := hspelled
      obtain ⟨d', hcomma, h⟩ | ⟨-, h⟩ := accept_bind_ok (by simp) h
      · obtain ⟨es, d'', hes, h⟩ := bind_ok.1 h
        rw [hcomma, List.length_cons] at hshorter
        obtain ⟨ls, hls, hargs, hall⟩ := ih hes (by omega)
        cases h
        refine ⟨_, ?_, .comma hspells hargs, by simpa [hgrouped] using hall⟩
        rw [hks, hcomma, hls]
        simp
      · cases h
        exact ⟨ks, hks, .last hspells, by simpa using hgrouped⟩

theorem postfixes_ok
    (hexpr : ∀ c e c', c.kinds.length ≤ n → expr c = .ok e c' → SpelledBy e c c')
    (h : postfixes expr out m e d = .ok e' c') (he : SpelledBy e c d) (hlevel : e.level = 7)
    (hn : c.kinds.length ≤ n + 1) : SpelledBy e' c c' ∧ e'.level = 7 := by
  have hshorter := he.shorter
  induction m generalizing e d with
  | zero => exact absurd h (unexpected_ne_ok _)
  | succ m ih =>
    obtain ⟨ks, hks, hspells, hgrouped⟩ := he
    have hnext : ∀ e d', SpelledBy e c d' → e.level = 7 →
        postfixes expr out m e d' = .ok e' c' → SpelledBy e' c c' ∧ e'.level = 7 :=
      fun e d' he hlevel h => ih h he hlevel he.shorter
    obtain ⟨d', hdot, h⟩ | ⟨-, h⟩ := accept_bind_ok (by simp) h
    · obtain ⟨name, d'', hname, h⟩ := bind_ok.1 h
      refine hnext _ _ ⟨_, ?_, .selector hspells, .selector (by omega) hgrouped⟩ rfl h
      rw [hks, hdot, identifier_ok hname]
      simp
    · obtain ⟨d', hparen, h⟩ | ⟨-, h⟩ := accept_bind_ok (by simp) h
      · obtain ⟨args, d', hargs, h⟩ := bind_ok.1 h
        obtain ⟨_, d'', hclose, h⟩ := bind_ok.1 h
        rw [hparen, List.length_cons] at hshorter
        obtain ⟨ls, hls, hargs, hall⟩ := commaList_ok hexpr hargs (by omega)
        have hclose := expect_ok (by simp) hclose
        refine hnext _ _ ⟨_, ?_, .call hspells hargs, .call (by omega) hgrouped hall⟩ rfl h
        rw [hks, hparen, hls, hclose]
        simp
      · cases h
        exact ⟨⟨ks, hks, hspells, hgrouped⟩, hlevel⟩

theorem unaries_ok
    (hoperand : ∀ c e c', c.kinds.length ≤ n → operand c = .ok e c' →
      SpelledBy e c c' ∧ e.level = 7)
    (h : unaries operand out m c = .ok e c') (hn : c.kinds.length ≤ n) :
    SpelledBy e c c' ∧ 6 ≤ e.level := by
  have hplain : ∀ c e c', c.kinds.length ≤ n → operand c = .ok e c' →
      SpelledBy e c c' ∧ 6 ≤ e.level :=
    fun c e c' hn h => (hoperand c e c' hn h).imp_right fun hlevel => by omega
  induction m generalizing c e c' with
  | zero => exact absurd h (unexpected_ne_ok _)
  | succ m ih =>
    obtain ⟨start, _, ⟨⟩, h⟩ := bind_ok.1 h
    obtain ⟨k, _, hk, h⟩ := bind_ok.1 h
    obtain ⟨hkind, rfl⟩ := peek_ok.1 hk
    cases k with
    | operator o =>
      obtain hop | ⟨op, hop⟩ := Option.eq_none_or_eq_some (UnaryOp.ofOperator? o)
      · simp only [hop] at h
        exact hplain _ _ _ hn h
      · simp only [hop] at h
        obtain rfl := ofOperator?_unary hop
        obtain ⟨_, d, hd, h⟩ := bind_ok.1 h
        obtain rfl := advance_ok.1 hd
        obtain ⟨e, d, he, h⟩ := bind_ok.1 h
        have hopen := c.kinds_of_kind (by simp [hkind])
        rw [hopen, List.length_cons] at hn
        obtain ⟨⟨ks, hks, hspells, hgrouped⟩, hlevel⟩ := ih he (by omega)
        cases h
        refine ⟨⟨_, ?_, .unary hspells, .unary hlevel hgrouped⟩, Nat.le_refl 6⟩
        rw [hopen, hkind, hks]
        rfl
    | _ => exact hplain _ _ _ hn h

theorem climb_ok {operand : Nat → Parser Expr}
    (hoperand : ∀ least c e c', least ≤ 6 → c.kinds.length ≤ n → operand least c = .ok e c' →
      SpelledBy e c c' ∧ least ≤ e.level ∧ Loose least c'.kinds)
    (h : climb operand least out m left d = .ok e c') (hleft : SpelledBy left c d)
    (hlevel : least ≤ left.level) (hloose : Loose (left.level + 1) d.kinds)
    (hm : d.kinds.length ≤ m) (hn : d.kinds.length ≤ n + 1) :
    SpelledBy e c c' ∧ least ≤ e.level ∧ Loose least c'.kinds := by
  induction m generalizing left d with
  | zero => exact absurd h (unexpected_ne_ok _)
  | succ m ih =>
    obtain ⟨k, _, hk, h⟩ := bind_ok.1 h
    obtain ⟨hkind, rfl⟩ := peek_ok.1 hk
    rw [d.kind_eq] at hkind
    have hstop : (∀ op : BinaryOp, k = .operator op.operator → op.precedence < least) →
        SpelledBy left c d ∧ least ≤ left.level ∧ Loose least d.kinds :=
      fun h => ⟨hleft, hlevel, fun op hop => h op (hkind.symm.trans hop)⟩
    cases k with
    | operator o =>
      obtain hop | ⟨op, hop⟩ := Option.eq_none_or_eq_some (BinaryOp.ofOperator? o)
      · simp only [hop] at h
        cases h
        refine hstop fun op hop' => ?_
        rw [TokenKind.operator.injEq] at hop'
        rw [hop', BinaryOp.ofOperator?_operator] at hop
        cases hop
      · simp only [hop] at h
        obtain rfl := ofOperator?_binary hop
        split at h
        · rename_i hlt
          cases h
          refine hstop fun op' hop' => ?_
          rw [TokenKind.operator.injEq] at hop'
          rwa [← binaryOperator_injective _ _ hop']
        · rename_i hlt
          obtain ⟨_, d', hd, h⟩ := bind_ok.1 h
          obtain rfl := advance_ok.1 hd
          obtain ⟨right, d', hright, h⟩ := bind_ok.1 h
          have hks := d.kinds_of_kind (by simp [d.kind_eq, hkind])
          rw [d.kind_eq, hkind] at hks
          rw [hks, List.length_cons] at hm hn
          obtain ⟨hspelled, htight, hafter⟩ := hoperand _ _ _ _
            (Nat.succ_le_succ (Expr.precedence_le op)) (by omega) hright
          have hshorter := hspelled.shorter
          obtain ⟨rs, hrs, hrspells, hrgrouped⟩ := hspelled
          obtain ⟨ls, hls, hlspells, hlgrouped⟩ := hleft
          have hle : op.precedence ≤ left.level := Nat.le_of_lt_succ (hloose op hkind)
          refine ih h ⟨_, ?_, .binary hlspells hrspells, .binary hle htight hlgrouped hrgrouped⟩
            (Nat.le_of_not_lt hlt) hafter (by omega) (by omega)
          rw [hls, hks, hrs]
          simp
    | _ =>
      cases h
      exact hstop (by simp)

theorem exprWithin_ok (h : exprWithin out n least c = .ok e c') (hleast : least ≤ 6)
    (hn : c.kinds.length ≤ n) : SpelledBy e c c' ∧ least ≤ e.level ∧ Loose least c'.kinds := by
  induction n generalizing c least e c' with
  | zero => exact absurd h (unexpected_ne_ok _)
  | succ n ih =>
    have hexpr : ∀ c e c', c.kinds.length ≤ n → exprWithin out n 1 c = .ok e c' →
        SpelledBy e c c' := fun c e c' hn h => (ih h (by omega) hn).1
    have hoperand : ∀ c e c', c.kinds.length ≤ n + 1 →
        (do postfixes (exprWithin out n 1) out n (← primary (exprWithin out n 1))) c = .ok e c' →
        SpelledBy e c c' ∧ e.level = 7 := by
      intro c e c' hn h
      obtain ⟨first, d, hfirst, h⟩ := bind_ok.1 h
      obtain ⟨hspelled, hlevel⟩ := primary_ok hexpr hfirst hn
      exact postfixes_ok hexpr h hspelled hlevel hn
    obtain ⟨left, d, hleft, h⟩ := bind_ok.1 h
    obtain ⟨hspelled, hlevel⟩ := unaries_ok hoperand hleft hn
    have hshorter := hspelled.shorter
    have hloose : Loose (left.level + 1) d.kinds := fun op _ => by
      have := Expr.precedence_le op
      omega
    exact climb_ok (fun least c e c' hleast hn h => ih h hleast hn) h hspelled (by omega) hloose
      (by omega) (by omega)

theorem expression_ok (h : expression c = .ok e c') : SpelledBy e c c' := by
  change exprWithin "nothing" (c.rest.length + 1) 1 c = _ at h
  exact (exprWithin_ok h (by omega) (Nat.le_succ_of_le (Nat.le_of_eq c.length_rest.symm))).1

end

/-- What comes next neither goes on with the operand that was read nor is a binary operator of
precedence `least` or more. -/
structure Ends (least : Nat) (ks : List TokenKind) : Prop where
  noSelector : next ks ≠ .punctuation .dot
  noCall : next ks ≠ .punctuation .lparen
  loose : Loose least ks

def beginsOperand : TokenKind → Bool
  | .int _ | .float _ | .imaginary _ | .rune _ | .string _ | .ident _ => true
  | .punctuation .lparen => true
  | _ => false

theorem next_spelled {ks : List TokenKind} (rest : List TokenKind) :
    (e : Expr) → e.Grouped → e.TypeFree → e.Spells ks →
    beginsOperand (next (ks ++ rest)) = true ∨
      e.level < 7 ∧ ∃ o, next (ks ++ rest) = .operator o
  | .literal _ v, _, _, .literal => .inl (by cases v <;> rfl)
  | .ident .., _, _, .ident => .inl rfl
  | .selector _ base _, .selector hlevel hg, .selector ht, .selector hs => by
    obtain h | ⟨h, -⟩ := next_spelled _ base hg ht hs
    · exact .inl (by simpa using h)
    · omega
  | .call _ callee _, .call hlevel hg _, .call ht _, .call hs _ => by
    obtain h | ⟨h, -⟩ := next_spelled _ callee hg ht hs
    · exact .inl (by simpa using h)
    · omega
  | .unary .., _, _, .unary _ => .inr ⟨Nat.lt_succ_self 6, _, rfl⟩
  | .binary _ op l _, .binary _ _ hg _, .binary ht _, .binary hs _ => by
    have hlevel := Nat.lt_of_le_of_lt (Expr.precedence_le op) (by decide : 5 < 7)
    obtain h | ⟨-, h⟩ := next_spelled _ l hg ht hs
    · exact .inl (by simpa using h)
    · exact .inr ⟨hlevel, by simpa using h⟩
  | .paren .., _, _, .paren _ => .inl rfl

section

variable {n : Nat} {e : Expr} {ks rest : List TokenKind} {Q : Expr → List TokenKind → Prop}

theorem yields_postfixes_end {expr : Parser Expr} (hend : Ends least rest) :
    Yields (postfixes expr out (m + 1) e) rest fun e' ls => e' = e ∧ ls = rest := by
  refine (yields_refuse hend.noSelector).bind ?_
  rintro b ls ⟨rfl, rfl⟩
  refine (yields_refuse hend.noCall).bind ?_
  rintro b ls ⟨rfl, rfl⟩
  exact yields_pure _ ⟨rfl, rfl⟩

theorem yields_climb_end {operand : Nat → Parser Expr} (hloose : Loose least rest) :
    Yields (climb operand least out (m + 1) e) rest fun e' ls => e' = e ∧ ls = rest := by
  have hstop : Yields (pure e : Parser Expr) rest fun e' ls => e' = e ∧ ls = rest :=
    yields_pure _ ⟨rfl, rfl⟩
  refine yields_peek.bind ?_
  rintro k ls ⟨hk, rfl⟩
  cases k with
  | operator o =>
    obtain hop | ⟨op, hop⟩ := Option.eq_none_or_eq_some (BinaryOp.ofOperator? o)
    · simpa only [hop] using hstop
    · obtain rfl := ofOperator?_binary hop
      simpa only [hop, if_pos (hloose op hk.symm)] using hstop
  | _ => exact hstop

/-- In less than `n` tokens every spelling of an expression is read, where its level allows it. -/
def ReadsWithin (out : String) (n : Nat) : Prop :=
  ∀ e ks rest least, Expr.Spells e ks → e.Grouped → e.TypeFree → ks.length + rest.length < n →
    least ≤ e.level → Ends least rest →
    Yields (exprWithin out n least) (ks ++ rest) fun e' ls => e'.bare = e.bare ∧ ls = rest

theorem ends_punctuation (hdot : p ≠ .dot) (hparen : p ≠ .lparen) :
    Ends least (.punctuation p :: rest) :=
  ⟨by simpa using hdot, by simpa using hparen, loose_of_ne (by simp)⟩

theorem next_ne_rparen (hg : e.Grouped) (ht : e.TypeFree) (hs : e.Spells ks) :
    next (ks ++ rest) ≠ .punctuation .rparen := by
  intro hnext
  obtain h | ⟨-, o, h⟩ := next_spelled rest e hg ht hs
  · rw [hnext] at h
    cases h
  · rw [hnext] at h
    cases h

theorem yields_args (hread : ReadsWithin out n) (hs : Expr.SpellsArgs es ks)
    (hg : ∀ e ∈ es, e.Grouped) (ht : ∀ e ∈ es, e.TypeFree) (hn : ks.length + rest.length + 1 < n)
    (hm : ks.length < m) :
    Yields (commaList .rparen (exprWithin out n 1) out m) (ks ++ .punctuation .rparen :: rest)
      fun es' ls => es'.map Expr.bare = es.map Expr.bare ∧ ls = .punctuation .rparen :: rest := by
  induction es generalizing ks m with
  | nil =>
    cases hs
    obtain ⟨m, rfl⟩ := Nat.exists_eq_succ_of_ne_zero (n := m) (by omega)
    refine (yields_isNext _).bind ?_
    rintro b ls ⟨rfl, rfl⟩
    exact yields_pure _ ⟨rfl, rfl⟩
  | cons e es ih =>
    have hge := hg e List.mem_cons_self
    have hte := ht e List.mem_cons_self
    cases hs with
    | last hs =>
      have hpos := List.length_pos_iff.2 hs.ne_nil
      obtain ⟨m, rfl⟩ := Nat.exists_eq_succ_of_ne_zero (n := m) (by omega)
      refine (yields_isNext _).bind ?_
      rintro b ls ⟨rfl, rfl⟩
      rw [beq_eq_false_iff_ne.2 (next_ne_rparen hge hte hs)]
      refine (hread e _ (.punctuation .rparen :: rest) 1 hs hge hte hn
        (Expr.level_pos e) (ends_punctuation (by simp) (by simp))).bind ?_
      rintro e' ls ⟨he, rfl⟩
      refine (yields_refuse (by simp)).bind ?_
      rintro b ls ⟨rfl, rfl⟩
      exact yields_pure _ ⟨by simp [he], rfl⟩
    | @comma _ ks _ ls hs hargs =>
      have hpos := List.length_pos_iff.2 hs.ne_nil
      simp only [List.length_append, List.length_cons] at hn hm
      obtain ⟨m, rfl⟩ := Nat.exists_eq_succ_of_ne_zero (n := m) (by omega)
      rw [List.append_assoc, List.cons_append]
      refine (yields_isNext _).bind ?_
      rintro b ls ⟨rfl, rfl⟩
      rw [beq_eq_false_iff_ne.2 (next_ne_rparen hge hte hs)]
      refine (hread e _ (.punctuation .comma :: (ls ++ .punctuation .rparen :: rest)) 1 hs hge hte
        (by simp only [List.length_append, List.length_cons]; omega)
        (Expr.level_pos e) (ends_punctuation (by simp) (by simp))).bind ?_
      rintro e' ls ⟨he, rfl⟩
      refine (yields_accept (by simp)).bind ?_
      rintro b ls ⟨rfl, rfl⟩
      refine (ih hargs (fun a ha => hg a (List.mem_cons_of_mem e ha))
        (fun a ha => ht a (List.mem_cons_of_mem e ha)) (by omega) (by omega)).bind ?_
      rintro es' ls ⟨hes, rfl⟩
      exact yields_pure _ ⟨by simp [he, hes], rfl⟩

theorem yields_primary_literal (v : Literal) {expr : Parser Expr} :
    Yields (primary expr) (v.kind :: rest)
      fun e' ls => e'.bare = .literal (.point 0) v ∧ ls = rest := by
  refine yields_currentSpan.bind ?_
  rintro start ls rfl
  refine yields_peek.bind ?_
  rintro k ls ⟨rfl, rfl⟩
  cases v
  all_goals
    refine (yields_advance (by simp [Literal.kind])).bind ?_
    rintro - ls rfl
    exact yields_pure _ ⟨rfl, rfl⟩

theorem yields_primary_ident (name : String) {expr : Parser Expr} :
    Yields (primary expr) (.ident name :: rest)
      fun e' ls => e'.bare = .ident (.point 0) name ∧ ls = rest := by
  refine yields_currentSpan.bind ?_
  rintro start ls rfl
  refine yields_peek.bind ?_
  rintro k ls ⟨rfl, rfl⟩
  refine (yields_advance (by simp)).bind ?_
  rintro - ls rfl
  exact yields_pure _ ⟨rfl, rfl⟩

theorem yields_primary_paren (hread : ReadsWithin out n) (hs : e.Spells ks) (hg : e.Grouped)
    (ht : e.TypeFree) (hn : ks.length + rest.length + 1 < n) :
    Yields (primary (exprWithin out n 1))
      (.punctuation .lparen :: (ks ++ .punctuation .rparen :: rest))
      fun e' ls => e'.bare = .paren (.point 0) e.bare ∧ ls = rest := by
  refine yields_currentSpan.bind ?_
  rintro start ls rfl
  refine yields_peek.bind ?_
  rintro k ls ⟨rfl, rfl⟩
  refine (yields_advance (by simp)).bind ?_
  rintro - ls rfl
  refine (hread e ks (.punctuation .rparen :: rest) 1 hs hg ht hn (Expr.level_pos e)
    (ends_punctuation (by simp) (by simp))).bind ?_
  rintro e' ls ⟨he, rfl⟩
  refine (yields_expect (by simp) _).bind ?_
  rintro - ls rfl
  refine yields_previousSpan.bind ?_
  rintro span ls rfl
  exact yields_pure _ ⟨by simp [Expr.bare, he], rfl⟩

theorem yields_selector {expr : Parser Expr} (hm : rest.length + 1 < m)
    (hgo : ∀ span m, rest.length < m →
      Yields (postfixes expr out m (.selector span e name)) rest Q) :
    Yields (postfixes expr out m e) (.punctuation .dot :: .ident name :: rest) Q := by
  obtain ⟨m, rfl⟩ := Nat.exists_eq_succ_of_ne_zero (n := m) (by omega)
  refine (yields_accept (by simp)).bind ?_
  rintro b ls ⟨rfl, rfl⟩
  refine (yields_identifier name).bind ?_
  rintro x ls ⟨rfl, rfl⟩
  refine yields_previousSpan.bind ?_
  rintro span ls rfl
  exact hgo _ m (by omega)

theorem yields_call (hread : ReadsWithin out n) (hs : Expr.SpellsArgs es ks)
    (hg : ∀ e ∈ es, e.Grouped) (ht : ∀ e ∈ es, e.TypeFree) (hn : ks.length + rest.length + 1 < n)
    (hm : ks.length + rest.length + 1 < m)
    (hgo : ∀ span es' m, es'.map Expr.bare = es.map Expr.bare → rest.length < m →
      Yields (postfixes (exprWithin out n 1) out m (.call span e es')) rest Q) :
    Yields (postfixes (exprWithin out n 1) out m e)
      (.punctuation .lparen :: (ks ++ .punctuation .rparen :: rest)) Q := by
  obtain ⟨m, rfl⟩ := Nat.exists_eq_succ_of_ne_zero (n := m) (by omega)
  refine (yields_refuse (by simp)).bind ?_
  rintro b ls ⟨rfl, rfl⟩
  refine (yields_accept (by simp)).bind ?_
  rintro b ls ⟨rfl, rfl⟩
  refine (yields_args hread hs hg ht hn (by omega)).bind ?_
  rintro es' ls ⟨hes, rfl⟩
  refine (yields_expect (by simp) _).bind ?_
  rintro - ls rfl
  refine yields_previousSpan.bind ?_
  rintro span ls rfl
  exact hgo _ es' m hes (by omega)

/-- Operands with all that is put after them. Where the first one ends, reading goes on after it,
so the statement is about any way to go on. -/
theorem yields_operand {ks rest : List TokenKind} (hread : ReadsWithin out n) (e : Expr)
    (hlevel : e.level = 7) (hg : e.Grouped) (ht : e.TypeFree) (hs : e.Spells ks)
    (hn : ks.length + rest.length < n + 1)
    (hgo : ∀ e' m, e'.bare = e.bare → rest.length < m →
      Yields (postfixes (exprWithin out n 1) out m e') rest Q) :
    Yields (do postfixes (exprWithin out n 1) out n (← primary (exprWithin out n 1)))
      (ks ++ rest) Q := by
  cases e with
  | literal _ v =>
    cases hs
    refine (yields_primary_literal v).bind ?_
    rintro e' ls ⟨he, rfl⟩
    exact hgo e' n he (by simpa [Nat.add_comm] using hn)
  | ident _ name =>
    cases hs
    refine (yields_primary_ident name).bind ?_
    rintro e' ls ⟨he, rfl⟩
    exact hgo e' n he (by simpa [Nat.add_comm] using hn)
  | paren _ inner =>
    cases hg with | paren hg
    cases ht with | paren ht
    cases hs with | @paren _ ks _ hs
    simp only [List.length_cons, List.length_append, List.length_nil] at hn
    rw [List.cons_append, List.append_assoc, List.cons_append, List.nil_append]
    refine (yields_primary_paren hread hs hg ht (by omega)).bind ?_
    rintro e' ls ⟨he, rfl⟩
    exact hgo e' n he (by omega)
  | selector _ base name =>
    cases hg with | selector hlevel hg
    cases ht with | selector ht
    cases hs with | selector hs
    simp only [List.length_cons, List.length_append, List.length_nil] at hn
    simp only [List.append_assoc, List.cons_append, List.nil_append]
    refine yields_operand hread base (by have := Expr.level_le base; omega) hg ht hs
      (by simp only [List.length_cons]; omega) ?_
    intro e' m he hm
    simp only [List.length_cons] at hm
    exact yields_selector (by omega) fun span m => hgo _ m (by simp [Expr.bare, he])
  | call _ callee args =>
    cases hg with | call hlevel hg hgs
    cases ht with | call ht hts
    cases hs with | call hs hargs
    simp only [List.length_cons, List.length_append, List.length_nil] at hn
    simp only [List.append_assoc, List.cons_append, List.nil_append]
    refine yields_operand hread callee (by have := Expr.level_le callee; omega) hg ht hs
      (by simp only [List.length_append, List.length_cons]; omega) ?_
    intro e' m he hm
    simp only [List.length_append, List.length_cons] at hm
    have hpos := List.length_pos_iff.2 hs.ne_nil
    refine yields_call hread hargs hgs hts (by omega) (by omega) fun span args' m hargs' => ?_
    exact hgo _ m (by simp [Expr.bare, Expr.bareAll_eq, he, hargs'])
  | unary => cases hlevel
  | binary _ op =>
    have hle := Expr.precedence_le op
    simp only [Expr.level] at hlevel
    omega
  | type => cases ht

theorem yields_unaries (hread : ReadsWithin out n) (hlevel : 6 ≤ e.level) (hg : e.Grouped)
    (ht : e.TypeFree) (hs : e.Spells ks) (hn : ks.length + rest.length < n + 1)
    (hm : ks.length < m) (hend : Ends least rest) :
    Yields (unaries (do
        postfixes (exprWithin out n 1) out n (← primary (exprWithin out n 1))) out m) (ks ++ rest)
      fun e' ls => e'.bare = e.bare ∧ ls = rest := by
  have hplain : ∀ e ks, e.level = 7 → Expr.Grouped e → e.TypeFree → e.Spells ks →
      ks.length + rest.length < n + 1 →
      Yields (do postfixes (exprWithin out n 1) out n (← primary (exprWithin out n 1))) (ks ++ rest)
        fun e' ls => e'.bare = e.bare ∧ ls = rest := by
    intro e ks hlevel hg ht hs hn
    refine yields_operand hread e hlevel hg ht hs hn fun e' m he hm => ?_
    obtain ⟨m, rfl⟩ := Nat.exists_eq_succ_of_ne_zero (n := m) (by omega)
    refine (yields_postfixes_end hend).imp ?_
    rintro e'' ls ⟨rfl, rfl⟩
    exact ⟨he, rfl⟩
  induction m generalizing e ks with
  | zero => omega
  | succ m ih =>
    refine yields_currentSpan.bind ?_
    rintro start ls rfl
    refine yields_peek.bind ?_
    rintro k ls ⟨rfl, rfl⟩
    by_cases h7 : e.level = 7
    · have hnext := (next_spelled rest e hg ht hs).resolve_right (by omega)
      have := hplain e ks h7 hg ht hs hn
      cases hk : next (ks ++ rest) with
      | operator o =>
        rw [hk] at hnext
        cases hnext
      | _ => exact this
    · cases hs with
      | unary hs =>
        cases hg with | unary hlevel hg
        cases ht with | unary ht
        simp only [List.length_cons] at hn hm
        simp only [List.cons_append, next_cons, UnaryOp.ofOperator?_operator]
        refine (yields_advance (by simp)).bind ?_
        rintro - ls rfl
        refine (ih hlevel hg ht hs (by omega) (by omega)).bind ?_
        rintro e' ls ⟨he, rfl⟩
        exact yields_pure _ ⟨by simp [Expr.bare, he], rfl⟩
      | binary =>
        have := Expr.precedence_le ‹_›
        exact absurd hlevel (by simp only [Expr.level]; omega)
      | _ => exact absurd rfl h7

theorem yields_climb_step {op : BinaryOp} {r : Expr} (hread : ReadsWithin out n)
    (hleast : least ≤ op.precedence) (hg : r.Grouped) (ht : r.TypeFree) (hs : r.Spells ks)
    (hr : op.precedence + 1 ≤ r.level) (hn : ks.length + rest.length < n)
    (hend : Ends (op.precedence + 1) rest) (hm : rest.length + 1 < m)
    (hgo : ∀ span r' m, r'.bare = r.bare → rest.length < m →
      Yields (climb (exprWithin out n) least out m (.binary span op e r')) rest Q) :
    Yields (climb (exprWithin out n) least out m e) (.operator op.operator :: (ks ++ rest)) Q := by
  obtain ⟨m, rfl⟩ := Nat.exists_eq_succ_of_ne_zero (n := m) (by omega)
  refine yields_peek.bind ?_
  rintro k ls ⟨rfl, rfl⟩
  simp only [next_cons, BinaryOp.ofOperator?_operator]
  rw [if_neg (Nat.not_lt.2 hleast)]
  refine (yields_advance (by simp)).bind ?_
  rintro - ls rfl
  refine (hread r _ rest (op.precedence + 1) hs hg ht hn hr hend).bind ?_
  rintro r' ls ⟨hr', rfl⟩
  exact hgo _ r' m hr' (by omega)

/-- Chains of binary operators are read from the left. What follows a left operand is read before
the expression is known to be over, so the statement is about any way to go on. -/
theorem yields_climbed (hread : ReadsWithin out n) (hg : e.Grouped) (ht : e.TypeFree)
    (hs : e.Spells ks) (hn : ks.length + rest.length < n + 1) (hleast : least ≤ e.level)
    (hend : Ends (e.level + 1) rest)
    (hgo : ∀ e' m, e'.bare = e.bare → rest.length < m →
      Yields (climb (exprWithin out n) least out m e') rest Q) :
    Yields (exprWithin out (n + 1) least) (ks ++ rest) Q := by
  induction hlength : ks.length using Nat.strongRecOn generalizing e ks rest with | ind _ ih => ?_
  subst hlength
  by_cases h6 : 6 ≤ e.level
  · have hpos := List.length_pos_iff.2 hs.ne_nil
    refine (yields_unaries hread h6 hg ht hs hn (by omega) hend).bind ?_
    rintro e' ls ⟨he, rfl⟩
    exact hgo e' n he (by omega)
  · cases hs with
    | @binary l ks r ls _ op hls hrs =>
      cases hg with | binary hl hr hlg hrg
      cases ht with | binary hlt hrt
      change least ≤ op.precedence at hleast
      simp only [List.length_append, List.length_cons] at hn
      have hlpos := List.length_pos_iff.2 hls.ne_nil
      rw [List.append_assoc, List.cons_append]
      have hop : Ends (l.level + 1) (.operator op.operator :: (ls ++ rest)) := by
        refine ⟨by simp, by simp, fun op' hop' => ?_⟩
        rw [next_cons, TokenKind.operator.injEq] at hop'
        rw [← binaryOperator_injective _ _ hop']
        exact Nat.lt_succ_of_le hl
      refine ih ks.length (by simp) hlg hlt hls
        (by simp only [List.length_append, List.length_cons]; omega)
        (Nat.le_trans hleast hl) hop ?_ rfl
      intro e' m he hm
      simp only [List.length_append, List.length_cons] at hm
      exact yields_climb_step hread hleast hrg hrt hrs hr (by omega) hend (by omega)
        fun span r' m hr' => hgo _ m (by simp [Expr.bare, he, hr'])
    | _ => exact absurd (by simp [Expr.level]) h6

theorem readsWithin (out : String) (n : Nat) : ReadsWithin out n := by
  induction n with
  | zero =>
    intro e ks rest least hs _ _ hn
    omega
  | succ n ih =>
    intro e ks rest least hs hg ht hn hleast hend
    refine yields_climbed ih hg ht hs hn hleast
      ⟨hend.noSelector, hend.noCall, hend.loose.mono (by omega)⟩ fun e' m he hm => ?_
    obtain ⟨m, rfl⟩ := Nat.exists_eq_succ_of_ne_zero (n := m) (by omega)
    refine (yields_climb_end hend.loose).imp ?_
    rintro e'' ls ⟨rfl, rfl⟩
    exact ⟨he, rfl⟩

theorem yields_expression (hs : e.Spells ks) (hg : e.Grouped) (ht : e.TypeFree)
    (hend : Ends 1 rest) :
    Yields expression (ks ++ rest) fun e' ls => e'.bare = e.bare ∧ ls = rest :=
  yields_bounded fun out =>
    readsWithin out _ e ks rest 1 hs hg ht (by simp) (Expr.level_pos e) hend

end

end GoEnum.Parse
