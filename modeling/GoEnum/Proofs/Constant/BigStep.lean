import GoEnum.Proofs.Constant.Unfolding

namespace GoEnum.Constant

open Syntax

/-- The value of an expression, where `iota` has the given value. -/
inductive Evaluates (s : Scope) : Nat → Expr → Const → Prop
  | literal : literalConst v = .ok c → Evaluates s iota (.literal span v) c
  | constant : s.find? name = some d → Evaluates s d.iota d.expr c →
      declare s.types d.type c = .ok c' → Evaluates s iota (.ident span name) c'
  | predeclared : s.defines name = false → predeclared s.types iota name = .ok c →
      Evaluates s iota (.ident span name) c
  | paren : Evaluates s iota e c → Evaluates s iota (.paren span e) c
  | call : Evaluates s iota arg c → (s.callee callee).apply s.types c = .ok c' →
      Evaluates s iota (.call span callee [arg]) c'
  | unary : Evaluates s iota e c → unary s.types op c = .ok c' →
      Evaluates s iota (.unary span op e) c'
  | binary : Evaluates s iota l a → Evaluates s iota r b → binary s.types op a b = .ok c →
      Evaluates s iota (.binary span op l r) c

def EvaluatesName (s : Scope) (name : String) (c : Const) : Prop :=
  ∃ d c₀, s.find? name = some d ∧ Evaluates s d.iota d.expr c₀ ∧ declare s.types d.type c₀ = .ok c

theorem run_bind_liftExcept_eq_ok {x : Unfolding α} {f : α → Except EvalError β} :
    (x >>= fun a => liftExcept (f a)).run = some (.ok b) ↔
      ∃ a, x.run = some (.ok a) ∧ f a = .ok b := by
  rw [run_bind_eq_some]
  simp [run_liftExcept]

theorem run_bind_liftExcept_eq_error {x : Unfolding α} {f : α → Except EvalError β} :
    (x >>= fun a => liftExcept (f a)).run = some (.error e) ↔
      x.run = some (.error e) ∨ ∃ a, x.run = some (.ok a) ∧ f a = .error e := by
  rw [run_bind_eq_some, or_comm]
  simp [run_liftExcept]

theorem evaluates_of_evalExpr {f : String → Unfolding Const}
    (hf : ∀ name c, (f name).run = some (.ok c) → EvaluatesName s name c)
    (h : (evalExpr s f iota e).run = some (.ok c)) : Evaluates s iota e c := by
  induction e using evalInduction s generalizing c with
  | literal span v =>
    rw [evalExpr, run_liftExcept] at h
    exact .literal (Option.some.inj h)
  | constant span name hd =>
    rw [evalExpr_constant hd] at h
    obtain ⟨d, c₀, hd, hc, hdecl⟩ := hf name c h
    exact .constant hd hc hdecl
  | predeclared span name hd =>
    rw [evalExpr_predeclared hd, run_liftExcept] at h
    exact .predeclared hd (Option.some.inj h)
  | paren span e ih => exact .paren (ih h)
  | selector span base field => cases h
  | call span callee arg hcallee ih =>
    rw [evalExpr_call hcallee] at h
    obtain ⟨a, ha, hc⟩ := run_bind_liftExcept_eq_ok.1 h
    exact .call (ih ha) hc
  | notFunction span callee arg what hcallee =>
    rw [evalExpr_notFunction hcallee] at h
    cases h
  | wrongCount span callee args hargs =>
    rw [evalExpr_wrongCount hargs] at h
    cases h
  | unary span op e ih =>
    obtain ⟨a, ha, hc⟩ := run_bind_liftExcept_eq_ok.1 h
    exact .unary (ih ha) hc
  | binary span op l r ihl ihr =>
    obtain ⟨a, ha, h⟩ | ⟨e, -, h⟩ := run_bind_eq_some.1 h
    · obtain ⟨b, hb, hc⟩ := run_bind_liftExcept_eq_ok.1 h
      exact .binary (ihl ha) (ihr hb) hc
    · cases h
  | type span t => cases h

theorem evaluatesName_of_evalDef {f : String → Unfolding Const}
    (hf : ∀ name c, (f name).run = some (.ok c) → EvaluatesName s name c)
    (hd : s.find? name = some d) (h : (evalDef s f d).run = some (.ok c)) :
    EvaluatesName s name c := by
  obtain ⟨c₀, hc₀, hdecl⟩ := run_bind_liftExcept_eq_ok.1 h
  exact ⟨d, c₀, hd, evaluates_of_evalExpr hf hc₀, hdecl⟩

theorem evaluatesName_of_unfoldWithin (h : (unfoldWithin s n name).run = some (.ok c)) :
    EvaluatesName s name c := by
  induction n generalizing name c with
  | zero => cases h
  | succ n ih =>
    rw [unfoldWithin] at h
    split at h
    · cases h
    · exact evaluatesName_of_evalDef (fun name c => ih) ‹_› h

end GoEnum.Constant
