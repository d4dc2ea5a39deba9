import GoEnum.Constant.Evaluation
import GoEnum.Proofs.Except
import Mathlib.Order.Basic

namespace GoEnum.Constant

open Syntax

def Acyclic (r : Except EvalError α) : Prop := ∀ name, r ≠ .error (.cycle name)

theorem acyclic_ok (a : α) : Acyclic (.ok a) := by
  intro name h
  cases h

theorem Acyclic.bind {x : Except EvalError α} {f : α → Except EvalError β} (hx : Acyclic x)
    (hf : ∀ a, Acyclic (f a)) : Acyclic (x >>= f) := by
  intro name h
  obtain h | ⟨a, -, h⟩ := bind_eq_error.1 h
  · exact hx name h
  · exact hf a name h

theorem acyclic_checkRange (type : String) (range : Int × Int) (v : Value) :
    Acyclic (checkRange type range v) := by
  intro name
  unfold checkRange
  grind

theorem acyclic_representable (types : TypeScope) (c : Const) :
    Acyclic (representable types c) := by
  unfold representable
  split
  · exact acyclic_ok c
  · split
    · exact acyclic_ok c
    · exact (acyclic_checkRange _ _ _).bind fun v => acyclic_ok _

theorem acyclic_convert (types : TypeScope) (explicit : Bool) (target : String) (c : Const) :
    Acyclic (convert types explicit target c) := by
  unfold convert
  split
  · intro name h
    cases h
  · exact acyclic_representable types _

theorem acyclic_declare (types : TypeScope) (type : Option TypeExpr) (c : Const) :
    Acyclic (declare types type c) := by
  unfold declare assign
  split
  · exact acyclic_ok c
  · split
    · split
      · exact acyclic_convert types false _ c
      · simp [Acyclic]
    · exact acyclic_convert types false _ c
  · simp [Acyclic]

theorem acyclic_apply (types : TypeScope) (arg : Const) (f : Callee) :
    Acyclic (f.apply types arg) := by
  intro name
  cases f with
  | length => grind [Callee.apply, lengthOf, countConst]
  | conversion type => exact acyclic_convert types true type arg name
  | other what => simp [Callee.apply]

theorem acyclic_literalConst (v : Literal) : Acyclic (literalConst v) := by
  intro name
  cases v <;> grind [literalConst, countConst]

theorem acyclic_predeclared (types : TypeScope) (iota : Nat) (name : String) :
    Acyclic (predeclared types iota name) := by
  intro other
  unfold predeclared countConst
  grind

theorem acyclic_unary (types : TypeScope) (op : UnaryOp) (c : Const) :
    Acyclic (unary types op c) := by
  refine Acyclic.bind ?_ fun v => acyclic_representable types _
  intro name
  unfold unaryValue exact
  grind

theorem acyclic_intOperation (op : BinaryOp) (type : ConstType) (a b : Int) :
    Acyclic (intOperation op type a b) := by
  intro name
  cases op <;> simp only [intOperation, exact] <;> grind

theorem acyclic_shift (types : TypeScope) (op : BinaryOp) (left right : Const) :
    Acyclic (shift types op left right) := by
  refine Acyclic.bind ?_ fun count => Acyclic.bind ?_ fun n => Acyclic.bind ?_ fun v =>
    acyclic_representable types _
  all_goals intro name
  · unfold shiftCount
    grind
  · unfold shiftOperand
    grind
  · unfold shiftValue shiftLeft
    grind

theorem acyclic_floatArithmetic (op : BinaryOp) (a b : Value) :
    Acyclic (floatArithmetic op a b) := by
  intro name
  unfold floatArithmetic floatOperation? invalidOperands
  grind

theorem acyclic_arithmetic (op : BinaryOp) (type : ConstType) (a b : Value) :
    Acyclic (arithmetic op type a b) := by
  intro name
  have hint := acyclic_intOperation op type
  have hfloat := acyclic_floatArithmetic op
  unfold arithmetic invalidOperands
  unfold Acyclic at hint hfloat
  grind [map_eq_error]

theorem acyclic_binary (types : TypeScope) (op : BinaryOp) (left right : Const) :
    Acyclic (binary types op left right) := by
  unfold binary
  split
  · exact acyclic_shift types op left right
  · refine Acyclic.bind ?_ fun type => ?_
    · intro name
      unfold unify
      grind
    · split
      · intro name
        unfold compared invalidOperands
        grind
      · exact (acyclic_arithmetic op type _ _).bind fun v => acyclic_representable types _

@[elab_as_elim]
theorem evalInduction (s : Scope) {motive : Expr → Prop}
    (literal : ∀ span v, motive (.literal span v))
    (constant : ∀ span name, s.defines name = true → motive (.ident span name))
    (predeclared : ∀ span name, s.defines name = false → motive (.ident span name))
    (paren : ∀ span e, motive e → motive (.paren span e))
    (selector : ∀ span base field, motive (.selector span base field))
    (call : ∀ span callee arg, (∀ what, s.callee callee ≠ .other what) → motive arg →
      motive (.call span callee [arg]))
    (notFunction : ∀ span callee arg what, s.callee callee = .other what →
      motive (.call span callee [arg]))
    (wrongCount : ∀ span callee args, (∀ arg, args ≠ [arg]) → motive (.call span callee args))
    (unary : ∀ span op e, motive e → motive (.unary span op e))
    (binary : ∀ span op l r, motive l → motive r → motive (.binary span op l r))
    (type : ∀ span t, motive (.type span t)) (e : Expr) : motive e :=
  evalExpr.induct s motive literal constant
    (fun span name h => predeclared span name (by simpa using h)) paren selector notFunction call
    wrongCount unary binary type e

section

variable {m : Type → Type} [Monad m] [MonadExceptOf EvalError m] {s : Scope}
  {constant : String → m Const} {iota : Nat}

theorem evalExpr_constant (h : s.defines name = true) :
    evalExpr s constant iota (.ident span name) = constant name := by simp [evalExpr, h]

theorem evalExpr_predeclared (h : s.defines name = false) :
    evalExpr s constant iota (.ident span name) =
      liftExcept (predeclared s.types iota name) := by simp [evalExpr, h]

theorem evalExpr_call (h : ∀ what, s.callee callee ≠ .other what) :
    evalExpr s constant iota (.call span callee [arg]) =
      evalExpr s constant iota arg >>= fun c =>
        liftExcept ((s.callee callee).apply s.types c) := by
  rw [evalExpr]
  split
  · exact absurd ‹_› (h _)
  · rfl

theorem evalExpr_notFunction (h : s.callee callee = .other what) :
    evalExpr s constant iota (.call span callee [arg]) = throw (.notConstant what) := by
  simp [evalExpr, h]

theorem evalExpr_wrongCount (h : ∀ arg, args ≠ [arg]) :
    evalExpr s constant iota (.call span callee args) = throw (s.callee callee).wrongCount := by
  rw [evalExpr]
  exact h

end

section

variable {m₁ m₂ : Type → Type} [Monad m₁] [MonadExceptOf EvalError m₁] [Monad m₂]
  [MonadExceptOf EvalError m₂] {R : m₁ Const → m₂ Const → Prop}

/-- A relation between two ways of evaluating that holds of single steps and of their sequences.
What names mean decides about cycles, so no single step reports one. -/
structure Respects (R : m₁ Const → m₂ Const → Prop) : Prop where
  pure : ∀ c, R (pure c) (pure c)
  throw : ∀ e, Acyclic (.error e : Except EvalError Const) → R (throw e) (throw e)
  bind : ∀ {x y f g}, R x y → (∀ c, R (f c) (g c)) → R (x >>= f) (y >>= g)

namespace Respects

theorem lift (h : Respects R) {r : Except EvalError Const} (hr : Acyclic r) :
    R (liftExcept r) (liftExcept r) := by
  cases r with
  | ok c => exact h.pure c
  | error e => exact h.throw e hr

variable {s : Scope} {f : String → m₁ Const} {g : String → m₂ Const}

theorem evalExpr (h : Respects R) (hc : ∀ name, R (f name) (g name)) (iota : Nat)
    (e : Expr) : R (evalExpr s f iota e) (evalExpr s g iota e) := by
  induction e using evalInduction s with
  | literal span v => exact h.lift (acyclic_literalConst v)
  | constant span name hd =>
    rw [evalExpr_constant hd, evalExpr_constant hd]
    exact hc name
  | predeclared span name hd =>
    rw [evalExpr_predeclared hd, evalExpr_predeclared hd]
    exact h.lift (acyclic_predeclared s.types iota name)
  | paren span e ih => exact ih
  | selector span base field => exact h.throw _ (by simp [Acyclic, qualified])
  | call span callee arg hf ih =>
    rw [evalExpr_call hf, evalExpr_call hf]
    exact h.bind ih fun c => h.lift (acyclic_apply s.types c _)
  | notFunction span callee arg what hf =>
    rw [evalExpr_notFunction hf, evalExpr_notFunction hf]
    exact h.throw _ (by simp [Acyclic])
  | wrongCount span callee args hn =>
    rw [evalExpr_wrongCount hn, evalExpr_wrongCount hn]
    exact h.throw _ (by cases s.callee callee <;> simp [Acyclic, Callee.wrongCount])
  | unary span op e ih => exact h.bind ih fun c => h.lift (acyclic_unary s.types op c)
  | binary span op l r ihl ihr =>
    exact h.bind ihl fun a => h.bind ihr fun b => h.lift (acyclic_binary s.types op a b)
  | type span t => exact h.throw _ (by simp [Acyclic])

theorem evalDef (h : Respects R) (hc : ∀ name, R (f name) (g name))
    (d : ConstDef) : R (evalDef s f d) (evalDef s g d) :=
  h.bind (h.evalExpr hc d.iota d.expr) fun c => h.lift (acyclic_declare s.types d.type c)

end Respects

end

abbrev Unfolding := ExceptT EvalError Option

/-- The value of a name by unfolding definitions down to depth `n`, where it is cut off. -/
def unfoldWithin (s : Scope) : Nat → String → Unfolding Const
  | 0, _ => ExceptT.mk none
  | n + 1, name =>
    match s.find? name with
    | none => throw (.undefined name)
    | some d => evalDef s (unfoldWithin s n) d

def UnfoldsTo (s : Scope) (name : String) (r : Except EvalError Const) : Prop :=
  ∃ n, (unfoldWithin s n name).run = some r

def Endless (s : Scope) (name : String) : Prop := ∀ n, (unfoldWithin s n name).run = none

theorem run_bind_eq_some {x : Unfolding α} {f : α → Unfolding β} {r : Except EvalError β} :
    (x >>= f).run = some r ↔ (∃ a, x.run = some (.ok a) ∧ (f a).run = some r) ∨
      ∃ e, x.run = some (.error e) ∧ r = .error e := by
  rw [ExceptT.run_bind]
  rcases x.run with _ | _ | a <;> simp [eq_comm]

theorem run_bind_eq_none {x : Unfolding α} {f : α → Unfolding β} :
    (x >>= f).run = none ↔ x.run = none ∨ ∃ a, x.run = some (.ok a) ∧ (f a).run = none := by
  rw [ExceptT.run_bind]
  rcases x.run with _ | _ | a <;> simp

theorem run_liftExcept (r : Except EvalError α) :
    (liftExcept r : Unfolding α).run = some r := by
  cases r <;> rfl

def Refines (x y : Unfolding Const) : Prop := ∀ r, x.run = some r → y.run = some r

theorem respects_refines : Respects Refines where
  pure _ _ h := h
  throw _ _ _ h := h
  bind {x y f g} hx hf r h := by
    obtain ⟨c, hc, hr⟩ | ⟨e, he, rfl⟩ := run_bind_eq_some.1 h
    · exact run_bind_eq_some.2 (.inl ⟨c, hx _ hc, hf c r hr⟩)
    · exact run_bind_eq_some.2 (.inr ⟨e, hx _ he, rfl⟩)

theorem unfoldWithin_refines (s : Scope) (n : Nat) (name : String) :
    Refines (unfoldWithin s n name) (unfoldWithin s (n + 1) name) := by
  induction n generalizing name with
  | zero =>
    intro r h
    cases h
  | succ n ih =>
    intro r h
    rw [unfoldWithin] at h ⊢
    split
    · simpa [*] using h
    · rename_i d hd
      simp only [hd] at h
      exact respects_refines.evalDef ih d r h

theorem unfoldWithin_refines_le (s : Scope) (name : String) (h : n ≤ k) :
    Refines (unfoldWithin s n name) (unfoldWithin s k name) := by
  induction h with
  | refl => exact fun r h => h
  | step _ ih => exact fun r h => unfoldWithin_refines s _ name r (ih r h)

theorem respects_acyclic :
    Respects fun x _ : Unfolding Const => ∀ r, x.run = some r → Acyclic r where
  pure c r h := by
    cases h
    exact acyclic_ok c
  throw e he r h := by
    cases h
    exact he
  bind {x y f g} hx hf r h := by
    obtain ⟨c, hc, hr⟩ | ⟨e, he, rfl⟩ := run_bind_eq_some.1 h
    · exact hf c r hr
    · exact hx _ he

theorem UnfoldsTo.acyclic (h : UnfoldsTo s name r) : Acyclic r := by
  obtain ⟨n, h⟩ := h
  induction n generalizing name r with
  | zero => cases h
  | succ n ih =>
    rw [unfoldWithin] at h
    split at h
    · cases h
      simp [Acyclic]
    · exact respects_acyclic.evalDef (g := unfoldWithin s n) (fun name r => ih) _ r h

theorem UnfoldsTo.not_endless (h : UnfoldsTo s name r) : ¬ Endless s name := by
  obtain ⟨n, h⟩ := h
  intro hn
  rw [hn n] at h
  cases h

end GoEnum.Constant
