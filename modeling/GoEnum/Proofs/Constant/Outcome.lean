import GoEnum.Proofs.Constant.BigStep
import GoEnum.Proofs.Constant.Memo
import Mathlib.Logic.Relation

namespace GoEnum.Constant

open Syntax Relation

/-- The evaluation of the first expression gets to the second, an operand of it. Operands come from
left to right, so that the right one is reached if the left one has a value. -/
inductive Enters (s : Scope) (iota : Nat) : Expr → Expr → Prop
  | paren : Enters s iota (.paren span e) e
  | argument : (∀ what, s.callee callee ≠ .other what) →
      Enters s iota (.call span callee [arg]) arg
  | operand : Enters s iota (.unary span op e) e
  | left : Enters s iota (.binary span op l r) l
  | right : Evaluates s iota l a → Enters s iota (.binary span op l r) r

inductive Fails (s : Scope) : Nat → Expr → EvalError → Prop
  | inside : Enters s iota e e' → Fails s iota e' err → Fails s iota e err
  | constant : s.find? name = some d → Fails s d.iota d.expr err →
      Fails s iota (.ident span name) err
  | declared : s.find? name = some d → Evaluates s d.iota d.expr c →
      declare s.types d.type c = .error err → Fails s iota (.ident span name) err
  | predeclared : s.defines name = false → predeclared s.types iota name = .error err →
      Fails s iota (.ident span name) err
  | literal : literalConst v = .error err → Fails s iota (.literal span v) err
  | selector : Fails s iota (.selector span base field) (qualified base field)
  | call : (∀ what, s.callee callee ≠ .other what) → Evaluates s iota arg c →
      (s.callee callee).apply s.types c = .error err → Fails s iota (.call span callee [arg]) err
  | notFunction : s.callee callee = .other what →
      Fails s iota (.call span callee [arg]) (.notConstant what)
  | wrongCount : (∀ arg, args ≠ [arg]) →
      Fails s iota (.call span callee args) (s.callee callee).wrongCount
  | unary : Evaluates s iota e c → unary s.types op c = .error err →
      Fails s iota (.unary span op e) err
  | binary : Evaluates s iota l a → Evaluates s iota r b → binary s.types op a b = .error err →
      Fails s iota (.binary span op l r) err
  | type : Fails s iota (.type span t) (.notConstant t.text)

inductive FailsName (s : Scope) (name : String) : EvalError → Prop
  | undefined : s.find? name = none → FailsName s name (.undefined name)
  | definition : s.find? name = some d → Fails s d.iota d.expr err → FailsName s name err
  | declared : s.find? name = some d → Evaluates s d.iota d.expr c →
      declare s.types d.type c = .error err → FailsName s name err

def ComesTo (s : Scope) (name : String) : Except EvalError Const → Prop
  | .ok c => EvaluatesName s name c
  | .error err => FailsName s name err

def Calls (s : Scope) (name next : String) : Prop :=
  ∃ d span, s.find? name = some d ∧ s.defines next = true ∧
    ReflTransGen (Enters s d.iota) d.expr (.ident span next)

def NeverEnds (s : Scope) (name : String) : Prop :=
  ∃ chain : Nat → String, chain 0 = name ∧ ∀ i, Calls s (chain i) (chain (i + 1))

section

variable {f : String → Unfolding Const}

theorem fails_of_evalExpr (hok : ∀ name c, (f name).run = some (.ok c) → EvaluatesName s name c)
    (herr : ∀ name err, (f name).run = some (.error err) → FailsName s name err)
    (h : (evalExpr s f iota e).run = some (.error err)) : Fails s iota e err := by
  induction e using evalInduction s generalizing err with
  | literal span v =>
    rw [evalExpr, run_liftExcept] at h
    exact .literal (Option.some.inj h)
  | constant span name hd =>
    rw [evalExpr_constant hd] at h
    cases herr name err h with
    | undefined hn => simp [Scope.defines, hn] at hd
    | definition hd hf => exact .constant hd hf
    | declared hd hc hdecl => exact .declared hd hc hdecl
  | predeclared span name hd =>
    rw [evalExpr_predeclared hd, run_liftExcept] at h
    exact .predeclared hd (Option.some.inj h)
  | paren span e ih => exact .inside .paren (ih h)
  | selector span base field =>
    cases h
    exact .selector
  | call span callee arg hcallee ih =>
    rw [evalExpr_call hcallee] at h
    obtain h | ⟨c, hc, happly⟩ := run_bind_liftExcept_eq_error.1 h
    · exact .inside (.argument hcallee) (ih h)
    · exact .call hcallee (evaluates_of_evalExpr hok hc) happly
  | notFunction span callee arg what hcallee =>
    rw [evalExpr_notFunction hcallee] at h
    cases h
    exact .notFunction hcallee
  | wrongCount span callee args hargs =>
    rw [evalExpr_wrongCount hargs] at h
    cases h
    exact .wrongCount hargs
  | unary span op e ih =>
    obtain h | ⟨c, hc, hop⟩ := run_bind_liftExcept_eq_error.1 h
    · exact .inside .operand (ih h)
    · exact .unary (evaluates_of_evalExpr hok hc) hop
  | binary span op l r ihl ihr =>
    obtain ⟨a, ha, h⟩ | ⟨e, he, herr⟩ := run_bind_eq_some.1 h
    · have ha := evaluates_of_evalExpr hok ha
      obtain h | ⟨b, hb, hop⟩ := run_bind_liftExcept_eq_error.1 h
      · exact .inside (.right ha) (ihr h)
      · exact .binary ha (evaluates_of_evalExpr hok hb) hop
    · cases herr
      exact .inside .left (ihl he)
  | type span t =>
    cases h
    exact .type

theorem failsName_of_unfoldWithin (h : (unfoldWithin s n name).run = some (.error err)) :
    FailsName s name err := by
  induction n generalizing name err with
  | zero => cases h
  | succ n ih =>
    rw [unfoldWithin] at h
    split at h
    · cases h
      exact .undefined ‹_›
    · have hok : ∀ name c, (unfoldWithin s n name).run = some (.ok c) → EvaluatesName s name c :=
        fun name c => evaluatesName_of_unfoldWithin
      obtain h | ⟨c, hc, hdecl⟩ := run_bind_liftExcept_eq_error.1 h
      · exact .definition ‹_› (fails_of_evalExpr hok (fun name err => ih) h)
      · exact .declared ‹_› (evaluates_of_evalExpr hok hc) hdecl

theorem UnfoldsTo.comesTo (h : UnfoldsTo s name r) : ComesTo s name r := by
  obtain ⟨n, h⟩ := h
  cases r with
  | ok c => exact evaluatesName_of_unfoldWithin h
  | error err => exact failsName_of_unfoldWithin h

end

theorem refines_evalExpr (s : Scope) (iota : Nat) (e : Expr) (n : Nat) :
    Refines (evalExpr s (unfolding s) iota e n) (evalExpr s (unfolding s) iota e (n + 1)) := by
  rw [evalExpr_unfolding, evalExpr_unfolding]
  exact respects_refines.evalExpr (unfoldWithin_refines s n) iota e

theorem settles_liftExcept (r : Except EvalError Const) : Settles (liftExcept r) r := by
  refine ⟨0, ?_⟩
  cases r <;> rfl

theorem run_liftExcept_at (r : Except EvalError Const) (n : Nat) :
    ((liftExcept r : Approximations Const) n).run = some r := by
  cases r <;> rfl

theorem Settles.bind_lift {u : Approximations Const} {g : Const → Except EvalError Const}
    (h : Settles u (.ok c)) : Settles (u >>= fun c => liftExcept (g c)) (g c) := by
  obtain ⟨n, hn⟩ := h
  exact ⟨n, run_bind_eq_some.2 (.inl ⟨c, hn, run_liftExcept_at (g c) n⟩)⟩

section

variable {s : Scope} {iota : Nat} {l r : Expr} {a b : Const}

theorem refines_binary (s : Scope) (iota : Nat) (op : BinaryOp) (r : Expr) (a : Const) (n : Nat) :
    Refines ((evalExpr s (unfolding s) iota r >>= fun b => liftExcept (binary s.types op a b)) n)
      ((evalExpr s (unfolding s) iota r >>= fun b => liftExcept (binary s.types op a b)) (n + 1)) :=
  respects_refines.bind (refines_evalExpr s iota r n) fun b => by
    intro r h
    rwa [run_liftExcept_at] at h ⊢

theorem Settles.right (hl : Settles (evalExpr s (unfolding s) iota l) (.ok a))
    (h : Settles (evalExpr s (unfolding s) iota r >>= fun b =>
      liftExcept (Constant.binary s.types op a b)) res) :
    Settles (evalExpr s (unfolding s) iota (.binary span op l r)) res :=
  hl.bind (refines_evalExpr s iota l) (refines_binary s iota op r a) h

end

theorem defines_of_find? (hd : Scope.find? s name = some d) : s.defines name = true := by
  rw [Scope.defines, hd]
  rfl

theorem Evaluates.settles (h : Evaluates s iota e c) :
    Settles (evalExpr s (unfolding s) iota e) (.ok c) := by
  induction h with
  | literal h =>
    rw [evalExpr, h]
    exact settles_liftExcept _
  | constant hd _ hdecl ih =>
    rw [evalExpr_constant (defines_of_find? hd), ← hdecl]
    exact .of_evalDef hd ih.bind_lift
  | predeclared hd h =>
    rw [evalExpr_predeclared hd, h]
    exact settles_liftExcept _
  | paren _ ih => exact ih
  | call _ happly ih =>
    rw [evalExpr_call (fun what hf => by simp [hf, Callee.apply] at happly), ← happly]
    exact ih.bind_lift
  | unary _ hop ih =>
    rw [← hop]
    exact ih.bind_lift
  | binary _ _ hop ihl ihr =>
    rw [← hop]
    exact ihl.right ihr.bind_lift

theorem Enters.settles_error (h : Enters s iota e e')
    (he : Settles (evalExpr s (unfolding s) iota e') (.error err)) :
    Settles (evalExpr s (unfolding s) iota e) (.error err) := by
  cases h with
  | paren => exact he
  | argument hcallee =>
    rw [evalExpr_call hcallee]
    exact he.bind_error
  | operand => exact he.bind_error
  | left => exact he.bind_error
  | right ha => exact ha.settles.right he.bind_error

theorem Fails.settles (h : Fails s iota e err) :
    Settles (evalExpr s (unfolding s) iota e) (.error err) := by
  induction h with
  | inside hin _ ih => exact hin.settles_error ih
  | constant hd _ ih =>
    rw [evalExpr_constant (defines_of_find? hd)]
    exact .of_evalDef hd ih.bind_error
  | declared hd hc hdecl =>
    rw [evalExpr_constant (defines_of_find? hd), ← hdecl]
    exact .of_evalDef hd hc.settles.bind_lift
  | predeclared hd h =>
    rw [evalExpr_predeclared hd, h]
    exact settles_liftExcept _
  | literal h =>
    rw [evalExpr, h]
    exact settles_liftExcept _
  | selector => exact settles_liftExcept (.error _)
  | call hcallee hc happly =>
    rw [evalExpr_call hcallee, ← happly]
    exact hc.settles.bind_lift
  | notFunction hcallee =>
    rw [evalExpr_notFunction hcallee]
    exact settles_liftExcept (.error _)
  | wrongCount hargs =>
    rw [evalExpr_wrongCount hargs]
    exact settles_liftExcept (.error _)
  | unary hc hop =>
    rw [← hop]
    exact hc.settles.bind_lift
  | binary ha hb hop =>
    rw [← hop]
    exact ha.settles.right hb.settles.bind_lift
  | type => exact settles_liftExcept (.error _)

theorem ComesTo.settles (h : ComesTo s name r) : Settles (unfolding s name) r := by
  cases r with
  | ok c =>
    obtain ⟨d, c₀, hd, hc, hdecl⟩ := h
    rw [← hdecl]
    exact .of_evalDef hd hc.settles.bind_lift
  | error err =>
    cases h with
    | undefined hd => exact ⟨1, by simp [unfolding, unfoldWithin, hd]⟩
    | definition hd hf => exact .of_evalDef hd hf.settles.bind_error
    | declared hd hc hdecl =>
      rw [← hdecl]
      exact .of_evalDef hd hc.settles.bind_lift

theorem ComesTo.unique (h : ComesTo s name r) (h' : ComesTo s name r') : r = r' := by
  obtain ⟨n, hn⟩ := h.settles
  obtain ⟨k, hk⟩ := h'.settles
  exact settled_unique (fun n => unfoldWithin_refines s n name) hn hk

theorem Enters.stuck (h : Enters s iota e e')
    (he : (evalExpr s (unfolding s) iota e' n).run = none) :
    (evalExpr s (unfolding s) iota e n).run = none := by
  cases h with
  | paren => exact he
  | argument hcallee =>
    rw [evalExpr_call hcallee]
    exact run_bind_eq_none.2 (.inl he)
  | operand => exact run_bind_eq_none.2 (.inl he)
  | left => exact run_bind_eq_none.2 (.inl he)
  | @right l a r span op ha =>
    cases hl : (evalExpr s (unfolding s) iota l n).run with
    | none => exact run_bind_eq_none.2 (.inl hl)
    | some outcome =>
      obtain ⟨k, hk⟩ := ha.settles
      obtain rfl := settled_unique (refines_evalExpr s iota l) hl hk
      exact run_bind_eq_none.2 (.inr ⟨a, hl, run_bind_eq_none.2 (.inl he)⟩)

theorem stuck_of_path (h : ReflTransGen (Enters s iota) e e')
    (he : (evalExpr s (unfolding s) iota e' n).run = none) :
    (evalExpr s (unfolding s) iota e n).run = none := by
  induction h using ReflTransGen.head_induction_on with
  | refl => exact he
  | head hin _ ih => exact hin.stuck ih

theorem Calls.demands (h : Calls s name next) : Demands s name next := by
  obtain ⟨d, span, hd, hnext, hpath⟩ := h
  intro n hn
  change (unfolding s name (n + 1)).run = none
  rw [unfolding_succ hd]
  refine run_bind_eq_none.2 (.inl (stuck_of_path hpath ?_))
  rw [evalExpr_constant hnext]
  exact hn

theorem NeverEnds.endless (h : NeverEnds s name) : Endless s name := by
  obtain ⟨chain, rfl, hchain⟩ := h
  intro n
  suffices ∀ i, (unfoldWithin s n (chain i)).run = none from this 0
  induction n with
  | zero => exact fun i => rfl
  | succ n ih => exact fun i => (hchain i).demands n (ih (i + 1))

theorem Settles.not_none (h : Settles u r) : ¬ ∀ n, (u n).run = none := by
  obtain ⟨n, hn⟩ := h
  intro h
  cases hn.symm.trans (h n)

theorem Settles.exists_bind_lift {u : Approximations Const} {g : Const → Except EvalError Const}
    (h : Settles u r) : ∃ r', Settles (u >>= fun c => liftExcept (g c)) r' := by
  cases r with
  | ok c => exact ⟨g c, h.bind_lift⟩
  | error err => exact ⟨.error err, h.bind_error⟩

theorem run_eq_none_of_bind_lift {u : Approximations Const} {g : Const → Except EvalError Const}
    (h : ((u >>= fun c => liftExcept (g c)) n).run = none) : (u n).run = none := by
  obtain h | ⟨c, -, h⟩ := run_bind_eq_none.1 h
  · exact h
  · cases (run_liftExcept_at (g c) n).symm.trans h

theorem evaluates_of_unfolding (h : (evalExpr s (unfolding s) iota e n).run = some (.ok c)) :
    Evaluates s iota e c := by
  rw [evalExpr_unfolding] at h
  exact evaluates_of_evalExpr (fun name c => evaluatesName_of_unfoldWithin) h

theorem Settles.right_stuck (hl : Settles (evalExpr s (unfolding s) iota l) (.ok a))
    (h : ∀ n, (evalExpr s (unfolding s) iota (.binary span op l r) n).run = none) (n : Nat) :
    (evalExpr s (unfolding s) iota r n).run = none := by
  by_contra hn
  obtain ⟨res, hres⟩ := Option.ne_none_iff_exists'.1 hn
  obtain ⟨res', hres'⟩ := Settles.exists_bind_lift (g := binary s.types op a) ⟨n, hres⟩
  have hsettles : Settles (evalExpr s (unfolding s) iota (.binary span op l r)) res' :=
    hl.right hres'
  exact hsettles.not_none h

/-- An evaluation that no depth suffices for gets to a constant of which the same is true. -/
theorem exists_path_endless (h : ∀ n, (evalExpr s (unfolding s) iota e n).run = none) :
    ∃ span next, s.defines next = true ∧ Endless s next ∧
      ReflTransGen (Enters s iota) e (.ident span next) := by
  induction e using evalInduction s with
  | literal span v => cases (run_liftExcept_at _ 0).symm.trans (h 0)
  | constant span name hd =>
    rw [evalExpr_constant hd] at h
    exact ⟨span, name, hd, h, .refl⟩
  | predeclared span name hd =>
    rw [evalExpr_predeclared hd] at h
    cases (run_liftExcept_at _ 0).symm.trans (h 0)
  | paren span e ih =>
    obtain ⟨span, next, hnext, hend, hpath⟩ := ih h
    exact ⟨span, next, hnext, hend, .head .paren hpath⟩
  | selector span base field => cases h 0
  | call span callee arg hcallee ih =>
    rw [evalExpr_call hcallee] at h
    obtain ⟨span, next, hnext, hend, hpath⟩ := ih fun n => run_eq_none_of_bind_lift (h n)
    exact ⟨span, next, hnext, hend, .head (.argument hcallee) hpath⟩
  | notFunction span callee arg what hcallee =>
    rw [evalExpr_notFunction hcallee] at h
    cases h 0
  | wrongCount span callee args hargs =>
    rw [evalExpr_wrongCount hargs] at h
    cases h 0
  | unary span op e ih =>
    obtain ⟨span, next, hnext, hend, hpath⟩ := ih fun n => run_eq_none_of_bind_lift (h n)
    exact ⟨span, next, hnext, hend, .head .operand hpath⟩
  | binary span op l r ihl ihr =>
    by_cases hl : ∀ n, (evalExpr s (unfolding s) iota l n).run = none
    · obtain ⟨span, next, hnext, hend, hpath⟩ := ihl hl
      exact ⟨span, next, hnext, hend, .head .left hpath⟩
    · obtain ⟨k, hk⟩ := not_forall.1 hl
      obtain ⟨_ | a, ha⟩ := Option.ne_none_iff_exists'.1 hk
      · have hfail : Settles (evalExpr s (unfolding s) iota (.binary span op l r)) _ :=
          Settles.bind_error ⟨k, ha⟩
        exact absurd h hfail.not_none
      · obtain ⟨span, next, hnext, hend, hpath⟩ := ihr (Settles.right_stuck ⟨k, ha⟩ h)
        exact ⟨span, next, hnext, hend, .head (.right (evaluates_of_unfolding ha)) hpath⟩
  | type span t => cases h 0

theorem exists_calls_endless (h : Endless s name) : ∃ next, Calls s name next ∧ Endless s next := by
  cases hd : s.find? name with
  | none =>
    have := h 1
    simp [unfoldWithin, hd] at this
  | some d =>
    obtain ⟨span, next, hnext, hend, hpath⟩ :=
      exists_path_endless (e := d.expr) fun n => by
        have hn : (unfolding s name (n + 1)).run = none := h (n + 1)
        rw [unfolding_succ hd] at hn
        exact run_eq_none_of_bind_lift hn
    exact ⟨next, ⟨d, span, hd, hnext, hpath⟩, hend⟩

theorem Endless.neverEnds (h : Endless s name) : NeverEnds s name := by
  have hnext : ∀ name, Endless s name → ∃ next, Calls s name next ∧ Endless s next :=
    fun name => exists_calls_endless
  choose! next hcalls hend using hnext
  refine ⟨fun i => next^[i] name, rfl, fun i => ?_⟩
  have hi : Endless s (next^[i] name) := by
    induction i with
    | zero => exact h
    | succ i ih =>
      rw [Function.iterate_succ_apply']
      exact hend _ ih
  change Calls s (next^[i] name) (next^[i + 1] name)
  rw [Function.iterate_succ_apply']
  exact hcalls _ hi

theorem neverEnds_iff_endless : NeverEnds s name ↔ Endless s name :=
  ⟨NeverEnds.endless, Endless.neverEnds⟩

theorem Meets.comesTo_iff (h : Meets r (unfolding s name)) (hn : ¬ Endless s name) :
    ComesTo s name r' ↔ r' = r := by
  have hr := (h.unfoldsTo hn).comesTo
  constructor
  · exact fun hr' => hr'.unique hr
  · rintro rfl
    exact hr

/-- A name comes to an outcome or calls names without an end, and not both. -/
theorem neverEnds_iff : NeverEnds s name ↔ ∀ r, ¬ ComesTo s name r := by
  rw [neverEnds_iff_endless]
  constructor
  · intro h r hr
    exact hr.settles.not_none h
  · intro h n
    by_contra hn
    obtain ⟨r, hr⟩ := Option.ne_none_iff_exists'.1 hn
    exact h r (UnfoldsTo.comesTo ⟨n, hr⟩)

/-- Between calls no name is under evaluation; no call depends on where the depth of evaluation
ends; each name gets the outcome of its unfolding, or a cycle exactly if that does not end; so the
names asked for before make no difference. -/
theorem evaluation_order_independent (s : Scope) (names names' : List String) :
    (s.memoAfter names).active = [] ∧
    (∀ deeper n name, s.defs.length < n →
      runFrom (evalWithin s deeper n name) (s.memoAfter names) =
        runFrom (s.constant name) (s.memoAfter names)) ∧
    List.Forall₂ (fun name r => ((∃ other, r = .error (.cycle other)) ↔ NeverEnds s name) ∧
      (¬ NeverEnds s name → ∀ r', ComesTo s name r' ↔ r' = r)) names (s.evalAll names) ∧
    ∀ name r r', (name, r) ∈ names.zip (s.evalAll names) →
      (name, r') ∈ names'.zip (s.evalAll names') → SameOutcome r r' := by
  obtain ⟨hrs, hm, ha⟩ := mapM_eval_spec (sound_empty s) rfl names
  obtain ⟨hrs', -, -⟩ := mapM_eval_spec (sound_empty s) rfl names'
  refine ⟨ha, fun deeper n name hn => ?_, ?_, fun name r r' h h' => ?_⟩
  · exact (agree_evalWithin s _ _ _ _ [] .nil (by simp) (by simpa using hn) (by simp) name _ ha).1
  · simp only [neverEnds_iff_endless]
    exact hrs.imp fun name r h => ⟨h.cycle_iff, fun hend r' => h.comesTo_iff hend⟩
  · exact ((List.forall₂_iff_zip.1 hrs).2 h).sameOutcome ((List.forall₂_iff_zip.1 hrs').2 h')

/-- Constants that refer to themselves and to each other, and a quotient by zero that stands in
front of such a constant in one line and after it in another. -/
def circular : Scope where
  defs := [⟨"A", name "A", none, 0⟩, ⟨"B", name "C", none, 0⟩, ⟨"C", name "B", none, 0⟩,
    ⟨"D", sum quotient (name "A"), none, 0⟩, ⟨"E", sum (name "A") quotient, none, 0⟩]
  types := ⟨fun _ => false, fun _ => none⟩
where
  name := Expr.ident ⟨0, 0⟩
  number n := Expr.literal ⟨0, 0⟩ (.int n)
  sum := Expr.binary ⟨0, 0⟩ .add
  quotient := Expr.binary ⟨0, 0⟩ .div (number 1) (number 0)

theorem circular_outcomes :
    circular.evalAll ["B", "C", "D", "E", "A"] =
      [.error (.cycle "B"), .error (.cycle "B"), .error .divisionByZero, .error (.cycle "A"),
        .error (.cycle "A")] ∧
    circular.evalAll ["C", "B"] = [.error (.cycle "C"), .error (.cycle "C")] ∧
    NeverEnds circular "A" ∧ NeverEnds circular "B" ∧ NeverEnds circular "E" ∧
    ComesTo circular "D" (.error .divisionByZero) := by
  have hrun : circular.evalAll ["B", "C", "D", "E", "A"] =
      [.error (.cycle "B"), .error (.cycle "B"), .error .divisionByZero, .error (.cycle "A"),
        .error (.cycle "A")] := by rfl
  obtain ⟨-, -, h, -⟩ := evaluation_order_independent circular ["B", "C", "D", "E", "A"] []
  rw [hrun] at h
  obtain ⟨⟨hb, -⟩, -, ⟨hd, hcomes⟩, ⟨he, -⟩, ha, -⟩ := by simpa using h
  exact ⟨hrun, by rfl, ha, hb, he, by simp [hcomes hd]⟩

end GoEnum.Constant
