import GoEnum.Syntax.File
import GoEnum.Token.Basic

namespace GoEnum.Syntax

open Token

def separated : List (List TokenKind) → List TokenKind
  | [] => []
  | [ks] => ks
  | ks :: kss => ks ++ .punctuation .comma :: separated kss

theorem length_separated (kss : List (List TokenKind)) :
    kss.length ≤ (separated kss).length + 1 := by
  induction kss with
  | nil => simp
  | cons ks kss ih =>
    cases kss with
    | nil => simp
    | cons ls kss =>
      simp only [separated, List.length_append, List.length_cons] at ih ⊢
      omega

def Literal.kind : Literal → TokenKind
  | .int n => .int n
  | .float x => .float x
  | .imaginary x => .imaginary x
  | .rune c => .rune c
  | .string s => .string s

namespace Expr

/-- How tightly an expression holds together: a binary operator by its precedence, which is five at
most, a unary operator more, and all other expressions most. -/
def level : Expr → Nat
  | .binary _ op _ _ => op.precedence
  | .unary .. => 6
  | _ => 7

/-- Every part holds together more tightly than what it is a part of, on the left of a binary
operator at least as tightly. -/
inductive Grouped : Expr → Prop
  | literal : Grouped (.literal s v)
  | ident : Grouped (.ident s name)
  | selector : 6 < base.level → Grouped base → Grouped (.selector s base name)
  | call : 6 < callee.level → Grouped callee → (∀ a ∈ args, Grouped a) →
      Grouped (.call s callee args)
  | unary : 6 ≤ e.level → Grouped e → Grouped (.unary s op e)
  | binary : op.precedence ≤ l.level → op.precedence < r.level → Grouped l → Grouped r →
      Grouped (.binary s op l r)
  | paren : Grouped e → Grouped (.paren s e)
  | type : Grouped (.type s t)

inductive TypeFree : Expr → Prop
  | literal : TypeFree (.literal s v)
  | ident : TypeFree (.ident s name)
  | selector : TypeFree base → TypeFree (.selector s base name)
  | call : TypeFree callee → (∀ a ∈ args, TypeFree a) → TypeFree (.call s callee args)
  | unary : TypeFree e → TypeFree (.unary s op e)
  | binary : TypeFree l → TypeFree r → TypeFree (.binary s op l r)
  | paren : TypeFree e → TypeFree (.paren s e)

mutual

def bare : Expr → Expr
  | .literal _ v => .literal (.point 0) v
  | .ident _ name => .ident (.point 0) name
  | .selector _ base name => .selector (.point 0) base.bare name
  | .call _ callee args => .call (.point 0) callee.bare (bareAll args)
  | .unary _ op e => .unary (.point 0) op e.bare
  | .binary _ op l r => .binary (.point 0) op l.bare r.bare
  | .paren _ e => .paren (.point 0) e.bare
  | .type _ t => .type (.point 0) t

def bareAll : List Expr → List Expr
  | [] => []
  | e :: es => e.bare :: bareAll es

end

mutual

def kinds : Expr → List TokenKind
  | .literal _ v => [v.kind]
  | .ident _ name => [.ident name]
  | .selector _ base name => base.kinds ++ [.punctuation .dot, .ident name]
  | .call _ callee args =>
    callee.kinds ++ .punctuation .lparen :: (separated (kindsAll args) ++ [.punctuation .rparen])
  | .unary _ op e => .operator op.operator :: e.kinds
  | .binary _ op l r => l.kinds ++ .operator op.operator :: r.kinds
  | .paren _ e => .punctuation .lparen :: (e.kinds ++ [.punctuation .rparen])
  | .type .. => []

def kindsAll : List Expr → List (List TokenKind)
  | [] => []
  | e :: es => e.kinds :: kindsAll es

end

mutual

/-- The spellings of an expression, in which a comma may follow the last argument of a call. Types
that are more than names are not told apart by their tokens. -/
inductive Spells : Expr → List TokenKind → Prop
  | literal : Spells (.literal s v) [v.kind]
  | ident : Spells (.ident s name) [.ident name]
  | selector : Spells base ks →
      Spells (.selector s base name) (ks ++ [.punctuation .dot, .ident name])
  | call : Spells callee ks → SpellsArgs args ls →
      Spells (.call s callee args)
        (ks ++ .punctuation .lparen :: (ls ++ [.punctuation .rparen]))
  | unary : Spells e ks → Spells (.unary s op e) (.operator op.operator :: ks)
  | binary : Spells l ks → Spells r ls →
      Spells (.binary s op l r) (ks ++ .operator op.operator :: ls)
  | paren : Spells e ks →
      Spells (.paren s e) (.punctuation .lparen :: (ks ++ [.punctuation .rparen]))
  | type : ks ≠ [] → Spells (.type s t) ks

inductive SpellsArgs : List Expr → List TokenKind → Prop
  | none : SpellsArgs [] []
  | last : Spells e ks → SpellsArgs [e] ks
  | comma : Spells e ks → SpellsArgs es ls → SpellsArgs (e :: es) (ks ++ .punctuation .comma :: ls)

end

theorem bareAll_eq (es : List Expr) : bareAll es = es.map bare := by
  induction es with
  | nil => rfl
  | cons e es ih => simp [bareAll, ih]

theorem precedence_le (op : BinaryOp) : op.precedence ≤ 5 := by cases op <;> decide

theorem precedence_pos (op : BinaryOp) : 0 < op.precedence := by cases op <;> decide

theorem level_pos (e : Expr) : 0 < e.level := by
  cases e with
  | binary s op l r => exact precedence_pos op
  | _ => exact Nat.succ_pos _

theorem level_le (e : Expr) : e.level ≤ 7 := by
  cases e with
  | binary s op l r => exact Nat.le_trans (precedence_le op) (by decide)
  | _ => simp [level]

theorem Spells.ne_nil (h : Spells e ks) : ks ≠ [] := by
  cases h <;> simp_all

mutual

theorem spells_kinds : (e : Expr) → e.TypeFree → Spells e e.kinds
  | .literal .., _ => .literal
  | .ident .., _ => .ident
  | .selector _ base _, .selector h => .selector (spells_kinds base h)
  | .call _ callee args, .call h hargs =>
    .call (spells_kinds callee h) (spellsArgs_kinds args hargs)
  | .unary _ _ e, .unary h => .unary (spells_kinds e h)
  | .binary _ _ l r, .binary hl hr => .binary (spells_kinds l hl) (spells_kinds r hr)
  | .paren _ e, .paren h => .paren (spells_kinds e h)

theorem spellsArgs_kinds : (es : List Expr) → (∀ e ∈ es, e.TypeFree) →
    SpellsArgs es (separated (kindsAll es))
  | [], _ => .none
  | [e], h => .last (spells_kinds e (h e List.mem_cons_self))
  | e :: d :: es, h => .comma (spells_kinds e (h e List.mem_cons_self))
      (spellsArgs_kinds (d :: es) fun x hx => h x (List.mem_cons_of_mem e hx))

end

end Expr

inductive TypeExpr.IsName : TypeExpr → Prop
  | named : IsName (.named name)
  | qualified : IsName (.qualified package name)

def TypeExpr.nameKinds : TypeExpr → List TokenKind
  | .named name => [.ident name]
  | .qualified package name => [.ident package, .punctuation .dot, .ident name]
  | _ => []

namespace ConstSpec

def tailKinds (spec : ConstSpec) : List TokenKind :=
  match spec.values with
  | [] => []
  | values => (spec.type.elim [] fun type => type.node.nameKinds) ++
      .operator .assign :: separated (values.map Expr.kinds)

def kinds (spec : ConstSpec) : List TokenKind :=
  separated (spec.names.map fun name => [.ident name.node]) ++ spec.tailKinds

structure WellFormed (spec : ConstSpec) : Prop where
  names : spec.names ≠ []
  type : ∀ type ∈ spec.type, type.node.IsName ∧ spec.values ≠ []
  arity : spec.values ≠ [] → spec.values.length = spec.names.length
  values : ∀ e ∈ spec.values, e.TypeFree ∧ e.Grouped

/-- The shape of line `i` of a declaration: its number is `i`, it has names, and it has a value for
each of them or, unless it is the first, neither values nor a type. -/
structure ShapedAt (spec : ConstSpec) (i : Nat) : Prop where
  iota : spec.iota = i
  names : spec.names ≠ []
  first : i = 0 → spec.values ≠ []
  arity : spec.values = [] ∧ spec.type = none ∨ spec.values.length = spec.names.length

section

variable {spec : ConstSpec}

theorem WellFormed.untyped (h : spec.WellFormed) (hvalues : spec.values = []) : spec.type = none :=
  Option.eq_none_iff_forall_ne_some.2 fun type htype => (h.type type htype).2 hvalues

theorem WellFormed.shapedAt (h : spec.WellFormed) (hfirst : spec.iota = 0 → spec.values ≠ []) :
    spec.ShapedAt spec.iota where
  iota := rfl
  names := h.names
  first := hfirst
  arity := by
    by_cases hvalues : spec.values = []
    · exact .inl ⟨hvalues, h.untyped hvalues⟩
    · exact .inr (h.arity hvalues)

end

def bare (spec : ConstSpec) : ConstSpec where
  names := spec.names.map fun name => ⟨name.node, .point 0⟩
  type := spec.type.map fun type => ⟨type.node, .point 0⟩
  values := spec.values.map Expr.bare
  iota := spec.iota

end ConstSpec

namespace ConstDecl

def kinds (decl : ConstDecl) : List TokenKind :=
  .keyword .const ::
    if decl.grouped then
      .punctuation .lparen ::
        (decl.specs.flatMap (·.node.kinds ++ [.punctuation .semicolon]) ++
          [.punctuation .rparen])
    else decl.specs.flatMap (·.node.kinds)

structure WellFormed (decl : ConstDecl) : Prop where
  lines : ∀ spec ∈ decl.specs, spec.node.WellFormed
  iota : ∀ (i : Nat) (spec : Spanned ConstSpec), decl.specs[i]? = some spec → spec.node.iota = i
  first : ∀ spec : Spanned ConstSpec, decl.specs[0]? = some spec → spec.node.values ≠ []
  single : decl.grouped = false → ∃ spec, decl.specs = [spec]

structure Shaped (decl : ConstDecl) : Prop where
  lines : ∀ (i : Nat) (spec : Spanned ConstSpec), decl.specs[i]? = some spec → spec.node.ShapedAt i
  single : decl.grouped = false → ∃ spec, decl.specs = [spec]

def bare (decl : ConstDecl) : ConstDecl where
  grouped := decl.grouped
  specs := decl.specs.map fun spec => ⟨spec.node.bare, .point 0⟩

end ConstDecl

end GoEnum.Syntax
