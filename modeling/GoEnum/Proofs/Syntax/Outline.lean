import GoEnum.Syntax.File

/-!
The spans of a syntax tree, and what it is for them to nest.
-/

namespace GoEnum.Syntax

open Token (Span Spanned)

/-- The spans of a tree: that of a node, and those of its parts in order. -/
inductive Outline
  | node (span : Span) (parts : List Outline)

namespace Outline

def leaf (s : Span) : Outline := .node s []

def of (x : Spanned α) : Outline := .leaf x.span

def children : Outline → List Outline
  | .node _ parts => parts

mutual

def spans : Outline → List Span
  | .node s parts => s :: spansOf parts

def spansOf : List Outline → List Span
  | [] => []
  | o :: os => o.spans ++ spansOf os

end

/-- The outlines lie between two bytes, one after the other. None is empty, and the parts of each
lie inside it in the same way. -/
inductive Nested : Nat → Nat → List Outline → Prop
  | nil : Nested lo hi []
  | cons : lo ≤ s.start → s.start < s.stop → s.stop ≤ hi → Nested s.start s.stop parts →
      Nested s.stop hi os → Nested lo hi (.node s parts :: os)

section

variable {lo hi mid mid' : Nat} {s t : Span} {os us vs : List Outline} {parts : List Outline}

theorem nested_leaf (hlo : lo ≤ s.start) (hne : s.start < s.stop) (hhi : s.stop ≤ hi) :
    Nested lo hi [leaf s] :=
  .cons hlo hne hhi .nil .nil

theorem Nested.mono (h : Nested lo hi os) (hlo : lo' ≤ lo) (hhi : hi ≤ hi') :
    Nested lo' hi' os := by
  induction h generalizing lo' with
  | nil => exact .nil
  | cons hstart hne hstop hparts _ _ ih =>
    exact .cons (Nat.le_trans hlo hstart) hne (Nat.le_trans hstop hhi) hparts
      (ih (Nat.le_refl _) hhi)

theorem Nested.append (hus : Nested lo mid us) (hvs : Nested mid' hi vs) (hmid : mid ≤ mid')
    (hlo : lo ≤ mid') (hhi : mid ≤ hi) : Nested lo hi (us ++ vs) := by
  induction hus with
  | nil => exact hvs.mono hlo (Nat.le_refl _)
  | cons hstart hne hstop hparts _ _ ih =>
    exact .cons hstart hne (Nat.le_trans hstop hhi) hparts
      (ih hmid (Nat.le_trans hstop hmid) hhi)

theorem Nested.cons_iff : Nested lo hi (.node s parts :: os) ↔
    lo ≤ s.start ∧ s.start < s.stop ∧ s.stop ≤ hi ∧ Nested s.start s.stop parts ∧
      Nested s.stop hi os := by
  constructor
  · intro h
    cases h with
    | cons hstart hne hstop hparts hrest => exact ⟨hstart, hne, hstop, hparts, hrest⟩
  · rintro ⟨hstart, hne, hstop, hparts, hrest⟩
    exact .cons hstart hne hstop hparts hrest

theorem Nested.enclose (h : Nested lo hi (.node s parts :: os)) (hend : s.stop ≤ stop)
    (hos : Nested s.stop stop os) (hstop : stop ≤ hi) :
    Nested lo hi [.node ⟨s.start, stop⟩ (.node s parts :: os)] := by
  obtain ⟨hstart, hne, -, hparts, -⟩ := Nested.cons_iff.1 h
  exact .cons hstart (Nat.lt_of_lt_of_le hne hend) hstop
    (.cons (Nat.le_refl _) hne hend hparts hos) .nil

theorem Nested.mem_spans (h : Nested lo hi os) :
    ∀ s ∈ spansOf os, lo ≤ s.start ∧ s.start < s.stop ∧ s.stop ≤ hi := by
  induction h with
  | nil => simp [spansOf]
  | @cons lo s hi parts os hstart hne hstop _ _ ihparts ihrest =>
    intro t ht
    rw [spansOf, spans, List.cons_append, List.mem_cons, List.mem_append] at ht
    obtain rfl | ht | ht := ht
    · exact ⟨hstart, hne, hstop⟩
    · obtain ⟨hlo, hlt, hhi⟩ := ihparts t ht
      exact ⟨Nat.le_trans hstart hlo, hlt, Nat.le_trans hhi hstop⟩
    · obtain ⟨hlo, hlt, hhi⟩ := ihrest t ht
      exact ⟨Nat.le_trans hstart (Nat.le_trans (Nat.le_of_lt hne) hlo), hlt, hhi⟩

end

end Outline

mutual

def Expr.outline : Expr → Outline
  | .literal s _ | .ident s _ | .type s _ => .leaf s
  | .selector s base _ => .node s [base.outline]
  | .call s callee args => .node s (callee.outline :: Expr.outlines args)
  | .unary s _ operand => .node s [operand.outline]
  | .binary s _ left right => .node s [left.outline, right.outline]
  | .paren s inner => .node s [inner.outline]

def Expr.outlines : List Expr → List Outline
  | [] => []
  | e :: es => e.outline :: Expr.outlines es

end

theorem Expr.outlines_eq (es : List Expr) : Expr.outlines es = es.map Expr.outline := by
  induction es with
  | nil => rfl
  | cons e es ih => rw [Expr.outlines, ih, List.map_cons]

theorem Expr.outline_eq (e : Expr) : e.outline = .node e.span e.outline.children := by
  cases e <;> rw [Expr.outline] <;> rfl

def ConstSpec.parts (s : ConstSpec) : List Outline :=
  s.names.map Outline.of ++ (s.type.toList.map Outline.of ++ s.values.map Expr.outline)

def TypeSpec.parts (s : TypeSpec) : List Outline := [Outline.of s.name, Outline.of s.type]

def FuncDecl.parts (d : FuncDecl) : List Outline :=
  d.receiver.toList.map (fun r => Outline.of r.type) ++ [Outline.of d.name]

def Decl.parts : Decl → List Outline
  | .const d => d.specs.map fun s => .node s.span s.node.parts
  | .var names => names.map Outline.of
  | .type specs => specs.map fun s => .node s.span s.node.parts
  | .func d => d.parts

def File.outline (f : File) : List Outline :=
  Outline.of f.package :: f.decls.map fun d => .node d.span d.node.parts

end GoEnum.Syntax
