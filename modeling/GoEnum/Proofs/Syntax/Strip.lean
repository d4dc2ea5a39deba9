import GoEnum.Proofs.Syntax.Spelling

namespace GoEnum

variable (g : String → String)

namespace Token

def Spanned.strip (f : α → β) (x : Spanned α) : Spanned β := ⟨f x.node, .point 0⟩

def TokenKind.strip : TokenKind → TokenKind
  | .string s => .string (g s)
  | k => k

def TokenKind.isString : TokenKind → Bool
  | .string _ => true
  | _ => false

theorem TokenKind.strip_eq_eof : TokenKind.strip g k = .eof ↔ k = .eof := by
  cases k <;> simp [strip]

theorem TokenKind.strip_beq (h : k.isString = false) (l : TokenKind) :
    (l.strip g == k) = (l == k) := by
  cases l with
  | string s =>
    have hk : ∀ t, (TokenKind.string t == k) = false := by
      intro t
      refine beq_false_of_ne ?_
      rintro rfl
      cases h
    rw [TokenKind.strip, hk, hk]
  | _ => rfl

end Token

namespace Syntax

open Token (Spanned)

def Literal.strip : Literal → Literal
  | .string s => .string (g s)
  | v => v

mutual

def Expr.strip : Expr → Expr
  | .literal _ v => .literal (.point 0) (v.strip g)
  | .ident _ name => .ident (.point 0) name
  | .selector _ base name => .selector (.point 0) base.strip name
  | .call _ callee args => .call (.point 0) callee.strip (Expr.stripList args)
  | .unary _ op operand => .unary (.point 0) op operand.strip
  | .binary _ op left right => .binary (.point 0) op left.strip right.strip
  | .paren _ inner => .paren (.point 0) inner.strip
  | .type _ t => .type (.point 0) t

def Expr.stripList : List Expr → List Expr
  | [] => []
  | e :: es => e.strip :: Expr.stripList es

end

theorem Expr.stripList_eq (es : List Expr) : Expr.stripList g es = es.map (Expr.strip g) := by
  induction es with
  | nil => rw [stripList, List.map_nil]
  | cons e es ih => rw [stripList, ih, List.map_cons]

theorem Expr.span_strip (e : Expr) : (e.strip g).span = .point 0 := by
  cases e <;> simp [strip, span]

def ConstSpec.strip (s : ConstSpec) : ConstSpec :=
  ⟨s.names.map (Spanned.strip id), s.type.map (Spanned.strip id), s.values.map (Expr.strip g),
    s.iota⟩

def ConstDecl.strip (d : ConstDecl) : ConstDecl :=
  ⟨d.grouped, d.specs.map (Spanned.strip (ConstSpec.strip g))⟩

def TypeSpec.strip (s : TypeSpec) : TypeSpec :=
  ⟨s.name.strip id, s.isAlias, s.isGeneric, s.type.strip id⟩

def Receiver.strip (r : Receiver) : Receiver := ⟨r.name, r.type.strip id⟩

def FuncDecl.strip (d : FuncDecl) : FuncDecl :=
  ⟨d.receiver.map Receiver.strip, d.name.strip id, d.signature, d.hasBody⟩

def Decl.strip : Decl → Decl
  | .const d => .const (d.strip g)
  | .var names => .var (names.map (Spanned.strip id))
  | .type specs => .type (specs.map (Spanned.strip TypeSpec.strip))
  | .func d => .func d.strip

def ImportSpec.strip (s : ImportSpec) : ImportSpec := ⟨s.localName, g s.path⟩

def File.strip (f : File) : File :=
  ⟨f.package.strip id, f.imports.map (ImportSpec.strip g),
    f.decls.map (Spanned.strip (Decl.strip g))⟩

end Syntax

end GoEnum
