import GoEnum.Proofs.Syntax.Signature
import GoEnum.Proofs.Token.Line

namespace GoEnum.Syntax

open Token

structure TypeSpec.Defines (spec : TypeSpec) (name : String) (t : TypeExpr) : Prop where
  name : spec.name.node = name
  isAlias : spec.isAlias = false
  isGeneric : spec.isGeneric = false
  type : spec.type.node = t

/-- No function is a part of the type, its names are identifiers, and type arguments are given to
names only. -/
inductive TypeExpr.Displayable : TypeExpr → Prop
  | named : isIdentifier name → Displayable (.named name)
  | qualified : isIdentifier package → isIdentifier name → Displayable (.qualified package name)
  | applied : base.IsName → Displayable base → (∀ t ∈ args, Displayable t) →
      Displayable (.applied base args)
  | pointer : Displayable t → Displayable (.pointer t)
  | slice : Displayable t → Displayable (.slice t)
  | array : Displayable t → Displayable (.array t)
  | map : Displayable key → Displayable value → Displayable (.map key value)
  | chan : Displayable t → Displayable (.chan t)
  | struct : Displayable .struct
  | interface : Displayable .interface

mutual

def TypeExpr.textKinds : TypeExpr → List TokenKind
  | .named n => [.ident n]
  | .qualified p n => [.ident p, .punctuation .dot, .ident n]
  | .applied t args =>
    t.textKinds ++ .punctuation .lbracket ::
      (separated (textKindsAll args) ++ [.punctuation .rbracket])
  | .pointer t => .operator .star :: t.textKinds
  | .slice t => .punctuation .lbracket :: .punctuation .rbracket :: t.textKinds
  | .array t => .punctuation .lbracket :: .ident "N" :: .punctuation .rbracket :: t.textKinds
  | .map k v =>
    .keyword .map :: .punctuation .lbracket ::
      (k.textKinds ++ .punctuation .rbracket :: v.textKinds)
  | .chan t => .keyword .chan :: t.textKinds
  | .func _ => [.keyword .func, .punctuation .lparen, .punctuation .ellipsis, .punctuation .rparen]
  | .struct =>
    [.keyword .struct, .punctuation .lbrace, .punctuation .ellipsis, .punctuation .rbrace]
  | .interface =>
    [.keyword .interface, .punctuation .lbrace, .punctuation .ellipsis, .punctuation .rbrace]

def textKindsAll : List TypeExpr → List (List TokenKind)
  | [] => []
  | t :: ts => t.textKinds :: textKindsAll ts

end

section

variable {t : TypeExpr} {ts : List TypeExpr}

theorem textKinds_of_isName (h : t.IsName) : t.textKinds = t.nameKinds := by
  cases h <;> rfl

theorem endsAfter_textKinds (h : t.Displayable) (ends : Bool) :
    endsAfter ends t.textKinds = true := by
  induction h generalizing ends with
  | applied =>
    rw [TypeExpr.textKinds, ← List.cons_append, endsAfter_append, endsAfter_append]
    rfl
  | pointer _ ih => exact ih _
  | slice _ ih => exact ih _
  | array _ ih => exact ih _
  | chan _ ih => exact ih _
  | map _ _ _ ih =>
    rw [TypeExpr.textKinds, ← List.cons_append, ← List.cons_append, endsAfter_append]
    exact ih _
  | _ => rfl

theorem stops_text (h : t.Displayable) (rest : List Char) :
    Stops (· == '=') (t.text.toList ++ rest) := by
  have hname : ∀ {name : String} (ls : List Char), isIdentifier name →
      Stops (· == '=') (name.toList ++ ls) := by
    intro name ls hname
    obtain ⟨c, cs, hs, hc, -⟩ := exists_cons_of_isIdentifier hname
    rw [hs]
    refine stops_cons (beq_eq_false_iff_ne.2 ?_)
    rintro rfl
    cases hc
  induction h generalizing rest with
  | named h => exact hname rest h
  | qualified h =>
    simp only [TypeExpr.text, String.toList_append, List.append_assoc]
    exact hname _ h
  | applied _ _ _ ih =>
    simp only [TypeExpr.text, String.toList_append, List.append_assoc]
    exact ih _
  | _ =>
    simp only [TypeExpr.text, String.toList_append, List.append_assoc]
    exact stops_cons (by decide)

theorem reads_separated (h : ∀ t ∈ ts, Reads (Stops isIdentPart) t.text.toList t.textKinds) :
    Reads (Stops isIdentPart) (TypeExpr.textList ts).toList (separated (textKindsAll ts)) := by
  induction ts with
  | nil => exact reads_nil
  | cons t ts ih =>
    obtain ⟨ht, hts⟩ := List.forall_mem_cons.1 h
    cases ts with
    | nil => exact ht
    | cons u ts =>
      have hcomma : Reads Anything [','] [.punctuation .comma] := reads_mark fun _ => rfl
      have hrest := hcomma.followed (reads_space.followed (ih hts))
      simp only [TypeExpr.textList, String.toList_append, List.append_assoc]
      exact ht.append hrest fun _ _ => stops_cons (by decide)

theorem reads_dottedBody (k : Keyword) :
    Reads (Stops isIdentPart) (k.spelling.toList ++ ['{', '.', '.', '.', '}'])
      [.keyword k, .punctuation .lbrace, .punctuation .ellipsis, .punctuation .rbrace] := by
  have hopen : Reads Anything ['{'] [.punctuation .lbrace] := reads_mark fun _ => rfl
  have hclose : Reads Anything ['}'] [.punctuation .rbrace] := reads_mark fun _ => rfl
  have hbody := hopen.followed (reads_ellipsis.followed hclose)
  have hread := (reads_keyword k).append hbody fun _ _ => stops_cons (by decide)
  exact hread.weaken fun _ _ => trivial

theorem reads_text (h : t.Displayable) : Reads (Stops isIdentPart) t.text.toList t.textKinds := by
  have hopen : Reads Anything ['['] [.punctuation .lbracket] := reads_mark fun _ => rfl
  have hclose : Reads Anything [']'] [.punctuation .rbracket] := reads_mark fun _ => rfl
  induction h with
  | named hname => exact reads_ident hname
  | @qualified package name hpackage hname =>
    obtain ⟨c, cs, hs, hc, -⟩ := exists_cons_of_isIdentifier hname
    have hdotted := reads_dot.append (reads_ident hname) fun rest _ => by
      rw [hs]
      exact afterDot_of_isIdentStart hc _
    simp only [TypeExpr.text, String.toList_append, List.append_assoc]
    exact (reads_ident hpackage).append hdotted fun _ _ => stops_cons (by decide)
  | applied _ _ _ hbase hargs =>
    have hlist := (reads_separated hargs).append hclose fun _ _ => stops_cons (by decide)
    have hread := hbase.append (hopen.followed hlist) fun _ _ => stops_cons (by decide)
    simp only [TypeExpr.text, String.toList_append, List.append_assoc]
    exact hread.weaken fun _ _ => trivial
  | pointer ht ih =>
    simp only [TypeExpr.text, String.toList_append]
    exact reads_star.append ih fun rest _ => stops_text ht rest
  | slice _ ih =>
    simp only [TypeExpr.text, String.toList_append]
    exact hopen.followed (hclose.followed ih)
  | array _ ih =>
    have hlength := (reads_ident (s := "N") (by decide)).append (hclose.followed ih) fun _ _ =>
      stops_cons (by decide)
    simp only [TypeExpr.text, String.toList_append]
    exact hopen.followed hlength
  | map _ _ hkey hvalue =>
    have hrest := hkey.append (hclose.followed hvalue) fun _ _ => stops_cons (by decide)
    simp only [TypeExpr.text, String.toList_append, List.append_assoc]
    exact (reads_keyword .map).append (hopen.followed hrest) fun _ _ => stops_cons (by decide)
  | chan _ ih =>
    simp only [TypeExpr.text, String.toList_append]
    exact (reads_keyword .chan).append (reads_space.followed ih) fun _ _ => stops_cons (by decide)
  | struct => exact reads_dottedBody .struct
  | interface => exact reads_dottedBody .interface

end

end GoEnum.Syntax
