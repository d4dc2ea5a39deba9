import GoEnum.Proofs.Syntax.Signature

namespace GoEnum.Syntax

open Token

namespace TypeExpr

inductive IsSimple : TypeExpr → Prop
  | name : t.IsName → IsSimple t
  | pointer : IsSimple t → IsSimple (.pointer t)
  | slice : IsSimple t → IsSimple (.slice t)
  | interface : IsSimple .interface

def kinds : TypeExpr → List TokenKind
  | .pointer t => .operator .star :: t.kinds
  | .slice t => .punctuation .lbracket :: .punctuation .rbracket :: t.kinds
  | .interface => [.keyword .interface, .punctuation .lbrace, .punctuation .rbrace]
  | t => t.nameKinds

theorem kinds_of_isName {t : TypeExpr} (ht : t.IsName) : t.kinds = t.nameKinds := by
  cases ht <;> rfl

theorem IsSimple.spells {t : TypeExpr} (ht : t.IsSimple) : t.Spells t.kinds := by
  induction ht with
  | name hname =>
    rw [kinds_of_isName hname]
    exact .name hname
  | pointer _ ih => exact .pointer ih
  | slice _ ih => exact .slice ih
  | interface => exact .interface balanced_nil

end TypeExpr

def Param.IsSimple (p : Param TypeExpr) : Prop := p.type.IsSimple ∧ p.variadic = false

def Param.kinds (p : Param TypeExpr) : List TokenKind :=
  (p.name.elim [] fun name => [.ident name]) ++ p.type.kinds

structure SimpleParams (ps : List (Param TypeExpr)) : Prop where
  simple : ∀ p ∈ ps, p.IsSimple
  uniform : (∀ p ∈ ps, p.name.isNone) ∨ ∀ p ∈ ps, p.name.isSome

def unnamed (ts : List TypeExpr) : List (Param TypeExpr) := ts.map fun t => ⟨none, t, false⟩

theorem simpleParams_nil : SimpleParams [] := ⟨by simp, .inl (by simp)⟩

theorem simpleParams_named (ht : t.IsSimple) (name : String) :
    SimpleParams [⟨some name, t, false⟩] :=
  ⟨List.forall_mem_singleton.2 ⟨ht, rfl⟩, .inr (by simp)⟩

theorem simpleParams_unnamed {ts : List TypeExpr} (h : ∀ t ∈ ts, t.IsSimple) :
    SimpleParams (unnamed ts) := by
  refine ⟨fun p hp => ?_, .inl fun p hp => ?_⟩
  · obtain ⟨t, ht, rfl⟩ := List.mem_map.1 hp
    exact ⟨h t ht, rfl⟩
  · obtain ⟨t, -, rfl⟩ := List.mem_map.1 hp
    rfl

def paramKinds (ps : List (Param TypeExpr)) : List TokenKind :=
  .punctuation .lparen :: (separated (ps.map Param.kinds) ++ [.punctuation .rparen])

theorem SimpleParams.spells (h : SimpleParams ps) :
    ∃ named, SpellsParams named ps (ps.map Param.kinds) := by
  have hspells : ∀ named, (∀ p ∈ ps, p.name.isSome = named) →
      SpellsParams named ps (ps.map Param.kinds) := by
    intro named hnamed
    have hsimple := h.simple
    clear h
    induction ps with
    | nil => exact .nil
    | cons p ps ih =>
      obtain ⟨⟨ht, hvariadic⟩, hps⟩ := List.forall_mem_cons.1 hsimple
      obtain ⟨hname, hnames⟩ := List.forall_mem_cons.1 hnamed
      exact .cons hname hvariadic ht.spells (ih hnames hps)
  obtain hnone | hsome := h.uniform
  · exact ⟨false, hspells false fun p hp => by simpa using hnone p hp⟩
  · exact ⟨true, hspells true hsome⟩

def resultKinds : List (Param TypeExpr) → List TokenKind
  | [] => []
  | [⟨none, t, _⟩] => t.kinds
  | ps => paramKinds ps

namespace Signature

structure IsSimple (s : Signature TypeExpr) : Prop where
  params : SimpleParams s.params
  results : SimpleParams s.results

def kinds (s : Signature TypeExpr) : List TokenKind := paramKinds s.params ++ resultKinds s.results

theorem IsSimple.spells {s : Signature TypeExpr} (h : s.IsSimple) : s.Spells s.kinds := by
  obtain ⟨params, results⟩ := s
  obtain ⟨hparams, hresults⟩ := h
  obtain ⟨_, hps⟩ := hparams.spells
  refine .mk hps ?_
  dsimp only at hresults ⊢
  unfold resultKinds
  split
  · exact .none
  · rename_i t variadic
    obtain ⟨ht, hvariadic⟩ := hresults.simple _ List.mem_cons_self
    obtain rfl : variadic = false := hvariadic
    exact .single ht.spells
  · obtain ⟨_, hrs⟩ := hresults.spells
    exact .list hrs

end Signature

/-- A method as it is written. The name of the receiver may be blank. -/
structure MethodText where
  receiver : String
  receiverType : TypeExpr
  name : String
  signature : Signature TypeExpr
  body : List TokenKind

namespace MethodText

def head (m : MethodText) : List TokenKind :=
  .keyword .func :: .punctuation .lparen :: .ident m.receiver :: (m.receiverType.kinds ++
    .punctuation .rparen :: .ident m.name :: m.signature.kinds)

def kinds (m : MethodText) : List TokenKind :=
  m.head ++ .punctuation .lbrace :: m.body ++ [.punctuation .rbrace]

structure WellFormed (m : MethodText) : Prop where
  receiverType : (∃ base, m.receiverType = .named base) ∨
    ∃ base, m.receiverType = .pointer (.named base)
  signature : m.signature.IsSimple
  body : Balanced m.body

structure IsDeclared (m : MethodText) (f : FuncDecl) : Prop where
  receiver : ∃ r, f.receiver = some r ∧ r.type.node = m.receiverType ∧
    r.name = if m.receiver = blankName then none else some m.receiver
  name : f.name.node = m.name
  signature : f.signature = m.signature
  hasBody : f.hasBody = true

def decl (m : MethodText) : FuncDecl where
  receiver := some ⟨if m.receiver = blankName then none else some m.receiver,
    ⟨m.receiverType, .point 0⟩⟩
  name := ⟨m.name, .point 0⟩
  signature := m.signature
  hasBody := true

theorem WellFormed.spells {m : MethodText} (hm : m.WellFormed) : m.decl.Spells m.kinds := by
  have hkinds : m.kinds = .keyword .func :: ((.punctuation .lparen :: .ident m.receiver ::
      (m.receiverType.kinds ++ [.punctuation .rparen])) ++ .ident m.name :: (m.signature.kinds ++
        .punctuation .lbrace :: (m.body ++ [.punctuation .rbrace]))) := by
    simp [kinds, head]
  have htype : m.receiverType.IsReceiver ∧ m.receiverType.IsSimple := by
    obtain ⟨base, hbase⟩ | ⟨base, hbase⟩ := hm.receiverType
    · rw [hbase]
      exact ⟨.named, .name .named⟩
    · rw [hbase]
      exact ⟨.pointerNamed, .pointer (.name .named)⟩
  rw [hkinds]
  refine FuncDecl.Spells.mk (f := m.decl) (.some ?_) hm.signature.spells (.body hm.body)
  by_cases hblank : m.receiver = blankName
  · rw [if_pos hblank, hblank]
    exact .blank htype.1 htype.2.spells
  · rw [if_neg hblank]
    exact .named hblank htype.1 htype.2.spells

theorem isDeclared_of_strip {m : MethodText} {f : FuncDecl} (h : f.strip = m.decl.strip) :
    m.IsDeclared f := by
  obtain ⟨receiver, name, signature, hasBody⟩ := f
  simp only [FuncDecl.strip, decl, Option.map_some, FuncDecl.mk.injEq, Option.map_eq_some_iff]
    at h
  obtain ⟨⟨r, rfl, hr⟩, hname, rfl, rfl⟩ := h
  simp only [Receiver.strip, Receiver.mk.injEq, Spanned.strip, Spanned.mk.injEq, and_true] at hr
  exact ⟨⟨r, rfl, hr.2, hr.1⟩, congrArg Spanned.node hname, rfl, rfl⟩

end MethodText

def importKinds : List String → List TokenKind
  | [path] => [.keyword .import, .string path, .punctuation .semicolon]
  | paths =>
    .keyword .import :: .punctuation .lparen ::
      (paths.flatMap (fun path => [.string path, .punctuation .semicolon]) ++
        [.punctuation .rparen, .punctuation .semicolon])

def importGroups (paths : List String) : List (List String) := if paths = [] then [] else [paths]

def methodLines (methods : List MethodText) : List TokenKind :=
  methods.flatMap fun m => m.kinds ++ [.punctuation .semicolon]

def fileKinds (package : String) (imports : List String) (methods : List MethodText) :
    List TokenKind :=
  [.keyword .package, .ident package, .punctuation .semicolon] ++
    (importGroups imports).flatMap importKinds ++ methodLines methods

end GoEnum.Syntax
