import GoEnum.Proofs.Syntax.Spelling
import GoEnum.Proofs.Syntax.Strip
import GoEnum.Proofs.Token.Balanced

namespace GoEnum.Syntax

open Token

def parenthesized (kss : List (List TokenKind)) : List TokenKind :=
  .punctuation .lparen :: (separated kss ++ [.punctuation .rparen])

def Param.nameKinds (p : Param TypeExpr) : List TokenKind :=
  p.name.elim [] fun name => [.ident name]

mutual

/-- The spellings of a type. The length of an array begins with a number, and a channel may tell its
direction, which is not kept. -/
inductive TypeExpr.Spells : TypeExpr → List TokenKind → Prop
  | name : t.IsName → TypeExpr.Spells t t.nameKinds
  | applied : base.IsName → args ≠ [] → SpellsTypes args kss →
      TypeExpr.Spells (.applied base args)
        (base.nameKinds ++ .punctuation .lbracket :: (separated kss ++ [.punctuation .rbracket]))
  | pointer : TypeExpr.Spells t ks → TypeExpr.Spells (.pointer t) (.operator .star :: ks)
  | slice : TypeExpr.Spells t ks →
      TypeExpr.Spells (.slice t) (.punctuation .lbracket :: .punctuation .rbracket :: ks)
  | array : Balanced ls → TypeExpr.Spells t ks →
      TypeExpr.Spells (.array t)
        (.punctuation .lbracket :: .int n :: (ls ++ .punctuation .rbracket :: ks))
  | map : TypeExpr.Spells key ks → TypeExpr.Spells value ls →
      TypeExpr.Spells (.map key value)
        (.keyword .map :: .punctuation .lbracket :: (ks ++ .punctuation .rbracket :: ls))
  | chan : TypeExpr.Spells t ks → TypeExpr.Spells (.chan t) (.keyword .chan :: ks)
  | send : TypeExpr.Spells t ks →
      TypeExpr.Spells (.chan t) (.keyword .chan :: .operator .arrow :: ks)
  | receive : TypeExpr.Spells t ks →
      TypeExpr.Spells (.chan t) (.operator .arrow :: .keyword .chan :: ks)
  | func : Signature.Spells s ks → TypeExpr.Spells (.func s) (.keyword .func :: ks)
  | struct : Balanced ks →
      TypeExpr.Spells .struct
        (.keyword .struct :: .punctuation .lbrace :: (ks ++ [.punctuation .rbrace]))
  | interface : Balanced ks →
      TypeExpr.Spells .interface
        (.keyword .interface :: .punctuation .lbrace :: (ks ++ [.punctuation .rbrace]))

inductive SpellsTypes : List TypeExpr → List (List TokenKind) → Prop
  | nil : SpellsTypes [] []
  | cons : TypeExpr.Spells t ks → SpellsTypes ts kss → SpellsTypes (t :: ts) (ks :: kss)

/-- The entries of a list in which all parameters are named, or none. Only the last one may be
variadic. A name that stands alone has the type of the next parameter. -/
inductive SpellsParams : Bool → List (Param TypeExpr) → List (List TokenKind) → Prop
  | nil : SpellsParams named [] []
  | cons : p.name.isSome = named → p.variadic = false → TypeExpr.Spells p.type ks →
      SpellsParams named ps kss → SpellsParams named (p :: ps) ((p.nameKinds ++ ks) :: kss)
  | variadic : p.name.isSome = named → p.variadic = true → TypeExpr.Spells p.type ks →
      SpellsParams named [p] [p.nameKinds ++ .punctuation .ellipsis :: ks]
  | shared : SpellsParams true (⟨some next, t, false⟩ :: ps) kss →
      SpellsParams true (⟨some name, t, false⟩ :: ⟨some next, t, false⟩ :: ps)
        ([.ident name] :: kss)

inductive SpellsResults : List (Param TypeExpr) → List TokenKind → Prop
  | none : SpellsResults [] []
  | single : TypeExpr.Spells t ks → SpellsResults [⟨none, t, false⟩] ks
  | list : SpellsParams named ps kss → SpellsResults ps (parenthesized kss)

inductive Signature.Spells : Signature TypeExpr → List TokenKind → Prop
  | mk : SpellsParams named ps kss → SpellsResults rs ks →
      Signature.Spells ⟨ps, rs⟩ (parenthesized kss ++ ks)

end

inductive TypeExpr.IsReceiver : TypeExpr → Prop
  | named : IsReceiver (.named name)
  | applied : IsReceiver (.applied (.named name) args)
  | pointerNamed : IsReceiver (.pointer (.named name))
  | pointerApplied : IsReceiver (.pointer (.applied (.named name) args))

inductive Receiver.Spells : Receiver → List TokenKind → Prop
  | named {self : String} : self ≠ blankName → t.node.IsReceiver → t.node.Spells ks →
      Receiver.Spells ⟨some self, t⟩
        (.punctuation .lparen :: .ident self :: (ks ++ [.punctuation .rparen]))
  | blank : t.node.IsReceiver → t.node.Spells ks →
      Receiver.Spells ⟨none, t⟩
        (.punctuation .lparen :: .ident blankName :: (ks ++ [.punctuation .rparen]))
  | unnamed : t.node.IsReceiver → t.node.Spells ks →
      Receiver.Spells ⟨none, t⟩ (.punctuation .lparen :: (ks ++ [.punctuation .rparen]))

inductive SpellsReceiver : Option Receiver → List TokenKind → Prop
  | none : SpellsReceiver none []
  | some : r.Spells ks → SpellsReceiver (some r) ks

inductive SpellsBody : Bool → List TokenKind → Prop
  | none : SpellsBody false []
  | body : Balanced ks → SpellsBody true (.punctuation .lbrace :: (ks ++ [.punctuation .rbrace]))

inductive FuncDecl.Spells : FuncDecl → List TokenKind → Prop
  | mk : SpellsReceiver f.receiver ks → f.signature.Spells ls → SpellsBody f.hasBody ms →
      FuncDecl.Spells f (.keyword .func :: (ks ++ .ident f.name.node :: (ls ++ ms)))

end GoEnum.Syntax
