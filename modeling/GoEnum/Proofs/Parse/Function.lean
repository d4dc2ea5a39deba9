import GoEnum.Parse.Decl
import GoEnum.Proofs.Parse.Const
import GoEnum.Proofs.Parse.Signature

namespace GoEnum.Parse

open Token Syntax

variable {t : TypeExpr} {r : Receiver} {f : FuncDecl} {ks ls rest : List TokenKind}

theorem next_receiver (ht : t.IsReceiver) (hs : t.Spells ks) (rest : List TokenKind) :
    (∃ name, next (ks ++ rest) = .ident name) ∨ next (ks ++ rest) = .operator .star := by
  cases hs with
  | name hname => exact .inl (next_nameKinds hname rest)
  | applied hbase =>
    rw [List.append_assoc]
    exact .inl (next_nameKinds hbase _)
  | pointer => exact .inr rfl
  | _ => cases ht

theorem yields_receiverName_some (ht : t.IsReceiver) (hs : t.Spells ks) (self : String) :
    Yields receiverName (.ident self :: (ks ++ rest))
      fun name ls => name = (if self = blankName then none else some self) ∧ ls = ks ++ rest := by
  refine yields_peek.bind ?_
  rintro k ls ⟨rfl, rfl⟩
  refine (yields_peekAt 1).bind ?_
  rintro k ls ⟨rfl, rfl⟩
  have hsecond : (.ident self :: (ks ++ rest))[1]?.getD .eof = next (ks ++ rest) := by
    rw [List.getElem?_cons_succ, next, List.head?_eq_getElem?]
  rw [hsecond, next_cons]
  obtain ⟨name, hname⟩ | hstar := next_receiver ht hs rest
  · rw [hname]
    refine (yields_advance (by simp)).bind ?_
    rintro - ls rfl
    exact yields_pure _ ⟨rfl, rfl⟩
  · rw [hstar]
    refine (yields_advance (by simp)).bind ?_
    rintro - ls rfl
    exact yields_pure _ ⟨rfl, rfl⟩

theorem yields_receiverName_none (ht : t.IsReceiver) (hs : t.Spells ks) :
    Yields receiverName (ks ++ .punctuation .rparen :: rest)
      fun name ls => name = none ∧ ls = ks ++ .punctuation .rparen :: rest := by
  refine yields_peek.bind ?_
  rintro k ls ⟨rfl, rfl⟩
  refine (yields_peekAt 1).bind ?_
  rintro k ls ⟨rfl, rfl⟩
  cases hs with
  | name hname =>
    cases hname with
    | named => exact yields_pure _ ⟨rfl, rfl⟩
    | qualified => cases ht
  | applied hbase =>
    cases hbase with
    | named => exact yields_pure _ ⟨rfl, rfl⟩
    | qualified => cases ht
  | pointer => exact yields_pure _ ⟨rfl, rfl⟩
  | _ => cases ht

theorem yields_receiver (hs : r.Spells ks) :
    Yields receiver (ks ++ rest) fun r' ls => r'.strip = r.strip ∧ ls = rest := by
  have hafter : ∀ {name : Option String} {t : Spanned TypeExpr} {ks : List TokenKind},
      t.node.Spells ks → Yields (do
        let type ← spanned typeExpr
        discard (accept Punctuation.comma)
        expect Punctuation.rparen "')' after receiver"
        return (⟨name, type⟩ : Receiver)) (ks ++ .punctuation .rparen :: rest)
        fun r' ls => r'.strip = (⟨name, t⟩ : Receiver).strip ∧ ls = rest := by
    intro name t ks ht
    refine (yields_spanned (yields_typeExpr ht ⟨by simp, rfl⟩)).bind ?_
    rintro type ls ⟨htype, rfl⟩
    refine (yields_discard_refuse (by simp)).bind ?_
    rintro - ls rfl
    refine (yields_expect (by simp) _).bind ?_
    rintro - ls rfl
    refine yields_pure _ ⟨?_, rfl⟩
    simp only [Receiver.strip, Spanned.strip, htype]
  cases hs with
  | named hself ht hs =>
    simp only [List.cons_append, List.append_assoc, List.nil_append]
    refine (yields_expect (by simp) _).bind ?_
    rintro - ls rfl
    refine (yields_receiverName_some ht hs _).bind ?_
    rintro name ls ⟨rfl, rfl⟩
    rw [if_neg hself]
    exact hafter hs
  | blank ht hs =>
    simp only [List.cons_append, List.append_assoc, List.nil_append]
    refine (yields_expect (by simp) _).bind ?_
    rintro - ls rfl
    refine (yields_receiverName_some ht hs _).bind ?_
    rintro name ls ⟨rfl, rfl⟩
    rw [if_pos rfl]
    exact hafter hs
  | unnamed ht hs =>
    simp only [List.cons_append, List.append_assoc, List.nil_append]
    refine (yields_expect (by simp) _).bind ?_
    rintro - ls rfl
    refine (yields_receiverName_none ht hs).bind ?_
    rintro name ls ⟨rfl, rfl⟩
    exact hafter hs

theorem next_receiver_spells (hs : r.Spells ks) (rest : List TokenKind) :
    next (ks ++ rest) = .punctuation .lparen := by
  cases hs <;> rfl

theorem next_signature_spells {s : Signature TypeExpr} (hs : s.Spells ks)
    (rest : List TokenKind) : next (ks ++ rest) = .punctuation .lparen := by
  cases hs
  rfl

theorem endsType_body (hs : SpellsBody body ks) :
    EndsType (ks ++ .punctuation .semicolon :: rest) := by
  cases hs <;> exact ⟨by simp, rfl⟩

theorem yields_body (hs : SpellsBody body ks) : Yields (do
      let hasBody ← isNext Punctuation.lbrace
      if hasBody then skipBalanced
      return (⟨f.receiver, f.name, f.signature, hasBody⟩ : FuncDecl))
    (ks ++ .punctuation .semicolon :: rest)
    fun f' ls => f' = ⟨f.receiver, f.name, f.signature, body⟩ ∧
      ls = .punctuation .semicolon :: rest := by
  refine (yields_isNext _).bind ?_
  rintro b ls ⟨rfl, rfl⟩
  cases hs with
  | none => exact yields_pure _ ⟨rfl, rfl⟩
  | body hks =>
    simp only [List.cons_append, List.append_assoc, List.nil_append]
    refine (yields_skipBalanced (p := .lbrace) rfl hks).bind ?_
    rintro - ls rfl
    exact yields_pure _ ⟨rfl, rfl⟩

theorem yields_optionalReceiver {r : Option Receiver} (hs : SpellsReceiver r ks) :
    Yields (if next (ks ++ .ident name :: rest) == .punctuation .lparen then some <$> receiver
      else pure none) (ks ++ .ident name :: rest)
      fun r' ls => r'.map Receiver.strip = r.map Receiver.strip ∧ ls = .ident name :: rest := by
  cases hs with
  | none => exact yields_pure _ ⟨rfl, rfl⟩
  | some hr =>
    rw [next_receiver_spells hr]
    exact Yields.map ((yields_receiver hr).imp fun _ _ h => ⟨congrArg some h.1, h.2⟩)

theorem yields_funcDecl (hs : f.Spells ks) :
    Yields funcDecl (ks ++ .punctuation .semicolon :: rest)
      fun f' ls => f'.strip = f.strip ∧ ls = .punctuation .semicolon :: rest := by
  cases hs with
  | mk hreceiver hsignature hbody =>
    simp only [List.cons_append, List.append_assoc]
    refine (yields_expect (by simp) _).bind ?_
    rintro - ls rfl
    refine (yields_isNext _).bind ?_
    rintro b ls ⟨rfl, rfl⟩
    refine (yields_optionalReceiver hreceiver).ite_bind ?_
    rintro r ls ⟨hr, rfl⟩
    refine (yields_identifier _).bind ?_
    rintro name ls ⟨hname, rfl⟩
    refine (yields_isNext _).bind ?_
    rintro b ls ⟨rfl, rfl⟩
    rw [next_signature_spells hsignature]
    refine (yields_signature hsignature (endsType_body hbody)).bind ?_
    rintro s ls ⟨rfl, rfl⟩
    refine (yields_body (f := ⟨r, name, f.signature, f.hasBody⟩) hbody).imp ?_
    rintro f' ls ⟨rfl, rfl⟩
    refine ⟨?_, rfl⟩
    simp only [FuncDecl.strip, Spanned.strip, hr, hname]

theorem next_function (hs : f.Spells ks) (rest : List TokenKind) :
    next (ks ++ rest) = .keyword .func := by
  cases hs
  rfl

theorem yields_function (hs : f.Spells ks) :
    Yields declaration (ks ++ .punctuation .semicolon :: rest) fun d ls =>
      (∃ f', d.node = .func f' ∧ f'.strip = f.strip) ∧ ls = rest := by
  refine (yields_spanned (Q := fun d ls => (∃ f', d = Decl.func f' ∧ f'.strip = f.strip) ∧
    ls = .punctuation .semicolon :: rest) ?_).bind ?_
  · refine yields_peek.bind ?_
    rintro k ls ⟨rfl, rfl⟩
    rw [next_function hs]
    refine (yields_funcDecl hs).bind ?_
    rintro f' ls ⟨hf', rfl⟩
    exact yields_pure _ ⟨⟨f', rfl, hf'⟩, rfl⟩
  · rintro d ls ⟨hd, rfl⟩
    refine (yields_endOfDecl _).bind ?_
    rintro - ls rfl
    exact yields_pure _ ⟨hd, rfl⟩

end GoEnum.Parse
