import GoEnum.Parse.Type
import GoEnum.Proofs.Parse.Delimited

namespace GoEnum.Parse

open Token Syntax

/-- The identifiers of the text are all that a plain type name can be. -/
def NamesToken (all : List TokenKind) (t : TypeExpr) : Prop :=
  ∀ n, t.name? = some n → .ident n ∈ all

section

variable {all : List TokenKind} {type : Parser TypeExpr}

theorem stays_spanned {p : Parser α} {P : α → Prop} (h : Stays all p P) :
    Stays all (spanned p) fun x => P x.node :=
  stays_currentSpan.bind fun _ _ => h.bind fun _ hx => stays_previousSpan.bind fun _ _ =>
    stays_pure hx

theorem typeName_ok (hstays : ∀ all, Stays all type fun _ => True)
    (h : typeName type out n c = .ok t c') : ∃ first d p, c.kinds = .ident first :: d.kinds ∧
      (∀ all, Stays all p (NamesToken (.ident first :: all))) ∧ p d = .ok t c' := by
  obtain ⟨first, d, hfirst, h⟩ := bind_ok.1 h
  refine ⟨first.node, d, _, identifier_ok hfirst, fun all => ?_, h⟩
  refine (stays_isNext _).bind fun b _ => (stays_peekAt 1).bind fun k _ => ?_
  have hbase : ∀ base, NamesToken (.ident first.node :: all) base → Stays all (do
      if ← accept Punctuation.lbracket then
        let args ← commaList .rbracket type out n
        expect Punctuation.rbracket "']' after type arguments"
        return .applied base args
      else return base) (NamesToken (.ident first.node :: all)) := by
    intro base hbase
    refine (stays_accept _).bind fun b _ => ?_
    split
    · exact (stays_commaList _ (hstays all) n).bind fun _ _ => (stays_expect _ _).bind fun _ _ =>
        stays_pure (by simp [NamesToken, TypeExpr.name?])
    · exact stays_pure hbase
  have hnamed : NamesToken (.ident first.node :: all) (.named first.node) := by
    rintro n ⟨⟩
    exact List.mem_cons_self
  refine stays_ite ?_ ((stays_pure hnamed).bind hbase)
  exact stays_advance.bind fun _ _ => stays_identifier.bind fun name _ =>
    (stays_pure (by simp [NamesToken, TypeExpr.name?])).bind hbase

theorem stays_bracedBody (word : String) : Stays all (bracedBody word) fun _ => True := by
  refine (stays_isNext _).bind fun b _ => ?_
  split
  · exact stays_skipBalanced
  · exact stays_unexpected _

theorem stays_sliceOrArray (h : Stays all type fun _ => True) :
    Stays all (sliceOrArray type) (NamesToken all) := by
  refine (stays_accept _).bind fun b _ => ?_
  split
  · exact h.bind fun _ _ => stays_pure (by simp [NamesToken, TypeExpr.name?])
  · refine (stays_accept _).bind fun b _ => ?_
    refine Stays.when (stays_bounded fun _ n => stays_skipUntil _ n) ?_
    exact (stays_expect _ _).bind fun _ _ => h.bind fun _ _ =>
      stays_pure (by simp [NamesToken, TypeExpr.name?])

theorem stays_mapType (h : Stays all type fun _ => True) :
    Stays all (mapType type) (NamesToken all) :=
  (stays_expect _ _).bind fun _ _ => h.bind fun _ _ => (stays_expect _ _).bind fun _ _ =>
    h.bind fun _ _ => stays_pure (by simp [NamesToken, TypeExpr.name?])

theorem stays_paramEntry (h : Stays all type fun _ => True) :
    Stays all (paramEntry type) fun _ => True := by
  refine stays_peek.bind fun k _ => (stays_peekAt 1).bind fun k _ => (stays_peekAt 2).bind
    fun k _ => ?_
  refine Stays.ite_bind (P := fun _ => True) (stays_identifier.imp fun _ _ => trivial).map.map
    (stays_pure trivial) fun name _ => ?_
  exact (stays_accept _).bind fun _ _ => h.bind fun _ _ => stays_pure trivial

theorem stays_parameters (h : Stays all type fun _ => True) (n : Nat) :
    Stays all (parameters type out n) fun _ => True := by
  refine stays_currentSpan.bind fun start _ => (stays_expect _ _).bind fun _ _ =>
    (stays_commaList _ (stays_paramEntry h) n).bind fun entries _ => (stays_expect _ _).bind
      fun _ _ => ?_
  split
  · exact stays_pure trivial
  · split
    · exact stays_pure trivial
    · exact stays_previousSpan.bind fun _ _ => stays_fail _ _

theorem stays_signatureOver (h : Stays all type fun _ => True) (n : Nat) :
    Stays all (signatureOver type out n) fun _ => True := by
  refine (stays_parameters h n).bind fun params _ => stays_peek.bind fun next _ => ?_
  split
  · exact (stays_parameters h n).bind fun _ _ => stays_pure trivial
  · split
    · exact h.bind fun _ _ => stays_pure trivial
    · exact stays_pure trivial

theorem typeWithin_ok (hstays : ∀ all, Stays all (typeWithin out n) (NamesToken all))
    (h : typeWithin out (n + 1) c = .ok t c') : ∃ k d p, c.kinds = k :: d.kinds ∧
      (∀ all, Stays all p (NamesToken (k :: all))) ∧ p d = .ok t c' := by
  have hany : ∀ all, Stays all (typeWithin out n) fun _ => True :=
    fun all => (hstays all).imp fun _ _ => trivial
  have hwrap : ∀ all, ∀ f : TypeExpr → TypeExpr, (∀ t, (f t).name? = none) →
      Stays all (typeWithin out n >>= fun t => pure (f t)) (NamesToken all) :=
    fun all f hf => (hany all).bind fun t _ => stays_pure (by simp [NamesToken, hf])
  have hafter : ∀ p : Parser TypeExpr, (∀ all, Stays all p (NamesToken all)) → c.kind ≠ .eof →
      p c.advance = .ok t c' → ∃ k d p, c.kinds = k :: d.kinds ∧
        (∀ all, Stays all p (NamesToken (k :: all))) ∧ p d = .ok t c' :=
    fun p hp hk h => ⟨c.kind, c.advance, p, c.kinds_of_kind hk, fun all => (hp all).imp
      fun _ ht name hname => List.mem_cons_of_mem _ (ht name hname), h⟩
  obtain ⟨k, _, hk, h⟩ := bind_ok.1 h
  obtain ⟨hkind, rfl⟩ := peek_ok.1 hk
  split at h
  · obtain ⟨first, d, p, hks, hp, h⟩ := typeName_ok hany h
    exact ⟨_, d, p, hks, hp, h⟩
  · exact hafter _ (fun all => hwrap all .pointer fun _ => rfl) (by simp [hkind]) h
  · exact hafter _ (fun all => (stays_expect _ _).bind fun _ _ => hwrap all .chan fun _ => rfl)
      (by simp [hkind]) h
  · exact hafter _ (fun all => stays_sliceOrArray (hany all)) (by simp [hkind]) h
  · exact hafter _ (fun all => (hstays all).bind fun t ht => (stays_expect _ _).bind fun _ _ =>
      stays_pure ht) (by simp [hkind]) h
  · exact hafter _ (fun all => stays_mapType (hany all)) (by simp [hkind]) h
  · exact hafter _ (fun all => Stays.bind (P := fun _ => True) (stays_accept _).map
      fun _ _ => hwrap all .chan fun _ => rfl) (by simp [hkind]) h
  · exact hafter _ (fun all => (stays_signatureOver (hany all) n).bind fun _ _ =>
      stays_pure (by simp [NamesToken, TypeExpr.name?])) (by simp [hkind]) h
  · exact hafter _ (fun all => (stays_bracedBody _).bind fun _ _ =>
      stays_pure (by simp [NamesToken, TypeExpr.name?])) (by simp [hkind]) h
  · exact hafter _ (fun all => (stays_bracedBody _).bind fun _ _ =>
      stays_pure (by simp [NamesToken, TypeExpr.name?])) (by simp [hkind]) h
  · cases h

theorem stays_typeWithin (n : Nat) : Stays all (typeWithin out n) (NamesToken all) := by
  induction n generalizing all with
  | zero => exact stays_unexpected _
  | succ n ih =>
    intro c t c' hc h
    obtain ⟨k, d, p, hks, hp, h⟩ := typeWithin_ok (fun all => ih) h
    obtain ⟨pre, rfl⟩ := hc
    obtain ⟨⟨ks, hd⟩, ht⟩ := hp d.kinds d t c' List.suffix_rfl h
    refine ⟨⟨pre ++ k :: ks, ?_⟩, fun name hname => ?_⟩
    · rw [hks, ← hd, List.append_assoc, List.cons_append]
    · exact List.mem_append_right _ (hks ▸ ht name hname)

theorem typeExpr_ok (h : typeExpr c = .ok t c') : ∃ ks, ks ≠ [] ∧ c.kinds = ks ++ c'.kinds := by
  obtain ⟨k, d, p, hks, hp, h⟩ := typeWithin_ok (fun all => stays_typeWithin c.rest.length) h
  obtain ⟨ks, hd⟩ := (hp d.kinds d t c' List.suffix_rfl h).1
  exact ⟨k :: ks, List.cons_ne_nil _ _, by rw [hks, ← hd, List.cons_append]⟩

theorem stays_typeExpr : Stays all typeExpr (NamesToken all) :=
  stays_bounded fun _ => stays_typeWithin

theorem stays_signature : Stays all signature fun _ => True :=
  stays_bounded fun _ n => stays_signatureOver ((stays_typeWithin n).imp fun _ _ => trivial) n

end

section

variable {t : TypeExpr} {rest : List TokenKind}

theorem yields_spanned {p : Parser α} {ks : List TokenKind} {Q : α → List TokenKind → Prop}
    (hp : Yields p ks Q) : Yields (spanned p) ks fun x ls => Q x.node ls := by
  refine yields_currentSpan.bind ?_
  rintro start ls rfl
  refine hp.bind fun x ls hx => yields_previousSpan.bind ?_
  rintro stop ls rfl
  exact yields_pure _ hx

theorem next_nameKinds (ht : t.IsName) (rest : List TokenKind) :
    ∃ name, next (t.nameKinds ++ rest) = .ident name := by
  cases ht <;> exact ⟨_, rfl⟩

theorem yields_nameThen {type : Parser TypeExpr} {Q : TypeExpr → List TokenKind → Prop}
    (ht : t.IsName) (hdot : ∀ name, t = .named name → next rest ≠ .punctuation .dot)
    (hgo : Yields (do
      if ← accept Punctuation.lbracket then
        let args ← commaList .rbracket type out n
        expect Punctuation.rbracket "']' after type arguments"
        return .applied t args
      else return t) rest Q) :
    Yields (typeName type out n) (t.nameKinds ++ rest) Q := by
  cases ht with
  | named =>
    refine (yields_identifier _).bind ?_
    rintro x ls ⟨rfl, rfl⟩
    refine (yields_isNext _).bind ?_
    rintro b ls ⟨rfl, rfl⟩
    rw [beq_eq_false_iff_ne.2 (hdot _ rfl)]
    refine (yields_peekAt 1).bind ?_
    rintro k ls ⟨rfl, rfl⟩
    exact hgo
  | qualified =>
    refine (yields_identifier _).bind ?_
    rintro x ls ⟨rfl, rfl⟩
    refine (yields_isNext _).bind ?_
    rintro b ls ⟨rfl, rfl⟩
    refine (yields_peekAt 1).bind ?_
    rintro k ls ⟨rfl, rfl⟩
    refine (yields_advance (by simp)).bind ?_
    rintro - ls rfl
    refine (yields_identifier _).bind ?_
    rintro y ls ⟨rfl, rfl⟩
    exact hgo

theorem yields_name {type : Parser TypeExpr} (ht : t.IsName)
    (hdot : ∀ name, t = .named name → next rest ≠ .punctuation .dot)
    (hbracket : next rest ≠ .punctuation .lbracket) :
    Yields (typeName type out n) (t.nameKinds ++ rest) fun t' ls => t' = t ∧ ls = rest := by
  refine yields_nameThen ht hdot ((yields_refuse hbracket).bind ?_)
  rintro b ls ⟨rfl, rfl⟩
  exact yields_pure _ ⟨rfl, rfl⟩

theorem yields_nameWithin (ht : t.IsName)
    (hdot : ∀ name, t = .named name → next rest ≠ .punctuation .dot)
    (hbracket : next rest ≠ .punctuation .lbracket) :
    Yields (typeWithin out (n + 1)) (t.nameKinds ++ rest) fun t' ls => t' = t ∧ ls = rest := by
  obtain ⟨name, hname⟩ := next_nameKinds ht rest
  refine yields_peek.bind ?_
  rintro k ls ⟨rfl, rfl⟩
  rw [hname]
  exact yields_name ht hdot hbracket

theorem yields_typeName (ht : t.IsName) (hdot : next rest ≠ .punctuation .dot)
    (hbracket : next rest ≠ .punctuation .lbracket) :
    Yields typeExpr (t.nameKinds ++ rest) fun t' ls => t' = t ∧ ls = rest := by
  exact yields_bounded fun out => yields_nameWithin ht (fun _ _ => hdot) hbracket

end

end GoEnum.Parse
