import GoEnum.Parse.Decl
import GoEnum.Proofs.Parse.Expr

namespace GoEnum.Parse

open Token Syntax

theorem map_eq_of_forall₂ {f : α → γ} {g : β → γ}
    (h : List.Forall₂ (fun x y => g y = f x) xs ys) : ys.map g = xs.map f := by
  induction h with
  | nil => rfl
  | cons h _ ih => rw [List.map_cons, List.map_cons, h, ih]

section

variable {names : List (Spanned String)} {es : List Expr} {spec : ConstSpec} {rest : List TokenKind}

theorem yields_endOfDecl (what : String) :
    Yields (endOfDecl what) (.punctuation .semicolon :: rest) fun _ ls => ls = rest := by
  refine (yields_accept (by simp)).bind ?_
  rintro b ls ⟨rfl, rfl⟩
  exact yields_pure _ rfl

theorem yields_identifiers (hne : names ≠ []) (hnext : next rest ≠ .punctuation .comma) :
    Yields identifiers (separated (names.map fun name => [.ident name.node]) ++ rest) fun xs ls =>
      xs.map (·.node) = names.map (·.node) ∧ ls = rest := by
  have hlength := length_separated (names.map fun name => [.ident name.node])
  rw [List.length_map] at hlength
  refine yields_bounded fun out => (yields_commaSeparated (R := fun name x => x.node = name.node)
    (F := fun _ => True) (fun name _ ls _ => yields_identifier name.node) (fun _ => trivial)
    trivial hnext hne ?_).imp ?_
  · rw [List.length_append]
    omega
  · rintro xs ls ⟨hxs, rfl⟩
    exact ⟨map_eq_of_forall₂ hxs, rfl⟩

theorem yields_expressionList (hne : es ≠ []) (hes : ∀ e ∈ es, e.TypeFree ∧ e.Grouped)
    (hnext : next rest ≠ .punctuation .comma) (hend : Ends 1 rest) :
    Yields expressionList (separated (es.map Expr.kinds) ++ rest) fun xs ls =>
      xs.map Expr.bare = es.map Expr.bare ∧ ls = rest := by
  have hlength := length_separated (es.map Expr.kinds)
  rw [List.length_map] at hlength
  refine yields_bounded fun out => (yields_commaSeparated (R := fun e x => x.bare = e.bare)
    (F := Ends 1) (fun e he ls hls => ?_) (fun _ => ends_punctuation (by simp) (by simp))
    hend hnext hne ?_).imp ?_
  · obtain ⟨ht, hg⟩ := hes e he
    exact yields_expression (Expr.spells_kinds e ht) hg ht hls
  · rw [List.length_append]
    omega
  · rintro xs ls ⟨hxs, rfl⟩
    exact ⟨map_eq_of_forall₂ hxs, rfl⟩

theorem next_tailKinds (hs : spec.WellFormed) :
    next (spec.tailKinds ++ .punctuation .semicolon :: rest) ≠ .punctuation .comma := by
  unfold ConstSpec.tailKinds
  split
  · simp
  · cases htype : spec.type with
    | none => simp
    | some type =>
      obtain ⟨name, hname⟩ := next_nameKinds (hs.type type htype).1 _
      rw [List.append_assoc, Option.elim_some, hname]
      simp

theorem yields_constTail (hs : spec.WellFormed) :
    Yields constTail (spec.tailKinds ++ .punctuation .semicolon :: rest) fun tail ls =>
      (tail.1.map (·.node) = spec.type.map (·.node) ∧
        tail.2.map Expr.bare = spec.values.map Expr.bare) ∧
      ls = .punctuation .semicolon :: rest := by
  unfold ConstSpec.tailKinds
  split
  · rename_i hvalues
    have htype := hs.untyped hvalues
    refine yields_peek.bind ?_
    rintro k ls ⟨rfl, rfl⟩
    exact yields_pure _ ⟨⟨by simp [htype], by simp [hvalues]⟩, rfl⟩
  · rename_i hne
    rw [List.append_assoc, List.cons_append]
    have hvalues : Yields expressionList
        (separated (spec.values.map Expr.kinds) ++ .punctuation .semicolon :: rest) fun xs ls =>
          xs.map Expr.bare = spec.values.map Expr.bare ∧ ls = .punctuation .semicolon :: rest :=
      yields_expressionList hne hs.values (by simp) (ends_punctuation (by simp) (by simp))
    cases htype : spec.type with
    | none =>
      refine yields_peek.bind ?_
      rintro k ls ⟨rfl, rfl⟩
      refine (yields_pure none (R := fun t ls => t = none ∧ ls = _) ⟨rfl, rfl⟩).bind ?_
      rintro t ls ⟨rfl, rfl⟩
      refine (yields_expect (by simp) _).bind ?_
      rintro - ls rfl
      refine hvalues.bind ?_
      rintro xs ls ⟨hxs, rfl⟩
      exact yields_pure _ ⟨⟨rfl, hxs⟩, rfl⟩
    | some type =>
      obtain ⟨hname, -⟩ := hs.type type htype
      have hread : Yields (some <$> spanned typeExpr) (type.node.nameKinds ++ .operator .assign ::
            (separated (spec.values.map Expr.kinds) ++ .punctuation .semicolon :: rest)) fun t ls =>
          t.map (·.node) = some type.node ∧ ls = .operator .assign ::
            (separated (spec.values.map Expr.kinds) ++ .punctuation .semicolon :: rest) :=
        Yields.map (yields_spanned ((yields_typeName hname (by simp) (by simp)).imp fun t ls h =>
          h.imp_left (congrArg some)))
      obtain ⟨name, hfirst⟩ := next_nameKinds hname _
      refine yields_peek.bind ?_
      rintro k ls ⟨rfl, rfl⟩
      rw [Option.elim_some, hfirst]
      refine hread.bind ?_
      rintro t ls ⟨ht, rfl⟩
      refine (yields_expect (by simp) _).bind ?_
      rintro - ls rfl
      refine hvalues.bind ?_
      rintro xs ls ⟨hxs, rfl⟩
      exact yields_pure _ ⟨⟨ht, hxs⟩, rfl⟩

theorem constArity?_eq_none_iff (iota names values : Nat) : constArity? iota names values = none ↔
    (iota = 0 → values ≠ 0) ∧ (values = 0 ∨ values = names) := by
  unfold constArity?
  grind

theorem constArity?_eq_none_iff_shapedAt (hnames : spec.names ≠ [])
    (htype : spec.values = [] → spec.type = none) :
    constArity? spec.iota spec.names.length spec.values.length = none ↔
      spec.ShapedAt spec.iota := by
  rw [constArity?_eq_none_iff, ne_eq, List.length_eq_zero_iff]
  constructor
  · rintro ⟨hfirst, harity⟩
    exact ⟨rfl, hnames, hfirst, harity.imp_left fun hvalues => ⟨hvalues, htype hvalues⟩⟩
  · exact fun h => ⟨h.first, h.arity.imp_left And.left⟩

theorem yields_constSpec (hs : spec.WellFormed) (hfirst : spec.iota = 0 → spec.values ≠ []) :
    Yields (constSpec spec.iota) (spec.kinds ++ .punctuation .semicolon :: rest) fun x ls =>
      x.node.bare = spec.bare ∧ ls = .punctuation .semicolon :: rest := by
  rw [ConstSpec.kinds, List.append_assoc]
  refine yields_currentSpan.bind ?_
  rintro start ls rfl
  refine (yields_identifiers hs.names (next_tailKinds hs)).bind ?_
  rintro names ls ⟨hnames, rfl⟩
  refine (yields_constTail hs).bind ?_
  rintro ⟨type, values⟩ ls ⟨⟨htype, hvalues⟩, rfl⟩
  refine yields_previousSpan.bind ?_
  rintro stop ls rfl
  have hnamesLength : names.length = spec.names.length := by
    simpa using congrArg List.length hnames
  have hvaluesLength : values.length = spec.values.length := by
    simpa using congrArg List.length hvalues
  have harity := (constArity?_eq_none_iff_shapedAt hs.names hs.untyped).2 (hs.shapedAt hfirst)
  rw [hnamesLength, hvaluesLength, harity]
  have hbare : ∀ xs : List (Spanned String), xs.map (fun name => ⟨name.node, Span.point 0⟩) =
      (xs.map (·.node)).map fun name => (⟨name, .point 0⟩ : Spanned String) := by simp
  have hbareType : ∀ t : Option (Spanned TypeExpr), t.map (fun t => ⟨t.node, Span.point 0⟩) =
      (t.map (·.node)).map fun t => (⟨t, .point 0⟩ : Spanned TypeExpr) := fun t => by
    cases t <;> rfl
  refine yields_pure _ ⟨?_, rfl⟩
  simp only [ConstSpec.bare, ConstSpec.mk.injEq]
  exact ⟨by rw [hbare, hnames, ← hbare], by rw [hbareType, htype, ← hbareType], hvalues, trivial⟩

theorem next_constSpec (hs : spec.WellFormed) (rest : List TokenKind) :
    ∃ name, next (spec.kinds ++ rest) = .ident name := by
  obtain ⟨name, names, hnames⟩ := List.exists_cons_of_ne_nil hs.names
  refine ⟨name.node, ?_⟩
  rw [ConstSpec.kinds, hnames]
  cases names <;> rfl

theorem yields_constDecl {decl : ConstDecl} (hd : decl.WellFormed) :
    Yields constDecl (decl.kinds ++ .punctuation .semicolon :: rest) fun decl' ls =>
      decl'.bare = decl.bare ∧ ls = .punctuation .semicolon :: rest := by
  have hline : ∀ i (spec : Spanned ConstSpec), decl.specs[i]? = some spec → ∀ ls,
      Yields (constSpec i) (spec.node.kinds ++ .punctuation .semicolon :: ls) fun x ms =>
        x.node.bare = spec.node.bare ∧ ms = .punctuation .semicolon :: ls := by
    intro i spec hspec ls
    obtain rfl := hd.iota i spec hspec
    refine yields_constSpec (hd.lines spec (List.mem_of_getElem? hspec)) fun hiota => ?_
    rw [hiota] at hspec
    exact hd.first spec hspec
  have hstart : ∀ spec ∈ decl.specs, ∀ ls, next (spec.node.kinds ++ ls) ∉
      [.punctuation .semicolon, .punctuation .rparen, .eof] := by
    intro spec hspec ls
    obtain ⟨name, hname⟩ := next_constSpec (hd.lines spec hspec) ls
    simp [hname]
  have hbare : ∀ specs : List (Spanned ConstSpec),
      List.Forall₂ (fun spec x => x.node.bare = spec.node.bare) decl.specs specs →
      (ConstDecl.mk decl.grouped specs).bare = decl.bare := by
    intro specs hspecs
    simp only [ConstDecl.bare, ConstDecl.mk.injEq, true_and]
    refine map_eq_of_forall₂ (hspecs.imp fun spec x h => ?_)
    rw [h]
  rw [ConstDecl.kinds, List.cons_append]
  refine (yields_expect (by simp) _).bind ?_
  rintro - ls rfl
  cases hgrouped : decl.grouped with
  | true =>
    simp only [if_true, List.cons_append, List.append_assoc, List.nil_append]
    refine (yields_group _ _ hline hstart).bind ?_
    rintro ⟨grouped, specs⟩ ls ⟨⟨rfl, hspecs⟩, rfl⟩
    exact yields_pure _ ⟨by rw [← hbare specs hspecs, hgrouped], rfl⟩
  | false =>
    obtain ⟨spec, hspec⟩ := hd.single hgrouped
    rw [if_neg (by simp), hspec, List.flatMap_singleton]
    have hmem : spec ∈ decl.specs := by simp [hspec]
    obtain ⟨name, hname⟩ := next_constSpec (hd.lines spec hmem) (.punctuation .semicolon :: rest)
    refine (yields_single
      (R := fun (spec x : Spanned ConstSpec) => x.node.bare = spec.node.bare) _ _
      (by simp [hname]) (hline 0 spec (by simp [hspec]) rest)).bind ?_
    rintro ⟨grouped, specs⟩ ls ⟨⟨rfl, hspecs⟩, rfl⟩
    exact yields_pure _ ⟨by rw [← hbare specs (hspec ▸ hspecs), hgrouped], rfl⟩

theorem yields_declaration {decl : ConstDecl} (hd : decl.WellFormed) :
    Yields declaration (decl.kinds ++ .punctuation .semicolon :: rest) fun x ls =>
      (∃ decl', x.node = .const decl' ∧ decl'.bare = decl.bare) ∧ ls = rest := by
  refine (yields_spanned (Q := fun x ls => (∃ decl', x = .const decl' ∧ decl'.bare = decl.bare) ∧
    ls = .punctuation .semicolon :: rest) ?_).bind ?_
  · refine yields_peek.bind ?_
    rintro k ls ⟨rfl, rfl⟩
    refine (yields_constDecl hd).bind ?_
    rintro decl' ls ⟨hbare, rfl⟩
    exact yields_pure _ ⟨⟨decl', rfl, hbare⟩, rfl⟩
  · rintro x ls ⟨hx, rfl⟩
    refine (yields_endOfDecl _).bind ?_
    rintro - ls rfl
    exact yields_pure _ ⟨hx, rfl⟩

end

/-- A declaration of constants is read back from its tokens, and an expression that is read is
grouped as precedence has it and spelled by the tokens that were passed. -/
theorem const_grammar_exact :
    (∀ decl : ConstDecl, decl.WellFormed → ∀ rest,
      Yields declaration (decl.kinds ++ .punctuation .semicolon :: rest) fun x ls =>
        (∃ decl', x.node = .const decl' ∧ decl'.bare = decl.bare) ∧ ls = rest) ∧
    ∀ c e c', expression c = .ok e c' → e.TypeFree →
      e.Grouped ∧ ∃ ks, c.kinds = ks ++ c'.kinds ∧ e.Spells ks := by
  refine ⟨fun decl hd rest => yields_declaration hd, fun c e c' h ht => ?_⟩
  obtain ⟨ks, hks, hs, hg⟩ := expression_ok h
  exact ⟨hg, ks, hks, hs⟩

def flagsDecl : ConstDecl where
  grouped := true
  specs := [
    ⟨{ names := [⟨"A", .point 0⟩, ⟨"B", .point 0⟩]
       type := some ⟨.named "T", .point 0⟩
       values := [.binary (.point 0) .shl (.literal (.point 0) (.int 1)) (.ident (.point 0) "iota"),
         .unary (.point 0) .neg (.paren (.point 0) (.ident (.point 0) "x"))]
       iota := 0 }, .point 0⟩,
    ⟨{ names := [⟨"C", .point 0⟩, ⟨"D", .point 0⟩], type := none, values := [], iota := 1 },
      .point 0⟩]

theorem flagsDecl_wellFormed : flagsDecl.WellFormed where
  lines := by
    simp only [flagsDecl, List.mem_cons, List.not_mem_nil, or_false, forall_eq_or_imp, forall_eq]
    refine ⟨⟨by simp, ?_, by simp, ?_⟩, ⟨by simp, by simp, by simp, by simp⟩⟩
    · rintro _ ⟨⟩
      exact ⟨.named, by simp⟩
    · simp only [List.mem_cons, List.not_mem_nil, or_false, forall_eq_or_imp, forall_eq]
      exact ⟨⟨.binary .literal .ident, .binary (by decide) (by decide) .literal .ident⟩,
        ⟨.unary (.paren .ident), .unary (by decide) (.paren .ident)⟩⟩
  iota := by
    intro i spec h
    obtain _ | _ | i := i
    · cases h
      rfl
    · cases h
      rfl
    · cases h
  first := by
    rintro spec ⟨⟩
    simp
  single := by simp [flagsDecl]

def flagCall : List TokenKind :=
  [.ident "f", .punctuation .lparen, .ident "x", .punctuation .comma, .punctuation .rparen]

theorem const_grammar_exact_flags :
    (flagsDecl.WellFormed ∧
      Yields declaration (flagsDecl.kinds ++ [.punctuation .semicolon]) fun x ls =>
        (∃ decl', x.node = .const decl' ∧ decl'.bare = flagsDecl.bare) ∧ ls = []) ∧
    ∃ e c', expression ⟨.point 0, flagCall.map (⟨·, .point 0⟩)⟩ = .ok e c' ∧
      e.Grouped ∧ ∃ ks, e.Spells ks ∧ ks.length = e.kinds.length + 1 := by
  refine ⟨⟨flagsDecl_wellFormed, const_grammar_exact.1 _ flagsDecl_wellFormed _⟩,
    .call (.point 0) (.ident (.point 0) "f") [.ident (.point 0) "x"], ⟨.point 0, []⟩, rfl, ?_⟩
  have hargs : ∀ e ∈ [Expr.ident (.point 0) "x"], e.TypeFree := by
    intro e he
    rw [List.mem_singleton.1 he]
    exact .ident
  obtain ⟨hg, ks, hks, hs⟩ := const_grammar_exact.2
    ⟨.point 0, flagCall.map (⟨·, .point 0⟩)⟩
    (.call (.point 0) (.ident (.point 0) "f") [.ident (.point 0) "x"]) ⟨.point 0, []⟩ rfl
    (.call .ident hargs)
  refine ⟨hg, ks, hs, ?_⟩
  have hlength := congrArg List.length hks
  simpa [Cursor.kinds, flagCall, Expr.kinds, Expr.kindsAll, separated] using hlength.symm

end GoEnum.Parse
