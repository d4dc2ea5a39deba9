import GoEnum.Parse.File
import GoEnum.Proofs.Parse.Const

namespace GoEnum.Parse

open Token Syntax

structure ReadFrom (all : List TokenKind) (spec : ConstSpec) : Prop where
  names : ∀ name ∈ spec.names, .ident name.node ∈ all
  type : ∀ type ∈ spec.type, NamesToken all type.node
  called : ∀ e ∈ spec.values, ∀ name, e.calledName? = some name → .ident name ∈ all
  typed : spec.values = [] → spec.type = none

def ReceiverFrom (all : List TokenKind) (name? : Option String) : Prop :=
  ∀ name ∈ name?, .ident name ∈ all ∧ name ≠ blankName

structure DeclFrom (all : List TokenKind) (decl : Decl) : Prop where
  consts : ∀ consts, decl = .const consts → ∀ spec ∈ consts.specs, ReadFrom all spec.node
  receiver : ∀ f, decl = .func f → ∀ r ∈ f.receiver, ReceiverFrom all r.name

section

variable {all : List TokenKind}

theorem ident_mem_of_spells (h : Expr.Spells (.call s (.ident s' name) args) ks) :
    .ident name ∈ ks := by
  cases h with
  | call h _ =>
    cases h
    exact List.mem_append_left _ (List.mem_singleton_self _)

theorem stays_expression :
    Stays all expression fun e => ∀ name, e.calledName? = some name → .ident name ∈ all := by
  intro c e c' hc h
  obtain ⟨ks, hks, hspells, -⟩ := expression_ok h
  rw [hks] at hc
  refine ⟨(List.suffix_append _ _).trans hc, fun name hname => hc.subset ?_⟩
  unfold Expr.calledName? at hname
  split at hname
  · cases hname
    exact List.mem_append_left _ (ident_mem_of_spells hspells)
  · cases hname

theorem stays_identifiers :
    Stays all identifiers fun xs => xs ≠ [] ∧ ∀ x ∈ xs, .ident x.node ∈ all :=
  stays_bounded fun _ n => stays_commaSeparated stays_identifier n

theorem stays_expressionList : Stays all expressionList fun es =>
    es ≠ [] ∧ ∀ e ∈ es, ∀ name, e.calledName? = some name → .ident name ∈ all :=
  stays_bounded fun _ n => stays_commaSeparated stays_expression n

theorem stays_endOfDecl (what : String) : Stays all (endOfDecl what) fun _ => True := by
  refine (stays_accept _).bind fun b _ => ?_
  split
  · exact stays_pure trivial
  · refine stays_atEnd.bind fun b _ => ?_
    split
    · exact stays_unexpected _
    · exact stays_pure trivial

theorem stays_packageClause : Stays all packageClause fun name =>
    .ident name.node ∈ all ∧ name.node ≠ blankName := by
  refine (stays_expect _ _).bind fun _ _ => stays_identifier.bind fun name hname => ?_
  refine stays_check (stays_fail _ _) (fun hblank _ => ?_) ()
  exact (stays_endOfDecl _).bind fun _ _ => stays_pure ⟨hname, hblank⟩

theorem stays_constTail : Stays all constTail fun tail =>
    (∀ type ∈ tail.1, NamesToken all type.node) ∧
    (∀ e ∈ tail.2, ∀ name, e.calledName? = some name → .ident name ∈ all) ∧
    (tail.2 = [] → tail.1 = none) := by
  refine stays_peek.bind fun k _ => ?_
  split
  · exact stays_pure (by simp)
  · exact stays_pure (by simp)
  · exact stays_pure (by simp)
  · refine Stays.ite_bind (P := fun type : Option (Spanned TypeExpr) => ∀ t ∈ type,
      NamesToken all t.node) (stays_pure (by simp)) (Stays.map ?_) fun type htype => ?_
    · refine (stays_spanned stays_typeExpr).imp ?_
      rintro t ht _ ⟨⟩
      exact ht
    · exact (stays_expect _ _).bind fun _ _ => stays_expressionList.bind fun es hes =>
        stays_pure ⟨htype, hes.2, fun h => absurd h hes.1⟩

theorem stays_constSpec (iota : Nat) : Stays all (constSpec iota) fun spec =>
    ReadFrom all spec.node ∧ spec.node.ShapedAt iota := by
  refine stays_currentSpan.bind fun start _ => stays_identifiers.bind fun names hnames =>
    stays_constTail.bind fun tail htail => ?_
  obtain ⟨type, values⟩ := tail
  obtain ⟨htype, hvalues, huntyped⟩ := htail
  refine stays_previousSpan.bind fun stop _ => ?_
  split
  · exact stays_fail _ _
  · rename_i harity
    have hshaped : (ConstSpec.mk names type values iota).ShapedAt iota :=
      (constArity?_eq_none_iff_shapedAt hnames.1 huntyped).1 harity
    exact stays_pure ⟨⟨hnames.2, htype, hvalues, huntyped⟩, hshaped⟩

theorem stays_constDecl : Stays all constDecl fun decl =>
    (∀ spec ∈ decl.specs, ReadFrom all spec.node) ∧ decl.Shaped := by
  refine (stays_expect _ _).bind fun _ _ => (stays_numberedGroup _ _ stays_constSpec).bind
    fun g hg => stays_pure ⟨fun spec hspec => ?_, ?_⟩
  · obtain ⟨i, hi⟩ := List.mem_iff_getElem?.1 hspec
    exact (hg.1 i spec hi).1
  · exact ⟨fun i spec hi => (hg.1 i spec hi).2, hg.2⟩

theorem stays_varDecl : Stays all varDecl fun _ => True := by
  refine (stays_expect _ _).bind fun _ _ => (stays_group (P := fun _ => True) _ _ fun _ => ?_).bind
    fun _ _ => stays_pure trivial
  exact stays_identifiers.bind fun names _ => (stays_bounded fun _ => stays_skipValues).bind
    fun _ _ => stays_pure trivial

theorem stays_typeSpec : Stays all typeSpec fun _ => True := by
  refine (stays_spanned (P := fun _ => True) ?_).imp fun _ _ => trivial
  refine stays_identifier.bind fun name _ => (stays_isNext _).bind fun b _ =>
    (stays_peekAt 1).bind fun k _ => (stays_peekAt 2).bind fun k' _ => stays_skipBalanced.when ?_
  exact (stays_accept _).bind fun _ _ => (stays_spanned stays_typeExpr).bind
    fun _ _ => stays_pure trivial

theorem stays_typeDecl : Stays all typeDecl fun _ => True :=
  (stays_expect _ _).bind fun _ _ => (stays_group _ _ fun _ => stays_typeSpec).bind fun _ _ =>
    stays_pure trivial

theorem stays_receiverName : Stays all receiverName (ReceiverFrom all) := by
  refine stays_peek.bind fun k hk => (stays_peekAt 1).bind fun k' _ => ?_
  have hnamed : ∀ name, .ident name ∈ all → Stays all (do
      advance
      return if name = blankName then none else some name) (ReceiverFrom all) := by
    intro name hname
    refine stays_advance.bind fun _ _ => stays_pure ?_
    split
    · rintro _ ⟨⟩
    · rename_i hblank
      rintro _ ⟨⟩
      exact ⟨hname, hblank⟩
  split
  · exact hnamed _ (hk (by simp))
  · exact hnamed _ (hk (by simp))
  · exact hnamed _ (hk (by simp))
  · exact stays_pure (by rintro _ ⟨⟩)

theorem stays_receiver : Stays all receiver fun r => ReceiverFrom all r.name :=
  (stays_expect _ _).bind fun _ _ => stays_receiverName.bind fun _ hname =>
    (stays_spanned stays_typeExpr).bind fun _ _ =>
      Stays.bind (P := fun _ => True) (stays_accept _).map fun _ _ =>
        (stays_expect _ _).bind fun _ _ => stays_pure hname

theorem stays_funcDecl :
    Stays all funcDecl fun f => ∀ r ∈ f.receiver, ReceiverFrom all r.name := by
  have hreceiver : Stays all (some <$> receiver) fun r => ∀ r' ∈ r, ReceiverFrom all r'.name := by
    refine Stays.map (stays_receiver.imp ?_)
    rintro r hr _ ⟨⟩
    exact hr
  refine (stays_expect _ _).bind fun _ _ => (stays_isNext _).bind fun b _ => ?_
  refine hreceiver.ite_bind (stays_pure (by simp)) fun receiver hreceiver => ?_
  refine stays_identifier.bind fun name _ => (stays_isNext _).bind fun b _ => ?_
  refine stays_skipBalanced.when (stays_signature.bind fun s _ => ?_)
  exact (stays_isNext _).bind fun b _ => stays_skipBalanced.when (stays_pure hreceiver)

theorem stays_declaration : Stays all declaration fun decl =>
    DeclFrom all decl.node ∧ ∀ consts, decl.node = .const consts → consts.Shaped := by
  refine (stays_spanned (P := fun decl => DeclFrom all decl ∧
    ∀ consts, decl = .const consts → consts.Shaped) ?_).bind fun decl hdecl =>
      (stays_endOfDecl _).bind fun _ _ => stays_pure hdecl
  refine stays_peek.bind fun k _ => ?_
  split
  · refine stays_constDecl.bind fun decl hdecl => stays_pure ⟨⟨?_, by simp⟩, ?_⟩
    · rintro _ ⟨⟩
      exact hdecl.1
    · rintro _ ⟨⟩
      exact hdecl.2
  · exact stays_varDecl.bind fun _ _ => stays_pure ⟨⟨by simp, by simp⟩, by simp⟩
  · exact stays_typeDecl.bind fun _ _ => stays_pure ⟨⟨by simp, by simp⟩, by simp⟩
  · refine stays_funcDecl.bind fun f hf => stays_pure ⟨⟨by simp, ?_⟩, by simp⟩
    rintro _ ⟨⟩
    exact hf
  · exact stays_currentSpan.bind fun _ _ => stays_fail _ _
  · exact stays_unexpected _

theorem stays_importDecl : Stays all importDecl fun _ => True := by
  refine (stays_expect _ _).bind fun _ _ => (stays_group (P := fun _ => True) _ _ fun _ => ?_).bind
    fun _ _ => (stays_endOfDecl _).bind fun _ _ => stays_pure trivial
  refine Stays.bind (P := fun _ => True) (stays_peek.bind fun k _ => ?_) fun name _ =>
    stays_peek.bind fun k _ => ?_
  · split
    · exact stays_advance.bind fun _ _ => stays_pure trivial
    · exact stays_advance.bind fun _ _ => stays_pure trivial
    · exact stays_pure trivial
  · split
    · exact stays_advance.bind fun _ _ => stays_pure trivial
    · exact stays_unexpected _

theorem harvest_from {P : α → Prop} {item : Parser α} (hitem : Stays all item P)
    (hc : c.kinds <:+ all) (herrors : (harvest more item n c).errors = []) :
    (∀ x ∈ (harvest more item n c).items, P x) ∧ (harvest more item n c).cursor.kinds <:+ all := by
  induction n generalizing c with
  | zero => exact ⟨by simp [harvest], hc⟩
  | succ n ih =>
    rw [harvest] at herrors ⊢
    split
    · rename_i hmore
      rw [if_pos hmore] at herrors
      cases hx : item c with
      | error e d =>
        rw [hx] at herrors
        cases herrors
      | ok x d =>
        rw [hx] at herrors
        obtain ⟨hd, hP⟩ := hitem c x d hc hx
        have hskip : d.skipSemicolons.kinds <:+ all := by
          rw [d.kinds_skipSemicolons]
          exact (List.dropWhile_suffix _).trans hd
        obtain ⟨hitems, hend⟩ := ih hskip herrors
        exact ⟨List.forall_mem_cons.2 ⟨hP, hitems⟩, hend⟩
    · exact ⟨by simp, hc⟩

theorem parseSource_ok (h : parseSource source = .ok file) :
    ∃ tokens, lex source = .ok tokens ∧ parse tokens = .ok file := by
  unfold parseSource at h
  split at h
  · cases h
  · rename_i tokens hlex
    split at h
    · cases h
    · rename_i hparse
      cases h
      exact ⟨tokens, hlex, hparse⟩

theorem parse_ok (h : parse tokens = .ok file) :
    (.ident file.package.node ∈ tokens.map (·.node) ∧ file.package.node ≠ blankName) ∧
    ∀ decl ∈ file.decls, DeclFrom (tokens.map (·.node)) decl.node ∧
      ∀ consts, decl.node = .const consts → consts.Shaped := by
  unfold parse at h
  split at h
  · cases h
  · split at h
    · cases h
    · rename_i package c hpackage
      dsimp only at h
      split at h
      · rename_i herrors
        cases h
        obtain ⟨himports, hdecls⟩ := List.append_eq_nil_iff.1 herrors
        have hstart : (Cursor.start tokens).skipSemicolons.kinds <:+ tokens.map (·.node) := by
          rw [Cursor.kinds_skipSemicolons]
          exact List.dropWhile_suffix _
        obtain ⟨hc, hname⟩ := stays_packageClause _ _ _ hstart hpackage
        have hskip : c.skipSemicolons.kinds <:+ tokens.map (·.node) := by
          rw [c.kinds_skipSemicolons]
          exact (List.dropWhile_suffix _).trans hc
        obtain ⟨-, hend⟩ := harvest_from stays_importDecl hskip himports
        exact ⟨hname, (harvest_from stays_declaration hend hdecls).1⟩
      · cases h

/-- Every declaration of constants in a file that was read is in shape: its lines count from zero,
each has names and a value for each name, or neither values nor a type, the first has values, and
without parentheses there is one line. -/
theorem constants_shaped (h : parseSource source = .ok file) :
    ∀ decl ∈ file.decls, ∀ consts, decl.node = .const consts → consts.Shaped := by
  intro decl hdecl
  obtain ⟨tokens, -, hparse⟩ := parseSource_ok h
  exact ((parse_ok hparse).2 decl hdecl).2

theorem constants_shaped_repeated :
    ∃ file consts, parseSource "package p\nconst (A, B T = 1, iota; C, D)" = .ok file ∧
      file.decls.map (·.node) = [.const consts] ∧
      consts.specs.map (fun spec => (spec.node.names.length, spec.node.values.length)) =
        [(2, 2), (2, 0)] ∧
      consts.Shaped := by
  have hlex : lex "package p\nconst (A, B T = 1, iota; C, D)" = .ok [⟨.keyword .package, ⟨0, 7⟩⟩,
      ⟨.ident "p", ⟨8, 9⟩⟩, ⟨.punctuation .semicolon, ⟨9, 9⟩⟩, ⟨.keyword .const, ⟨10, 15⟩⟩,
      ⟨.punctuation .lparen, ⟨16, 17⟩⟩, ⟨.ident "A", ⟨17, 18⟩⟩, ⟨.punctuation .comma, ⟨18, 19⟩⟩,
      ⟨.ident "B", ⟨20, 21⟩⟩, ⟨.ident "T", ⟨22, 23⟩⟩, ⟨.operator .assign, ⟨24, 25⟩⟩,
      ⟨.int 1, ⟨26, 27⟩⟩, ⟨.punctuation .comma, ⟨27, 28⟩⟩, ⟨.ident "iota", ⟨29, 33⟩⟩,
      ⟨.punctuation .semicolon, ⟨33, 34⟩⟩, ⟨.ident "C", ⟨35, 36⟩⟩, ⟨.punctuation .comma, ⟨36, 37⟩⟩,
      ⟨.ident "D", ⟨38, 39⟩⟩, ⟨.punctuation .rparen, ⟨39, 40⟩⟩, ⟨.punctuation .semicolon, ⟨40, 40⟩⟩,
      ⟨.eof, ⟨40, 40⟩⟩] := by decide +kernel
  have hparse : ∃ file consts span,
      parseSource "package p\nconst (A, B T = 1, iota; C, D)" = .ok file ∧
      file.decls = [⟨.const consts, span⟩] ∧
      consts.specs.map (fun spec => (spec.node.names.length, spec.node.values.length)) =
        [(2, 2), (2, 0)] := by
    rw [parseSource, hlex]
    exact ⟨_, _, _, rfl, rfl, rfl⟩
  obtain ⟨file, consts, span, hfile, hdecls, hspecs⟩ := hparse
  refine ⟨file, consts, hfile, by rw [hdecls]; rfl, hspecs, ?_⟩
  exact constants_shaped hfile ⟨.const consts, span⟩ (by simp [hdecls]) consts rfl

end

end GoEnum.Parse
