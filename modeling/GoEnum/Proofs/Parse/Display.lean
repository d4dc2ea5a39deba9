import GoEnum.Proofs.Parse.Source
import GoEnum.Proofs.Syntax.Display

namespace GoEnum.Parse

open Token Syntax

variable {t : TypeExpr} {ts : List TypeExpr} {rest : List TokenKind}

theorem startsType_textKinds (h : t.Displayable) (rest : List TokenKind) :
    startsType (next (t.textKinds ++ rest)) = true := by
  cases h with
  | applied hbase => cases hbase <;> rfl
  | _ => rfl

theorem readsItems_textKinds (h : ∀ t ∈ ts, t.Displayable)
    (hread : ∀ t ∈ ts, ∀ rest, EndsType rest → t.textKinds.length ≤ n →
      Yields (typeWithin out n) (t.textKinds ++ rest) fun t' ls => t' = t ∧ ls = rest)
    (hn : ∀ ks ∈ textKindsAll ts, ks.length ≤ n) :
    List.Forall₂ (ReadsItem (typeWithin out n) .rbracket) (textKindsAll ts) ts := by
  induction ts with
  | nil => exact .nil
  | cons t ts ih =>
    obtain ⟨ht, hts⟩ := List.forall_mem_cons.1 h
    obtain ⟨hreadt, hreadts⟩ := List.forall_mem_cons.1 hread
    obtain ⟨hk, hks⟩ := List.forall_mem_cons.1 hn
    refine .cons (readsItem_type (startsType_textKinds ht) fun rest hrest => ?_)
      (ih hts hreadts hks)
    exact hreadt rest hrest hk

theorem yields_textKinds (h : t.Displayable) (hrest : EndsType rest)
    (hn : t.textKinds.length ≤ n) :
    Yields (typeWithin out n) (t.textKinds ++ rest) fun t' ls => t' = t ∧ ls = rest := by
  have hdots : Balanced [.punctuation .ellipsis] := by decide
  -- The parser counts steps and not parts of types, so the induction is on the steps.
  induction n generalizing t rest with
  | zero =>
    have hne := ne_nil_of_startsType (startsType_textKinds h)
    exact absurd (List.length_eq_zero_iff.1 (Nat.le_zero.1 hn)) hne
  | succ n ih =>
    cases h with
    | named => exact yields_nameWithin .named (fun _ _ => hrest.dot) (hrest.ne rfl)
    | qualified => exact yields_nameWithin .qualified (fun _ _ => hrest.dot) (hrest.ne rfl)
    | @applied base args hname hbase hargs =>
      have hcount := length_separated (textKindsAll args)
      have hpos : 0 < base.nameKinds.length := by cases hname <;> simp [TypeExpr.nameKinds]
      simp only [TypeExpr.textKinds, textKinds_of_isName hname, List.length_append,
        List.length_cons, List.length_nil] at hn
      simp only [TypeExpr.textKinds, textKinds_of_isName hname, List.append_assoc,
        List.cons_append, List.nil_append]
      have hlength : ∀ ks ∈ textKindsAll args, ks.length ≤ n := by
        intro ks hks
        have hle := length_le_separated hks
        omega
      have hitems := readsItems_textKinds hargs (fun t ht rest => ih (hargs t ht)) hlength
      exact yields_applied hname (yields_commaList hitems (by decide) (by omega))
    | pointer ht => exact yields_pointer (ih ht hrest (Nat.le_of_succ_le_succ hn))
    | slice ht =>
      simp only [TypeExpr.textKinds, List.length_cons] at hn
      exact yields_slice (ih ht hrest (by omega))
    | array ht =>
      simp only [TypeExpr.textKinds, List.length_cons] at hn
      have hlength : Balanced [.ident "N"] := by decide
      exact yields_array hlength (by simp) (ih ht hrest (by omega))
    | map hkey hvalue =>
      simp only [TypeExpr.textKinds, List.length_cons, List.length_append] at hn
      simp only [TypeExpr.textKinds, List.append_assoc, List.cons_append]
      exact yields_map (ih hkey ⟨by simp, rfl⟩ (by omega)) (ih hvalue hrest (by omega))
    | @chan element ht =>
      have hnext : next (element.textKinds ++ rest) ≠ .operator .arrow := by
        cases ht with
        | applied hname => cases hname <;> simp [TypeExpr.textKinds]
        | _ => simp [TypeExpr.textKinds]
      exact yields_chan hnext (ih ht hrest (Nat.le_of_succ_le_succ hn))
    | struct => exact yields_braced (by simp) rfl hdots
    | interface => exact yields_braced (by simp) rfl hdots

theorem yields_displayed (h : t.Displayable) (hrest : EndsType rest) :
    Yields typeExpr (t.textKinds ++ rest) fun t' ls => t' = t ∧ ls = rest := by
  refine yields_bounded fun out => yields_textKinds h hrest ?_
  rw [List.length_append]
  omega

/-- No type that is displayed is taken for type parameters: the length of an array is a name, but no
name comes after it. -/
theorem not_beginsTypeParams (h : t.Displayable) (rest : List TokenKind) :
    (next (t.textKinds ++ rest) == .punctuation .lbracket &&
      beginsTypeParams ((t.textKinds ++ rest)[1]?.getD .eof)
        ((t.textKinds ++ rest)[2]?.getD .eof)) = false := by
  cases h with
  | applied hname => cases hname <;> rfl
  | _ => rfl

theorem yields_typeSpec (h : t.Displayable) (name : String) (hrest : EndsType rest) :
    Yields typeSpec (.ident name :: (t.textKinds ++ rest)) fun spec ls =>
      spec.node.Defines name t ∧ ls = rest := by
  have hassign : next (t.textKinds ++ rest) ≠ .operator .assign :=
    ne_of_startsType (startsType_textKinds h rest) rfl
  refine yields_spanned (Q := fun spec ls => TypeSpec.Defines spec name t ∧ ls = rest) ?_
  refine (yields_identifier name).bind ?_
  rintro x ls ⟨hx, rfl⟩
  refine (yields_isNext _).bind ?_
  rintro b ls ⟨rfl, rfl⟩
  refine (yields_peekAt 1).bind ?_
  rintro k ls ⟨rfl, rfl⟩
  refine (yields_peekAt 2).bind ?_
  rintro l ls ⟨rfl, rfl⟩
  rw [not_beginsTypeParams h rest]
  refine (yields_refuse hassign).bind ?_
  rintro b ls ⟨rfl, rfl⟩
  refine (yields_spanned (yields_displayed h hrest)).bind ?_
  rintro type ls ⟨htype, rfl⟩
  exact yields_pure _ ⟨⟨hx, rfl, rfl, htype⟩, rfl⟩

theorem yields_typeDeclaration (h : t.Displayable) (name : String) :
    Yields declaration
      (.keyword .type :: .ident name :: t.textKinds ++ .punctuation .semicolon :: rest)
      fun d ls => (∃ spec, d.node = .type [spec] ∧ spec.node.Defines name t) ∧ ls = rest := by
  refine (yields_spanned (Q := fun d ls => (∃ spec, d = Decl.type [spec] ∧
    spec.node.Defines name t) ∧ ls = .punctuation .semicolon :: rest) ?_).bind ?_
  · refine yields_peek.bind ?_
    rintro k ls ⟨rfl, rfl⟩
    have hdecl : Yields typeDecl (.keyword .type :: .ident name :: t.textKinds ++
        .punctuation .semicolon :: rest) fun specs ls =>
          List.Forall₂ (fun t spec => spec.node.Defines name t) [t] specs ∧
            ls = .punctuation .semicolon :: rest := by
      refine (yields_expect (by simp) _).bind ?_
      rintro - ls rfl
      refine (yields_single (i := t) (R := fun t spec => spec.node.Defines name t) _ _ (by simp)
        (yields_typeSpec h name ⟨by simp, rfl⟩)).bind ?_
      rintro g ls ⟨⟨-, hg⟩, rfl⟩
      exact yields_pure _ ⟨hg, rfl⟩
    refine hdecl.bind ?_
    rintro specs ls ⟨hspecs, rfl⟩
    cases hspecs with
    | cons hspec hnil =>
      cases hnil
      exact yields_pure _ ⟨⟨_, rfl, hspec⟩, rfl⟩
  · rintro d ls ⟨hd, rfl⟩
    refine (yields_endOfDecl _).bind ?_
    rintro - ls rfl
    exact yields_pure _ ⟨hd, rfl⟩

theorem reads_keyword_ident (k : Keyword) (h : isIdentifier name) :
    Reads (Stops isIdentPart) (k.spelling.toList ++ ' ' :: name.toList)
      [.keyword k, .ident name] :=
  (reads_keyword k).append (reads_space.followed (reads_ident h)) fun _ _ => stops_cons (by decide)

theorem readsLines_declared (h : t.Displayable) (hpackage : isIdentifier package)
    (hname : isIdentifier name) :
    ReadsLines (("package ".toList ++ package.toList ++ ['\n']) ++
        ("type ".toList ++ name.toList ++ ' ' :: t.text.toList ++ ['\n']))
      ([.keyword .package, .ident package, .punctuation .semicolon] ++
        (.keyword .type :: .ident name :: t.textKinds ++ [.punctuation .semicolon])) := by
  have hclause : ReadsLines _ _ := (reads_keyword_ident .package hpackage).line fun _ =>
    stops_cons (by decide)
  have hdecl : ReadsLines _ _ := ((reads_keyword_ident .type hname).append
    (reads_space.followed (reads_text h)) fun _ _ => stops_cons (by decide)).line fun _ =>
      stops_cons (by decide)
  have hends : endsAfter false ([.keyword .type, .ident name] ++ ([] ++ t.textKinds)) = true :=
    endsAfter_textKinds h _
  rw [hends] at hdecl
  exact hclause.append hdecl

/-- A type is what is parsed after its text has been put into a file as the type of a name. -/
theorem parse_text (h : t.Displayable) :
    ∃ file, parseSource ("package p\ntype X " ++ t.text ++ "\n") = .ok file ∧
      ∃ d spec, file.decls = [d] ∧ d.node = .type [spec] ∧ spec.node.Defines "X" t := by
  have htext : ("package p\ntype X " ++ t.text ++ "\n").toList =
      ("package ".toList ++ "p".toList ++ ['\n']) ++
        ("type ".toList ++ "X".toList ++ ' ' :: t.text.toList ++ ['\n']) := by
    simp only [String.toList_append]
    rfl
  have hpackage : isIdentifier "p" := by decide
  have hname : isIdentifier "X" := by decide
  have hlines := readsLines_declared h hpackage hname
  rw [← htext] at hlines
  obtain ⟨tokens, hlex, htokens⟩ := lex_of_readsLines hlines
  have hdecl : ∀ u ∈ [t], ∀ ls, Yields declaration
      (.keyword .type :: .ident "X" :: u.textKinds ++ .punctuation .semicolon :: ls) fun d ms =>
        (∃ spec, d.node = .type [spec] ∧ spec.node.Defines "X" u) ∧ ms = ls := by
    intro u hu ls
    obtain rfl := List.mem_singleton.1 hu
    exact yields_typeDeclaration h "X"
  have hnodes : tokens.map (·.node) = [.keyword .package, .ident "p", .punctuation .semicolon] ++
      (importGroups []).flatMap importKinds ++ [t].flatMap (fun u =>
        .keyword .type :: .ident "X" :: u.textKinds ++ [.punctuation .semicolon]) ++ [.eof] := by
    rw [htokens, List.flatMap_singleton]
    rfl
  obtain ⟨file, hfile, -, -, hdecls⟩ :=
    parse_declarations (by decide) hdecl (fun u _ ls => by simp) hnodes
  cases hds : file.decls with
  | nil =>
    rw [hds] at hdecls
    cases hdecls
  | cons d ds =>
    rw [hds] at hdecls
    obtain ⟨⟨spec, hd, hspec⟩, hnil⟩ := List.forall₂_cons.1 hdecls
    cases hnil
    refine ⟨file, ?_, d, spec, hds, hd, hspec⟩
    simp only [parseSource, hlex, hfile]

def indexType : TypeExpr :=
  .map (.qualified "time" "Time")
    (.array (.pointer (.pointer (.applied (.named "Set") [.chan (.named "K"), .slice .interface]))))

theorem indexType_displayable : indexType.Displayable := by
  have hargs : ∀ t ∈ [TypeExpr.chan (.named "K"), .slice .interface], t.Displayable := by
    simp only [List.mem_cons, List.not_mem_nil, or_false, forall_eq_or_imp, forall_eq]
    exact ⟨.chan (.named (by decide)), .slice .interface⟩
  exact .map (.qualified (by decide) (by decide))
    (.array (.pointer (.pointer (.applied .named (.named (by decide)) hargs))))

theorem parse_text_index : indexType.Displayable ∧
    indexType.text = "map[time.Time][N]**Set[chan K, []interface\x7b...\x7d]" ∧
    ∃ file, parseSource ("package p\ntype X " ++ indexType.text ++ "\n") = .ok file ∧
      ∃ d spec, file.decls = [d] ∧ d.node = .type [spec] ∧ spec.node.Defines "X" indexType :=
  ⟨indexType_displayable, by decide, parse_text indexType_displayable⟩

end GoEnum.Parse
