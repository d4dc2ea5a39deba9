import GoEnum.Proofs.Parse.File
import GoEnum.Proofs.Parse.Outline
import GoEnum.Proofs.Token.Cut

namespace GoEnum.Parse

open Token Syntax Outline

section

variable {size : Nat} {p : Parser α} {o : α → List Outline}

theorem Lays.congr {o' : α → List Outline} (hp : Lays size p o) (h : ∀ x, o x = o' x) :
    Lays size p o' := by
  intro a os
  simp only [← h]
  exact hp a os

theorem lays_spanned (hbegins : Begins p) (hshrinks : Shrinks (spanned p)) (hp : Lays size p o) :
    Lays size (spanned p) fun x => [.node x.span (o x.node)] := by
  refine .node Spanned.span (fun x => o x.node) (fun c x d h => hbegins.bind c x d h) hshrinks
    fun a s => ?_
  refine ((hp.fresh a).before fun _ _ h => h.1).bind fun x => ?_
  exact takes_close (fun _ => rfl) fun _ => rfl

theorem lays_spannedType : Lays size (spanned typeExpr) fun t => [.of t] :=
  have hpasses := passes_typeExpr opensHole_of_opensNone
  lays_spanned begins_typeExpr (passes_spanned hpasses).anywhere (.quiet hpasses.orderly.anywhere)

theorem lays_identifiers : Lays size identifiers fun xs => xs.map .of :=
  Lays.congr (fun a os => .bounded fun _ n => lays_commaSeparated lays_identifier n a os)
    fun _ => List.map_eq_flatMap.symm

theorem lays_constTail :
    Lays size constTail fun t => t.1.toList.map .of ++ t.2.map Expr.outline := by
  intro a os
  refine .peek fun k => .before ?_ fun _ _ h => h.1
  have hnone : Takes size (Laid a os)
      (pure (none, []) : Parser (Option (Spanned TypeExpr) × List Expr)) fun t =>
        Laid a (os ++ (t.1.toList.map .of ++ t.2.map Expr.outline)) := takes_give (by simp)
  split
  · exact hnone
  · exact hnone
  · exact hnone
  · have htype : Lays size (some <$> spanned typeExpr) fun type => type.toList.map .of :=
      .map (lays_spannedType.congr fun _ => rfl)
    refine .ite_bind (takes_give (by simp)) (htype a os) fun type => ?_
    refine ((proceeds_expect _ _).takes a _).bind fun _ => ?_
    exact (lays_expressionList a _).bind fun values => takes_give (by simp [List.map_eq_flatMap])

theorem lays_constSpec (iota : Nat) :
    Lays size (constSpec iota) fun s => [.node s.span s.node.parts] := by
  have hbegins : Begins (constSpec iota) := fun c x d h =>
    Begins.bind (fun c => begins_commaSeparated begins_identifier (c.rest.length + 1) c) c x d h
  refine .node Spanned.span (fun s => s.node.parts) hbegins
    (passes_constSpec opensHole_of_opensNone iota).anywhere fun a s => ?_
  refine ((lays_identifiers.fresh a).before fun _ _ h => h.1).bind fun names => ?_
  refine (lays_constTail a _).bind fun tail => .previousSpan fun t => ?_
  dsimp only
  split
  · rintro c x d - - ⟨⟩
  · refine takes_pure fun c _ hlaid => ?_
    rw [hlaid.2]
    exact ⟨hlaid.1, rfl⟩

theorem lays_lines {line : Nat → Parser α} {mk : Bool × List α → β} {o' : β → List Outline}
    (what closing ending : String) (hline : ∀ i, Lays size (line i) o)
    (h : ∀ g, g.2.flatMap o = o' (mk g)) :
    Lays size (do expect k what; return mk (← group closing ending line)) o' := by
  intro a os
  refine ((proceeds_expect _ _).takes a os).bind fun _ => ?_
  exact (lays_group closing ending hline a os).bind fun g => takes_give (by rw [← h])

theorem lays_constDecl : Lays size constDecl fun d => (Decl.const d).parts :=
  lays_lines _ _ _ lays_constSpec fun _ => List.map_eq_flatMap.symm

theorem lays_varSpec : Lays size varSpec fun names => names.map .of := fun a os =>
  (lays_identifiers a os).bind fun _ =>
    (Proceeds.takes (fun c => proceeds_skipValues _ c) a _).bind fun _ => takes_give rfl

theorem lays_varDecl : Lays size varDecl fun names => (Decl.var names).parts :=
  lays_lines _ _ _ (fun _ => lays_varSpec) fun _ => by
    rw [Decl.parts, List.map_flatten, List.flatMap_def]

theorem lays_typeSpec : Lays size typeSpec fun s => [.node s.span s.node.parts] := by
  refine lays_spanned begins_identifier.bind (passes_typeSpec opensHole_of_opensNone).anywhere ?_
  refine .of_fresh fun a => (lays_identifier.fresh a).bind fun name => ?_
  refine ((proceeds_isNext _).takes a _).bind fun _ => ((proceeds_peekAt 1).takes a _).bind fun _ =>
    ((proceeds_peekAt 2).takes a _).bind fun _ => .when (proceeds_skipBalanced.takes a _) ?_
  exact ((proceeds_accept _).takes a _).bind fun _ => (lays_spannedType a _).bind fun _ =>
    takes_give rfl

theorem lays_typeDecl : Lays size typeDecl fun specs => (Decl.type specs).parts :=
  lays_lines _ _ _ (fun _ => lays_typeSpec) fun _ => List.map_eq_flatMap.symm

theorem lays_receiver : Lays size receiver fun r => [.of r.type] := by
  intro a os
  refine ((proceeds_expect _ _).takes a os).bind fun _ => ?_
  refine ((orderly_receiverName opensHole_of_opensNone).anywhere.takes a os).bind fun name => ?_
  refine (lays_spannedType a os).bind fun type => ?_
  refine ((proceeds_accept _).map.takes a _).bind fun _ => ?_
  exact ((proceeds_expect _ _).takes a _).bind fun _ => takes_give rfl

theorem lays_funcDecl : Lays size funcDecl fun d => d.parts := by
  have hreceiver : Lays size (some <$> receiver) fun r => r.toList.map fun r => .of r.type :=
    .map (lays_receiver.congr fun _ => rfl)
  intro a os
  refine ((proceeds_expect _ _).takes a os).bind fun _ => ?_
  refine ((proceeds_isNext _).takes a os).bind fun _ => ?_
  refine .ite_bind (hreceiver a os) (takes_give (by simp)) fun r => ?_
  refine (lays_identifier a _).bind fun name => ((proceeds_isNext _).takes a _).bind fun _ => ?_
  refine .when (proceeds_skipBalanced.takes a _) ?_
  refine ((orderly_signature opensHole_of_opensNone).anywhere.takes a _).bind fun _ => ?_
  refine ((proceeds_isNext _).takes a _).bind fun _ => .when (proceeds_skipBalanced.takes a _) ?_
  exact takes_give (List.append_assoc _ _ _)

theorem lays_declaration : Lays size declaration fun d => [.node d.span d.node.parts] := by
  intro a os
  refine Takes.bind (R := fun d => Laid a (os ++ [.node d.span d.node.parts])) ?_ fun d => ?_
  · have hpasses := passes_spanned (passes_declared opensHole_of_opensNone rfl)
    refine lays_spanned (fun c x d h hk => ?_) hpasses.anywhere (fun a os => ?_) a os
    · rw [peek_bind_eq, hk] at h
      cases h
    · refine .peek fun k => .before ?_ fun _ _ h => h.1
      split
      · exact (lays_constDecl a os).bind fun _ => takes_give rfl
      · exact (lays_varDecl a os).bind fun _ => takes_give rfl
      · exact (lays_typeDecl a os).bind fun _ => takes_give rfl
      · exact (lays_funcDecl a os).bind fun _ => takes_give rfl
      · rintro c x d - - ⟨⟩
      · exact takes_unexpected _
  · refine ((orderly_endOfDecl opensHole_of_opensNone _).anywhere.takes a _).bind fun _ => ?_
    exact takes_give rfl

theorem laid_harvest {item : Parser α} (hitem : Lays size item o) (more : Cursor → Bool) (n : Nat)
    (hc : c.Sorted size) (hlaid : Laid a os c) (hnone : (harvest more item n c).errors = []) :
    (harvest more item n c).cursor.Sorted size ∧
      Laid a (os ++ (harvest more item n c).items.flatMap o) (harvest more item n c).cursor := by
  induction n generalizing c os with
  | zero => exact ⟨hc, by simpa [harvest] using hlaid⟩
  | succ n ih =>
    rw [harvest] at hnone ⊢
    split at hnone
    · rename_i hmore
      cases hx : item c with
      | ok x d =>
        rw [hx] at hnone
        obtain ⟨hreaches, hd⟩ := hitem a os c x d hc hlaid hx
        have hskip : d.Reaches d.skipSemicolons := reaches_skipWhile _ _ _
        have hsorted := hreaches.sorted hc
        rw [if_pos hmore]
        simpa using ih (hskip.sorted hsorted) (hd.reaches hsorted hskip) hnone
      | error e d =>
        rw [hx] at hnone
        cases hnone
    · rename_i hmore
      rw [if_neg hmore]
      exact ⟨hc, by simpa using hlaid⟩

theorem sorted_of_shrinks (hp : Proceeds p) (hshrinks : Shrinks p) (hc : Lies size lo c.rest)
    (h : p c = .ok x d) : d.Sorted size := by
  have hreaches := hp c x d h
  obtain ⟨s, t, ts, rfl, -, hpassed⟩ := hreaches.exists_cons (hshrinks c x d h)
  cases hc with
  | cons _ hle _ hts => exact hpassed.sorted ⟨hle, hts⟩

theorem laid_packageClause (hc : Lies size lo c.rest) (h : packageClause c = .ok name d) :
    d.Sorted size ∧ Laid 0 [.of name] d := by
  obtain ⟨u, c', hexpect, hrest⟩ := bind_ok.1 h
  have hsorted : c'.Sorted size :=
    sorted_of_shrinks (proceeds_expect _ _) (shrinks_expect (by simp) _) hc hexpect
  have hname : Takes size (Laid 0 []) (do
      let name ← identifier
      if name.node = blankName then fail .blankPackage name.span
      endOfDecl "';' after package clause"
      return name) fun name => Laid 0 [.of name] := by
    refine (lays_identifier.fresh 0).bind fun name => .when ?_ ?_
    · rintro c x d - - ⟨⟩
    · refine ((orderly_endOfDecl opensHole_of_opensNone _).anywhere.takes 0 _).bind fun _ => ?_
      exact takes_give rfl
  obtain ⟨hreaches, hlaid⟩ := hname c' name d hsorted ⟨Nat.zero_le _, .nil⟩ hrest
  exact ⟨hreaches.sorted hsorted, hlaid⟩

theorem nested_parse (hts : Lies size lo ts) (h : parse ts = .ok file) :
    Nested 0 size file.outline := by
  unfold parse at h
  split at h
  · cases h
  · split at h
    · cases h
    · rename_i package c hpackage
      dsimp only at h
      split at h
      · rename_i hnone
        cases h
        obtain ⟨himports, hdecls⟩ := List.append_eq_nil_iff.1 hnone
        have hstart : (Cursor.start ts).Reaches (Cursor.start ts).skipSemicolons :=
          reaches_skipWhile _ _ _
        obtain ⟨lo', hrest⟩ := hstart.exists_lies hts
        obtain ⟨hc, hlaid⟩ := laid_packageClause hrest hpackage
        have hskip : c.Reaches c.skipSemicolons := reaches_skipWhile _ _ _
        have hquiet : Lays size importDecl fun _ => [] :=
          .quiet (passes_importDecl opensHole_of_opensNone).orderly.anywhere
        obtain ⟨hc', hlaid'⟩ := laid_harvest hquiet _ _ (hskip.sorted hc) (hlaid.reaches hc hskip)
          himports
        obtain ⟨hc'', hlaid''⟩ := laid_harvest lays_declaration _ _ hc' hlaid' hdecls
        have hnested := hlaid''.nested.mono (Nat.le_refl 0) hc''.rest.le
        rw [List.flatMap_eq_nil_iff.2 fun _ _ => rfl, List.append_nil, ← List.map_eq_flatMap]
          at hnested
        exact hnested
      · cases h

end

section

theorem lies_autoSemicolon (hlo : lo ≤ start) (h : Lies size start ts) (ends : Bool) :
    Lies size lo (autoSemicolon ends start ++ ts) := by
  cases ends with
  | false => exact h.mono hlo
  | true => exact .cons hlo (Nat.le_refl _) (fun hne => absurd rfl hne) h

theorem lies_tokensAt (h : Cut cs ps) (start : Nat) (ends : Bool) (hlo : lo ≤ start) :
    Lies (start + byteSize cs) lo (tokensAt start ends ps) := by
  induction h generalizing start ends lo with
  | nil =>
    refine lies_autoSemicolon hlo ?_ ends
    exact .cons (Nat.le_refl _) (Nat.le_refl _) (fun _ hne => absurd rfl hne) (.nil (Nat.le_refl _))
  | @cons c cs ps _ _ ih =>
    have hsize : start + byteSize (c :: cs) =
        start + byteSize (c :: cs.take (lexeme c cs).length) +
          byteSize (cs.drop (lexeme c cs).length) := by
      rw [Nat.add_assoc, ← byteSize_append, List.cons_append, List.take_append_drop]
    have hpos : start < start + byteSize (c :: cs.take (lexeme c cs).length) := by
      have hsize := c.utf8Size_pos
      rw [byteSize]
      omega
    rw [hsize]
    cases (lexeme c cs).form with
    | token k => exact .cons hlo (Nat.le_of_lt hpos) (fun _ _ => hpos) (ih _ _ (Nat.le_refl _))
    | gap => exact ih _ _ (Nat.le_trans hlo (Nat.le_of_lt hpos))
    | lineBreak => exact lies_autoSemicolon hlo (ih _ _ (Nat.le_of_lt hpos)) ends

theorem lies_of_lex (h : lex s = .ok ts) : Lies s.utf8ByteSize 0 ts := by
  obtain ⟨ps, hcut, rfl⟩ := lex_eq_ok.1 h
  rw [← byteSize_toList]
  have hlies := lies_tokensAt hcut 0 false (Nat.le_refl 0)
  rwa [Nat.zero_add] at hlies

/-- The spans of a file nest: those of declarations, of their lines, of what these are made of and
of expressions lie inside one another, in order, none is empty, and all lie inside the text. -/
theorem spans_nest (h : parseSource source = .ok file) :
    Nested 0 source.utf8ByteSize file.outline ∧
      ∀ s ∈ spansOf file.outline, s.start < s.stop ∧ s.stop ≤ source.utf8ByteSize := by
  obtain ⟨ts, hlex, hparse⟩ := parseSource_ok h
  have hnested := nested_parse (lies_of_lex hlex) hparse
  exact ⟨hnested, fun s hs => (hnested.mem_spans s hs).2⟩

theorem spans_nest_values : ∃ file, parseSource "package p\nconst A, B = -1, f(2)" = .ok file ∧
    file.outline = [leaf ⟨8, 9⟩, .node ⟨10, 31⟩ [.node ⟨16, 31⟩ [leaf ⟨16, 17⟩, leaf ⟨19, 20⟩,
      .node ⟨23, 25⟩ [leaf ⟨24, 25⟩], .node ⟨27, 31⟩ [leaf ⟨27, 28⟩, leaf ⟨29, 30⟩]]]] ∧
    Nested 0 31 file.outline := by
  have hlex : lex "package p\nconst A, B = -1, f(2)" = .ok [⟨.keyword .package, ⟨0, 7⟩⟩,
      ⟨.ident "p", ⟨8, 9⟩⟩, ⟨.punctuation .semicolon, ⟨9, 9⟩⟩, ⟨.keyword .const, ⟨10, 15⟩⟩,
      ⟨.ident "A", ⟨16, 17⟩⟩, ⟨.punctuation .comma, ⟨17, 18⟩⟩, ⟨.ident "B", ⟨19, 20⟩⟩,
      ⟨.operator .assign, ⟨21, 22⟩⟩, ⟨.operator .minus, ⟨23, 24⟩⟩, ⟨.int 1, ⟨24, 25⟩⟩,
      ⟨.punctuation .comma, ⟨25, 26⟩⟩, ⟨.ident "f", ⟨27, 28⟩⟩, ⟨.punctuation .lparen, ⟨28, 29⟩⟩,
      ⟨.int 2, ⟨29, 30⟩⟩, ⟨.punctuation .rparen, ⟨30, 31⟩⟩, ⟨.punctuation .semicolon, ⟨31, 31⟩⟩,
      ⟨.eof, ⟨31, 31⟩⟩] := by decide +kernel
  have hparse : ∃ file, parseSource "package p\nconst A, B = -1, f(2)" = .ok file ∧
      file.outline = [leaf ⟨8, 9⟩, .node ⟨10, 31⟩ [.node ⟨16, 31⟩ [leaf ⟨16, 17⟩, leaf ⟨19, 20⟩,
        .node ⟨23, 25⟩ [leaf ⟨24, 25⟩], .node ⟨27, 31⟩ [leaf ⟨27, 28⟩, leaf ⟨29, 30⟩]]]] := by
    rw [parseSource, hlex]
    exact ⟨_, rfl, rfl⟩
  obtain ⟨file, hfile, houtline⟩ := hparse
  exact ⟨file, hfile, houtline, (spans_nest hfile).1⟩

end

end GoEnum.Parse
