import GoEnum.Parse.File
import GoEnum.Proofs.Parse.Function
import GoEnum.Proofs.Syntax.Method

namespace GoEnum.Parse

open Token Syntax

section

variable {paths : List String} {rest : List TokenKind}

theorem yields_importSpec (path : String) :
    Yields importSpec (.string path :: rest) fun spec ls => spec = ⟨none, path⟩ ∧ ls = rest := by
  have hname : Yields importName (.string path :: rest)
      fun name ls => name = none ∧ ls = .string path :: rest := by
    refine yields_peek.bind ?_
    rintro k ls ⟨rfl, rfl⟩
    exact yields_pure _ ⟨rfl, rfl⟩
  refine hname.bind ?_
  rintro name ls ⟨rfl, rfl⟩
  refine yields_peek.bind ?_
  rintro k ls ⟨rfl, rfl⟩
  refine (yields_advance (by simp)).bind ?_
  rintro - ls rfl
  exact yields_pure _ ⟨rfl, rfl⟩

theorem map_of_forall₂
    (h : List.Forall₂ (fun path spec => spec = ImportSpec.mk none path) paths xs) :
    xs = paths.map fun path => ⟨none, path⟩ := by
  induction h with
  | nil => rfl
  | cons h _ ih => rw [List.map_cons, h, ih]

theorem yields_importDecl (paths : List String) :
    Yields importDecl (importKinds paths ++ rest)
      fun specs ls => specs = paths.map (ImportSpec.mk none) ∧ ls = rest := by
  unfold importKinds
  split
  · rename_i path
    refine (yields_expect (by simp) _).bind ?_
    rintro - ls rfl
    refine (yields_single (i := path) (R := fun path spec => spec = ImportSpec.mk none path)
      _ _ (by simp) (yields_importSpec path)).bind ?_
    rintro g ls ⟨⟨-, hg⟩, rfl⟩
    refine (yields_endOfDecl _).bind ?_
    rintro - ls rfl
    exact yields_pure _ ⟨map_of_forall₂ hg, rfl⟩
  · have hline : ∀ (j : Nat) path, paths[j]? = some path → ∀ ls, Yields importSpec
        ([.string path] ++ .punctuation .semicolon :: ls)
        fun spec ms => spec = ⟨none, path⟩ ∧ ms = .punctuation .semicolon :: ls :=
      fun _ path _ _ => yields_importSpec path
    have htokens : (TokenKind.keyword .import :: .punctuation .lparen ::
        (paths.flatMap (fun path => [.string path, .punctuation .semicolon]) ++
          [.punctuation .rparen, .punctuation .semicolon])) ++ rest =
        .keyword .import :: .punctuation .lparen ::
          (paths.flatMap (fun path => [.string path] ++ [.punctuation .semicolon]) ++
            .punctuation .rparen :: .punctuation .semicolon :: rest) := by
      simp
    rw [htokens]
    refine (yields_expect (by simp) _).bind ?_
    rintro - ls rfl
    refine (yields_group _ _ hline (by simp)).bind ?_
    rintro g ls ⟨⟨-, hg⟩, rfl⟩
    refine (yields_endOfDecl _).bind ?_
    rintro - ls rfl
    exact yields_pure _ ⟨map_of_forall₂ hg, rfl⟩

end

section

variable {ι : Type} {is : List ι} {R : ι → α → Prop} {kinds : ι → List TokenKind} {item : Parser α}
  {more : Cursor → Bool} {rest : List TokenKind}

theorem harvest_items (begins : TokenKind → Bool) (hmore : ∀ c, more c = begins c.kind)
    (hitem : ∀ i ∈ is, ∀ ls, Yields item (kinds i ++ ls) fun x ms => R i x ∧ ms = ls)
    (hstart : ∀ i ∈ is, ∀ ls, begins (next (kinds i ++ ls)) = true ∧
      next (kinds i ++ ls) ≠ .punctuation .semicolon)
    (hend : begins (next rest) = false) (hrest : next rest ≠ .punctuation .semicolon)
    (hn : is.length ≤ n) (hc : c.kinds = is.flatMap kinds ++ rest) :
    List.Forall₂ R is (harvest more item n c).items ∧ (harvest more item n c).errors = [] ∧
      (harvest more item n c).cursor.kinds = rest := by
  induction is generalizing n c with
  | nil =>
    have hstop : more c = false := by rw [hmore, c.kind_eq, hc, List.flatMap_nil, List.nil_append,
      hend]
    cases n with
    | zero => exact ⟨.nil, rfl, hc⟩
    | succ n =>
      rw [harvest, hstop]
      exact ⟨.nil, rfl, hc⟩
  | cons i is ih =>
    obtain _ | n := n
    · simp at hn
    rw [List.flatMap_cons, List.append_assoc] at hc
    obtain ⟨x, c', hx, hR, hc'⟩ := hitem i List.mem_cons_self _ c hc
    have hgo : more c = true := by
      rw [hmore, c.kind_eq, hc]
      exact (hstart i List.mem_cons_self _).1
    have hskip : c'.skipSemicolons.kinds = is.flatMap kinds ++ rest := by
      rw [c'.kinds_skipSemicolons, hc', dropSemicolons_eq_self]
      cases is with
      | nil => exact hrest
      | cons j is =>
        rw [List.flatMap_cons, List.append_assoc]
        exact (hstart j (by simp) _).2
    obtain ⟨hitems, herrors, hcursor⟩ := ih (fun j hj => hitem j (List.mem_cons_of_mem i hj))
      (fun j hj => hstart j (List.mem_cons_of_mem i hj)) (n := n) (by simpa using hn) hskip
    rw [harvest, if_pos hgo, hx]
    exact ⟨.cons hR hitems, herrors, hcursor⟩

end

section

variable {name : String} {paths : List String} {rest : List TokenKind}

theorem yields_packageClause (hname : name ≠ blankName) :
    Yields packageClause (.keyword .package :: .ident name :: .punctuation .semicolon :: rest)
      fun x ls => x.node = name ∧ ls = rest := by
  refine (yields_expect (by simp) _).bind ?_
  rintro - ls rfl
  refine (yields_identifier name).bind ?_
  rintro x ls ⟨rfl, rfl⟩
  rw [if_neg hname]
  refine (yields_endOfDecl _).bind ?_
  rintro - ls rfl
  exact yields_pure _ ⟨rfl, rfl⟩

theorem next_importKinds (paths : List String) (ls : List TokenKind) :
    next (importKinds paths ++ ls) = .keyword .import := by
  unfold importKinds
  split <;> rfl

theorem next_importGroups (paths : List String) (h : next rest ≠ .punctuation .semicolon) :
    next ((importGroups paths).flatMap importKinds ++ rest) ≠ .punctuation .semicolon := by
  unfold importGroups
  split
  · exact h
  · rw [List.flatMap_singleton, next_importKinds]
    simp

theorem flatten_importGroups
    (h : List.Forall₂ (fun paths specs => specs = paths.map (ImportSpec.mk none))
      (importGroups paths) xss) : xss.flatten = paths.map (ImportSpec.mk none) := by
  unfold importGroups at h
  split at h
  · rename_i hempty
    cases h
    rw [hempty]
    rfl
  · cases h with
    | cons h hnil =>
      cases hnil
      rw [List.flatten_singleton, h]

theorem harvest_imports (hn : 1 ≤ n) (himport : next rest ≠ .keyword .import)
    (hsemicolon : next rest ≠ .punctuation .semicolon)
    (hc : c.kinds = (importGroups paths).flatMap importKinds ++ rest) :
    (harvest (·.kind == .keyword .import) importDecl n c).items.flatten =
        paths.map (ImportSpec.mk none) ∧
      (harvest (·.kind == .keyword .import) importDecl n c).errors = [] ∧
      (harvest (·.kind == .keyword .import) importDecl n c).cursor.kinds = rest := by
  have hlength : (importGroups paths).length ≤ n := by
    unfold importGroups
    split
    · exact Nat.zero_le n
    · exact hn
  obtain ⟨hitems, herrors, hcursor⟩ := harvest_items (· == .keyword .import)
    (R := fun paths specs => specs = paths.map (ImportSpec.mk none)) (fun _ => rfl)
    (fun paths _ ls => yields_importDecl paths) (fun paths _ ls => by simp [next_importKinds])
    (by simpa using himport) hsemicolon hlength hc
  exact ⟨flatten_importGroups hitems, herrors, hcursor⟩

variable {ι : Type} {is : List ι} {R : ι → Spanned Decl → Prop} {kinds : ι → List TokenKind}

theorem next_declarations (hstart : ∀ i ∈ is, ∀ ls, next (kinds i ++ ls) ∉
      [.keyword .import, .punctuation .semicolon, .eof]) :
    next (is.flatMap (fun i => kinds i ++ [.punctuation .semicolon]) ++ [.eof]) ≠
        .keyword .import ∧
      next (is.flatMap (fun i => kinds i ++ [.punctuation .semicolon]) ++ [.eof]) ≠
        .punctuation .semicolon := by
  cases is with
  | nil => exact ⟨by simp, by simp⟩
  | cons i is =>
    have hi := hstart i List.mem_cons_self
    simp only [List.mem_cons, List.not_mem_nil, or_false, not_or] at hi
    simp only [List.flatMap_cons, List.append_assoc]
    exact ⟨(hi _).1, (hi _).2.1⟩

theorem harvest_declarations (hitem : ∀ i ∈ is, ∀ ls, Yields declaration
      (kinds i ++ .punctuation .semicolon :: ls) fun d ms => R i d ∧ ms = ls)
    (hstart : ∀ i ∈ is, ∀ ls, next (kinds i ++ ls) ∉
      [.keyword .import, .punctuation .semicolon, .eof]) (hn : is.length ≤ n)
    (hc : c.kinds = is.flatMap (fun i => kinds i ++ [.punctuation .semicolon]) ++ [.eof]) :
    List.Forall₂ R is (harvest (!·.atEnd) declaration n c).items ∧
      (harvest (!·.atEnd) declaration n c).errors = [] := by
  have hitem' : ∀ i ∈ is, ∀ ls, Yields declaration
      ((kinds i ++ [.punctuation .semicolon]) ++ ls) fun d ms => R i d ∧ ms = ls := by
    intro i hi ls
    rw [List.append_assoc]
    exact hitem i hi ls
  have hbegins : ∀ i ∈ is, ∀ ls, (next ((kinds i ++ [.punctuation .semicolon]) ++ ls) != .eof) ∧
      next ((kinds i ++ [.punctuation .semicolon]) ++ ls) ≠ .punctuation .semicolon := by
    intro i hi ls
    have hnext := hstart i hi ([.punctuation .semicolon] ++ ls)
    simp only [List.mem_cons, List.not_mem_nil, or_false, not_or] at hnext
    rw [List.append_assoc]
    exact ⟨bne_iff_ne.2 hnext.2.2, hnext.2.1⟩
  have hmore : ∀ c : Cursor, (!c.atEnd) = (c.kind != .eof) := fun _ => rfl
  obtain ⟨hitems, herrors, -⟩ :=
    harvest_items (· != .eof) hmore hitem' hbegins rfl (by simp) hn hc
  exact ⟨hitems, herrors⟩

theorem parse_declarations (hname : name ≠ blankName) (hitem : ∀ i ∈ is, ∀ ls, Yields declaration
      (kinds i ++ .punctuation .semicolon :: ls) fun d ms => R i d ∧ ms = ls)
    (hstart : ∀ i ∈ is, ∀ ls, next (kinds i ++ ls) ∉
      [.keyword .import, .punctuation .semicolon, .eof])
    (htokens : tokens.map (·.node) = [.keyword .package, .ident name, .punctuation .semicolon] ++
      (importGroups paths).flatMap importKinds ++
      is.flatMap (fun i => kinds i ++ [.punctuation .semicolon]) ++ [.eof]) :
    ∃ file, parse tokens = .ok file ∧ file.package.node = name ∧
      file.imports = paths.map (ImportSpec.mk none) ∧ List.Forall₂ R is file.decls := by
  have hkinds : (Cursor.start tokens).kinds = .keyword .package :: .ident name ::
      .punctuation .semicolon :: ((importGroups paths).flatMap importKinds ++
        (is.flatMap (fun i => kinds i ++ [.punctuation .semicolon]) ++ [.eof])) := by
    change tokens.map (·.node) = _
    rw [htokens]
    simp
  have hlength : is.length ≤ tokens.length := by
    have hlines := length_lines kinds is
    have htotal := congrArg List.length htokens
    simp only [List.length_map, List.length_append] at htotal
    omega
  have hnonempty : tokens.isEmpty = false := by
    cases tokens with
    | nil => cases htokens
    | cons t ts => rfl
  have hfirst : (Cursor.start tokens).skipSemicolons.kinds = (Cursor.start tokens).kinds := by
    rw [Cursor.kinds_skipSemicolons, dropSemicolons_eq_self]
    rw [hkinds]
    simp
  obtain ⟨himport, hsemicolon⟩ := next_declarations hstart
  obtain ⟨package, c, hpackage, hnode, hc⟩ :=
    yields_packageClause hname _ (hfirst.trans hkinds)
  have hskip : c.skipSemicolons.kinds = (importGroups paths).flatMap importKinds ++
      (is.flatMap (fun i => kinds i ++ [.punctuation .semicolon]) ++ [.eof]) := by
    rw [c.kinds_skipSemicolons, hc, dropSemicolons_eq_self (next_importGroups paths hsemicolon)]
  have hpos : 1 ≤ tokens.length := by
    cases tokens with
    | nil => cases htokens
    | cons t ts => exact Nat.le_add_left 1 ts.length
  obtain ⟨himports, hnone, hcursor⟩ := harvest_imports hpos himport hsemicolon hskip
  obtain ⟨hdecls, hnone'⟩ :=
    harvest_declarations (n := tokens.length) hitem hstart hlength hcursor
  refine ⟨⟨package, _, _⟩, ?_, hnode, himports, hdecls⟩
  simp only [parse, hnonempty, hpackage, hnone, hnone']
  rfl

theorem parse_functions {decl : ι → FuncDecl} (hname : name ≠ blankName)
    (hs : ∀ i ∈ is, (decl i).Spells (kinds i))
    (htokens : tokens.map (·.node) = [.keyword .package, .ident name, .punctuation .semicolon] ++
      (importGroups paths).flatMap importKinds ++
      is.flatMap (fun i => kinds i ++ [.punctuation .semicolon]) ++ [.eof]) :
    ∃ file, parse tokens = .ok file ∧ file.package.node = name ∧
      file.imports = paths.map (ImportSpec.mk none) ∧
      List.Forall₂ (fun i d => ∃ f, d.node = Decl.func f ∧ f.strip = (decl i).strip) is
        file.decls := by
  refine parse_declarations hname (fun i hi _ => yields_function (hs i hi)) ?_ htokens
  intro i hi ls
  rw [next_function (hs i hi)]
  simp

theorem parse_fileKinds {methods : List MethodText} (hname : name ≠ blankName)
    (hm : ∀ m ∈ methods, m.WellFormed)
    (htokens : tokens.map (·.node) = fileKinds name paths methods ++ [.eof]) :
    ∃ file, parse tokens = .ok file ∧ file.package.node = name ∧
      file.imports = paths.map (ImportSpec.mk none) ∧
      List.Forall₂ (fun m d => ∃ f, d.node = .func f ∧ m.IsDeclared f) methods
        file.decls := by
  have hs : ∀ m ∈ methods, m.decl.Spells m.kinds := fun m h => (hm m h).spells
  obtain ⟨file, hfile, hpackage, himports, hdecls⟩ := parse_functions hname hs htokens
  refine ⟨file, hfile, hpackage, himports, hdecls.imp ?_⟩
  rintro m d ⟨f, hd, hf⟩
  exact ⟨f, hd, MethodText.isDeclared_of_strip hf⟩

/-- From each of its spellings a function is read back, with its receiver, its parameters and its
results, wherever a declaration can stand; so are all the functions of a file. -/
theorem functions_read_back :
    (∀ (f : FuncDecl) (ks : List TokenKind), f.Spells ks → ∀ rest,
      Yields declaration (ks ++ .punctuation .semicolon :: rest) fun d ls =>
        (∃ f', d.node = .func f' ∧ f'.strip = f.strip) ∧ ls = rest) ∧
    ∀ (name : String) (paths : List String) (fs : List (FuncDecl × List TokenKind))
      (tokens : List Token), name ≠ blankName → (∀ f ∈ fs, f.1.Spells f.2) →
      tokens.map (·.node) = [.keyword .package, .ident name, .punctuation .semicolon] ++
        (importGroups paths).flatMap importKinds ++
        fs.flatMap (fun f => f.2 ++ [.punctuation .semicolon]) ++ [.eof] →
      ∃ file, parse tokens = .ok file ∧
        List.Forall₂ (fun f d => ∃ f', d.node = .func f' ∧ f'.strip = f.1.strip) fs
          file.decls := by
  refine ⟨fun f ks hs rest => yields_function hs, ?_⟩
  intro name paths fs tokens hname hs htokens
  obtain ⟨file, hfile, -, -, hdecls⟩ := parse_functions hname hs htokens
  exact ⟨file, hfile, hdecls⟩

def visitDecl : FuncDecl where
  receiver := some ⟨some "s", ⟨.pointer (.applied (.named "Set") [.named "K", .slice (.named "V")]),
    .point 0⟩⟩
  name := ⟨"Visit", .point 0⟩
  signature := {
    params := [
      ⟨some "from", .qualified "time" "Time", false⟩,
      ⟨some "to", .qualified "time" "Time", false⟩,
      ⟨some "yield", .func ⟨[⟨none, .map (.named "K") (.array (.named "V")), false⟩],
        [⟨none, .named "bool", false⟩]⟩, false⟩,
      ⟨some "rest", .chan (.struct), true⟩]
    results := [⟨some "n", .named "int", false⟩, ⟨some "err", .named "error", false⟩] }
  hasBody := true

def visitKinds : List TokenKind :=
  [.keyword .func, .punctuation .lparen, .ident "s", .operator .star, .ident "Set",
    .punctuation .lbracket, .ident "K", .punctuation .comma, .punctuation .lbracket,
    .punctuation .rbracket, .ident "V", .punctuation .rbracket, .punctuation .rparen,
    .ident "Visit", .punctuation .lparen, .ident "from", .punctuation .comma, .ident "to",
    .ident "time", .punctuation .dot, .ident "Time", .punctuation .comma, .ident "yield",
    .keyword .func, .punctuation .lparen, .keyword .map, .punctuation .lbracket, .ident "K",
    .punctuation .rbracket, .punctuation .lbracket, .int 4, .punctuation .rbracket, .ident "V",
    .punctuation .rparen, .ident "bool", .punctuation .comma, .ident "rest",
    .punctuation .ellipsis, .operator .arrow, .keyword .chan, .keyword .struct,
    .punctuation .lbrace, .punctuation .rbrace, .punctuation .rparen, .punctuation .lparen,
    .ident "n", .ident "int", .punctuation .comma, .ident "err", .ident "error",
    .punctuation .rparen, .punctuation .lbrace, .keyword .return, .punctuation .rbrace]

theorem visitDecl_spells : visitDecl.Spells visitKinds := by
  have hreceiver : TypeExpr.Spells (.pointer (.applied (.named "Set")
      [.named "K", .slice (.named "V")])) _ :=
    .pointer (.applied .named (by simp) (.cons (.name .named) (.cons (.slice (.name .named)) .nil)))
  have harray : TypeExpr.Spells (.array (.named "V")) _ :=
    .array (n := 4) balanced_nil (.name .named)
  have hkeys : SpellsParams false [⟨none, .map (.named "K") (.array (.named "V")), false⟩] _ :=
    .cons rfl rfl (.map (.name .named) harray) .nil
  have hyield : TypeExpr.Spells (.func ⟨[⟨none, .map (.named "K") (.array (.named "V")), false⟩],
      [⟨none, .named "bool", false⟩]⟩) _ := .func (.mk hkeys (.single (.name .named)))
  have hrest : TypeExpr.Spells (.chan .struct) _ := .receive (.struct balanced_nil)
  have hparams : SpellsParams true visitDecl.signature.params _ :=
    .shared (.cons rfl rfl (.name .qualified) (.cons rfl rfl hyield (.variadic rfl rfl hrest)))
  have hresults : SpellsParams true visitDecl.signature.results _ :=
    .cons rfl rfl (.name .named) (.cons rfl rfl (.name .named) .nil)
  have hreturn : Balanced [.keyword .return] := by decide
  exact .mk (f := visitDecl) (.some (.named (by decide) .pointerApplied hreceiver))
    (.mk hparams (.list hresults)) (.body hreturn)

theorem functions_read_back_visit : visitDecl.Spells visitKinds ∧
    Yields declaration (visitKinds ++ [.punctuation .semicolon]) (fun d ls =>
      (∃ f, d.node = .func f ∧ f.strip = visitDecl.strip) ∧ ls = []) ∧
    ∃ file, parse ((fileKinds "p" [] [] ++ visitKinds ++
      [TokenKind.punctuation .semicolon, TokenKind.eof]).map
      (⟨·, .point 0⟩)) = .ok file ∧
      List.Forall₂ (fun f d => ∃ f', d.node = .func f' ∧ f'.strip = f.1.strip)
        [(visitDecl, visitKinds)] file.decls := by
  refine ⟨visitDecl_spells, functions_read_back.1 _ _ visitDecl_spells [], ?_⟩
  exact functions_read_back.2 "p" [] [(visitDecl, visitKinds)] _ (by decide)
    (by simpa using visitDecl_spells) rfl

end

end GoEnum.Parse
