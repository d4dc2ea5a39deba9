import GoEnum.Proofs.Command.Generation
import GoEnum.Proofs.Emit.Receiver
import GoEnum.Proofs.Package.Sources

/-!
Generation with the generated file among the sources. The file declares methods and nothing else,
and these call their receivers by the names that were chosen before; so the same file comes out.
-/

namespace GoEnum.Command

open Emit Enum Layout Package Syntax Token

section

variable {dir : Disk.Path} {sources before after : List Source} {p p' : Package} {config : Config}
  {types args : List String} {out out' : Output} {type base : String} {families : Families}

theorem exists_body_generateAll (h : generateAll config p out types = .ok out') :
    ∃ more, out'.body = out.body ++ more := by
  induction types generalizing out with
  | nil =>
    cases h
    exact ⟨"", by simp⟩
  | cons type types ih =>
    obtain ⟨added, -, h⟩ := generateAll_cons.1 h
    obtain ⟨more, hmore⟩ := ih h
    exact ⟨added.body ++ more, by rw [hmore, Output.append, String.append_assoc]⟩

theorem isIdentifier_of_generateAll (hp : ofSources dir sources = .ok p)
    (h : generateAll config p out types = .ok out') (hout : IsText out.body.toList ks)
    (hread : (kinds? false out'.body.toList).isSome) :
    ∀ type ∈ types, ∀ c, contextOf config p type = .ok c → isIdentifier c.receiver := by
  induction types generalizing out ks with
  | nil => simp
  | cons type types ih =>
    obtain ⟨added, hadded, h⟩ := generateAll_cons.1 h
    -- All that stands before this type is read, so what cannot be read would be its own methods.
    have hfirst : ∀ c, contextOf config p type = .ok c → isIdentifier c.receiver := by
      intro c hc
      obtain ⟨more, hmore⟩ := exists_body_generateAll h
      rw [hmore, Output.append, String.toList_append, String.toList_append, List.append_assoc,
        hout.readsLines, Option.isSome_map] at hread
      exact isIdentifier_receiver_of_kinds? hp hc hadded hread
    obtain ⟨c, us, hc, -, htext, -⟩ := exists_texts_of_generateType hp hadded hfirst
    have hbody : IsText (out.append added).body.toList (ks ++ methodLines us) := by
      rw [Output.append, String.toList_append]
      exact hout.append htext
    exact List.forall_mem_cons.2 ⟨hfirst, ih h hbody⟩

theorem mem_promised {m : Package.Method} (h : (base, m) ∈ promised families type receiver) :
    base = type ∧ m.isStringer = false ∧ ∀ x ∈ m.receiver, x = receiver := by
  have hall : ∀ x ∈ promised families type receiver, x.1 = type ∧ x.2.isStringer = false ∧
      x.2.receiver = if receiver = blankName then none else some receiver := by
    cases families <;> simp [promised, Package.Method.isStringer]
  obtain ⟨hbase, hstringer, hreceiver⟩ := hall (base, m) h
  refine ⟨hbase, hstringer, fun x hx => ?_⟩
  rw [hreceiver] at hx
  split at hx
  · cases hx
  · cases hx
    rfl

theorem mem_promisedAll {m : Package.Method} (hcs : types.mapM (contextOf config p) = .ok cs)
    (h : (base, m) ∈ promisedAll families types cs) : ∃ c, contextOf config p base = .ok c ∧
      m.isStringer = false ∧ ∀ x ∈ m.receiver, x = c.receiver := by
  induction types generalizing cs with
  | nil =>
    cases hcs
    cases h
  | cons type types ih =>
    rw [List.mapM_cons] at hcs
    obtain ⟨c, hc, hcs⟩ := bind_eq_ok.1 hcs
    obtain ⟨rest, hrest, hcs⟩ := bind_eq_ok.1 hcs
    cases hcs
    rw [promisedAll, List.zipWith_cons_cons, List.flatten_cons, List.mem_append] at h
    obtain h | h := h
    · obtain ⟨rfl, hmethod⟩ := mem_promised h
      exact ⟨c, hc, hmethod⟩
    · exact ih hrest h

theorem declares_of_implemented? {d : Decl} (h : implemented? d = some m) :
    ∃ f, d = .func f ∧ Package.Method.ofDecl? f = some m := by
  unfold implemented? at h
  split at h
  · split at h
    · exact ⟨_, rfl, h⟩
    · cases h
  · cases h

theorem declares_of_implemented {f : File} {ms : List (String × Package.Method)}
    (h : f.decls.map (implemented? ·.node) = ms.map some) :
    constDecls f = [] ∧ typeSpecs f = [] ∧ Package.Method.ofFiles [f] = ms := by
  have hfunc : ∀ d ∈ f.decls, ∃ g, d.node = .func g ∧
      implemented? d.node = Package.Method.ofDecl? g := by
    intro d hd
    have hmem : implemented? d.node ∈ ms.map some := h ▸ List.mem_map_of_mem hd
    obtain ⟨m, -, hm⟩ := List.mem_map.1 hmem
    obtain ⟨g, hg, hdecl⟩ := declares_of_implemented? hm.symm
    exact ⟨g, hg, hm.symm.trans hdecl.symm⟩
  refine ⟨?_, ?_, ?_⟩
  · refine List.filterMap_eq_nil_iff.2 fun d hd => ?_
    obtain ⟨g, hg, -⟩ := hfunc d hd
    rw [hg]
  · refine List.flatMap_eq_nil_iff.2 fun d hd => ?_
    obtain ⟨g, hg, -⟩ := hfunc d hd
    rw [hg]
  · have hmethods : Package.Method.ofFiles [f] =
        f.decls.filterMap (fun d => implemented? d.node) := by
      rw [Package.Method.ofFiles, List.flatMap_singleton]
      refine List.filterMap_congr fun d hd => ?_
      obtain ⟨g, hg, hdecl⟩ := hfunc d hd
      rw [hdecl, hg]
    have hall : f.decls.filterMap (fun d => implemented? d.node) =
        (f.decls.map (implemented? ·.node)).filterMap id := by
      rw [List.filterMap_map]
      rfl
    rw [hmethods, hall, h, List.filterMap_map, Function.id_comp, List.filterMap_some]

theorem generateAll_congr (htypes : ∀ type ∈ types, ∀ added,
      generateType config p type = .ok added → generateType config p' type = .ok added)
    (h : generateAll config p out types = .ok out') :
    generateAll config p' out types = .ok out' := by
  induction types generalizing out with
  | nil => exact h
  | cons type types ih =>
    obtain ⟨added, hadded, h⟩ := generateAll_cons.1 h
    exact generateAll_cons.2 ⟨added, htypes type List.mem_cons_self added hadded,
      ih (fun t ht => htypes t (List.mem_cons_of_mem type ht)) h⟩

theorem render_eq_ok {r : Request} : r.render p = .ok text ↔
    ∃ out, generateAll r.config p .empty r.types = .ok out ∧
      format (out.finish p r.args) = .ok text := by
  rw [Request.render, bind_eq_ok]
  refine exists_congr fun out => and_congr_right fun _ => ?_
  cases format (out.finish p r.args) <;> simp [Except.mapError]

theorem format_ok {source : String} (h : format source = .ok text) :
    (∀ ends, (kinds? ends source.toList).isSome) ∧
      text = String.ofList (layout source.toList) := by
  unfold format at h
  split at h
  · rename_i hsource
    cases h
    obtain ⟨tokens, hlex, -⟩ := Parse.parseSource_ok hsource
    exact ⟨isSome_kinds?_of_lex hlex, rfl⟩
  · cases h

theorem isText_finish_of_body (hp : ofSources dir sources = .ok p)
    (hbody : IsText out.body.toList (methodLines ts)) (hargs : ∀ arg ∈ args, '\n' ∉ arg.toList) :
    IsText (out.finish p args).toList (fileKinds p.name out.imports.paths ts) := by
  rw [Output.finish, String.toList_append]
  exact (isText_preamble (isIdentifier_name hp).1 out.imports hargs).append hbody

theorem isText_finish (hp : ofSources dir sources = .ok p)
    (h : generateAll config p .empty types = .ok out)
    (hreceiver : ∀ type ∈ types, ∀ c, contextOf config p type = .ok c → isIdentifier c.receiver)
    (hargs : ∀ arg ∈ args, '\n' ∉ arg.toList) :
    ∃ cs ts, types.mapM (contextOf config p) = .ok cs ∧ (∀ t ∈ ts, t.WellFormed) ∧
      IsText (out.finish p args).toList (fileKinds p.name out.imports.paths ts) ∧
      ts.map readMethod? = (promisedAll config.families types cs).map some := by
  obtain ⟨cs, ts, hcs, hts, hbody, hpromised⟩ := generateAll_texts hp hreceiver h isText_nil
  exact ⟨cs, ts, hcs, hts, isText_finish_of_body hp hbody hargs, hpromised⟩

theorem exists_file_of_render {r : Request} (hp : ofSources dir sources = .ok p)
    (hargs : ∀ arg ∈ r.args, '\n' ∉ arg.toList) (h : r.render p = .ok text) :
    ∃ cs file, r.types.mapM (contextOf r.config p) = .ok cs ∧ file? text = some file ∧
      file.package.node = p.name ∧
      file.decls.map (implemented? ·.node) =
        (promisedAll r.config.families r.types cs).map some := by
  obtain ⟨out, hout, hformat⟩ := render_eq_ok.1 h
  obtain ⟨hread, rfl⟩ := format_ok hformat
  obtain ⟨hname, hblank⟩ := isIdentifier_name hp
  have hbody := hread false
  rw [Output.finish, String.toList_append, (isText_preamble hname out.imports hargs).readsLines,
    Option.isSome_map] at hbody
  have hreceiver := isIdentifier_of_generateAll hp hout isText_nil hbody
  obtain ⟨cs, ts, hcs, hts, htext, hpromised⟩ := isText_finish hp hout hreceiver hargs
  have hlayout : IsText (String.ofList (layout (out.finish p r.args).toList)).toList
      (fileKinds p.name out.imports.paths ts) := by
    rw [String.toList_ofList]
    exact isText_layout htext
  obtain ⟨file, hfile, hpackage, -, hdecls⟩ := parseSource_of_isText hlayout hblank hts
  refine ⟨cs, file, hcs, ?_, hpackage, hdecls.trans hpromised⟩
  exact file?_eq_some.2 hfile

/-- Generation comes to rest: with the generated file among the sources, wherever its path puts it,
the package is still one, and the same text is generated for it. All that is collected for the types
must be constants of the types, and the arguments have no line breaks. -/
theorem render_with_generated_file {r : Request} (hp : ofSources dir (before ++ after) = .ok p)
    (hargs : ∀ arg ∈ r.args, '\n' ∉ arg.toList) (hproper : ∀ type ∈ r.types, Proper p type)
    (h : r.render p = .ok text) (path : Disk.Path) :
    ∃ p', ofSources dir (before ++ ⟨path, text⟩ :: after) = .ok p' ∧ r.render p' = .ok text := by
  obtain ⟨cs, file, hcs, hfile, hpackage, hdecls⟩ := exists_file_of_render hp hargs h
  obtain ⟨hconsts, htypes, hmethods⟩ := declares_of_implemented hdecls
  obtain ⟨hloads, hfiles, -⟩ := loads_of_ofSources hp
  obtain ⟨l₁, l₂, hsplit, hloads', hsplit'⟩ := hloads.insert (s := ⟨path, text⟩) hfile hpackage
  obtain ⟨p', hp', hname, hfiles'⟩ := hloads'.exists_package dir
  rw [hsplit] at hfiles
  rw [hsplit'] at hfiles'
  have hsymbols : p.symbols = .ofFiles (l₁ ++ l₂) := hfiles ▸ (ofSources_ok hp).1
  have hsymbols' : p'.symbols = .ofFiles (l₁ ++ file :: l₂) := hfiles' ▸ (ofSources_ok hp').1
  -- No generated method is a `String`, so the same types have a text as before.
  have hagrees : p.symbols.Agrees p'.symbols := by
    rw [hsymbols, hsymbols']
    refine agrees_insert l₁ l₂ htypes hconsts fun m hm => ?_
    obtain ⟨-, -, hstringer, -⟩ := mem_promisedAll hcs (hmethods ▸ hm)
    exact hstringer
  -- The generated methods may now come first, but they carry the receiver that was chosen.
  have hhint : ∀ type c, contextOf r.config p type = .ok c →
      p'.symbols.receiverHint? type = p.symbols.receiverHint? type ∨
        p'.symbols.receiverHint? type = some c.receiver := by
    intro type c hc
    rw [hsymbols, hsymbols']
    refine receiverHint?_insert l₁ l₂ fun m hm x hx => ?_
    obtain ⟨c', hc', -, hreceiver⟩ := mem_promisedAll hcs (hmethods ▸ hm)
    obtain rfl := Except.ok.inj (hc.symm.trans hc')
    exact hreceiver x hx
  obtain ⟨out, hout, hformat⟩ := render_eq_ok.1 h
  have hout' : generateAll r.config p' .empty r.types = .ok out := by
    refine generateAll_congr (fun type htype added hadded => ?_) hout
    exact generateType_insert hp (hproper type htype) hagrees hfiles hfiles' hconsts (hhint type)
      hadded
  refine ⟨p', hp', render_eq_ok.2 ⟨out, hout', ?_⟩⟩
  rw [Output.finish, preamble, hname]
  exact hformat

end

def levelSource : Source where
  path := ⟨"p/level.go"⟩
  text := "package p\ntype Level int\nconst Low Level = 1\n"

def levelRequest : Request where
  types := ["Level"]
  origin := .directory ⟨"p"⟩
  tags := []
  output := none
  config := ⟨.both, false, false, false⟩
  args := ["--type", "Level"]

theorem render_level : ∃ p text, ofSources ⟨"p"⟩ [levelSource] = .ok p ∧ Proper p "Level" ∧
    levelRequest.render p = .ok text := by
  have hrun : ∃ p, ofSources ⟨"p"⟩ [levelSource] = .ok p ∧
      (collect p "Level" = .ok ⟨[⟨"Low", .signed, "1", false, ""⟩], false⟩ ∧
      p.symbols.constant? "Low" = some ⟨.int 1, .typed "Level"⟩ ∧
      (p.symbols.types.find? "Level").map (·.isAlias) = some false ∧
      (∃ c, contextOf levelRequest.config p "Level" = .ok c ∧ c.receiver = "l") ∧
      ∃ out, generateAll levelRequest.config p .empty ["Level"] = .ok out ∧
        out.imports = ⟨true, true, true⟩) := by
    decide +kernel
  obtain ⟨p, hp, hcollect, hlow, halias, ⟨c, hc, hl⟩, out, hout, -⟩ := hrun
  have hproper : Proper p "Level" := by
    constructor
    · intro d hd
      rw [Option.mem_def.1 hd] at halias
      simpa using halias
    · intro r hr m hm
      obtain rfl := Except.ok.inj (hcollect.symm.trans hr)
      obtain rfl := List.mem_singleton.1 hm
      exact ⟨_, hlow, rfl⟩
  have hargs : ∀ arg ∈ levelRequest.args, '\n' ∉ arg.toList := by decide
  have hidentifier : ∀ type ∈ ["Level"],
      ∀ c, contextOf levelRequest.config p type = .ok c → isIdentifier c.receiver := by
    rw [List.forall_mem_singleton]
    intro c' hc'
    obtain rfl := Except.ok.inj (hc.symm.trans hc')
    rw [hl]
    decide
  obtain ⟨-, ts, -, hts, htext, -⟩ := isText_finish hp hout hidentifier hargs
  obtain ⟨file, hfile, -⟩ := parseSource_of_isText htext (isIdentifier_name hp).2 hts
  exact ⟨p, _, hp, hproper, render_eq_ok.2 ⟨out, hout, by rw [format, hfile]⟩⟩

theorem render_with_generated_file_level : ∃ p text p',
    ofSources ⟨"p"⟩ [levelSource] = .ok p ∧ levelRequest.render p = .ok text ∧
      ofSources ⟨"p"⟩ [levelSource, ⟨⟨"p/level.gen.go"⟩, text⟩] = .ok p' ∧
      levelRequest.render p' = .ok text := by
  obtain ⟨p, text, hp, hproper, hrender⟩ := render_level
  have hargs : ∀ arg ∈ levelRequest.args, '\n' ∉ arg.toList := by decide
  obtain ⟨p', hp', hrender'⟩ : ∃ p', ofSources ⟨"p"⟩
      ([levelSource] ++ ⟨⟨"p/level.gen.go"⟩, text⟩ :: []) = .ok p' ∧
      levelRequest.render p' = .ok text :=
    render_with_generated_file hp hargs (List.forall_mem_singleton.2 hproper) hrender _
  exact ⟨p, text, p', hp, hrender, hp', hrender'⟩

end GoEnum.Command
