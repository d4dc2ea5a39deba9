import GoEnum.Command.Request
import GoEnum.Proofs.Emit.Source
import GoEnum.Proofs.Layout.Writer
import GoEnum.Proofs.Parse.Source

namespace GoEnum.Command

open Emit Enum Layout Package Syntax Token

section

variable {s name type : String} {paths args types : List String} {ts : List MethodText}
  {dir : Disk.Path} {sources : List Source} {p : Package} {config : Config} {out out' : Output}

def promisedAll (families : Families) (types : List String) (cs : List TypeContext) :
    List (String × Package.Method) :=
  (List.zipWith (fun type c => promised families type c.receiver) types cs).flatten

theorem generateAll_cons : generateAll config p out (type :: types) = .ok out' ↔
    ∃ added, generateType config p type = .ok added ∧
      generateAll config p (out.append added) types = .ok out' := by
  rw [generateAll, Output.generate]
  cases generateType config p type <;> simp [Except.mapError]

theorem generateAll_texts (hp : ofSources dir sources = .ok p)
    (hreceiver : ∀ type ∈ types, ∀ c, contextOf config p type = .ok c → isIdentifier c.receiver)
    (h : generateAll config p out types = .ok out') (hout : IsText out.body.toList ks) :
    ∃ cs ts, types.mapM (contextOf config p) = .ok cs ∧ (∀ t ∈ ts, t.WellFormed) ∧
      IsText out'.body.toList (ks ++ methodLines ts) ∧
      ts.map readMethod? = (promisedAll config.families types cs).map some := by
  induction types generalizing out ks with
  | nil =>
    cases h
    exact ⟨[], [], rfl, by simp, by simpa [methodLines] using hout, rfl⟩
  | cons type types ih =>
    obtain ⟨added, hadded, h⟩ := generateAll_cons.1 h
    obtain ⟨c, us, hc, hus, htext, hpromised⟩ :=
      exists_texts_of_generateType hp hadded (hreceiver type List.mem_cons_self)
    have hbody : IsText (out.append added).body.toList (ks ++ methodLines us) := by
      rw [Output.append, String.toList_append]
      exact hout.append htext
    obtain ⟨cs, vs, hcs, hvs, htexts, hpromises⟩ :=
      ih (fun t ht => hreceiver t (List.mem_cons_of_mem type ht)) h hbody
    refine ⟨c :: cs, us ++ vs, ?_, List.forall_mem_append.2 ⟨hus, hvs⟩, ?_, ?_⟩
    · rw [List.mapM_cons, hc, hcs]
      rfl
    · simpa [methodLines] using htexts
    · rw [List.map_append, hpromised, hpromises]
      simp [promisedAll]

theorem map_implemented? {decls : List (Spanned Decl)}
    (h : List.Forall₂ (fun t d => ∃ f, d.node = Decl.func f ∧ t.IsDeclared f) ts decls) :
    decls.map (implemented? ·.node) = ts.map readMethod? := by
  induction h with
  | nil => rfl
  | cons hd _ ih =>
    obtain ⟨f, hf, hdeclared⟩ := hd
    rw [List.map_cons, List.map_cons, ih, hf, implemented?_of_isDeclared hdeclared]

theorem parseSource_of_isText (h : IsText s.toList (fileKinds name paths ts))
    (hname : name ≠ blankName) (hts : ∀ t ∈ ts, t.WellFormed) :
    ∃ file, Parse.parseSource s = .ok file ∧ file.package.node = name ∧
      file.imports = paths.map (ImportSpec.mk none) ∧
      file.decls.map (implemented? ·.node) = ts.map readMethod? := by
  obtain ⟨tokens, hlex, hkinds⟩ := lex_of_isText h
  obtain ⟨file, hfile, hpackage, himports, hdecls⟩ := Parse.parse_fileKinds hname hts hkinds
  refine ⟨file, ?_, hpackage, himports, map_implemented? hdecls⟩
  rw [Parse.parseSource, hlex]
  simp only [hfile]

/-- Where the chosen receivers are identifiers and the arguments have no line breaks, the generated
file passes the formatter, and what is read back from it are its package, its imports and exactly
the methods promised for the types, with their bodies. -/
theorem generated_file_read_back (hp : ofSources dir sources = .ok p)
    (h : generateAll config p .empty types = .ok out)
    (hreceiver : ∀ type ∈ types, ∀ c, contextOf config p type = .ok c → isIdentifier c.receiver)
    (hargs : ∀ arg ∈ args, '\n' ∉ arg.toList) :
    ∃ cs, types.mapM (contextOf config p) = .ok cs ∧
      ∃ text, format (out.finish p args) = .ok text ∧
        ∃ file, Parse.parseSource text = .ok file ∧ file.package.node = p.name ∧
          file.imports = out.imports.paths.map (ImportSpec.mk none) ∧
          file.decls.map (implemented? ·.node) =
            (promisedAll config.families types cs).map some := by
  have hempty : IsText Output.empty.body.toList [] := isText_nil
  obtain ⟨cs, ts, hcs, hts, hbody, hpromised⟩ := generateAll_texts hp hreceiver h hempty
  obtain ⟨hname, hblank⟩ := isIdentifier_name hp
  have htext : IsText (out.finish p args).toList (fileKinds p.name out.imports.paths ts) := by
    rw [Output.finish, String.toList_append]
    exact (isText_preamble hname out.imports hargs).append hbody
  obtain ⟨source, hsource, -⟩ := parseSource_of_isText htext hblank hts
  have hlayout : IsText (String.ofList (layout (out.finish p args).toList)).toList
      (fileKinds p.name out.imports.paths ts) := by
    rw [String.toList_ofList]
    exact isText_layout htext
  obtain ⟨file, hfile, hpackage, himports, hdecls⟩ := parseSource_of_isText hlayout hblank hts
  refine ⟨cs, hcs, _, ?_, file, hfile, hpackage, himports, hdecls.trans hpromised⟩
  rw [format, hsource]

end

def signalSource : Source where
  path := ⟨"p/signal.go"⟩
  text := "package p\ntype Level int\nconst High Level = 1\ntype Color string\n" ++
    "const Red Color = \"red\"\nfunc (col Color) IsRed() bool \x7b return col == Red \x7d\n"

theorem generated_file_read_back_signals : ∃ p, ofSources ⟨"p"⟩ [signalSource] = .ok p ∧
    ∃ out, generateAll ⟨.both, false, false, false⟩ p .empty ["Level", "Color"] = .ok out ∧
      ∃ text, format (out.finish p ["--type", "Level,Color"]) = .ok text ∧
        ∃ file, Parse.parseSource text = .ok file ∧ file.package.node = "p" ∧
          file.imports.map (·.path) = ["database/sql/driver", "fmt", "strconv"] ∧
          (file.decls.map fun d =>
            (implemented? d.node).map fun m => (m.1, m.2.receiver, m.2.name)) =
            (["Scan", "Value", "UnmarshalJSON", "MarshalJSON"].map fun name =>
              some ("Level", some "l", name)) ++
            ["Scan", "Value", "UnmarshalJSON", "MarshalJSON"].map fun name =>
              some ("Color", some "col", name) := by
  have hrun : ∃ p, ofSources ⟨"p"⟩ [signalSource] = .ok p ∧ (p.name = "p" ∧
      (∃ c, contextOf ⟨.both, false, false, false⟩ p "Level" = .ok c ∧ c.receiver = "l") ∧
      (∃ c, contextOf ⟨.both, false, false, false⟩ p "Color" = .ok c ∧ c.receiver = "col") ∧
      ∃ out, generateAll ⟨.both, false, false, false⟩ p .empty ["Level", "Color"] = .ok out ∧
        out.imports = ⟨true, true, true⟩) := by decide +kernel
  obtain ⟨p, hp, hname, ⟨level, hlevel, hl⟩, ⟨color, hcolor, hcol⟩, out, hout, himports⟩ := hrun
  have hidentifier : ∀ type ∈ ["Level", "Color"],
      ∀ c, contextOf ⟨.both, false, false, false⟩ p type = .ok c → isIdentifier c.receiver := by
    simp only [List.forall_mem_cons]
    refine ⟨fun c hc => ?_, fun c hc => ?_, by simp⟩
    · obtain rfl := Except.ok.inj (hlevel.symm.trans hc)
      rw [hl]
      decide
    · obtain rfl := Except.ok.inj (hcolor.symm.trans hc)
      rw [hcol]
      decide
  have hargs : ∀ arg ∈ ["--type", "Level,Color"], '\n' ∉ arg.toList := by decide
  obtain ⟨cs, hcs, text, htext, file, hfile, hpackage, hpaths, hdecls⟩ :=
    generated_file_read_back hp hout hidentifier hargs
  refine ⟨p, hp, out, hout, text, htext, file, hfile, hname ▸ hpackage, ?_, ?_⟩
  · rw [hpaths, himports]
    rfl
  · rw [List.mapM_cons, List.mapM_cons, hlevel, hcolor] at hcs
    cases hcs
    have hmap := congrArg (List.map (Option.map fun m : String × Package.Method =>
      (m.1, m.2.receiver, m.2.name))) hdecls
    rw [List.map_map] at hmap
    refine hmap.trans ?_
    simp [promisedAll, promised, hl, hcol, blankName]

end GoEnum.Command
