import GoEnum.Proofs.Command.Regeneration
import GoEnum.Proofs.Emit.Imports

namespace GoEnum.Command

open Emit Package Syntax Token

section

variable {dir : Disk.Path} {sources : List Source} {p : Package} {config : Config}
  {types args : List String} {out out' : Output} {ts : List MethodText}

theorem accounted_of_generateAll (hp : ofSources dir sources = .ok p)
    (hreceiver : ∀ type ∈ types, ∀ c, contextOf config p type = .ok c → isIdentifier c.receiver)
    (h : generateAll config p out types = .ok out') (hout : out.Accounted ts) :
    ∃ us, out'.Accounted us := by
  induction types generalizing out ts with
  | nil =>
    cases h
    exact ⟨ts, hout⟩
  | cons type types ih =>
    obtain ⟨added, hadded, h⟩ := generateAll_cons.1 h
    obtain ⟨us, hus⟩ := accounted_of_generateType hp (hreceiver type List.mem_cons_self) hadded
    exact ih (fun t ht => hreceiver t (List.mem_cons_of_mem type ht)) h (hout.append hus)

theorem exists_generateAll (config : Config) (p : Package) (out : Output) (types : List String) :
    ∃ kept, kept.Sublist types ∧ generateAll config p out kept = .ok
      (types.foldl (fun out type => out.append (Generator.fresh config p type).2.output) out) := by
  induction types generalizing out with
  | nil => exact ⟨[], .refl _, rfl⟩
  | cons type types ih =>
    obtain ⟨kept, hkept, hall⟩ := ih (out.append (Generator.fresh config p type).2.output)
    rw [List.foldl_cons]
    cases hfresh : (Generator.fresh config p type).1 with
    | error e =>
      have hnew : (Generator.fresh config p type).2 = .new :=
        Generator.run_of_fst_eq_error hfresh
      have hnothing : out.append Generator.new.output = out := out.append_empty
      rw [hnew, hnothing] at hall ⊢
      exact ⟨kept, hkept.cons type, hall⟩
    | ok u =>
      refine ⟨type :: kept, hkept.cons_cons type, generateAll_cons.2 ⟨_, ?_, hall⟩⟩
      rw [Generator.generateType_eq, hfresh]
      rfl

theorem exists_accounted_runAll (hp : ofSources dir sources = .ok p)
    (hout : (Generator.runAll config p types .new).2.output = out)
    (hlex : lex out.body = .ok tokens) : ∃ ts, out.Accounted ts := by
  obtain ⟨kept, -, hkept⟩ := exists_generateAll config p .empty types
  have hrun := (Generator.runAll_eq (g := .new) config p types rfl).2
  rw [hout] at hrun
  have hall : generateAll config p .empty kept = .ok out := hkept.trans (congrArg _ hrun.symm)
  have hreceiver := isIdentifier_of_generateAll hp hall isText_nil (isSome_kinds?_of_lex hlex false)
  exact accounted_of_generateAll hp hreceiver hall Output.accounted_empty

theorem used_of_accounted (h : out.Accounted ts) (hlex : lex out.body = .ok tokens) :
    used (tokens.map (·.node)) = out.imports := by
  obtain ⟨tokens', hlex', hkinds⟩ := lex_of_isText h.text
  obtain rfl := Except.ok.inj (hlex.symm.trans hlex')
  have hend : used [.eof] = .nothing := used_of_not_mem (by simp)
  rw [hkinds, h.uses, hend, Imports.union_nothing]

theorem imports_of_accounted (hp : ofSources dir sources = .ok p) (h : out.Accounted ts)
    (hargs : ∀ arg ∈ args, '\n' ∉ arg.toList) : ∃ file,
      Parse.parseSource (out.finish p args) = .ok file ∧
        file.imports = out.imports.paths.map (ImportSpec.mk none) := by
  have htext := isText_finish_of_body hp h.text hargs
  obtain ⟨file, hfile, -, himports, -⟩ :=
    parseSource_of_isText htext (isIdentifier_name hp).2 h.wellFormed
  exact ⟨file, hfile, himports⟩

/-- Calls on one generator, of which any may fail, import what they have written a use of, and
nothing else. Whatever the constants are called and whatever texts they have, only the code around
them uses a package. The finished file declares just these imports, each of them once. -/
theorem imports_exact (hp : ofSources dir sources = .ok p) (config : Config) (types : List String) :
    let out := (Generator.runAll config p types .new).2.output
    ∀ tokens, lex out.body = .ok tokens →
      let ks := tokens.map (·.node)
      (out.imports.driver ↔ Mentions "driver" "Value" ks) ∧
        (out.imports.fmt ↔ Mentions "fmt" "Errorf" ks ∨ Mentions "fmt" "Sprintf" ks) ∧
        (out.imports.strconv ↔
          Mentions "strconv" "ParseInt" ks ∨ Mentions "strconv" "ParseUint" ks) ∧
        ∀ args : List String, (∀ arg ∈ args, '\n' ∉ arg.toList) → ∃ file,
          Parse.parseSource (out.finish p args) = .ok file ∧
            (∀ spec ∈ file.imports, spec.localName = none) ∧
            (file.imports.map (·.path)).Nodup ∧
            ∀ path, path ∈ file.imports.map (·.path) ↔
              out.imports.driver ∧ path = "database/sql/driver" ∨
                out.imports.fmt ∧ path = "fmt" ∨ out.imports.strconv ∧ path = "strconv" := by
  intro out tokens hlex ks
  obtain ⟨ts, hts⟩ := exists_accounted_runAll hp rfl hlex
  have hused := used_of_accounted hts hlex
  refine ⟨?_, ?_, ?_, fun args hargs => ?_⟩
  · rw [← hused]
    exact decide_eq_true_iff
  · rw [← hused]
    exact decide_eq_true_iff
  · rw [← hused]
    exact decide_eq_true_iff
  · obtain ⟨file, hfile, himports⟩ := imports_of_accounted hp hts hargs
    have hpaths : file.imports.map (·.path) = out.imports.paths := by
      rw [himports, List.map_map]
      exact List.map_id _
    refine ⟨file, hfile, ?_, hpaths ▸ out.imports.nodup_paths, fun path => ?_⟩
    · rw [himports]
      simp
    · rw [hpaths, Imports.mem_paths]

end

def lookalikeSource : Source where
  path := ⟨"p/color.go"⟩
  text := "package p\ntype Color string\nconst strconv Color = \"strconv.ParseInt\"\n"

def storageConfig : Config := ⟨.storage, false, false, false⟩

theorem imports_exact_colors : ∃ p, ofSources ⟨"p"⟩ [lookalikeSource] = .ok p ∧
    let out := (Generator.runAll storageConfig p ["Color", "Missing"] .new).2.output
    ∃ tokens, lex out.body = .ok tokens ∧
      Mentions "driver" "Value" (tokens.map (·.node)) ∧
      ¬ Mentions "strconv" "ParseInt" (tokens.map (·.node)) ∧
      ∃ file, Parse.parseSource (out.finish p ["--type", "Color"]) = .ok file ∧
        "database/sql/driver" ∈ file.imports.map (·.path) ∧
        "strconv" ∉ file.imports.map (·.path) := by
  have hrun : ∃ p, ofSources ⟨"p"⟩ [lookalikeSource] = .ok p ∧
      (∃ c, contextOf storageConfig p "Color" = .ok c ∧ c.receiver = "c") ∧
      ∃ out, generateAll storageConfig p .empty ["Color"] = .ok out ∧
        (Generator.runAll storageConfig p ["Color", "Missing"] .new).2.output = out ∧
        out.imports = ⟨true, true, false⟩ := by
    decide +kernel
  obtain ⟨p, hp, ⟨c, hc, hreceiver⟩, out, hout, hrun, himports⟩ := hrun
  have hidentifier : ∀ type ∈ ["Color"],
      ∀ c, contextOf storageConfig p type = .ok c → isIdentifier c.receiver := by
    rw [List.forall_mem_singleton]
    intro c' hc'
    obtain rfl := Except.ok.inj (hc.symm.trans hc')
    rw [hreceiver]
    decide
  obtain ⟨ts, hts⟩ := accounted_of_generateAll hp hidentifier hout Output.accounted_empty
  obtain ⟨tokens, hlex, -⟩ := lex_of_isText hts.text
  obtain ⟨hdriver, -, hstrconv, hfinish⟩ :=
    imports_exact hp storageConfig ["Color", "Missing"] tokens (hrun ▸ hlex)
  have hargs : ∀ arg ∈ ["--type", "Color"], '\n' ∉ arg.toList := by decide
  obtain ⟨file, hfile, -, -, hpaths⟩ := hfinish ["--type", "Color"] hargs
  rw [hrun, himports] at hdriver hstrconv hpaths
  refine ⟨p, hp, tokens, hrun ▸ hlex, hdriver.1 rfl, fun h => ?_, file, hfile, ?_, fun h => ?_⟩
  · cases hstrconv.2 (.inl h)
  · exact (hpaths _).2 (.inl ⟨rfl, rfl⟩)
  · exact absurd ((hpaths _).1 h) (by decide)

end GoEnum.Command
