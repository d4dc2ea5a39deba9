import GoEnum.Package.Basic
import GoEnum.Proofs.Constant.Typing
import GoEnum.Proofs.Package.Distinct
import GoEnum.Proofs.Package.Sources
import GoEnum.Proofs.Parse.File
import GoEnum.Proofs.Token.Lossless

namespace GoEnum.Package

open Constant Syntax
open Token (Spanned)

/-- A line of a constant declaration, and what its names are defined by. -/
structure Line where
  spec : ConstSpec
  governing : Option Initializer

namespace Line

def names (l : Line) : List String := l.spec.names.map (·.node)

def defs (l : Line) : List ConstDef := (l.governing.map (·.defs l.spec)).getD []

end Line

def linesAfter (last : Option Initializer) : List (Spanned ConstSpec) → List Line
  | [] => []
  | s :: ss =>
    ⟨s.node, Initializer.next last s.node⟩ :: linesAfter (Initializer.next last s.node) ss

def lines (files : List File) : List Line :=
  files.flatMap fun f => (constDecls f).flatMap fun d => linesAfter none d.specs

def constNames (files : List File) : List String :=
  files.flatMap fun f => (constDecls f).flatMap fun d => d.specs.flatMap fun s =>
    s.node.names.map (·.node)

def DistinctConstants (files : List File) : Prop :=
  ((constNames files).filter (· ≠ blankName)).Nodup

section

variable {files : List File} {l l' : Line} {name : String} {types : TypeScope} {dir : Disk.Path}
  {sources : List Source}

instance : Decidable (DistinctConstants files) := inferInstanceAs (Decidable (List.Nodup _))

theorem specDefs_eq (last : Option Initializer) (ss : List (Spanned ConstSpec)) :
    specDefs last ss = (linesAfter last ss).flatMap Line.defs := by
  induction ss generalizing last with
  | nil => rfl
  | cons s ss ih => rw [specDefs, linesAfter, List.flatMap_cons, ih]; rfl

theorem names_linesAfter (last : Option Initializer) (ss : List (Spanned ConstSpec)) :
    (linesAfter last ss).flatMap Line.names = ss.flatMap fun s => s.node.names.map (·.node) := by
  induction ss generalizing last with
  | nil => rfl
  | cons s ss ih => rw [linesAfter, List.flatMap_cons, List.flatMap_cons, ih]; rfl

theorem names_lines (files : List File) : (lines files).flatMap Line.names = constNames files := by
  simp only [lines, constNames, List.flatMap_assoc, names_linesAfter]

theorem DistinctConstants.line_eq (h : DistinctConstants files) (hl : l ∈ lines files)
    (hl' : l' ∈ lines files) (hn : name ∈ l.names) (hn' : name ∈ l'.names)
    (hne : name ≠ blankName) : l = l' := by
  rw [DistinctConstants, ← names_lines, List.filter_flatMap, List.nodup_flatMap] at h
  by_contra hll
  have : Std.Symm (Function.onFun List.Disjoint fun l : Line =>
      l.names.filter fun name => decide (name ≠ blankName)) :=
    ⟨fun _ _ h _ hb ha => h ha hb⟩
  have hdisjoint := h.2.forall hl hl' hll
  exact hdisjoint (List.mem_filter.2 ⟨hn, by simpa using hne⟩)
    (List.mem_filter.2 ⟨hn', by simpa using hne⟩)

theorem exists_line_of_find? (h : Scope.find? ⟨constDefs files, types⟩ name = some d) :
    ∃ l ∈ lines files, name ∈ l.names ∧ ∃ i, l.governing = some i ∧ d.type = i.type ∧
      d.expr ∈ i.values := by
  have hname : d.name = name := by simpa using List.find?_some h
  have hd := mem_of_mem_distinctBy (List.mem_of_find?_eq_some h)
  obtain ⟨f, hf, hd⟩ := List.mem_flatMap.1 hd
  obtain ⟨decl, hdecl, hd⟩ := List.mem_flatMap.1 hd
  rw [ConstDecl.defs, specDefs_eq] at hd
  obtain ⟨l, hl, hd⟩ := List.mem_flatMap.1 hd
  refine ⟨l, List.mem_flatMap.2 ⟨f, hf, List.mem_flatMap.2 ⟨decl, hdecl, hl⟩⟩, ?_⟩
  unfold Line.defs at hd
  cases hi : l.governing with
  | none => simp [hi] at hd
  | some i =>
    simp only [hi, Option.map_some, Option.getD_some, Initializer.defs] at hd
    obtain ⟨⟨id, value⟩, hzip, hd⟩ := List.mem_filterMap.1 hd
    obtain ⟨hid, hvalue⟩ := List.of_mem_zip hzip
    split at hd
    · cases hd
    · cases hd
      exact ⟨hname ▸ List.mem_map_of_mem hid, i, rfl, rfl, hvalue⟩

theorem constants_meet (files : List File) :
    (Symbols.ofFiles files).constants.map (·.1) = (constDefs files).map (·.name) ∧
      ∀ entry ∈ (Symbols.ofFiles files).constants,
        Meets entry.2 (unfolding ⟨constDefs files, (TypeTable.ofFiles files).scope⟩ entry.1) := by
  have hmeets := (mapM_eval_spec (sound_empty
    ⟨constDefs files, (TypeTable.ofFiles files).scope⟩) rfl ((constDefs files).map (·.name))).1
  exact ⟨List.map_fst_zip hmeets.length_eq.le, fun _ h => (List.forall₂_iff_zip.1 hmeets).2 h⟩

theorem unfoldsTo_of_constant? (h : (Symbols.ofFiles files).constant? name = some c) :
    UnfoldsTo ⟨constDefs files, (TypeTable.ofFiles files).scope⟩ name (.ok c) := by
  unfold Symbols.constant? at h
  split at h
  · rename_i c' hlookup
    cases h
    have hmem : (name, .ok c) ∈ (Symbols.ofFiles files).constants := by
      obtain ⟨before, after, heq, -⟩ := List.lookup_eq_some_iff.1 hlookup
      simp [heq]
    obtain hn | ⟨⟨other, hcycle⟩, -⟩ := (constants_meet files).2 _ hmem
    · exact hn
    · cases hcycle
  · cases h

theorem evaluatesName_of_constant? (h : (Symbols.ofFiles files).constant? name = some c) :
    EvaluatesName ⟨constDefs files, (TypeTable.ofFiles files).scope⟩ name c := by
  obtain ⟨n, hn⟩ := unfoldsTo_of_constant? h
  exact evaluatesName_of_unfoldWithin hn

theorem exists_spec_of_governing (hl : l ∈ linesAfter last specs) (hi : l.governing = some i) :
    last = some i ∨ ∃ spec ∈ specs, i = ⟨spec.node.type.map (·.node), spec.node.values⟩ := by
  induction specs generalizing last with
  | nil => cases hl
  | cons spec specs ih =>
    have hnext : Initializer.next last spec.node = some i → last = some i ∨
        ∃ spec' ∈ spec :: specs, i = ⟨spec'.node.type.map (·.node), spec'.node.values⟩ := by
      intro h
      unfold Initializer.next at h
      split at h
      · exact .inl h
      · cases h
        exact .inr ⟨spec, List.mem_cons_self, rfl⟩
    obtain rfl | hl := List.mem_cons.1 hl
    · exact hnext hi
    · obtain h | ⟨spec', hspec', h⟩ := ih hl
      · exact hnext h
      · exact .inr ⟨spec', List.mem_cons_of_mem spec hspec', h⟩

theorem readFrom_of_parse (h : Parse.parse tokens = .ok f) (hd : d ∈ constDecls f) :
    ∀ s ∈ d.specs, Parse.ReadFrom (tokens.map (·.node)) s.node := by
  obtain ⟨decl, hdecl, hconst⟩ := List.mem_filterMap.1 hd
  refine ((Parse.parse_ok h).2 decl hdecl).1.consts d ?_
  split at hconst
  · cases hconst
    assumption
  · cases hconst

theorem ofSources_ok {p : Package} (h : ofSources dir sources = .ok p) :
    p.symbols = .ofFiles p.files ∧ (∃ f ∈ p.files, f.package.node = p.name) ∧
      ∀ f ∈ p.files, ∃ text tokens, Token.lex text = .ok tokens ∧ Parse.parse tokens = .ok f := by
  obtain ⟨hloads, hfiles, hsymbols⟩ := loads_of_ofSources h
  rw [hfiles] at hsymbols ⊢
  obtain ⟨f, hf⟩ := List.exists_mem_of_ne_nil _ hloads.nonempty
  refine ⟨hsymbols, ⟨f, hf, hloads.package f hf⟩, fun f hf => ?_⟩
  obtain ⟨s, -, hs⟩ := exists_source_of_mem hf
  exact ⟨s.text, Parse.parseSource_ok hs⟩

theorem readFrom_of_ofSources {p : Package} (h : ofSources dir sources = .ok p) (hf : f ∈ p.files)
    (hd : d ∈ constDecls f) : ∃ text tokens, Token.lex text = .ok tokens ∧
      ∀ s ∈ d.specs, Parse.ReadFrom (tokens.map (·.node)) s.node := by
  obtain ⟨-, -, hfiles⟩ := ofSources_ok h
  obtain ⟨text, tokens, hlex, hparse⟩ := hfiles f hf
  exact ⟨text, tokens, hlex, readFrom_of_parse hparse hd⟩

theorem untyped_of_ofSources {p : Package} (h : ofSources dir sources = .ok p) (hf : f ∈ p.files)
    (hd : d ∈ constDecls f) (hs : s ∈ d.specs) (hvalues : s.node.values = []) :
    s.node.type = none := by
  obtain ⟨text, tokens, -, hread⟩ := readFrom_of_ofSources h hf hd
  exact (hread s hs).typed hvalues

theorem exists_spec_of_mem_linesAfter (hl : l ∈ linesAfter last specs) :
    ∃ spec ∈ specs, l.spec = spec.node := by
  induction specs generalizing last with
  | nil => cases hl
  | cons spec specs ih =>
    obtain rfl | hl := List.mem_cons.1 hl
    · exact ⟨spec, List.mem_cons_self, rfl⟩
    · obtain ⟨spec', hspec', h⟩ := ih hl
      exact ⟨spec', List.mem_cons_of_mem spec hspec', h⟩

theorem isIdentifier_of_mem_lines {p : Package} (h : ofSources dir sources = .ok p)
    (hl : l ∈ lines p.files) (hname : name ∈ l.names) : Token.isIdentifier name := by
  obtain ⟨f, hf, hl⟩ := List.mem_flatMap.1 hl
  obtain ⟨d, hd, hl⟩ := List.mem_flatMap.1 hl
  obtain ⟨spec, hspec, heq⟩ := exists_spec_of_mem_linesAfter hl
  obtain ⟨text, tokens, hlex, hread⟩ := readFrom_of_ofSources h hf hd
  rw [Line.names, heq] at hname
  obtain ⟨id, hid, rfl⟩ := List.mem_map.1 hname
  exact Token.isIdentifier_of_lex hlex ((hread spec hspec).names id hid)

theorem isIdentifier_name {p : Package} (h : ofSources dir sources = .ok p) :
    Token.isIdentifier p.name ∧ p.name ≠ blankName := by
  obtain ⟨-, ⟨f, hf, hname⟩, hfiles⟩ := ofSources_ok h
  obtain ⟨text, tokens, hlex, hparse⟩ := hfiles f hf
  obtain ⟨hmem, hblank⟩ := (Parse.parse_ok hparse).1
  exact hname ▸ ⟨Token.isIdentifier_of_lex hlex hmem, hblank⟩

theorem mem_methodsOf {s : Symbols} {type : String} :
    m ∈ s.methodsOf type ↔ (type, m) ∈ s.methods := by
  simp [Symbols.methodsOf]

theorem isIdentifier_of_receiverHint? {p : Package} {type : String}
    (h : ofSources dir sources = .ok p) (hhint : p.symbols.receiverHint? type = some name) :
    Token.isIdentifier name := by
  obtain ⟨hsymbols, -, hfiles⟩ := ofSources_ok h
  obtain ⟨m, hm, hname⟩ := List.exists_of_findSome?_eq_some hhint
  obtain ⟨hname, -⟩ := Option.filter_eq_some_iff.1 hname
  rw [mem_methodsOf, hsymbols] at hm
  obtain ⟨f, hf, hm⟩ := List.mem_flatMap.1 hm
  obtain ⟨decl, hdecl, hfunc⟩ := List.mem_filterMap.1 hm
  obtain ⟨text, tokens, hlex, hparse⟩ := hfiles f hf
  split at hfunc
  · rename_i func hnode
    obtain ⟨r, hr, hfunc⟩ := Option.bind_eq_some_iff.1 hfunc
    obtain ⟨b, -, hfunc⟩ := Option.bind_eq_some_iff.1 hfunc
    cases hfunc
    have hread := ((Parse.parse_ok hparse).2 decl hdecl).1.receiver func hnode r hr name hname
    exact Token.isIdentifier_of_lex hlex hread.1
  · cases hfunc

end

end GoEnum.Package
