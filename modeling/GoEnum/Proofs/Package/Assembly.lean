import GoEnum.Proofs.Package.Sources
import Mathlib.Data.List.Sort

/-!
What sources make up, whatever order they are given in: the package of the files that take part, or
the one reason why there is none.
-/

namespace GoEnum.Package

open Disk Syntax

structure TakesPart (sources : List Source) (x : ParsedSource) : Prop where
  mem : x.source ∈ sources
  parsed : Parse.parseSource x.source.text = .ok x.file
  package : isTestPackage x.file.package.node = false

structure PackageNames (sources : List Source) (names : List String) : Prop where
  increasing : names.Pairwise (· < ·)
  mem : ∀ name, name ∈ names ↔ ∃ x, TakesPart sources x ∧ x.file.package.node = name

inductive Verdict (dir : Path) (sources : List Source) :
    List String → Except LoadError Package → Prop
  | noGoFiles : Verdict dir sources [] (.error (.noGoFiles dir))
  | package {name : String} (kept : List ParsedSource) (mem : ∀ x, x ∈ kept ↔ TakesPart sources x)
      (increasing : kept.Pairwise fun x y => x.source.path.Before y.source.path)
      (same : ∀ x ∈ kept, x.file.package.node = name) :
      Verdict dir sources [name] (.ok ⟨name, dir, kept, .ofFiles (kept.map (·.file))⟩)
  | multiplePackages (several : 2 ≤ names.length) :
      Verdict dir sources names (.error (.multiplePackages dir names))

/-- What comes of sources. The one with the least path is reported of those that cannot be read. -/
inductive Assembly (dir : Path) (sources : List Source) : Except LoadError Package → Prop
  | syntactic (s : Source) (mem : s ∈ sources) (failed : Parse.parseSource s.text = .error ds)
      (least : ∀ t ∈ sources, ∀ es, Parse.parseSource t.text = .error es → s.path.le t.path) :
      Assembly dir sources (.error (.syntactic s.path (reportAll s.path.text s.text ds)))
  | read (readable : ∀ s ∈ sources, ∃ f, Parse.parseSource s.text = .ok f)
      (packages : PackageNames sources names) (verdict : Verdict dir sources names r) :
      Assembly dir sources r

section

variable {dir : Path} {sources sources' : List Source} {names names' : List String}
  {parsed : List ParsedSource} {r r' : Except LoadError Package} {e : LoadError}

theorem pairwise_eraseDups [BEq α] [LawfulBEq α] {rel : α → α → Prop} :
    ∀ {xs : List α}, xs.Pairwise rel → xs.eraseDups.Pairwise fun a b => rel a b ∧ a ≠ b
  | [], _ => .nil
  | x :: xs, h => by
    rw [List.eraseDups_cons, List.pairwise_cons]
    refine ⟨fun y hy => ?_, pairwise_eraseDups (h.of_cons.filter _)⟩
    obtain ⟨hmem, hne⟩ := List.mem_filter.1 (List.mem_eraseDups.1 hy)
    exact ⟨List.rel_of_pairwise_cons h hmem, fun heq => by simp [heq] at hne⟩
termination_by xs => xs.length
decreasing_by
  have := List.length_filter_le (fun y => !y == x) xs
  simp only [List.length_cons]
  omega

theorem parseOne_eq_error {s : Source} : parseOne s = .error e ↔
    ∃ ds, Parse.parseSource s.text = .error ds ∧
      e = .syntactic s.path (reportAll s.path.text s.text ds) := by
  rw [parseOne]
  cases Parse.parseSource s.text <;> simp [eq_comm]

theorem mapM_parseOne_eq_error (h : sources.mapM parseOne = .error e) : ∃ before s after,
    sources = before ++ s :: after ∧ (∀ b ∈ before, ∃ f, Parse.parseSource b.text = .ok f) ∧
      parseOne s = .error e := by
  induction sources with
  | nil => cases h
  | cons s sources ih =>
    rw [List.mapM_cons] at h
    rcases bind_eq_error.1 h with hs | ⟨first, hfirst, hrest⟩
    · exact ⟨[], s, sources, rfl, by simp, hs⟩
    · have hfail : sources.mapM parseOne = .error e := by
        rcases bind_eq_error.1 hrest with hfail | ⟨rest, -, hpure⟩
        · exact hfail
        · cases hpure
      obtain ⟨before, t, after, rfl, hbefore, ht⟩ := ih hfail
      have hs := file?_eq_some.1 (parseOne_eq_ok.1 hfirst).1
      exact ⟨s :: before, t, after, rfl, List.forall_mem_cons.2 ⟨⟨_, hs⟩, hbefore⟩, ht⟩

theorem pairwise_inOrder (sources : List Source) :
    (inOrder sources).Pairwise fun s t => s.path.le t.path = true := by
  apply List.pairwise_mergeSort
  · exact fun _ _ _ => Path.le_trans
  · exact fun s t => s.path.le_total t.path

theorem mem_inOrder {s : Source} : s ∈ inOrder sources ↔ s ∈ sources := List.mem_mergeSort

theorem inOrder_of_perm (hpaths : (sources.map (·.path.components)).Nodup)
    (h : sources'.Perm sources) : inOrder sources' = inOrder sources := by
  have hperm : (inOrder sources').Perm (inOrder sources) :=
    (List.mergeSort_perm sources' _).trans (h.trans (List.mergeSort_perm sources _).symm)
  refine hperm.eq_of_pairwise (fun s t hs ht hst hts => ?_) (pairwise_inOrder sources')
    (pairwise_inOrder sources)
  exact List.inj_on_of_nodup_map hpaths (h.mem_iff.1 (mem_inOrder.1 hs)) (mem_inOrder.1 ht)
    (Path.le_antisymm hst hts)

theorem ofSources_of_perm (hpaths : (sources.map (·.path.components)).Nodup)
    (h : sources'.Perm sources) : ofSources dir sources' = ofSources dir sources := by
  have horder := inOrder_of_perm hpaths h
  rw [inOrder, inOrder] at horder
  rw [ofSources, ofSources, horder]

theorem pairwise_before_inOrder (hpaths : (sources.map (·.path.components)).Nodup) :
    (inOrder sources).Pairwise fun s t => s.path.Before t.path := by
  have hnodup : ((inOrder sources).map (·.path.components)).Nodup :=
    ((List.mergeSort_perm sources _).map _).nodup_iff.2 hpaths
  exact (pairwise_inOrder sources).and (List.pairwise_map.1 hnodup)

theorem assembly_of_failed (h : (inOrder sources).mapM parseOne = .error e) :
    Assembly dir sources (.error e) := by
  obtain ⟨before, s, after, horder, hbefore, hs⟩ := mapM_parseOne_eq_error h
  obtain ⟨ds, hds, rfl⟩ := parseOne_eq_error.1 hs
  have hsorted := pairwise_inOrder sources
  rw [horder, List.pairwise_append, List.pairwise_cons] at hsorted
  refine .syntactic s (mem_inOrder.1 (by simp [horder])) hds fun t ht es hes => ?_
  have ht : t ∈ before ++ s :: after := horder ▸ mem_inOrder.2 ht
  rcases List.mem_append.1 ht with ht | ht
  · obtain ⟨f, hf⟩ := hbefore t ht
    rw [hf] at hes
    cases hes
  · rcases List.mem_cons.1 ht with rfl | ht
    · simpa using t.path.le_total t.path
    · exact hsorted.2.1.1 t ht

theorem mem_filter_isMember {x : ParsedSource} (h : (inOrder sources).mapM parseOne = .ok parsed) :
    x ∈ parsed.filter (isMember ·.file) ↔ TakesPart sources x := by
  obtain ⟨hsources, hfiles⟩ := mapM_parseOne_source h
  rw [List.mem_filter]
  constructor
  · rintro ⟨hx, hmember⟩
    have hsource : x.source ∈ inOrder sources := hsources ▸ List.mem_map_of_mem hx
    exact ⟨mem_inOrder.1 hsource, hfiles x hx, by simpa [isMember] using hmember⟩
  · rintro ⟨hmem, hfile, hpackage⟩
    have hsource : x.source ∈ parsed.map (·.source) := hsources ▸ mem_inOrder.2 hmem
    obtain ⟨y, hy, hyx⟩ := List.mem_map.1 hsource
    have hyfile := hfiles y hy
    rw [hyx, hfile] at hyfile
    have hxy : x = y := by
      cases x
      cases y
      simp_all
    exact ⟨hxy ▸ hy, by simp [isMember, hpackage]⟩

theorem packageNames_of_kept {kept : List ParsedSource}
    (hkept : ∀ x, x ∈ kept ↔ TakesPart sources x) :
    PackageNames sources ((kept.map (·.file)).map (·.package.node)).mergeSort.eraseDups where
  increasing := by
    have hsorted := List.pairwise_mergeSort' (· ≤ ·) ((kept.map (·.file)).map (·.package.node))
    exact (pairwise_eraseDups hsorted).imp fun h => Std.lt_of_le_of_ne h.1 h.2
  mem name := by
    rw [List.mem_eraseDups, List.mem_mergeSort]
    simp [hkept]

theorem PackageNames.unique (h : PackageNames sources names) (h' : PackageNames sources names') :
    names = names' :=
  h.increasing.eq_of_mem_iff h'.increasing fun name => (h.mem name).trans (h'.mem name).symm

theorem pairwise_before_kept (hpaths : (sources.map (·.path.components)).Nodup)
    (h : (inOrder sources).mapM parseOne = .ok parsed) : (parsed.filter (isMember ·.file)).Pairwise
      fun x y => x.source.path.Before y.source.path := by
  have horder := pairwise_before_inOrder hpaths
  rw [← (mapM_parseOne_source h).1, List.pairwise_map] at horder
  exact horder.filter _

theorem assembly_of_read (hpaths : (sources.map (·.path.components)).Nodup)
    (h : (inOrder sources).mapM parseOne = .ok parsed) :
    Assembly dir sources (ofSources dir sources) := by
  obtain ⟨hsources, hfiles⟩ := mapM_parseOne_source h
  have hreadable : ∀ s ∈ sources, ∃ f, Parse.parseSource s.text = .ok f := by
    intro s hs
    have hs : s ∈ parsed.map (·.source) := hsources ▸ mem_inOrder.2 hs
    obtain ⟨x, hx, rfl⟩ := List.mem_map.1 hs
    exact ⟨x.file, hfiles x hx⟩
  have hkept : ∀ x, x ∈ parsed.filter (isMember ·.file) ↔ TakesPart sources x :=
    fun x => mem_filter_isMember h
  have hnames := packageNames_of_kept hkept
  refine .read hreadable hnames ?_
  change Verdict dir sources _ ((inOrder sources).mapM parseOne >>= _)
  rw [h, ok_bind]
  dsimp only [isMember] at hnames ⊢
  generalize List.eraseDups (_ : List String) = names at hnames ⊢
  match names, hnames with
  | [], _ => exact .noGoFiles
  | [name], hnames =>
    refine .package _ hkept (pairwise_before_kept hpaths h) fun x hx => ?_
    exact List.mem_singleton.1 ((hnames.mem _).2 ⟨x, (hkept x).1 hx, rfl⟩)
  | _ :: _ :: _, _ => exact .multiplePackages (by simp)

theorem assembly_ofSources (hpaths : (sources.map (·.path.components)).Nodup) :
    Assembly dir sources (ofSources dir sources) := by
  cases h : (inOrder sources).mapM parseOne with
  | error e =>
    have hfailed : ofSources dir sources = .error e := bind_eq_error.2 (.inl h)
    exact hfailed ▸ assembly_of_failed h
  | ok parsed => exact assembly_of_read hpaths h

theorem Verdict.unique (h : Verdict dir sources names r) (h' : Verdict dir sources names r') :
    r = r' := by
  cases h with
  | noGoFiles =>
    cases h' with
    | noGoFiles => rfl
    | multiplePackages several => simp at several
  | package kept mem increasing same =>
    cases h' with
    | package kept' mem' increasing' same' =>
      have : Std.Asymm fun x y : ParsedSource => x.source.path.Before y.source.path :=
        ⟨fun _ _ => Path.Before.asymm⟩
      have hkept : kept = kept' :=
        increasing.eq_of_mem_iff increasing' fun x => (mem x).trans (mem' x).symm
      rw [hkept]
    | multiplePackages several => simp at several
  | multiplePackages several =>
    cases h' with
    | noGoFiles => simp at several
    | package => simp at several
    | multiplePackages => rfl

theorem Assembly.unique (hpaths : (sources.map (·.path.components)).Nodup)
    (h : Assembly dir sources r) (h' : Assembly dir sources r') : r = r' := by
  cases h with
  | syntactic s mem failed least =>
    cases h' with
    | syntactic s' mem' failed' least' =>
      have hparts := Path.le_antisymm (least s' mem' _ failed') (least' s mem _ failed)
      have hs : s = s' := List.inj_on_of_nodup_map hpaths mem mem' hparts
      subst hs
      rw [failed] at failed'
      cases failed'
      rfl
    | read readable =>
      obtain ⟨f, hf⟩ := readable s mem
      rw [failed] at hf
      cases hf
  | read readable packages verdict =>
    cases h' with
    | syntactic s mem failed =>
      obtain ⟨f, hf⟩ := readable s mem
      rw [failed] at hf
      cases hf
    | read _ packages' verdict' =>
      rw [packages.unique packages'] at verdict
      exact verdict.unique verdict'

/-- Sources at different paths come to what `Assembly` says and to nothing else, whatever order they
are given in. -/
theorem ofSources_iff_assembly (hpaths : (sources.map (·.path.components)).Nodup) (dir : Path) :
    (∀ r, ofSources dir sources = r ↔ Assembly dir sources r) ∧
      ∀ sources', sources'.Perm sources → ofSources dir sources' = ofSources dir sources := by
  refine ⟨fun r => ⟨?_, fun h => ?_⟩, fun sources' h => ofSources_of_perm hpaths h⟩
  · rintro rfl
    exact assembly_ofSources hpaths
  · exact (assembly_ofSources hpaths).unique hpaths h

end

theorem ofSources_iff_assembly_failed :
    let sources : List Source := [⟨⟨"p/b.go"⟩, "pack\n"⟩, ⟨⟨"p/a/z.go"⟩, "package ?\n"⟩,
      ⟨⟨"p/a/a.go"⟩, "package p\n"⟩]
    let report := "lex error: Unexpected character '?'\n" ++
      "  --> p/a/z.go:1:9\n    |\n  1 | package ?\n    |         ^"
    (sources.map (·.path.components)).Nodup ∧
      ofSources ⟨"p"⟩ sources = .error (.syntactic ⟨"p/a/z.go"⟩ report) ∧
      ofSources ⟨"p"⟩ sources.reverse = .error (.syntactic ⟨"p/a/z.go"⟩ report) := by
  intro sources report
  have hpaths : (sources.map (·.path.components)).Nodup := by decide
  have hrest : ∀ t ∈ sources, (⟨"p/a/z.go"⟩ : Path).le t.path ∨ (file? t.text).isSome := by
    decide +kernel
  have hfailed : Parse.parseSource "package ?\n" =
      .error [Token.LexError.diagnostic ⟨.unexpected '?', ⟨8, 9⟩⟩] := by
    have hlex : Token.lex "package ?\n" = .error [⟨.unexpected '?', ⟨8, 9⟩⟩] := by decide +kernel
    rw [Parse.parseSource, hlex]
    rfl
  have hreport : reportAll "p/a/z.go" "package ?\n"
      [Token.LexError.diagnostic ⟨.unexpected '?', ⟨8, 9⟩⟩] = report := by decide +kernel
  obtain ⟨hassembly, hperm⟩ := ofSources_iff_assembly hpaths ⟨"p"⟩
  have hresult : ofSources ⟨"p"⟩ sources = .error (.syntactic ⟨"p/a/z.go"⟩ report) := by
    rw [hassembly, ← hreport]
    refine .syntactic ⟨⟨"p/a/z.go"⟩, "package ?\n"⟩ (by decide) hfailed fun t ht es hes => ?_
    rcases hrest t ht with hle | hread
    · exact hle
    · obtain ⟨f, hf⟩ := Option.isSome_iff_exists.1 hread
      rw [file?_eq_some.1 hf] at hes
      cases hes
  exact ⟨hpaths, hresult, (hperm _ sources.reverse_perm).trans hresult⟩

end GoEnum.Package
