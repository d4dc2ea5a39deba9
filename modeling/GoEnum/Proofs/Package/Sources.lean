import GoEnum.Package.Basic
import GoEnum.Proofs.Disk.Path
import GoEnum.Proofs.Except
import Mathlib.Data.List.Perm.Basic

namespace GoEnum.Package

open Disk Syntax

section

variable {le : α → α → Bool} {x : α} {xs before after : List α}

theorem mergeSort_cons_eq (trans : ∀ a b c, le a b → le b c → le a c)
    (total : ∀ a b, le a b || le b a) (x : α) (xs : List α) : (x :: xs).mergeSort le =
      (xs.mergeSort le).filter (!le x ·) ++ x :: (xs.mergeSort le).filter (le x ·) := by
  obtain ⟨l₁, l₂, hcons, hxs, hless⟩ := List.mergeSort_cons trans total x xs
  have hsorted := List.pairwise_mergeSort trans total (x :: xs)
  rw [hcons, List.pairwise_append, List.pairwise_cons] at hsorted
  have hgreater : ∀ b ∈ l₂, le x b = true := hsorted.2.1.1
  have hl₁ : l₁.filter (!le x ·) = l₁ ∧ l₁.filter (le x ·) = [] := by
    simpa [List.filter_eq_self, List.filter_eq_nil_iff] using hless
  have hl₂ : l₂.filter (!le x ·) = [] ∧ l₂.filter (le x ·) = l₂ := by
    simpa [List.filter_eq_self, List.filter_eq_nil_iff] using hgreater
  rw [hcons, hxs, List.filter_append, List.filter_append, hl₁.1, hl₁.2, hl₂.1, hl₂.2]
  simp

theorem mergeSort_insert (le : α → α → Bool) (trans : ∀ a b c, le a b → le b c → le a c)
    (total : ∀ a b, le a b || le b a) (before after : List α) (x : α) : ∃ l₁ l₂,
      (before ++ x :: after).mergeSort le = l₁ ++ x :: l₂ ∧
      (before ++ after).mergeSort le = l₁ ++ l₂ := by
  induction before with
  | nil =>
    obtain ⟨l₁, l₂, hcons, hxs, -⟩ := List.mergeSort_cons trans total x after
    exact ⟨l₁, l₂, hcons, hxs⟩
  | cons b before ih =>
    obtain ⟨l₁, l₂, hwith, hwithout⟩ := ih
    have hsorted := List.pairwise_mergeSort trans total (before ++ x :: after)
    rw [hwith, List.pairwise_append, List.pairwise_cons] at hsorted
    rw [List.cons_append, List.cons_append, mergeSort_cons_eq trans total,
      mergeSort_cons_eq trans total, hwith, hwithout]
    simp only [List.filter_append, List.filter_cons]
    -- Where `x` goes behind `b`, so does all that was behind `x`, and the same in front of it.
    cases hbx : le b x with
    | true =>
      have hl₂ : l₂.filter (!le b ·) = [] := by
        simpa [List.filter_eq_nil_iff] using fun c hc => trans b x c hbx (hsorted.2.1.1 c hc)
      exact ⟨l₁.filter (!le b ·) ++ b :: l₁.filter (le b ·), l₂.filter (le b ·),
        by simp [hl₂], by simp [hl₂]⟩
    | false =>
      have hl₁ : l₁.filter (le b ·) = [] := by
        rw [List.filter_eq_nil_iff]
        intro c hc hbc
        have hcx : le c x = true := hsorted.2.2 c hc x List.mem_cons_self
        rw [trans b c x hbc hcx] at hbx
        cases hbx
      exact ⟨l₁.filter (!le b ·), l₂.filter (!le b ·) ++ b :: l₂.filter (le b ·),
        by simp [hl₁], by simp [hl₁]⟩

end

def inOrder (sources : List Source) : List Source :=
  sources.mergeSort fun a b => a.path.le b.path

def file? (text : String) : Option File := (Parse.parseSource text).toOption

def isMember (f : File) : Bool := !isTestPackage f.package.node

def filesOf (sources : List Source) : List File :=
  (((inOrder sources).map (·.text)).filterMap file?).filter isMember

structure Loads (sources : List Source) (name : String) : Prop where
  read : ∀ s ∈ sources, (file? s.text).isSome
  nonempty : filesOf sources ≠ []
  package : ∀ f ∈ filesOf sources, f.package.node = name

section

variable {dir : Path} {sources sources' : List Source} {p : Package} {name : String}

theorem file?_eq_some : file? text = some f ↔ Parse.parseSource text = .ok f := by
  unfold file?
  cases Parse.parseSource text <;> simp [Except.toOption]

theorem parseOne_eq_ok {s : Source} {parsed : ParsedSource} :
    parseOne s = .ok parsed ↔ file? s.text = some parsed.file ∧ parsed.source = s := by
  rw [file?_eq_some, parseOne]
  cases Parse.parseSource s.text with
  | error ds => simp
  | ok file =>
    obtain ⟨source, file'⟩ := parsed
    simp [and_comm, eq_comm]

theorem mapM_parseOne_source {parsed : List ParsedSource}
    (h : sources.mapM parseOne = .ok parsed) :
    parsed.map (·.source) = sources ∧
      ∀ x ∈ parsed, Parse.parseSource x.source.text = .ok x.file := by
  induction sources generalizing parsed with
  | nil =>
    cases h
    simp
  | cons s sources ih =>
    rw [List.mapM_cons] at h
    obtain ⟨first, hfirst, h⟩ := bind_eq_ok.1 h
    obtain ⟨rest, hrest, h⟩ := bind_eq_ok.1 h
    cases h
    obtain ⟨hsources, hfiles⟩ := ih hrest
    obtain ⟨hfile, rfl⟩ := parseOne_eq_ok.1 hfirst
    exact ⟨by simp [hsources], List.forall_mem_cons.2 ⟨file?_eq_some.1 hfile, hfiles⟩⟩

theorem mapM_parseOne {parsed : List ParsedSource} (h : sources.mapM parseOne = .ok parsed) :
    (∀ s ∈ sources, (file? s.text).isSome) ∧
      parsed.map (·.file) = (sources.map (·.text)).filterMap file? := by
  obtain ⟨rfl, hfiles⟩ := mapM_parseOne_source h
  have hfile : ∀ x ∈ parsed, file? x.source.text = some x.file :=
    fun x hx => file?_eq_some.2 (hfiles x hx)
  refine ⟨List.forall_mem_map.2 fun x hx => by simp [hfile x hx], ?_⟩
  rw [List.map_map, List.filterMap_map, ← List.filterMap_eq_map]
  exact List.filterMap_congr fun x hx => (hfile x hx).symm

theorem exists_mapM_parseOne (h : ∀ s ∈ sources, (file? s.text).isSome) :
    ∃ parsed, sources.mapM parseOne = .ok parsed := by
  induction sources with
  | nil => exact ⟨[], rfl⟩
  | cons s sources ih =>
    obtain ⟨hs, hsources⟩ := List.forall_mem_cons.1 h
    obtain ⟨f, hf⟩ := Option.isSome_iff_exists.1 hs
    obtain ⟨rest, hrest⟩ := ih hsources
    have hfirst : parseOne s = .ok ⟨s, f⟩ := parseOne_eq_ok.2 ⟨hf, rfl⟩
    exact ⟨⟨s, f⟩ :: rest, by rw [List.mapM_cons, hfirst, hrest]; rfl⟩

theorem eraseDups_mergeSort_eq_singleton {names : List String} :
    names.mergeSort.eraseDups = [name] ↔ names ≠ [] ∧ ∀ n ∈ names, n = name := by
  constructor
  · intro h
    have hmem : ∀ n, n ∈ names ↔ n = name := by
      intro n
      have hsorted : n ∈ names.mergeSort ↔ n ∈ names := List.mem_mergeSort
      rw [← hsorted, ← List.mem_eraseDups, h, List.mem_singleton]
    exact ⟨List.ne_nil_of_mem ((hmem name).2 rfl), fun n hn => (hmem n).1 hn⟩
  · rintro ⟨hne, hall⟩
    have hall : ∀ n ∈ names.mergeSort, n = name := fun n hn => hall n (List.mem_mergeSort.1 hn)
    have hne : names.mergeSort ≠ [] := by simpa [← List.length_pos_iff] using hne
    obtain ⟨n, ns, hns⟩ := List.exists_cons_of_ne_nil hne
    rw [hns, List.forall_mem_cons] at hall
    rw [hns, List.eraseDups_cons, hall.1, List.filter_eq_nil_iff.2 (by simpa using hall.2)]
    rfl

theorem ofSources_eq_ok : ofSources dir sources = .ok p ↔
    ∃ parsed name, (inOrder sources).mapM parseOne = .ok parsed ∧
      let kept := parsed.filter (isMember ·.file)
      ((kept.map (·.file)).map (·.package.node)).mergeSort.eraseDups = [name] ∧
        p = ⟨name, dir, kept, .ofFiles (kept.map (·.file))⟩ := by
  constructor
  · intro h
    obtain ⟨parsed, hparsed, h⟩ := bind_eq_ok.1 h
    dsimp only at h
    split at h
    · cases h
    · rename_i name hname
      cases h
      exact ⟨parsed, name, hparsed, hname, rfl⟩
    · cases h
  · rintro ⟨parsed, name, hparsed, hname, rfl⟩
    refine bind_eq_ok.2 ⟨parsed, hparsed, ?_⟩
    dsimp only [isMember] at hname ⊢
    rw [hname]
    rfl

theorem map_file_kept {parsed : List ParsedSource}
    (h : (inOrder sources).mapM parseOne = .ok parsed) :
    (parsed.filter (isMember ·.file)).map (·.file) = filesOf sources := by
  rw [filesOf, ← (mapM_parseOne h).2, List.filter_map]
  rfl

theorem loads_of_ofSources (h : ofSources dir sources = .ok p) :
    Loads sources p.name ∧ p.files = filesOf sources ∧ p.symbols = .ofFiles p.files := by
  obtain ⟨parsed, name, hparsed, hname, rfl⟩ := ofSources_eq_ok.1 h
  have hfiles := map_file_kept hparsed
  rw [hfiles] at hname
  obtain ⟨hne, hall⟩ := eraseDups_mergeSort_eq_singleton.1 hname
  refine ⟨⟨fun s hs => ?_, by simpa using hne, by simpa using hall⟩, hfiles, rfl⟩
  exact (mapM_parseOne hparsed).1 s (List.mem_mergeSort.2 hs)

theorem Loads.exists_package (h : Loads sources name) (dir : Path) : ∃ p,
    ofSources dir sources = .ok p ∧ p.name = name ∧ p.files = filesOf sources := by
  have hread : ∀ s ∈ inOrder sources, (file? s.text).isSome :=
    fun s hs => h.read s (List.mem_mergeSort.1 hs)
  obtain ⟨parsed, hparsed⟩ := exists_mapM_parseOne hread
  have hfiles := map_file_kept hparsed
  refine ⟨_, ofSources_eq_ok.2 ⟨parsed, name, hparsed, ?_, rfl⟩, rfl, hfiles⟩
  rw [hfiles]
  exact eraseDups_mergeSort_eq_singleton.2 ⟨by simpa using h.nonempty, by simpa using h.package⟩

theorem exists_source_of_mem (h : f ∈ filesOf sources) :
    ∃ s ∈ sources, Parse.parseSource s.text = .ok f := by
  obtain ⟨text, htext, hf⟩ := List.mem_filterMap.1 (List.mem_of_mem_filter h)
  obtain ⟨s, hs, rfl⟩ := List.mem_map.1 htext
  exact ⟨s, List.mem_mergeSort.1 hs, file?_eq_some.1 hf⟩

theorem Loads.of_perm (h : Loads sources name)
    (hperm : (sources.map (·.text)).Perm (sources'.map (·.text))) :
    Loads sources' name ∧ (filesOf sources).Perm (filesOf sources') := by
  have hfiles : (filesOf sources).Perm (filesOf sources') := by
    have hsorted := ((List.mergeSort_perm sources fun a b => a.path.le b.path).map (·.text)).trans
      (hperm.trans ((List.mergeSort_perm sources' fun a b => a.path.le b.path).map (·.text)).symm)
    exact (hsorted.filterMap file?).filter isMember
  refine ⟨⟨?_, fun hnil => h.nonempty (hnil ▸ hfiles).eq_nil, fun f hf => ?_⟩, hfiles⟩
  · have hread : ∀ text ∈ sources.map (·.text), (file? text).isSome := by simpa using h.read
    have hread' : ∀ text ∈ sources'.map (·.text), (file? text).isSome :=
      fun text ht => hread text (hperm.mem_iff.2 ht)
    simpa using hread'
  · exact h.package f (hfiles.mem_iff.2 hf)

theorem inOrder_insert (before after : List Source) (s : Source) : ∃ u v,
    inOrder (before ++ s :: after) = u ++ s :: v ∧ inOrder (before ++ after) = u ++ v :=
  mergeSort_insert (fun a b : Source => a.path.le b.path) (fun _ _ _ => Path.le_trans)
    (fun a b => a.path.le_total b.path) before after s

theorem Loads.insert {before after : List Source} (h : Loads (before ++ after) name)
    {s : Source} (hs : file? s.text = some f) (hname : f.package.node = name) : ∃ l₁ l₂,
      filesOf (before ++ after) = l₁ ++ l₂ ∧ Loads (before ++ s :: after) name ∧
      filesOf (before ++ s :: after) = l₁ ++ f :: l₂ := by
  obtain ⟨u, v, hwith, hwithout⟩ := inOrder_insert before after s
  have hmember : isMember f = true := by
    obtain ⟨g, hg⟩ := List.exists_mem_of_ne_nil _ h.nonempty
    have := (List.mem_filter.1 hg).2
    rwa [isMember, h.package g hg, ← hname] at this
  have hfiles : filesOf (before ++ after) =
      ((u.map (·.text)).filterMap file?).filter isMember ++
        ((v.map (·.text)).filterMap file?).filter isMember := by
    rw [filesOf, hwithout]
    simp
  have hfiles' : filesOf (before ++ s :: after) =
      ((u.map (·.text)).filterMap file?).filter isMember ++
        f :: ((v.map (·.text)).filterMap file?).filter isMember := by
    rw [filesOf, hwith]
    simp [hs, hmember]
  refine ⟨_, _, hfiles, ⟨fun s' hs' => ?_, by simp [hfiles'], fun g hg => ?_⟩, hfiles'⟩
  · obtain rfl | hs' : s' = s ∨ s' ∈ before ++ after := by
      simpa [or_left_comm] using hs'
    · simp [hs]
    · exact h.read s' hs'
  · obtain rfl | hg : g = f ∨ g ∈ filesOf (before ++ after) := by
      rw [hfiles'] at hg
      rw [hfiles]
      simpa [or_left_comm] using hg
    · exact hname
    · exact h.package g hg

end

end GoEnum.Package
