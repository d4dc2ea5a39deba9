import GoEnum.Emit.Output
import GoEnum.Proofs.Enum.Agreement
import GoEnum.Proofs.Package.Sources

namespace GoEnum.Emit

open Enum Package Syntax

section

variable {dir dir' : Disk.Path} {sources sources' : List Source} {p p' : Package} {type : String}
  {config : Config} {out out' : Output}

theorem contextOf_of_perm (hfiles : p.files.Perm p'.files)
    (hcarries : Carries p.symbols p'.symbols type id)
    (hliterals : ∀ r, collect p type = .ok r → (r.values.map (·.literal)).Nodup)
    (h : contextOf config p type = .ok c) : contextOf config p' type = .ok c := by
  obtain ⟨r, hr, h⟩ := bind_eq_ok.1 h
  obtain ⟨r', hr', hvalues, hplaceholder⟩ := collect_of_perm hcarries hfiles hr
  rw [List.map_id] at hvalues
  refine bind_eq_ok.2 ⟨r', hr', ?_⟩
  dsimp only at h ⊢
  rwa [hplaceholder, ← reduce_of_perm hvalues (hliterals r hr)]

/-- The same texts in another order of paths make up a package for which the same is generated,
provided that names are declared once, that each type has one name for its receivers, and that
members differ in their literals. -/
theorem generate_same_in_any_file_order (hp : ofSources dir sources = .ok p)
    (htexts : (sources.map (·.text)).Perm (sources'.map (·.text)))
    (htypes : DistinctTypes p.files) (hconsts : DistinctConstants p.files)
    (hreceivers : SingleReceivers p.files)
    (hliterals : ∀ r, collect p type = .ok r → (r.values.map (·.literal)).Nodup)
    (h : out.generate config p type = .ok out') :
    ∃ p', ofSources dir' sources' = .ok p' ∧ p'.name = p.name ∧
      out.generate config p' type = .ok out' := by
  obtain ⟨hloads, hfiles, -⟩ := loads_of_ofSources hp
  obtain ⟨hloads', hperm⟩ := hloads.of_perm htexts
  obtain ⟨p', hp', hname, hfiles'⟩ := hloads'.exists_package dir'
  rw [← hfiles, ← hfiles'] at hperm
  refine ⟨p', hp', hname, ?_⟩
  have hcarries : Carries p.symbols p'.symbols type id := by
    rw [(ofSources_ok hp).1, (ofSources_ok hp').1]
    exact carries_id (agrees_of_perm hperm htypes hconsts) (receiverHint?_of_perm hperm hreceivers)
      type
  obtain ⟨added, hadded, hout⟩ := bind_eq_ok.1 h
  obtain ⟨c, hc, hmethods⟩ := bind_eq_ok.1 hadded
  rw [Output.generate, generateType, contextOf_of_perm hperm hcarries hliterals hc]
  cases hmethods
  exact hout

end

def levelSources : List Source :=
  [⟨⟨"p/a.go"⟩, "package p\ntype Level int\nconst Low Level = Base\nfunc (lv Level) Raise()\n"⟩,
    ⟨⟨"p/b.go"⟩, "package p\nconst Base = 1\nconst High Level = Low + 1\n"⟩]

def swappedSources : List Source :=
  levelSources.zipWith (fun s text => ⟨s.path, text⟩) (levelSources.map (·.text)).reverse

theorem generate_same_in_any_file_order_levels : ∃ p p' out,
    ofSources ⟨"p"⟩ levelSources = .ok p ∧ ofSources ⟨"p"⟩ swappedSources = .ok p' ∧
      Output.empty.generate ⟨.both, false, false, false⟩ p "Level" = .ok out ∧
      Output.empty.generate ⟨.both, false, false, false⟩ p' "Level" = .ok out := by
  have hfiles : filesOf levelSources =
      ((levelSources.map (·.text)).filterMap file?).filter isMember := by
    rw [filesOf, inOrder, List.mergeSort_of_pairwise (by decide)]
  have hrun : (∀ s ∈ levelSources, (file? s.text).isSome) ∧
      let files := ((levelSources.map (·.text)).filterMap file?).filter isMember
      files.map (·.package.node) = ["p", "p"] ∧
        gather (membersOfFile (.ofFiles files) "Level") files =
          .ok ⟨[⟨"Low", .signed, "1", false, "lv"⟩, ⟨"High", .signed, "2", false, "lv"⟩], false⟩ ∧
        DistinctTypes files ∧ DistinctConstants files ∧ SingleReceivers files := by decide +kernel
  rw [← hfiles] at hrun
  obtain ⟨hread, hnames, hcollect, htypes, hconsts, hreceivers⟩ := hrun
  have hloads : Loads levelSources "p" := by
    have hp : ∀ name ∈ (filesOf levelSources).map (·.package.node), name = "p" := by
      rw [hnames]
      decide
    refine ⟨hread, fun hnil => ?_, by simpa using hp⟩
    rw [hnil] at hnames
    cases hnames
  obtain ⟨p, hp, -, hpfiles⟩ := hloads.exists_package ⟨"p"⟩
  rw [← hpfiles] at hcollect htypes hconsts hreceivers
  rw [← (ofSources_ok hp).1] at hcollect
  change collect p "Level" = _ at hcollect
  have hout : ∃ out, Output.empty.generate ⟨.both, false, false, false⟩ p "Level" = .ok out := by
    rw [Output.generate, generateType, contextOf, hcollect]
    dsimp only [ok_bind]
    rw [reduce, distinctSorted, List.mergeSort_of_pairwise (by decide)]
    exact ⟨_, rfl⟩
  obtain ⟨out, hout⟩ := hout
  obtain ⟨p', hp', -, hout'⟩ : ∃ p', ofSources ⟨"p"⟩ swappedSources = .ok p' ∧ p'.name = p.name ∧
      Output.empty.generate ⟨.both, false, false, false⟩ p' "Level" = .ok out :=
    generate_same_in_any_file_order hp (by decide) htypes hconsts hreceivers (by simp [hcollect])
      hout
  exact ⟨p, p', out, hp, hp', hout, hout'⟩

end GoEnum.Emit
