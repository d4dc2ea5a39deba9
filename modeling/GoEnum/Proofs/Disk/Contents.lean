import GoEnum.Disk.Contents
import GoEnum.Proofs.Disk.FileSystem
import GoEnum.Proofs.Except
import Mathlib.Data.List.Infix

namespace GoEnum.Disk.Contents

inductive Passes (d : Contents) : Place → List Component → Place → Prop
  | stop {dir} : Passes d dir [] dir
  | here {dir cs place} : Passes d dir cs place → Passes d dir (.here :: cs) place
  | parent {dir cs place} : dir ≠ [] → Passes d dir.dropLast cs place →
      Passes d dir (.parent :: cs) place
  | name {dir s cs place} : s.utf8ByteSize ≤ maxNameBytes → d.file? (dir ++ [s]) = none →
      d.hasDirectory (dir ++ [s]) → Passes d (dir ++ [s]) cs place →
      Passes d dir (.name s :: cs) place

inductive Ends (d : Contents) : Place → List Component → Node → Prop
  | dir {dir cs place} : Passes d dir cs place → Ends d dir cs (.dir place)
  | file {dir cs place name} : Passes d dir cs place → name.utf8ByteSize ≤ maxNameBytes →
      (d.file? (place ++ [name])).isSome → Ends d dir (cs ++ [.name name]) (.file (place ++ [name]))

/-- A path leads to a name in a directory, and a file or nothing at all is there. -/
structure LeadsTo (d : Contents) (p : Path) (dir : Place) (name : String) : Prop where
  text : checkText p = .ok ()
  ending : wantsDirectory p = false
  short : name.utf8ByteSize ≤ maxNameBytes
  passes : ∃ cs, p.components = cs ++ [.name name] ∧ d.Passes [] cs dir
  free : (d.file? (dir ++ [name])).isSome ∨ ¬ d.hasDirectory (dir ++ [name])

def stands? (d : Contents) (place : Place) : Option Entry :=
  match d.file? place with
  | some bytes => some (.file bytes)
  | none => if d.hasDirectory place then some .directory else none

def view : View Contents Place where
  leads d p place := d.target p = .ok place
  stands? := stands?

section

variable {d : Contents} {p : Path} {dir place q : Place} {name : String} {cs : List Component}

theorem hasDirectory_iff : d.hasDirectory q ↔ q = [] ∨ (∃ e ∈ d.dirs, q <+: e) ∨
    ∃ f ∈ d.files, q <+: f.1 ∧ q.length < f.1.length := by
  simp [hasDirectory, or_assoc]

theorem hasDirectory_above (hq : q <+: dir) (h : d.hasDirectory dir) : d.hasDirectory q := by
  rw [hasDirectory_iff] at h ⊢
  obtain rfl | ⟨e, he, hdir⟩ | ⟨f, hf, hdir, hlength⟩ := h
  · exact .inl (List.prefix_nil.1 hq)
  · exact .inr (.inl ⟨e, he, hq.trans hdir⟩)
  · exact .inr (.inr ⟨f, hf, hq.trans hdir, hq.length_le.trans_lt hlength⟩)

theorem Ends.step {c : Component} {next : Place} {n : Node} (h : Ends d next cs n)
    (hstep : ∀ {as e}, Passes d next as e → Passes d dir (c :: as) e) : Ends d dir (c :: cs) n := by
  cases h with
  | dir hpasses => exact .dir (hstep hpasses)
  | file hpasses hshort hfile => exact .file (hstep hpasses) hshort hfile

theorem ends_of_walk {n : Node} (h : d.walk dir cs = .ok n) : Ends d dir cs n := by
  induction cs generalizing dir with
  | nil =>
    cases h
    exact .dir .stop
  | cons c cs ih =>
    cases c with
    | root => cases h
    | here => exact (ih h).step .here
    | parent =>
      rw [walk] at h
      split at h
      · cases h
      · rename_i hdir
        exact (ih h).step (.parent (by simpa using hdir))
    | name s =>
      rw [walk] at h
      split at h
      · cases h
      rename_i hshort
      split at h
      · rename_i hfile
        split at h
        · rename_i hcs
          cases h
          rw [List.isEmpty_iff.1 hcs]
          exact .file .stop (Nat.not_lt.1 hshort) hfile
        · cases h
      · rename_i hfile
        split at h
        · rename_i hnext
          exact (ih h).step (.name (Nat.not_lt.1 hshort) (by simpa using hfile) hnext)
        · cases h

theorem passes_of_walk (h : d.walk dir cs = .ok (.dir place)) : Passes d dir cs place := by
  cases ends_of_walk h with
  | dir hpasses => exact hpasses

theorem Passes.walk_append (h : Passes d dir cs place) (after : List Component) :
    d.walk dir (cs ++ after) = d.walk place after := by
  induction h with
  | stop => rfl
  | here _ ih => exact ih
  | parent hdir _ ih =>
    rw [List.cons_append, walk, if_neg (by simpa using hdir)]
    exact ih
  | name hshort hfile hdir _ ih =>
    rw [List.cons_append, walk]
    simp [Nat.not_lt.2 hshort, hfile, hdir, ih]

theorem Passes.hasDirectory (h : Passes d dir cs place) (hdir : d.hasDirectory dir) :
    d.hasDirectory place := by
  induction h with
  | stop => exact hdir
  | here _ ih => exact ih hdir
  | parent _ _ ih => exact ih (hasDirectory_above (List.dropLast_prefix _) hdir)
  | name _ _ hnext _ ih => exact ih hnext

theorem walk_name : d.walk dir [.name name] =
    if maxNameBytes < name.utf8ByteSize then .error .nameTooLong
    else if (d.file? (dir ++ [name])).isSome then .ok (.file (dir ++ [name]))
    else if d.hasDirectory (dir ++ [name]) then .ok (.dir (dir ++ [name]))
    else .error .notFound := rfl

theorem node_eq_file : d.node p = .ok (.file place) ↔ checkText p = .ok () ∧
    d.walk [] p.components = .ok (.file place) ∧ wantsDirectory p = false := by
  rw [node]
  cases checkText p with
  | error e => simp
  | ok u =>
    cases d.walk [] p.components with
    | error e => simp
    | ok n => cases n <;> cases wantsDirectory p <;> simp

theorem node_eq_notFound (htext : checkText p = .ok ()) (h : d.node p = .error .notFound) :
    d.walk [] p.components = .error .notFound := by
  rw [node, htext] at h
  cases hwalk : d.walk [] p.components with
  | error e => simpa [hwalk] using h
  | ok n => cases n <;> cases hending : wantsDirectory p <;> simp_all

theorem exists_leadsTo_of_file (h : d.node p = .ok (.file place)) :
    ∃ dir name, place = dir ++ [name] ∧ d.LeadsTo p dir name := by
  obtain ⟨htext, hwalk, hending⟩ := node_eq_file.1 h
  generalize hcs : p.components = cs at hwalk
  cases ends_of_walk hwalk with
  | file hpasses hshort hfile =>
    exact ⟨_, _, rfl, htext, hending, hshort, ⟨_, hcs, hpasses⟩, .inl hfile⟩

theorem leadsTo_of_notFound (htext : checkText p = .ok ()) (hnode : d.node p = .error .notFound)
    (hlast : p.components.getLast? = some (.name name))
    (hwalk : d.walk [] p.components.dropLast = .ok (.dir dir))
    (hending : wantsDirectory p = false) : d.LeadsTo p dir name := by
  have hcs : p.components = p.components.dropLast ++ [.name name] :=
    (List.dropLast_append_getLast? _ hlast).symm
  have hpasses := passes_of_walk hwalk
  have hname := node_eq_notFound htext hnode
  rw [hcs, hpasses.walk_append, walk_name] at hname
  split at hname
  · cases hname
  rename_i hshort
  split at hname
  · cases hname
  split at hname
  · cases hname
  rename_i hfree
  exact ⟨htext, hending, Nat.not_lt.1 hshort, ⟨_, hcs, hpasses⟩, .inr hfree⟩

theorem exists_leadsTo (h : d.target p = .ok place) :
    ∃ dir name, place = dir ++ [name] ∧ d.LeadsTo p dir name := by
  obtain ⟨⟨⟩, htext, h⟩ := bind_eq_ok.1 h
  split at h
  · rename_i hnode
    cases h
    exact exists_leadsTo_of_file hnode
  · cases h
  · rename_i e hnode
    split at h
    · rename_i name dir hlast hwalk
      split at h
      · cases h
      split at h
      · cases h
      rename_i hending
      split at h
      · rename_i hnotFound
        cases h
        rw [hnotFound] at hnode
        exact ⟨dir, name, rfl, leadsTo_of_notFound htext hnode hlast hwalk (by simpa using hending)⟩
      · cases h
    · cases h

theorem LeadsTo.hasDirectory (h : d.LeadsTo p dir name) : d.hasDirectory dir := by
  obtain ⟨cs, -, hpasses⟩ := h.passes
  exact hpasses.hasDirectory rfl

end

section

variable {d : Contents} {p : Path} {dir place q : Place} {name : String} {cs : List Component}
  {bytes : ByteArray}

theorem file?_store_self : (d.store place bytes).file? place = some bytes := by
  simp [file?, store]

theorem file?_store_of_ne (h : q ≠ place) : (d.store place bytes).file? q = d.file? q := by
  have hkept : ∀ files : List (Place × ByteArray),
      (files.filter (·.1 != place)).lookup q = files.lookup q := by
    intro files
    induction files with
    | nil => rfl
    | cons f files ih =>
      obtain ⟨e, bytes⟩ := f
      by_cases he : e = place
      · rw [List.filter_cons_of_neg (by simpa using he), List.lookup_cons, he, beq_false_of_ne h]
        exact ih
      · rw [List.filter_cons_of_pos (by simpa using he), List.lookup_cons, List.lookup_cons, ih]
  rw [file?, store, List.lookup_cons, beq_false_of_ne h]
  exact hkept d.files

theorem hasDirectory_store (h : d.hasDirectory dir) :
    (d.store (dir ++ [name]) bytes).hasDirectory q = d.hasDirectory q := by
  apply Bool.eq_iff_iff.2
  constructor
  · intro hq
    obtain rfl | hdirs | ⟨f, hf, hprefix, hlength⟩ := hasDirectory_iff.1 hq
    · rfl
    · exact hasDirectory_iff.2 (.inr (.inl hdirs))
    · obtain rfl | hf := List.mem_cons.1 hf
      · obtain rfl | hprefix := List.prefix_concat_iff.1 hprefix
        · simp at hlength
        · exact hasDirectory_above hprefix h
      · exact hasDirectory_iff.2 (.inr (.inr ⟨f, List.mem_of_mem_filter hf, hprefix, hlength⟩))
  · intro hq
    obtain rfl | hdirs | ⟨f, hf, hprefix, hlength⟩ := hasDirectory_iff.1 hq
    · rfl
    · exact hasDirectory_iff.2 (.inr (.inl hdirs))
    · apply hasDirectory_iff.2
      by_cases hplace : f.1 = dir ++ [name]
      · rw [hplace] at hprefix hlength
        exact .inr (.inr ⟨_, List.mem_cons_self, hprefix, hlength⟩)
      · exact .inr (.inr ⟨f, List.mem_cons_of_mem _ (List.mem_filter.2 ⟨hf, by simpa using hplace⟩),
          hprefix, hlength⟩)

theorem Passes.store (hplace : d.hasDirectory dir)
    (hfree : (d.file? (dir ++ [name])).isSome ∨ ¬ d.hasDirectory (dir ++ [name]))
    (h : Passes d place cs q) : Passes (d.store (dir ++ [name]) bytes) place cs q := by
  induction h with
  | stop => exact .stop
  | here _ ih => exact .here ih
  | parent hne _ ih => exact .parent hne ih
  | @name e s cs q hshort hfile hnext _ ih =>
    have hne : e ++ [s] ≠ dir ++ [name] := by
      intro heq
      rw [heq] at hfile hnext
      simp_all
    exact .name hshort (by rwa [file?_store_of_ne hne]) (by rwa [hasDirectory_store hplace]) ih

theorem stands?_store_self : (d.store place bytes).stands? place = some (.file bytes) := by
  rw [stands?, file?_store_self]

theorem stands?_store_of_ne (h : d.hasDirectory dir) (hq : q ≠ dir ++ [name]) :
    (d.store (dir ++ [name]) bytes).stands? q = d.stands? q := by
  rw [stands?, stands?, file?_store_of_ne hq, hasDirectory_store h]

theorem LeadsTo.read_store (h : d.LeadsTo p dir name) :
    (d.store (dir ++ [name]) bytes).read p = .ok bytes := by
  obtain ⟨cs, hcs, hpasses⟩ := h.passes
  have hnode : (d.store (dir ++ [name]) bytes).node p = .ok (.file (dir ++ [name])) := by
    refine node_eq_file.2 ⟨h.text, ?_, h.ending⟩
    rw [hcs, (hpasses.store h.hasDirectory h.free).walk_append, walk_name,
      if_neg (Nat.not_lt.2 h.short), if_pos (by rw [file?_store_self]; rfl)]
  rw [read, hnode]
  dsimp only
  rw [file?_store_self]

end

theorem run_write_of_ok {p : Path} {text : String} {d : Contents} {place : Place}
    (h : d.target p = .ok place) :
    (fileSystem.write p text).run d = (.ok (), d.store place text.toUTF8) := by
  have hwrite : d.write p text = .ok (d.store place text.toUTF8) := by
    rw [write, h]
    rfl
  simp only [fileSystem, StateT.run_bind, StateT.run_get, pure_bind, hwrite]
  rfl

theorem run_write_of_error {p : Path} {text : String} {d : Contents} {e : FileError}
    (h : d.target p = .error e) : (fileSystem.write p text).run d = (.error e, d) := by
  have hwrite : d.write p text = .error e := by
    rw [write, h]
    rfl
  simp only [fileSystem, StateT.run_bind, StateT.run_get, pure_bind, hwrite]
  rfl

theorem atomic_fileSystem : fileSystem.Atomic view where
  still_isDirectory _ _ := rfl
  still_isFile _ _ := rfl
  still_entries _ _ := rfl
  still_read _ _ := rfl
  write_error := by
    intro p text e before after h
    cases htarget : before.target p with
    | error e =>
      rw [run_write_of_error htarget] at h
      cases h
      rfl
    | ok place =>
      rw [run_write_of_ok htarget] at h
      cases h
  write_ok := by
    intro p text before after h
    cases htarget : before.target p with
    | error e =>
      rw [run_write_of_error htarget] at h
      cases h
    | ok place =>
      rw [run_write_of_ok htarget] at h
      cases h
      obtain ⟨dir, name, rfl, hleads⟩ := exists_leadsTo htarget
      exact ⟨_, htarget,
        ⟨stands?_store_self, fun q hq => stands?_store_of_ne hleads.hasDirectory hq⟩,
        congrArg (·, _) hleads.read_store⟩

end GoEnum.Disk.Contents
