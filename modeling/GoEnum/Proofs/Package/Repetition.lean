import GoEnum.Proofs.Package.Agreement

/-!
Where the definitions of constants come from. Each place of a name is given by numbers: of the
file, of the declaration in it, of the line in that, and of the name in the line.
-/

namespace GoEnum.Package

open Constant Syntax
open Token (Spanned)

abbrev Place := List Nat

def numbered (f : α → List (Place × β)) (xs : List α) : List (Place × β) :=
  xs.zipIdx.flatMap fun x => (f x.1).map fun e => (x.2 :: e.1, e.2)

section

variable {f : α → List (Place × β)} {xs : List α}

theorem mem_numbered : (p, b) ∈ numbered f xs ↔
    ∃ i x q, xs[i]? = some x ∧ (q, b) ∈ f x ∧ p = i :: q := by
  constructor
  · intro h
    obtain ⟨⟨x, i⟩, hx, h⟩ := List.mem_flatMap.1 h
    obtain ⟨⟨q, b'⟩, hq, heq⟩ := List.mem_map.1 h
    cases heq
    exact ⟨i, x, q, List.mem_zipIdx_iff_getElem?.1 hx, hq, rfl⟩
  · rintro ⟨i, x, q, hx, hq, rfl⟩
    refine List.mem_flatMap.2 ⟨(x, i), List.mem_zipIdx_iff_getElem?.2 hx, ?_⟩
    exact List.mem_map.2 ⟨(q, b), hq, rfl⟩

theorem map_snd_numbered (f : α → List (Place × β)) (xs : List α) :
    (numbered f xs).map (·.2) = xs.flatMap fun x => (f x).map (·.2) := by
  rw [numbered, List.map_flatMap]
  conv => rhs; rw [← List.zipIdx_map_fst 0 xs, List.flatMap_map]
  simp only [List.map_map, Function.comp_def]

theorem pairwise_zipIdx (xs : List α) : xs.zipIdx.Pairwise fun a b => a.2 < b.2 := by
  rw [← List.pairwise_map (f := Prod.snd) (R := (· < ·)), List.zipIdx_map_snd]
  exact List.pairwise_lt_range'

theorem pairwise_numbered (h : ∀ x ∈ xs, (f x).Pairwise fun a b => a.1 < b.1) :
    (numbered f xs).Pairwise fun a b => a.1 < b.1 := by
  rw [numbered, List.pairwise_flatMap]
  constructor
  · rintro ⟨x, i⟩ hx
    have hmem : x ∈ xs := List.mem_of_getElem? (List.mem_zipIdx_iff_getElem?.1 hx)
    rw [List.pairwise_map]
    refine (h x hmem).imp fun hlt => ?_
    exact List.cons_lt_cons_iff.2 (.inr ⟨rfl, hlt⟩)
  · refine (pairwise_zipIdx xs).imp fun hlt => ?_
    rintro a ha b hb
    obtain ⟨_, _, rfl⟩ := List.mem_map.1 ha
    obtain ⟨_, _, rfl⟩ := List.mem_map.1 hb
    exact List.cons_lt_cons_iff.2 (.inl hlt)

end

def inForce (specs : List (Spanned ConstSpec)) (n : Nat) : Option Initializer :=
  (specs.take n).foldl (fun last s => Initializer.next last s.node) none

/-- Of the first `n` lines, line `j`, which says `spec`, is the last that has values. -/
structure Governs (specs : List (Spanned ConstSpec)) (n j : Nat) (spec : ConstSpec) : Prop where
  lt : j < n
  line : specs[j]?.map (·.node) = some spec
  values : spec.values ≠ []
  last : ∀ m, j < m → m < n → ∀ s ∈ specs[m]?, s.node.values = []

def Initializer.ofSpec (s : ConstSpec) : Initializer := ⟨s.type.map (·.node), s.values⟩

section

variable {specs : List (Spanned ConstSpec)}

theorem inForce_succ (specs : List (Spanned ConstSpec)) (n : Nat) :
    inForce specs (n + 1) = match specs[n]? with
      | some s => Initializer.next (inForce specs n) s.node
      | none => inForce specs n := by
  rw [inForce, List.take_add_one, List.foldl_append]
  cases specs[n]? <;> rfl

theorem next_of_values {s : ConstSpec} (h : s.values ≠ []) (last : Option Initializer) :
    Initializer.next last s = some (.ofSpec s) := by
  rw [Initializer.next, if_neg (by simpa using h)]
  rfl

theorem next_of_no_values {s : ConstSpec} (h : s.values = []) (last : Option Initializer) :
    Initializer.next last s = last := by
  rw [Initializer.next, if_pos (by simpa using h)]

theorem Governs.succ (h : Governs specs n j spec) (hn : ∀ s ∈ specs[n]?, s.node.values = []) :
    Governs specs (n + 1) j spec := by
  refine ⟨Nat.lt_succ_of_lt h.lt, h.line, h.values, fun m hjm hm s hs => ?_⟩
  rcases Nat.lt_succ_iff_lt_or_eq.1 hm with hm | rfl
  · exact h.last m hjm hm s hs
  · exact hn s hs

theorem Governs.pred (h : Governs specs (n + 1) j spec)
    (hn : ∀ s ∈ specs[n]?, s.node.values = []) : Governs specs n j spec := by
  have hj : j ≠ n := by
    rintro rfl
    obtain ⟨s, hs, rfl⟩ := Option.map_eq_some_iff.1 h.line
    exact h.values (hn s hs)
  exact ⟨by have := h.lt; omega, h.line, h.values, fun m hjm hm => h.last m hjm (by omega)⟩

theorem governs_self {s : Spanned ConstSpec} (hs : specs[n]? = some s)
    (hvalues : s.node.values ≠ []) : Governs specs (n + 1) n s.node :=
  ⟨Nat.lt_succ_self n, by rw [hs]; rfl, hvalues, fun m hnm hm => by omega⟩

theorem Governs.eq_of_values {s : Spanned ConstSpec} (h : Governs specs (n + 1) j spec)
    (hs : specs[n]? = some s) (hvalues : s.node.values ≠ []) : spec = s.node := by
  rcases Nat.lt_succ_iff_lt_or_eq.1 h.lt with hj | rfl
  · exact absurd (h.last n hj (Nat.lt_succ_self n) s hs) hvalues
  · have hline := h.line
    rw [hs] at hline
    exact (Option.some.inj hline).symm

theorem inForce_eq_some : inForce specs n = some i ↔
    ∃ j spec, Governs specs n j spec ∧ i = .ofSpec spec := by
  induction n generalizing i with
  | zero =>
    refine iff_of_false nofun ?_
    rintro ⟨j, spec, h, -⟩
    exact absurd h.lt (Nat.not_lt_zero j)
  | succ n ih =>
    by_cases hn : ∀ s ∈ specs[n]?, s.node.values = []
    · have hsame : inForce specs (n + 1) = inForce specs n := by
        rw [inForce_succ]
        cases hs : specs[n]? with
        | none => rfl
        | some s => exact next_of_no_values (hn s hs) _
      rw [hsame, ih]
      exact exists_congr fun j => exists_congr fun spec =>
        and_congr_left fun _ => ⟨fun h => h.succ hn, fun h => h.pred hn⟩
    · push Not at hn
      obtain ⟨s, hs, hvalues⟩ := hn
      rw [Option.mem_def] at hs
      have hnow : inForce specs (n + 1) = some (.ofSpec s.node) := by
        rw [inForce_succ, hs]
        exact next_of_values hvalues _
      rw [hnow]
      constructor
      · rintro ⟨⟩
        exact ⟨n, s.node, governs_self hs hvalues, rfl⟩
      · rintro ⟨j, spec, h, rfl⟩
        rw [h.eq_of_values hs hvalues]

theorem getElem?_linesAfter (last : Option Initializer) (specs : List (Spanned ConstSpec))
    (k : Nat) : (linesAfter last specs)[k]? = specs[k]?.map fun s =>
      ⟨s.node, (specs.take (k + 1)).foldl (fun last s => Initializer.next last s.node) last⟩ := by
  induction specs generalizing last k with
  | nil => rfl
  | cons s specs ih =>
    rw [linesAfter]
    cases k with
    | zero => rfl
    | succ k => exact ih (Initializer.next last s.node) k

end

def Initializer.def? (i : Initializer) (iota : Nat) (x : Spanned String × Expr) : Option ConstDef :=
  if x.1.node = blankName then none else some ⟨x.1.node, x.2, i.type, iota⟩

def Line.placed (l : Line) : List (Place × ConstDef) :=
  match l.governing with
  | none => []
  | some i => numbered (fun x => ((i.def? l.spec.iota x).map ([], ·)).toList)
      (l.spec.names.zip i.values)

def declPlaced (d : Spanned Decl) : List (Place × ConstDef) :=
  match d.node with
  | .const c => numbered Line.placed (linesAfter none c.specs)
  | _ => []

def placed (files : List File) : List (Place × ConstDef) :=
  numbered (fun f => numbered declPlaced f.decls) files

/-- The definition of the name at a place: the type and the expression are those of the governing
line, the `iota` is that of its own line. -/
inductive DefinesAt (files : List File) : Place → ConstDef → Prop
  | mk {f d k i : Nat} {id : Spanned String} : files[f]? = some file →
      file.decls[d]?.map (·.node) = some (.const c) → c.specs[k]?.map (·.node) = some line →
      line.names[i]? = some id → id.node ≠ blankName → Governs c.specs (k + 1) j spec →
      spec.values[i]? = some value →
      DefinesAt files [f, d, k, i] ⟨id.node, value, spec.type.map (·.node), line.iota⟩

structure DefinesFirst (files : List File) (p : Place) (d : ConstDef) : Prop where
  defines : DefinesAt files p d
  first : ∀ q e, DefinesAt files q e → e.name = d.name → p ≤ q

section

variable {files : List File} {p : Place} {d : ConstDef} {name : String}

theorem def?_eq_some {i : Initializer} : i.def? iota x = some d ↔
    x.1.node ≠ blankName ∧ d = ⟨x.1.node, x.2, i.type, iota⟩ := by
  unfold Initializer.def?
  split
  · simp_all
  · simp_all [eq_comm]

theorem Initializer.defs_eq (i : Initializer) (s : ConstSpec) :
    i.defs s = (s.names.zip i.values).filterMap (i.def? s.iota) := rfl

theorem mem_placed_line {l : Line} : (p, d) ∈ l.placed ↔ ∃ i k id value, l.governing = some i ∧
    l.spec.names[k]? = some id ∧ i.values[k]? = some value ∧ id.node ≠ blankName ∧
    p = [k] ∧ d = ⟨id.node, value, i.type, l.spec.iota⟩ := by
  unfold Line.placed
  cases l.governing with
  | none => simp
  | some i =>
    rw [mem_numbered]
    constructor
    · rintro ⟨k, ⟨id, value⟩, q, hx, hd, rfl⟩
      obtain ⟨hid, hvalue⟩ := List.getElem?_zip_eq_some.1 hx
      obtain ⟨d', hd', heq⟩ := Option.map_eq_some_iff.1 (Option.mem_toList.1 hd)
      cases heq
      obtain ⟨hblank, rfl⟩ := def?_eq_some.1 hd'
      exact ⟨i, k, id, value, rfl, hid, hvalue, hblank, rfl, rfl⟩
    · rintro ⟨_, k, id, value, ⟨⟩, hid, hvalue, hblank, rfl, rfl⟩
      refine ⟨k, (id, value), [], List.getElem?_zip_eq_some.2 ⟨hid, hvalue⟩, ?_, rfl⟩
      rw [def?_eq_some.2 ⟨hblank, rfl⟩]
      exact List.mem_singleton_self _

theorem mem_declPlaced {decl : Spanned Decl} : (p, d) ∈ declPlaced decl ↔
    ∃ c k l q, decl.node = .const c ∧ (linesAfter none c.specs)[k]? = some l ∧
      (q, d) ∈ l.placed ∧ p = k :: q := by
  unfold declPlaced
  split
  · rename_i c hc
    rw [mem_numbered, hc]
    simp
  · rename_i hother
    simpa using fun c hc => absurd hc (hother c)

theorem mem_placed : (p, d) ∈ placed files ↔ DefinesAt files p d := by
  constructor
  · intro h
    obtain ⟨f, file, q, hf, hfile, rfl⟩ := mem_numbered.1 h
    obtain ⟨n, decl, q, hn, hdecl, rfl⟩ := mem_numbered.1 hfile
    obtain ⟨c, k, l, q, hc, hl, hline, rfl⟩ := mem_declPlaced.1 hdecl
    obtain ⟨i, m, id, value, hi, hid, hvalue, hblank, rfl, rfl⟩ := mem_placed_line.1 hline
    rw [getElem?_linesAfter] at hl
    obtain ⟨s, hs, rfl⟩ := Option.map_eq_some_iff.1 hl
    obtain ⟨j, spec, hgoverns, rfl⟩ := inForce_eq_some.1 hi
    have hdecl : file.decls[n]?.map (·.node) = some (.const c) := by rw [hn, Option.map_some, hc]
    exact .mk hf hdecl (by rw [hs]; rfl) hid hblank hgoverns hvalue
  · rintro @⟨file, c, line, j, spec, value, f, n, k, i, id, hf, hn, hk, hid, hblank, hgoverns,
      hvalue⟩
    obtain ⟨decl, hdecl, hc⟩ := Option.map_eq_some_iff.1 hn
    obtain ⟨s, hs, rfl⟩ := Option.map_eq_some_iff.1 hk
    have hl := getElem?_linesAfter none c.specs k
    rw [hs] at hl
    refine mem_numbered.2 ⟨f, file, _, hf, mem_numbered.2 ⟨n, decl, _, hdecl, ?_, rfl⟩, rfl⟩
    refine mem_declPlaced.2 ⟨c, k, _, _, hc, hl, ?_, rfl⟩
    exact mem_placed_line.2 ⟨_, i, id, value, inForce_eq_some.2 ⟨j, spec, hgoverns, rfl⟩, hid,
      hvalue, hblank, rfl, rfl⟩

theorem Line.map_snd_placed (l : Line) : l.placed.map (·.2) = l.defs := by
  unfold Line.placed Line.defs
  cases l.governing with
  | none => rfl
  | some i =>
    rw [map_snd_numbered, Option.map_some, Option.getD_some, i.defs_eq,
      List.filterMap_eq_flatMap_toList]
    refine List.flatMap_congr fun x _ => ?_
    cases i.def? l.spec.iota x <;> rfl

theorem flatMap_constDecls (f : File) :
    (constDecls f).flatMap ConstDecl.defs = f.decls.flatMap fun d => (declPlaced d).map (·.2) := by
  unfold constDecls
  induction f.decls with
  | nil => rfl
  | cons d ds ih =>
    rw [List.flatMap_cons, ← ih]
    unfold declPlaced
    cases hd : d.node with
    | const c =>
      rw [List.filterMap_cons_some (b := c) (by rw [hd]), List.flatMap_cons, map_snd_numbered,
        ConstDecl.defs, specDefs_eq]
      simp only [Line.map_snd_placed]
    | _ => rw [List.filterMap_cons_none (by rw [hd])]; rfl

theorem map_snd_placed (files : List File) : (placed files).map (·.2) = allDefs files := by
  rw [placed, map_snd_numbered, allDefs]
  exact List.flatMap_congr fun f _ => by rw [map_snd_numbered, flatMap_constDecls]

theorem pairwise_placed (files : List File) :
    (placed files).Pairwise fun a b => a.1 < b.1 := by
  refine pairwise_numbered fun f _ => pairwise_numbered fun d _ => ?_
  unfold declPlaced
  split
  · refine pairwise_numbered fun l _ => ?_
    unfold Line.placed
    split
    · exact .nil
    · refine pairwise_numbered fun x _ => ?_
      cases Initializer.def? _ _ x with
      | none => exact .nil
      | some d => exact List.pairwise_singleton _ _
  · exact .nil

def kept (files : List File) : List (Place × ConstDef) := distinctBy (·.2.name) (placed files)

theorem map_snd_kept (files : List File) : (kept files).map (·.2) = constDefs files := by
  change _ = distinctBy ConstDef.name (allDefs files)
  rw [← map_snd_placed, distinctBy_map]
  rfl

theorem pairwise_kept (files : List File) : (kept files).Pairwise fun a b => a.1 < b.1 :=
  (pairwise_placed files).sublist (distinctBy_sublist _ _)

theorem nodup_places (files : List File) : ((placed files).map (·.1)).Nodup := by
  rw [List.Nodup, List.pairwise_map]
  exact (pairwise_placed files).imp ne_of_lt

theorem mem_kept : (p, d) ∈ kept files ↔ DefinesFirst files p d := by
  constructor
  · intro h
    refine ⟨mem_placed.1 (mem_of_mem_distinctBy h), fun q e he hname => ?_⟩
    rcases rel_of_mem_distinctBy (pairwise_placed files) h (mem_placed.2 he) hname with heq | hlt
    · cases heq
      exact le_refl _
    · exact le_of_lt hlt
  · rintro ⟨hdefines, hfirst⟩
    refine mem_distinctBy_of_rel (fun a b hab => lt_asymm hab) (pairwise_placed files)
      (mem_placed.2 hdefines) ?_
    rintro ⟨q, e⟩ he hname
    rcases eq_or_lt_of_le (hfirst q e (mem_placed.1 he) hname) with heq | hlt
    · exact .inl (List.inj_on_of_nodup_map (nodup_places files) he (mem_placed.2 hdefines) heq.symm)
    · exact .inr hlt

theorem names_kept (files : List File) :
    (kept files).map (·.2.name) = (constDefs files).map (·.name) := by
  rw [← map_snd_kept, List.map_map]
  rfl

theorem find?_constDefs {types : TypeScope} : Scope.find? ⟨constDefs files, types⟩ name = some d ↔
    d.name = name ∧ ∃ p, DefinesFirst files p d := by
  have hmem : d ∈ constDefs files ↔ ∃ p, DefinesFirst files p d := by
    rw [← map_snd_kept, List.mem_map]
    constructor
    · rintro ⟨⟨p, d⟩, h, rfl⟩
      exact ⟨p, mem_kept.1 h⟩
    · rintro ⟨p, h⟩
      exact ⟨(p, d), mem_kept.2 h, rfl⟩
  rw [← hmem, Scope.find?]
  constructor
  · intro h
    exact ⟨by simpa using List.find?_some h, List.mem_of_find?_eq_some h⟩
  · rintro ⟨rfl, h⟩
    exact find?_of_mem (nodup_distinctBy ConstDef.name _) h

theorem exists_definesFirst (h : DefinesAt files p d) :
    ∃ q e, DefinesFirst files q e ∧ e.name = d.name := by
  obtain ⟨⟨q, e⟩, hmem, hname⟩ := exists_mem_distinctBy (fun x => x.2.name) (mem_placed.2 h)
  exact ⟨q, e, mem_kept.1 hmem, hname⟩

/-- The constants of files. A name has a definition exactly if it has one at some place, and then
that of the first such place. All of them are evaluated, each once, in the order of these places. -/
theorem constants_repeat (files : List File) :
    let scope : Scope := ⟨constDefs files, (TypeTable.ofFiles files).scope⟩
    let constants := (Symbols.ofFiles files).constants
    (∀ name, scope.defines name ↔ ∃ p d, DefinesAt files p d ∧ d.name = name) ∧
    (∀ name d, scope.find? name = some d ↔ d.name = name ∧ ∃ p, DefinesFirst files p d) ∧
    ∃ order : List (Place × ConstDef), (order.Pairwise fun a b => a.1 < b.1) ∧
      (∀ p d, (p, d) ∈ order ↔ DefinesFirst files p d) ∧
      (order.map (·.2.name)).Nodup ∧ constants.map (·.1) = order.map (·.2.name) ∧
      constants.map (·.2) = scope.evalAll (order.map (·.2.name)) := by
  intro scope constants
  refine ⟨fun name => ?_, fun name d => find?_constDefs, kept files, pairwise_kept files,
    fun p d => mem_kept, ?_, ?_, ?_⟩
  · rw [Scope.defines, Option.isSome_iff_exists]
    constructor
    · rintro ⟨d, hd⟩
      obtain ⟨hname, p, hfirst⟩ := find?_constDefs.1 hd
      exact ⟨p, d, hfirst.defines, hname⟩
    · rintro ⟨p, d, hdefines, rfl⟩
      obtain ⟨q, e, hfirst, hname⟩ := exists_definesFirst hdefines
      exact ⟨e, find?_constDefs.2 ⟨hname, q, hfirst⟩⟩
  · rw [names_kept]
    exact nodup_distinctBy ConstDef.name _
  · rw [names_kept]
    exact (constants_meet files).1
  · rw [names_kept]
    have hmeets := (mapM_eval_spec (sound_empty scope) rfl ((constDefs files).map (·.name))).1
    exact List.map_snd_zip hmeets.length_eq.ge

example :
    let texts := ["package p\nconst (\n\tA, _ = iota, 2\n\t_, B, C\n)\n",
      "package p\nconst C, A = 3, 4\n"]
    (texts.mapM Parse.parseSource).toOption.map (fun files =>
        (kept files).map fun e => (e.1, e.2.name)) =
      some [([0, 0, 0, 0], "A"), ([0, 0, 1, 1], "B"), ([1, 0, 0, 0], "C")] := by
  decide +kernel

end

end GoEnum.Package
