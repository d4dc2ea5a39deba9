import GoEnum.Package.TypeTable
import Mathlib.Data.List.Chain
import Mathlib.Data.List.Nodup
import Mathlib.Logic.Relation

/-!
Chains of type names. A walk along a chain remembers the names that it has passed and comes to rest
where the chain ends or comes back to one of them.
-/

namespace GoEnum.Package

open Constant Syntax
open Relation (ReflTransGen TransGen)

/-- A walk from a name to the name where it rests, past the names in `seen`. -/
inductive Walk (next : String → Option String) : List String → String → String → Prop
  | ended : next a = none → Walk next seen a a
  | again : a ∈ seen → Walk next seen a a
  | step : next a = some b → a ∉ seen → Walk next (a :: seen) b c → Walk next seen a c

section

variable {next : String → Option String} {names seen seen' : List String} {a b c z : String}

def unseen (names seen : List String) : Nat := (names.filter (· ∉ seen)).length

theorem unseen_cons_lt (ha : a ∈ names) (hseen : a ∉ seen) :
    unseen names (a :: seen) < unseen names seen := by
  have hsub : (names.filter (· ∉ a :: seen)) = (names.filter (· ∉ seen)).filter (· ≠ a) := by
    rw [List.filter_filter]
    refine List.filter_congr fun x _ => ?_
    simp [List.mem_cons, not_or]
  rw [unseen, unseen, hsub]
  refine List.length_filter_lt_length_iff_exists.2 ⟨a, ?_, by simp⟩
  exact List.mem_filter.2 ⟨ha, by simpa using hseen⟩

/-- Every step takes one of finitely many names away, so a walk ends. -/
theorem exists_walk (hnames : ∀ a b, next a = some b → a ∈ names) (seen : List String)
    (a : String) : ∃ z, Walk next seen a z := by
  induction hn : unseen names seen using Nat.strongRecOn generalizing seen a with
  | ind n ih =>
    cases hnext : next a with
    | none => exact ⟨a, .ended hnext⟩
    | some b =>
      by_cases ha : a ∈ seen
      · exact ⟨a, .again ha⟩
      · obtain ⟨z, hz⟩ := ih _ (hn ▸ unseen_cons_lt (hnames a b hnext) ha) (a :: seen) b rfl
        exact ⟨z, .step hnext ha hz⟩

theorem Walk.unique (h : Walk next seen a z) (h' : Walk next seen a c) : z = c := by
  induction h with
  | ended hnext =>
    cases h' with
    | ended | again => rfl
    | step hnext' => exact absurd (hnext.symm.trans hnext') nofun
  | again ha =>
    cases h' with
    | ended | again => rfl
    | step _ ha' => exact absurd ha ha'
  | step hnext ha _ ih =>
    cases h' with
    | ended hnext' => exact absurd (hnext'.symm.trans hnext) nofun
    | again ha' => exact absurd ha' ha
    | step hnext' _ h' =>
      cases hnext.symm.trans hnext'
      exact ih h'

def Leads (next : String → Option String) (a b : String) : Prop := next a = some b

theorem Walk.reaches (h : Walk next seen a z) : ReflTransGen (Leads next) a z := by
  induction h with
  | ended | again => exact .refl
  | step hnext _ _ ih => exact .head hnext ih

theorem Walk.forget (h : Walk next seen a z) (hsub : seen' ⊆ seen) (hz : z ∈ seen') :
    Walk next seen' a z := by
  induction h generalizing seen' with
  | ended hnext => exact .ended hnext
  | again => exact .again hz
  | @step a b seen z hnext ha _ ih =>
    refine .step hnext (fun h => ha (hsub h)) (ih (List.cons_subset_cons a hsub) ?_)
    exact List.mem_cons_of_mem a hz

theorem Walk.rests (h : Walk next seen a z) :
    next z = none ∨ z ∈ seen ∨ ∃ b, next z = some b ∧ Walk next [z] b z := by
  induction h with
  | ended hnext => exact .inl hnext
  | again ha => exact .inr (.inl ha)
  | @step a b seen z hnext ha h ih =>
    rcases ih with hend | hmem | hround
    · exact .inl hend
    · rcases List.mem_cons.1 hmem with rfl | hmem
      · refine .inr (.inr ⟨b, hnext, h.forget ?_ (List.mem_singleton_self z)⟩)
        exact List.cons_subset_cons z (List.nil_subset _)
      · exact .inr (.inl hmem)
    · exact .inr (.inr hround)

theorem Walk.again_from_rest (h : Walk next [] a z) : Walk next [] z z := by
  rcases h.rests with hend | hmem | ⟨b, hnext, hround⟩
  · exact .ended hend
  · cases hmem
  · exact .step hnext List.not_mem_nil hround

theorem not_circle (h : ReflTransGen (Leads next) a z) (hz : next z = none) :
    ¬ TransGen (Leads next) a a := by
  induction h using ReflTransGen.head_induction_on with
  | refl =>
    intro hcircle
    obtain ⟨b, hb, -⟩ := TransGen.head'_iff.1 hcircle
    exact absurd (hz.symm.trans hb) nofun
  | head hab _ ih =>
    intro hcircle
    obtain ⟨c, hac, hca⟩ := TransGen.head'_iff.1 hcircle
    cases Option.some.inj (hab.symm.trans hac)
    exact ih (.tail' hca hab)

theorem reaches_of_leads (hab : next a = some b) (hz : next z = none) :
    ReflTransGen (Leads next) a z ↔ ReflTransGen (Leads next) b z := by
  constructor
  · intro h
    rcases h.cases_head with rfl | ⟨c, hac, hcz⟩
    · exact absurd (hz.symm.trans hab) nofun
    · cases Option.some.inj (hab.symm.trans hac)
      exact hcz
  · exact .head hab

theorem reaches_end (hb : ReflTransGen (Leads next) a b) (h : ReflTransGen (Leads next) a z)
    (hz : next z = none) : ReflTransGen (Leads next) b z := by
  induction hb with
  | refl => exact h
  | tail _ hbc ih => exact (reaches_of_leads hbc hz).1 ih

theorem Walk.circle_of_rests (h : Walk next [] a z) (hz : next z ≠ none) :
    TransGen (Leads next) z z := by
  rcases h.rests with hend | hmem | ⟨b, hnext, hround⟩
  · exact absurd hend hz
  · cases hmem
  · exact .head' hnext hround.reaches

theorem Walk.eq_of_reaches (h : Walk next [] a z) (hb : ReflTransGen (Leads next) a b)
    (hend : next b = none) : z = b := by
  have hzb := reaches_end h.reaches hb hend
  by_cases hz : next z = none
  · rcases hzb.cases_head with heq | ⟨c, hzc, -⟩
    · exact heq
    · exact absurd (hz.symm.trans hzc) nofun
  · exact absurd (h.circle_of_rests hz) (not_circle hzb hend)

theorem Walk.exists_path (h : Walk next seen a z) (hz : next z = none)
    (hseen : ∀ x ∈ seen, next x ≠ none) : ∃ path, List.IsChain (Leads next) (a :: path) ∧
      (a :: path).getLast? = some z ∧ (a :: path).Nodup ∧ ∀ x ∈ a :: path, x ∉ seen := by
  induction h with
  | ended hnext =>
    refine ⟨[], .singleton _, rfl, List.nodup_singleton _, ?_⟩
    rintro x hx hmem
    obtain rfl := List.mem_singleton.1 hx
    exact hseen x hmem hnext
  | again ha => exact absurd hz (hseen _ ha)
  | @step a b seen z hnext ha _ ih =>
    have hpassed : ∀ x ∈ a :: seen, next x ≠ none := by
      refine List.forall_mem_cons.2 ⟨?_, hseen⟩
      rw [hnext]
      nofun
    obtain ⟨path, hchain, hlast, hnodup, hnew⟩ := ih hz hpassed
    have hnotmem : a ∉ b :: path := fun hmem => hnew a hmem List.mem_cons_self
    refine ⟨b :: path, .cons_cons hnext hchain, by simpa using hlast,
      List.nodup_cons.2 ⟨hnotmem, hnodup⟩, List.forall_mem_cons.2 ⟨ha, fun x hx hmem => ?_⟩⟩
    exact hnew x hx (List.mem_cons_of_mem a hmem)

theorem reaches_of_path {path : List String} (hchain : List.IsChain (Leads next) (a :: path))
    (hlast : (a :: path).getLast? = some z) : ReflTransGen (Leads next) a z := by
  rw [List.getLast?_eq_some_getLast (List.cons_ne_nil a path), Option.some.injEq] at hlast
  exact List.relationReflTransGen_of_exists_isChain_cons path hchain hlast

end

namespace TypeTable

variable {t : TypeTable} {a b z name : String}

def defined? (t : TypeTable) (name : String) : Option String :=
  (t.find? name).bind fun d => if d.isGeneric then none else d.type.name?

def aliased? (t : TypeTable) (name : String) : Option String :=
  (t.find? name).bind fun d => if d.isAlias then d.type.name? else none

def DefinedBy (t : TypeTable) (a b : String) : Prop :=
  ∃ d, t.find? a = some d ∧ d.isGeneric = false ∧ d.type = .named b

theorem name?_eq_some {type : TypeExpr} : type.name? = some b ↔ type = .named b := by
  cases type <;> simp [TypeExpr.name?]

theorem leads_defined_iff : Leads t.defined? a b ↔ t.DefinedBy a b := by
  rw [Leads, defined?, Option.bind_eq_some_iff]
  refine exists_congr fun d => and_congr_right fun _ => ?_
  cases d.isGeneric <;> simp [name?_eq_some]

def names (t : TypeTable) : List String := t.decls.map (·.name)

theorem mem_names (h : t.find? name = some d) : name ∈ t.names := by
  have hname : d.name = name := by simpa using List.find?_some h
  exact hname ▸ List.mem_map_of_mem (List.mem_of_find?_eq_some h)

theorem mem_names_of_bind {ask : TypeDecl → Option String} (a b : String)
    (h : (t.find? a).bind ask = some b) : a ∈ t.names := by
  obtain ⟨d, hd, -⟩ := Option.bind_eq_some_iff.1 h
  exact mem_names hd

theorem unseen_names_lt (t : TypeTable) : unseen t.names [] < t.decls.length + 1 := by
  refine Nat.lt_succ_of_le ((List.length_filter_le _ _).trans ?_)
  rw [names, List.length_map]

theorem basicWithin_succ (t : TypeTable) (n : Nat) (name : String) : t.basicWithin (n + 1) name =
    match t.defined? name with
    | some target => t.basicWithin n target
    | none => if (t.find? name).isSome then none else BasicType.ofName? name := by
  rw [basicWithin, defined?]
  cases t.find? name with
  | none => rfl
  | some d =>
    cases hd : d.isGeneric with
    | true => simp [hd]
    | false => cases hname : d.type.name? <;> simp [hd, hname]

theorem aliasWithin_succ (t : TypeTable) (n : Nat) (seen : List String) (name : String) :
    t.aliasWithin (n + 1) seen name = match t.aliased? name with
      | some target => if name ∈ seen then name else t.aliasWithin n (name :: seen) target
      | none => name := by
  rw [aliasWithin, aliased?]
  cases t.find? name with
  | none => rfl
  | some d =>
    cases hd : d.isAlias <;> cases hname : d.type.name? <;> simp [hd, hname]

theorem reaches_of_basicWithin (h : t.basicWithin n a = some x) :
    ∃ z, ReflTransGen (Leads t.defined?) a z ∧ t.find? z = none ∧ BasicType.ofName? z = some x := by
  induction n generalizing a with
  | zero => cases h
  | succ n ih =>
    rw [basicWithin_succ] at h
    split at h
    · rename_i b hb
      obtain ⟨z, hz, hend, hname⟩ := ih h
      exact ⟨z, .head hb hz, hend, hname⟩
    · split at h
      · cases h
      · rename_i hdeclared
        exact ⟨a, .refl, Option.not_isSome_iff_eq_none.1 hdeclared, h⟩

theorem defined?_eq_none (h : t.find? name = none) : t.defined? name = none := by
  rw [defined?, h]
  rfl

theorem find?_ne_none_of_defined (h : t.defined? a = some b) : t.find? a ≠ none := by
  intro hfind
  rw [defined?_eq_none hfind] at h
  cases h

theorem basicWithin_of_undeclared (h : t.find? z = none) (hn : 0 < n) :
    t.basicWithin n z = BasicType.ofName? z := by
  obtain ⟨n, rfl⟩ := Nat.exists_eq_add_one_of_ne_zero hn.ne'
  rw [basicWithin_succ, defined?_eq_none h, h]
  rfl

theorem basicWithin_of_walk (h : Walk t.defined? seen a z) (hz : t.find? z = none)
    (hseen : ∀ x ∈ seen, t.find? x ≠ none) (hn : unseen t.names seen < n) :
    t.basicWithin n a = BasicType.ofName? z := by
  induction h generalizing n with
  | ended => exact basicWithin_of_undeclared hz (by omega)
  | again ha => exact absurd hz (hseen _ ha)
  | @step a b seen z hnext ha _ ih =>
    obtain ⟨n, rfl⟩ := Nat.exists_eq_add_one_of_ne_zero (Nat.ne_zero_of_lt hn)
    have hlt := unseen_cons_lt (mem_names_of_bind a b hnext) ha
    rw [basicWithin_succ, hnext]
    have hdeclared := find?_ne_none_of_defined hnext
    exact ih hz (List.forall_mem_cons.2 ⟨hdeclared, hseen⟩) (by omega)

theorem basic?_eq_some : t.basic? name = some x ↔ ∃ z, ReflTransGen (Leads t.defined?) name z ∧
    t.find? z = none ∧ BasicType.ofName? z = some x := by
  refine ⟨reaches_of_basicWithin, ?_⟩
  rintro ⟨z, hreaches, hz, hname⟩
  obtain ⟨z', hwalk⟩ := exists_walk mem_names_of_bind [] name
  obtain rfl := hwalk.eq_of_reaches hreaches (defined?_eq_none hz)
  rw [basic?, basicWithin_of_walk hwalk hz (by simp) t.unseen_names_lt, hname]

theorem basic?_of_defined (h : t.defined? a = some b) : t.basic? a = t.basic? b := by
  refine Option.ext fun x => ?_
  rw [basic?_eq_some, basic?_eq_some]
  exact exists_congr fun z => and_congr_left fun hz =>
    reaches_of_leads h (defined?_eq_none hz.1)

theorem basic?_of_reaches (h : ReflTransGen (Leads t.defined?) a b) : t.basic? a = t.basic? b := by
  induction h with
  | refl => rfl
  | tail _ hbc ih => exact ih.trans (basic?_of_defined hbc)

theorem basic?_of_walk (h : Walk t.defined? [] name z) :
    t.basic? name = if (t.find? z).isSome then none else BasicType.ofName? z := by
  rw [basic?_of_reaches h.reaches]
  split
  · rename_i hdeclared
    rw [← Option.not_isSome_iff_eq_none, Option.isSome_iff_exists]
    rintro ⟨x, hx⟩
    obtain ⟨c, hc, hundeclared, -⟩ := basic?_eq_some.1 hx
    obtain rfl := h.again_from_rest.eq_of_reaches hc (defined?_eq_none hundeclared)
    simp [hundeclared] at hdeclared
  · rename_i hdeclared
    exact basicWithin_of_undeclared (Option.not_isSome_iff_eq_none.1 hdeclared) (Nat.succ_pos _)

/-- A basic type is that at the end of a chain of names in which none comes twice. -/
theorem basic?_eq_some_iff_path : t.basic? name = some x ↔ ∃ path z,
    List.IsChain t.DefinedBy (name :: path) ∧ (name :: path).Nodup ∧
    (name :: path).getLast? = some z ∧ t.find? z = none ∧ BasicType.ofName? z = some x := by
  have hleads : Leads t.defined? = t.DefinedBy := by
    funext a b
    exact propext leads_defined_iff
  rw [basic?_eq_some, ← hleads]
  constructor
  · rintro ⟨z, hreaches, hz, hname⟩
    obtain ⟨z', hwalk⟩ := exists_walk mem_names_of_bind [] name
    obtain rfl := hwalk.eq_of_reaches hreaches (defined?_eq_none hz)
    obtain ⟨path, hchain, hlast, hnodup, -⟩ := hwalk.exists_path (defined?_eq_none hz) (by simp)
    exact ⟨path, z', hchain, hnodup, hlast, hz, hname⟩
  · rintro ⟨path, z, hchain, -, hlast, hz, hname⟩
    exact ⟨z, reaches_of_path hchain hlast, hz, hname⟩

theorem aliasWithin_of_walk (h : Walk t.aliased? seen a z) (hn : unseen t.names seen < n) :
    t.aliasWithin n seen a = z := by
  induction h generalizing n with
  | ended hnext =>
    cases n with
    | zero => rfl
    | succ n => rw [aliasWithin_succ, hnext]
  | again ha =>
    cases n with
    | zero => rfl
    | succ n =>
      rw [aliasWithin_succ]
      split
      · rw [if_pos ha]
      · rfl
  | @step a b seen z hnext ha _ ih =>
    cases n with
    | zero => cases hn
    | succ n =>
      have hlt := unseen_cons_lt (mem_names_of_bind a b hnext) ha
      rw [aliasWithin_succ, hnext]
      dsimp only
      rw [if_neg ha]
      exact ih (by omega)

theorem walk_aliased_iff (t : TypeTable) (name z : String) :
    Walk t.aliased? [] name z ↔ t.resolveAlias name = z := by
  refine ⟨fun h => aliasWithin_of_walk h t.unseen_names_lt, fun h => ?_⟩
  obtain ⟨z', hz'⟩ := exists_walk mem_names_of_bind [] name
  rwa [← h, resolveAlias, aliasWithin_of_walk hz' t.unseen_names_lt]

theorem resolveAlias_resolveAlias (t : TypeTable) (name : String) :
    t.resolveAlias (t.resolveAlias name) = t.resolveAlias name :=
  (walk_aliased_iff t _ _).1 ((walk_aliased_iff t name _).2 rfl).again_from_rest

theorem basic?_resolveAlias (h : ∀ d ∈ t.decls, d.isAlias → d.isGeneric = false) (name : String) :
    t.basic? (t.resolveAlias name) = t.basic? name := by
  have hleads : ∀ a b, Leads t.aliased? a b → Leads t.defined? a b := by
    intro a b hab
    obtain ⟨d, hd, hname⟩ := Option.bind_eq_some_iff.1 hab
    split at hname
    · rename_i halias
      refine Option.bind_eq_some_iff.2 ⟨d, hd, ?_⟩
      rwa [h d (List.mem_of_find?_eq_some hd) halias]
    · cases hname
  have haliases := ((walk_aliased_iff t name _).2 rfl).reaches
  exact (basic?_of_reaches (ReflTransGen.mono hleads _ _ haliases)).symm

/-- Chains of type names in any table. Walks along definitions and along aliases come to rest, at
one name each. A name has a basic type exactly if it is defined, by way of distinct names, by one
that is predeclared and not declared. What an alias stands for stands for itself, and is of the
same basic type if no alias is generic. -/
theorem chains_rest (t : TypeTable) (name : String) :
    (∃! z, Walk t.defined? [] name z) ∧ (∃! z, Walk t.aliased? [] name z) ∧
    (∀ z, Walk t.defined? [] name z →
      t.basic? name = if (t.find? z).isSome then none else BasicType.ofName? z) ∧
    (∀ z, Walk t.aliased? [] name z → t.resolveAlias name = z) ∧
    (∀ x, t.basic? name = some x ↔ ∃ path z, List.IsChain t.DefinedBy (name :: path) ∧
      (name :: path).Nodup ∧ (name :: path).getLast? = some z ∧ t.find? z = none ∧
      BasicType.ofName? z = some x) ∧
    t.resolveAlias (t.resolveAlias name) = t.resolveAlias name ∧
    ((∀ d ∈ t.decls, d.isAlias → d.isGeneric = false) →
      t.basic? (t.resolveAlias name) = t.basic? name) := by
  obtain ⟨y, hy⟩ := exists_walk mem_names_of_bind [] name
  obtain ⟨z, hz⟩ := exists_walk mem_names_of_bind [] name
  exact ⟨⟨y, hy, fun _ h => h.unique hy⟩, ⟨z, hz, fun _ h => h.unique hz⟩,
    fun _ => basic?_of_walk, fun z => (walk_aliased_iff t name z).1,
    fun _ => basic?_eq_some_iff_path, resolveAlias_resolveAlias t name,
    fun h => basic?_resolveAlias h name⟩

/-- A chain of aliases to a type, and one that runs into a circle. -/
def lassoTable : TypeTable := ⟨[
  ⟨"A", .named "B", true, false⟩, ⟨"B", .named "C", true, false⟩,
  ⟨"C", .named "uint16", false, false⟩,
  ⟨"X", .named "Y", true, false⟩, ⟨"Y", .named "Z", true, false⟩, ⟨"Z", .named "Y", true, false⟩]⟩

theorem chains_rest_lasso :
    (lassoTable.resolveAlias "A" = "C" ∧ lassoTable.basic? "C" = some .uint16 ∧
      lassoTable.resolveAlias "X" = "Y") ∧
    (∀ d ∈ lassoTable.decls, d.isAlias → d.isGeneric = false) ∧
    lassoTable.basic? (lassoTable.resolveAlias "A") = lassoTable.basic? "A" ∧
    lassoTable.basic? (lassoTable.resolveAlias "X") = lassoTable.basic? "X" := by
  have haliases : ∀ d ∈ lassoTable.decls, d.isAlias → d.isGeneric = false := by decide
  obtain ⟨-, -, -, -, -, -, hchain⟩ := chains_rest lassoTable "A"
  obtain ⟨-, -, -, -, -, -, hlasso⟩ := chains_rest lassoTable "X"
  exact ⟨by decide +kernel, haliases, hchain haliases, hlasso haliases⟩

example : let t : TypeTable := ⟨[⟨"A", .named "int", true, true⟩]⟩
    t.basic? (t.resolveAlias "A") = some .int ∧ t.basic? "A" = none := by
  decide +kernel

end TypeTable

end GoEnum.Package
