import GoEnum.Enum.Discovery
import GoEnum.Proofs.Package.Lines

namespace GoEnum.Enum

open Constant Package Syntax
open Token (Spanned)

/-- The type that lines with this initializer are taken for: the declared one, or the one that the
first value is converted to. -/
def governed (i : Initializer) : Option String :=
  match i.type, i.values with
  | some t, _ => t.name?
  | none, v :: _ => v.calledName?
  | none, [] => none

section

variable {s : Symbols} {type name : String} {m : Member} {dir : Disk.Path} {sources : List Source}

theorem specType_eq {spec : ConstSpec} (hspec : spec.values = [] → spec.type = none)
    (last : Option Initializer) :
    specType (last.bind governed) spec = (Initializer.next last spec).bind governed := by
  unfold specType Initializer.next governed
  cases htype : spec.type with
  | none => cases hvalues : spec.values <;> simp
  | some t =>
    have hvalues : spec.values ≠ [] := by
      intro h
      rw [hspec h] at htype
      cases htype
    simp [hvalues]

def membersOfLine (s : Symbols) (type : String) (l : Line) : Except GenerateError Members :=
  if l.governing.bind governed = some type then membersOfNames s type l.spec.names
  else .ok .empty

theorem membersOfSpecs_eq {specs : List (Spanned ConstSpec)}
    (hspecs : ∀ spec ∈ specs, spec.node.values = [] → spec.node.type = none)
    (last : Option Initializer) :
    membersOfSpecs s type (last.bind governed) specs =
      gather (membersOfLine s type) (linesAfter last specs) := by
  induction specs generalizing last with
  | nil => rfl
  | cons spec specs ih =>
    rw [membersOfSpecs, linesAfter, gather, specType_eq (hspecs spec List.mem_cons_self) last,
      ih (fun spec' h => hspecs spec' (List.mem_cons_of_mem spec h)), membersOfLine]
    split <;> rfl

theorem mem_gather {f : α → Except GenerateError Members} (h : gather f xs = .ok r)
    (hm : m ∈ r.values) : ∃ x ∈ xs, ∃ r', f x = .ok r' ∧ m ∈ r'.values := by
  induction xs generalizing r with
  | nil =>
    cases h
    cases hm
  | cons x xs ih =>
    obtain ⟨first, hfirst, h⟩ := bind_eq_ok.1 h
    obtain ⟨rest, hrest, h⟩ := bind_eq_ok.1 h
    cases h
    obtain hm | hm := List.mem_append.1 hm
    · exact ⟨x, List.mem_cons_self, first, hfirst, hm⟩
    · obtain ⟨y, hy, r', hr', hm⟩ := ih hrest hm
      exact ⟨y, List.mem_cons_of_mem x hy, r', hr', hm⟩

theorem mem_membersOfNames {names : List (Spanned String)} (h : membersOfNames s type names = .ok r)
    (hm : m ∈ r.values) : ∃ name ∈ names, name.node ≠ blankName ∧
      resolve s type name.node = .ok m := by
  induction names generalizing r with
  | nil =>
    cases h
    cases hm
  | cons name names ih =>
    have hrest : ∀ rest, membersOfNames s type names = .ok rest → m ∈ rest.values →
        ∃ name' ∈ name :: names, name'.node ≠ blankName ∧ resolve s type name'.node = .ok m := by
      intro rest hrest hm
      obtain ⟨name', hname', hne, hresolve⟩ := ih hrest hm
      exact ⟨name', List.mem_cons_of_mem name hname', hne, hresolve⟩
    rw [membersOfNames] at h
    split at h
    · obtain ⟨_, ⟨⟩, h⟩ := bind_eq_ok.1 h
      obtain ⟨rest, htail, h⟩ := bind_eq_ok.1 h
      cases h
      exact hrest rest htail hm
    · rename_i hne
      obtain ⟨member, hmember, h⟩ := bind_eq_ok.1 h
      obtain ⟨_, ⟨⟩, h⟩ := bind_eq_ok.1 h
      obtain ⟨rest, htail, h⟩ := bind_eq_ok.1 h
      cases h
      obtain hm | hm := List.mem_append.1 hm
      · obtain rfl := List.mem_singleton.1 hm
        exact ⟨name, List.mem_cons_self, hne, hmember⟩
      · exact hrest rest htail hm

theorem resolve_ok (h : resolve s type name = .ok m) : m.name = name ∧ ∃ c b,
    s.constant? name = some c ∧ s.basicOf? c = some b ∧ kindOf? c.value b = some m.kind ∧
    m.literal = c.value.literal ∧
    m.isTextual = s.isStringer ((c.type.name?.map s.types.resolveAlias).getD type) ∧
    m.receiverHint =
      (s.receiverHint? ((c.type.name?.map s.types.resolveAlias).getD type)).getD "" := by
  unfold resolve at h
  split at h
  · cases h
  · rename_i c hc
    split at h
    · cases h
    · rename_i b hb
      split at h
      · cases h
      · rename_i kind hkind
        cases h
        exact ⟨rfl, c, b, hc, hb, hkind, rfl, rfl, rfl⟩

theorem exists_line_of_collect {p : Package} (hp : ofSources dir sources = .ok p)
    (h : collect p type = .ok r) (hm : m ∈ r.values) : ∃ l ∈ lines p.files,
      l.governing.bind governed = some type ∧ m.name ∈ l.names ∧ m.name ≠ blankName ∧
      resolve p.symbols type m.name = .ok m := by
  obtain ⟨f, hf, members, hmembers, hm⟩ := mem_gather h hm
  obtain ⟨d, hd, members, hmembers, hm⟩ := mem_gather hmembers hm
  have huntyped := fun spec hspec => untyped_of_ofSources hp hf hd (s := spec) hspec
  rw [show (none : Option String) = (none : Option Initializer).bind governed from rfl,
    membersOfSpecs_eq huntyped] at hmembers
  obtain ⟨l, hl, members, hmembers, hm⟩ := mem_gather hmembers hm
  refine ⟨l, List.mem_flatMap.2 ⟨f, hf, List.mem_flatMap.2 ⟨d, hd, hl⟩⟩, ?_⟩
  unfold membersOfLine at hmembers
  split at hmembers
  · rename_i htype
    obtain ⟨name, hname, hne, hresolve⟩ := mem_membersOfNames hmembers hm
    have hm := (resolve_ok hresolve).1
    exact ⟨htype, hm ▸ List.mem_map_of_mem hname, hm ▸ hne, hm ▸ hresolve⟩
  · cases hmembers
    cases hm

/-- A line without a declared type whose first value is a conversion to the type converts all its
values to it. The members of a line such as `A, B = E(1), A + 1` have the type as well, but it is a
condition on the text of lines, which does not go into what their values are. -/
def ConvertsAll (type : String) (spec : ConstSpec) : Prop :=
  spec.type = none → spec.values.head?.bind Expr.calledName? = some type →
    ∀ v ∈ spec.values, v.calledName? = some type

instance (type : String) (spec : ConstSpec) : Decidable (ConvertsAll type spec) :=
  haveI := Option.decidableEqNone (o := spec.type)
  inferInstanceAs (Decidable (_ → _ → _))

theorem type_of_conversion {scope : Scope} (htype : scope.types.isType type = true)
    (h : Evaluates scope iota e c) (he : e.calledName? = some type) : c.type = .typed type := by
  unfold Expr.calledName? at he
  split at he
  · cases he
    cases h with
    | call _ happly =>
      have hcallee : ∀ span, scope.callee (.ident span type) = .conversion type := by
        simp [Scope.callee, Expr.withoutParens, htype]
      rw [hcallee] at happly
      exact (convert_wellTyped happly).2
  · cases he

theorem kindOf?_eq {v v' : Value} (h : v.class = v'.class) (b : BasicType) :
    kindOf? v b = kindOf? v' b := by
  cases v <;> cases v' <;> first | rfl | cases h

theorem exists_const_of_collect {p : Package} (hp : ofSources dir sources = .ok p)
    (hdistinct : DistinctConstants p.files) (htype : p.symbols.types.isType type = true)
    (hconverts : ∀ f ∈ p.files, ∀ d ∈ constDecls f, ∀ spec ∈ d.specs, ConvertsAll type spec.node)
    (h : collect p type = .ok r) (hm : m ∈ r.values) :
    ∃ c, p.symbols.constant? m.name = some c ∧ c.type = .typed type ∧
      c.WellTyped p.symbols.types.scope ∧ resolve p.symbols type m.name = .ok m := by
  obtain ⟨l, hl, hgoverned, hname, hne, hresolve⟩ := exists_line_of_collect hp h hm
  obtain ⟨-, c, b, hc, -⟩ := resolve_ok hresolve
  refine ⟨c, hc, ?_⟩
  obtain ⟨hsymbols, -⟩ := ofSources_ok hp
  rw [hsymbols] at hc htype ⊢
  have heval := evaluatesName_of_constant? hc
  refine ⟨?_, heval.admits.wellTyped, hsymbols ▸ hresolve⟩
  obtain ⟨d, c₀, hd, hc₀, hdeclare⟩ := heval
  obtain ⟨l', hl', hname', i, hi, hdtype, hexpr⟩ := exists_line_of_find? hd
  obtain rfl := hdistinct.line_eq hl hl' hname hname' hne
  rw [hi, Option.bind_some] at hgoverned
  obtain ⟨f, hf, hl⟩ := List.mem_flatMap.1 hl
  obtain ⟨decl, hdecl, hl⟩ := List.mem_flatMap.1 hl
  obtain hnone | ⟨spec, hspec, rfl⟩ := exists_spec_of_governing hl hi
  · cases hnone
  unfold governed at hgoverned
  cases hspecType : spec.node.type with
  | some t =>
    simp only [hspecType, Option.map_some] at hgoverned hdtype
    have hnamed : t.node = .named type := by
      cases ht : t.node <;> rw [ht] at hgoverned <;> cases hgoverned
      rfl
    exact (declare_wellTyped hc₀.wellTyped hdeclare).2 type (by rw [hdtype, hnamed])
  | none =>
    simp only [hspecType, Option.map_none] at hgoverned hdtype
    have hfirst : spec.node.values.head?.bind Expr.calledName? = some type := by
      cases hvalues : spec.node.values with
      | nil =>
        rw [hvalues] at hgoverned
        cases hgoverned
      | cons v vs => simpa [hvalues] using hgoverned
    have hcalled := hconverts f hf decl hdecl spec hspec hspecType hfirst d.expr hexpr
    rw [hdtype] at hdeclare
    cases hdeclare
    exact type_of_conversion htype hc₀ hcalled

/-- Where constants are declared once each, and no line converts its first value to the type and
another value not, the members of a type are constants of that type, of one kind. -/
theorem members_of_type {p : Package} (hp : ofSources dir sources = .ok p)
    (hdistinct : DistinctConstants p.files) (htype : p.symbols.types.isType type = true)
    (hconverts : ∀ f ∈ p.files, ∀ d ∈ constDecls f, ∀ spec ∈ d.specs, ConvertsAll type spec.node)
    (h : collect p type = .ok r) :
    (∀ m ∈ r.values, ∃ c, p.symbols.constant? m.name = some c ∧ c.type = .typed type) ∧
    ∀ m ∈ r.values, ∀ m' ∈ r.values, m.kind = m'.kind ∧ m.isTextual = m'.isTextual ∧
      m.receiverHint = m'.receiverHint := by
  have hconst : ∀ m ∈ r.values, ∃ c, p.symbols.constant? m.name = some c ∧ c.type = .typed type ∧
      c.WellTyped p.symbols.types.scope ∧ resolve p.symbols type m.name = .ok m :=
    fun m hm => exists_const_of_collect hp hdistinct htype hconverts h hm
  refine ⟨fun m hm => ?_, fun m hm m' hm' => ?_⟩
  · obtain ⟨c, hc, hctype, -⟩ := hconst m hm
    exact ⟨c, hc, hctype⟩
  · obtain ⟨c, hc, hctype, hwell, hresolve⟩ := hconst m hm
    obtain ⟨c', hc', hctype', hwell', hresolve'⟩ := hconst m' hm'
    obtain ⟨-, d, b, hd, hb, hkind, -, htextual, hhint⟩ := resolve_ok hresolve
    obtain ⟨-, d', b', hd', hb', hkind', -, htextual', hhint'⟩ := resolve_ok hresolve'
    cases hc.symm.trans hd
    cases hc'.symm.trans hd'
    have hclass : c.value.class = c'.value.class := by
      rw [← Option.some.injEq, ← hwell.class, ← hwell'.class, hctype, hctype']
    have hbasic : p.symbols.basicOf? c = p.symbols.basicOf? c' := by
      simp only [Symbols.basicOf?, hctype, hctype']
    obtain rfl : b = b' := Option.some.inj (hb.symm.trans (hbasic.trans hb'))
    rw [kindOf?_eq hclass] at hkind
    refine ⟨Option.some.inj (hkind.symm.trans hkind'), ?_, ?_⟩
    · rw [htextual, htextual', hctype, hctype']
    · rw [hhint, hhint', hctype, hctype']

end

def pairSource : Source where
  path := ⟨"p/a.go"⟩
  text := "package p\ntype E int\nconst (\n\tA, B = E(1), E(2)\n\tC E = 3\n)\n"

theorem members_of_type_pair : ∃ p, ofSources ⟨"p"⟩ [pairSource] = .ok p ∧
    ∃ r, collect p "E" = .ok r ∧ r.values.map (·.name) = ["A", "B", "C"] ∧
      (∀ m ∈ r.values, ∃ c, p.symbols.constant? m.name = some c ∧ c.type = .typed "E") ∧
      ∀ m ∈ r.values, ∀ m' ∈ r.values, m.kind = m'.kind ∧ m.isTextual = m'.isTextual ∧
        m.receiverHint = m'.receiverHint := by
  have hrun : ∃ p, ofSources ⟨"p"⟩ [pairSource] = .ok p ∧ (DistinctConstants p.files ∧
      p.symbols.types.isType "E" = true ∧
      (∀ f ∈ p.files, ∀ d ∈ constDecls f, ∀ spec ∈ d.specs, ConvertsAll "E" spec.node) ∧
      ∃ r, collect p "E" = .ok r ∧ r.values.map (·.name) = ["A", "B", "C"]) := by decide +kernel
  obtain ⟨p, hp, hdistinct, htype, hconverts, r, hr, hnames⟩ := hrun
  exact ⟨p, hp, r, hr, hnames, members_of_type hp hdistinct htype hconverts hr⟩

/-- A line that converts its first value to one type and its second to another. -/
def mixedSource : Source where
  path := ⟨"p/a.go"⟩
  text := "package p\ntype E int\ntype F string\nconst A, B = E(1), F(\"x\")\n"

/-- Without the condition on lines, a constant of another type and kind is taken for a member. -/
theorem mixed_members : ∃ p, ofSources ⟨"p"⟩ [mixedSource] = .ok p ∧
    (DistinctConstants p.files ∧ (p.symbols.types.find? "E").isSome = true ∧
    ∃ r, collect p "E" = .ok r ∧
      ((∃ m ∈ r.values, (p.symbols.constant? m.name).map (·.type) = some (.typed "F")) ∧
      ∃ m ∈ r.values, ∃ m' ∈ r.values, m.kind ≠ m'.kind)) := by
  decide +kernel

end GoEnum.Enum
