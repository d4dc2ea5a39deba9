import GoEnum.Proofs.Enum.Discovery
import GoEnum.Proofs.Package.Repetition

namespace GoEnum.Enum

open Constant Package Syntax
open Token (Spanned)

def typeInForce (specs : List (Spanned ConstSpec)) (n : Nat) : Option String :=
  (specs.take n).foldl (fun current s => specType current s.node) none

/-- The names that are defined by the initializer belong to the type `t`: it is declared, or it is
called by the first value where none is declared. -/
inductive GivesType : Initializer → String → Prop
  | declared : GivesType ⟨some (.named t), values⟩ t
  | called : GivesType ⟨none, .call s (.ident s' t) args :: values⟩ t

section

variable {specs : List (Spanned ConstSpec)} {file : File} {d : ConstDecl}

theorem governed_eq_some : governed i = some t ↔ GivesType i t := by
  constructor
  · intro h
    obtain ⟨type, values⟩ := i
    unfold governed at h
    split at h
    · rename_i type htype
      cases htype
      cases type <;> cases h
      exact .declared
    · rename_i v vs htype hvalues
      cases htype
      cases hvalues
      unfold Expr.calledName? at h
      split at h
      · cases h
        exact .called
      · cases h
    · cases h
  · rintro (_ | _) <;> rfl

theorem foldl_specType (hspecs : ∀ s ∈ specs, s.node.values = [] → s.node.type = none)
    (last : Option Initializer) :
    specs.foldl (fun current s => specType current s.node) (last.bind governed) =
      (specs.foldl (fun last s => Initializer.next last s.node) last).bind governed := by
  induction specs generalizing last with
  | nil => rfl
  | cons s specs ih =>
    obtain ⟨hs, hspecs⟩ := List.forall_mem_cons.1 hspecs
    rw [List.foldl_cons, List.foldl_cons, specType_eq hs, ih hspecs]

theorem untyped_of_parseSource (h : Parse.parseSource text = .ok file) (hd : d ∈ constDecls file)
    (hs : s ∈ d.specs) (hvalues : s.node.values = []) : s.node.type = none := by
  obtain ⟨tokens, -, hparse⟩ := Parse.parseSource_ok h
  exact (readFrom_of_parse hparse hd s hs).typed hvalues

theorem typeInForce_eq (h : Parse.parseSource text = .ok file) (hd : d ∈ constDecls file)
    (n : Nat) : typeInForce d.specs n = (inForce d.specs n).bind governed :=
  foldl_specType (fun _ hs => untyped_of_parseSource h hd (List.mem_of_mem_take hs)) none

/-- At every line of a file that was read, collection has a type in mind exactly if the initializer
in force gives it. -/
theorem typeInForce_iff (h : Parse.parseSource text = .ok file) (hd : d ∈ constDecls file)
    (k : Nat) :
    (∀ t, typeInForce d.specs (k + 1) = some t ↔
      ∃ i, inForce d.specs (k + 1) = some i ∧ GivesType i t) ∧
    (typeInForce d.specs (k + 1) = none ↔
      ¬ ∃ t i, inForce d.specs (k + 1) = some i ∧ GivesType i t) := by
  have hsome : ∀ t, typeInForce d.specs (k + 1) = some t ↔
      ∃ i, inForce d.specs (k + 1) = some i ∧ GivesType i t := by
    intro t
    simp only [typeInForce_eq h hd, Option.bind_eq_some_iff, governed_eq_some]
  refine ⟨hsome, ?_⟩
  simp only [← hsome, Option.eq_none_iff_forall_ne_some, not_exists, ne_eq]

end

def trackedText : String :=
  "package p\nconst (\n\tA, B E = iota, 1\n\tC, D\n\tF = G(2)\n\t_\n\tH = 3\n\tI q.E = 4\n)\n"

theorem typeInForce_iff_tracked : ∃ file d, Parse.parseSource trackedText = .ok file ∧
    d ∈ constDecls file ∧
    (List.range 7).map (typeInForce d.specs) =
      [none, some "E", some "E", some "G", some "G", none, none] ∧
    ∀ k, (∀ t, typeInForce d.specs (k + 1) = some t ↔
        ∃ i, inForce d.specs (k + 1) = some i ∧ GivesType i t) ∧
      (typeInForce d.specs (k + 1) = none ↔
        ¬ ∃ t i, inForce d.specs (k + 1) = some i ∧ GivesType i t) := by
  have hread : ∃ file, Parse.parseSource trackedText = .ok file ∧ ∃ d ∈ constDecls file,
      (List.range 7).map (typeInForce d.specs) =
        [none, some "E", some "E", some "G", some "G", none, none] := by
    decide +kernel
  obtain ⟨file, hfile, d, hd, htypes⟩ := hread
  exact ⟨file, d, hfile, hd, htypes, typeInForce_iff hfile hd⟩

end GoEnum.Enum
