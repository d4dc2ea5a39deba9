import GoEnum.Proofs.Emit.Session
import GoEnum.Proofs.Emit.Source
import GoEnum.Proofs.Token.Outcome

/-!
The line that tells how a file was generated. What the arguments do to the tokens of the file is
what they put below that line.
-/

namespace GoEnum.Emit

open Package Token

/-- What the arguments put below the first line of the file, which is nothing unless one of them has
a line break. -/
def overflow (args : List String) : List Char :=
  (generatedMarker args).toList.dropWhile (· != '\n')

section

variable {sep : String} {args : List String}

theorem mem_intercalate_of_mem {xs : List String} (hx : x ∈ xs) (hc : c ∈ x.toList) :
    c ∈ (sep.intercalate xs).toList := by
  induction xs with
  | nil => cases hx
  | cons y ys ih =>
    cases ys with
    | nil =>
      obtain rfl := List.mem_singleton.1 hx
      simpa using hc
    | cons z zs =>
      rw [String.intercalate_cons_of_ne_nil (by simp), String.toList_append, String.toList_append,
        List.mem_append, List.mem_append]
      obtain rfl | hx := List.mem_cons.1 hx
      · exact .inl (.inl hc)
      · exact .inr (ih hx)

theorem lineBreak_not_mem_marker_iff :
    '\n' ∉ (generatedMarker args).toList ↔ ∀ arg ∈ args, '\n' ∉ arg.toList := by
  refine ⟨fun h arg harg hbreak => h ?_, lineBreak_not_mem_marker⟩
  unfold generatedMarker
  simp only [String.toList_append, List.mem_append]
  exact .inl (.inr (mem_intercalate_of_mem (List.mem_cons_of_mem _ harg) hbreak))

theorem overflow_eq_nil : overflow args = [] ↔ ∀ arg ∈ args, '\n' ∉ arg.toList := by
  rw [overflow, List.dropWhile_eq_nil_iff, ← lineBreak_not_mem_marker_iff]
  simp only [bne_iff_ne]
  exact ⟨fun h hmem => h _ hmem rfl, fun h c hc hbreak => h (hbreak ▸ hc)⟩

end

theorem outcome_commented (args : List String) (rest : String) :
    outcome ("// " ++ generatedMarker args ++ "\n" ++ rest) =
      outcome (String.ofList (overflow args) ++ "\n" ++ rest) := by
  have hskip := outcome_comment (' ' :: (generatedMarker args).toList) rest.toList
  rw [List.dropWhile_cons_of_pos (by decide)] at hskip
  have hline : '/' :: '/' :: (' ' :: (generatedMarker args).toList ++ '\n' :: rest.toList) =
      ("// " ++ generatedMarker args ++ "\n" ++ rest).toList := by simp
  have hrest : overflow args ++ '\n' :: rest.toList =
      (String.ofList (overflow args) ++ "\n" ++ rest).toList := by simp
  rwa [hline, ← overflow, hrest, String.ofList_toList, String.ofList_toList] at hskip

theorem frames_imports (paths : List String) : Frames (·.imports paths) := by
  match paths with
  | [] => exact frames_id
  | [path] => exact (frames_line _).comp frames_blank
  | path :: path' :: paths =>
    have hlist := (frames_foldl (fun path => frames_line s!"\"{path}\"")
      (path :: path' :: paths)).indented
    exact (((frames_line _).comp hlist).comp (frames_line _)).comp frames_blank

/-- Nothing but the first line is made from the arguments. -/
theorem finish_eq (out : Output) (p : Package) :
    ∃ rest, ∀ args, out.finish p args = "// " ++ generatedMarker args ++ "\n" ++ rest := by
  let head (e : Emitter) : Emitter :=
    (e.blank.line s!"package {p.name}").blank.imports out.imports.paths
  have hhead : Frames head := (frames_blank.comp ((frames_line _).comp frames_blank)).comp
    (frames_imports out.imports.paths)
  refine ⟨(head .empty).text ++ out.body, fun args => ?_⟩
  have htext : preamble p out.imports args = "" ++ "" ++ ("// " ++ generatedMarker args) ++ "\n" ++
      (head .empty).text := hhead.text (Emitter.empty.comment (generatedMarker args))
  rw [Output.finish, htext, String.empty_append, String.empty_append, String.append_assoc]

/-- What a file is after its first line does not depend on the arguments, and that line is skipped
up to the first line break of an argument. So arguments without line breaks make no difference to
the tokens of the file or to its lexical errors, whatever else they consist of. -/
theorem provenance_inert (out : Output) (p : Package) :
    (∃ rest, ∀ args, out.finish p args = "// " ++ generatedMarker args ++ "\n" ++ rest ∧
      outcome (out.finish p args) = outcome (String.ofList (overflow args) ++ "\n" ++ rest) ∧
      (overflow args = [] ↔ ∀ arg ∈ args, '\n' ∉ arg.toList)) ∧
    ∀ a b, (∀ arg ∈ a ++ b, '\n' ∉ arg.toList) →
      outcome (out.finish p a) = outcome (out.finish p b) := by
  obtain ⟨rest, hrest⟩ := finish_eq out p
  have houtcome : ∀ args, outcome (out.finish p args) =
      outcome (String.ofList (overflow args) ++ "\n" ++ rest) := fun args => by
    rw [hrest, outcome_commented]
  refine ⟨⟨rest, fun args => ⟨hrest args, houtcome args, overflow_eq_nil⟩⟩, fun a b h => ?_⟩
  obtain ⟨ha, hb⟩ := List.forall_mem_append.1 h
  rw [houtcome a, houtcome b, overflow_eq_nil.2 ha, overflow_eq_nil.2 hb]

def emptyPackage : Source where
  path := ⟨"p/a.go"⟩
  text := "package p\n"

theorem provenance_inert_marks : ∃ p, ofSources ⟨"p"⟩ [emptyPackage] = .ok p ∧
    (∀ arg ∈ ["--type", "*/ \" /* \x60 \r"] ++ [], '\n' ∉ arg.toList) ∧
    outcome (Output.empty.finish p ["--type", "*/ \" /* \x60 \r"]) =
      outcome (Output.empty.finish p []) := by
  obtain ⟨p, hp, -⟩ : ∃ p, ofSources ⟨"p"⟩ [emptyPackage] = .ok p ∧ p.name = "p" := by
    decide +kernel
  have hargs : ∀ arg ∈ ["--type", "*/ \" /* \x60 \r"] ++ [], '\n' ∉ arg.toList := by decide
  exact ⟨p, hp, hargs, (provenance_inert .empty p).2 _ _ hargs⟩

/-- An argument with a line break puts a declaration in front of the package clause. -/
theorem provenance_not_inert : ∃ p, ofSources ⟨"p"⟩ [emptyPackage] = .ok p ∧
    outcome (Output.empty.finish p ["\nvar hidden = \""]) ≠ outcome (Output.empty.finish p []) := by
  decide +kernel

end GoEnum.Emit
