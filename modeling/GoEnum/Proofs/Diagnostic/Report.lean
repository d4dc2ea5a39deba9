import GoEnum.Package.Basic
import GoEnum.Proofs.Diagnostic.Slice
import GoEnum.Proofs.Parse.Blame
import GoEnum.Proofs.Token.Fault

namespace GoEnum

open Token Parse

namespace Diagnostic

/-- The report, if no slice that it takes of the text is out of range. -/
def report? (file source : String) (d : Diagnostic) : Option String :=
  (lineInfo? source d.span.start).map fun info => d.reportAt info file

theorem report?_eq_some {d : Diagnostic} (h : IsBoundary d.span.start source.toList) :
    d.report? file source = some (d.report file source) := by
  rw [report?, lineInfo?_eq_some h, Option.map_some, report]

end Diagnostic

def reportAll? (file source : String) (ds : List Diagnostic) : Option String := do
  let reports ← ds.mapM fun d => d.report? file source
  return String.ofList (Text.trimRight (String.join (reports.map (· ++ "\n"))).toList)

section

variable {source : String} {ts : List Token} {ds : List Diagnostic}

theorem reportAll?_eq_some (h : ∀ d ∈ ds, IsBoundary d.span.start source.toList)
    (file : String) : reportAll? file source ds = some (Package.reportAll file source ds) := by
  have hreports : ds.mapM (fun d => d.report? file source) =
      some (ds.map fun d => d.report file source) := by
    induction ds with
    | nil => rfl
    | cons d ds ih =>
      obtain ⟨hd, hds⟩ := List.forall_mem_cons.1 h
      rw [List.mapM_cons, Diagnostic.report?_eq_some hd, ih hds]
      rfl
  rw [reportAll?, hreports, Package.reportAll]
  simp [Function.comp_def]

theorem inText_of_parse_error (hlex : lex source = .ok ts) (h : parse ts = .error es) :
    ∀ e ∈ es, e.span.InText source.toList := by
  have hlossless := lex_lossless hlex
  obtain ⟨us, hus, -⟩ := hlossless.last
  refine blames_parse (fun _ _ => Span.InText.merge) hlossless.inText ?_ h
  rw [hus]
  exact List.append_ne_nil_of_right_ne_nil us (List.cons_ne_nil _ _)

theorem inText_of_parseSource_error (h : parseSource source = .error ds) :
    ∀ d ∈ ds, d.span.InText source.toList := by
  unfold parseSource at h
  split at h
  · rename_i es hlex
    cases h
    intro d hd
    obtain ⟨e, he, rfl⟩ := List.mem_map.1 hd
    exact inText_of_lex_error hlex e he
  · rename_i ts hlex
    split at h
    · rename_i es hparse
      cases h
      intro d hd
      obtain ⟨e, he, rfl⟩ := List.mem_map.1 hd
      exact inText_of_parse_error hlex hparse e he
    · cases h

/-- Errors of both stages begin and end between characters of the text, and reports of them never
cut it anywhere else. -/
theorem errors_reported (source : String) :
    (∀ es, lex source = .error es → ∀ e ∈ es, e.span.InText source.toList) ∧
      (∀ ts es, lex source = .ok ts → parse ts = .error es →
        ∀ e ∈ es, e.span.InText source.toList) ∧
      ∀ ds, parseSource source = .error ds → ∀ file,
        (∀ d ∈ ds, d.report? file source = some (d.report file source)) ∧
          reportAll? file source ds = some (Package.reportAll file source ds) := by
  refine ⟨fun es => inText_of_lex_error, fun ts es => inText_of_parse_error, ?_⟩
  intro ds h file
  have hstart : ∀ d ∈ ds, IsBoundary d.span.start source.toList :=
    fun d hd => (inText_of_parseSource_error h d hd).start_boundary
  exact ⟨fun d hd => Diagnostic.report?_eq_some (hstart d hd), reportAll?_eq_some hstart file⟩

theorem errors_reported_missing_value : ∃ d,
    parseSource "package p\nconst π" = .error [d] ∧ d.span = ⟨16, 18⟩ ∧
      reportAll? "e.go" "package p\nconst π" [d] =
        some (Package.reportAll "e.go" "package p\nconst π" [d]) := by
  have hlex : lex "package p\nconst π" = .ok [⟨.keyword .package, ⟨0, 7⟩⟩, ⟨.ident "p", ⟨8, 9⟩⟩,
      ⟨.punctuation .semicolon, ⟨9, 9⟩⟩, ⟨.keyword .const, ⟨10, 15⟩⟩, ⟨.ident "π", ⟨16, 18⟩⟩,
      ⟨.punctuation .semicolon, ⟨18, 18⟩⟩, ⟨.eof, ⟨18, 18⟩⟩] := by decide +kernel
  have hparse : parseSource "package p\nconst π" =
      .error [⟨.syntactic, SyntaxCause.missingValue.message, ⟨16, 18⟩, none⟩] := by
    rw [parseSource, hlex]
    rfl
  exact ⟨_, hparse, rfl, ((errors_reported "package p\nconst π").2.2 _ hparse "e.go").2⟩

end

end GoEnum
