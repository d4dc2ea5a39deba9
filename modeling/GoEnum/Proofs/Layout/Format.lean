import GoEnum.Layout.Format
import GoEnum.Proofs.Except
import GoEnum.Proofs.Layout.Tidy
import GoEnum.Proofs.Parse.File
import GoEnum.Proofs.Parse.StripFile

namespace GoEnum.Layout

open Parse Syntax Token

theorem format_eq_ok : format s = .ok t ↔
    (∃ file, parseSource s = .ok file) ∧ t = String.ofList (layout s.toList) := by
  rw [format]
  cases parseSource s with
  | ok file => simp [eq_comm]
  | error ds => simp

theorem parseSource_eq_ok : parseSource s = .ok file ↔
    ∃ ts, lex s = .ok ts ∧ parse ts = .ok file := by
  refine ⟨parseSource_ok, ?_⟩
  rintro ⟨ts, hlex, hparse⟩
  rw [parseSource, hlex]
  dsimp only
  rw [hparse]

/-- Layout keeps the tokens, but for raw strings that span lines. -/
theorem lex_layout (h : lex s = .ok ts) : ∃ us, lex (String.ofList (layout s.toList)) = .ok us ∧
    SameTexts (ts.map (TokenText.of s.toList)) (us.map (TokenText.of (layout s.toList))) := by
  obtain ⟨ps, hcut, -⟩ := lex_eq_ok.1 h
  obtain ⟨qs, hqs, htexts⟩ := cut_of_tidies (tidies_layout s.toList) hcut
  rw [← String.toList_ofList (l := layout s.toList)] at hqs
  have hlayout := lex_eq_ok.2 ⟨qs, hqs, rfl⟩
  refine ⟨_, hlayout, ?_⟩
  have htexts' := lex_texts hqs hlayout
  rw [String.toList_ofList] at htexts'
  rw [lex_texts hcut h, htexts']
  exact htexts

section

variable {cs ds : List Char} {ts us : List Token}

theorem strip_of_sameTexts
    (h : SameTexts (ts.map (TokenText.of cs)) (us.map (TokenText.of ds))) :
    us.map (Spanned.strip (TokenKind.strip fun _ => "")) =
      ts.map (Spanned.strip (TokenKind.strip fun _ => "")) := by
  let blank (t : TokenText) : Token := ⟨t.kind.strip fun _ => "", .point 0⟩
  have hkept : ∀ {t u}, Kept t u → blank u = blank t := by
    rintro t u (_ | _) <;> rfl
  have hmap := h.map_eq hkept
  rwa [List.map_map, List.map_map] at hmap

theorem nodes_of_sameTexts
    (h : SameTexts (ts.map (TokenText.of cs)) (us.map (TokenText.of ds)))
    (hlines : ∀ t ∈ ts, '\n' ∉ t.span.slice cs) : us.map (·.node) = ts.map (·.node) := by
  have hsame := h.eq (by simpa [TokenText.of] using hlines)
  have hkinds := congrArg (List.map TokenText.kind) hsame
  rwa [List.map_map, List.map_map] at hkinds

theorem strip_of_nodes (h : us.map (·.node) = ts.map (·.node)) (g : String → String) :
    us.map (Spanned.strip (TokenKind.strip g)) = ts.map (Spanned.strip (TokenKind.strip g)) := by
  have hmap := congrArg (List.map fun k => (⟨TokenKind.strip g k, .point 0⟩ : Token)) h
  rwa [List.map_map, List.map_map] at hmap

end

theorem format_of_format (h : format s = .ok t) : format t = .ok t := by
  obtain ⟨⟨file, hfile⟩, rfl⟩ := format_eq_ok.1 h
  obtain ⟨ts, hlex, hparse⟩ := parseSource_eq_ok.1 hfile
  obtain ⟨us, hus, htexts⟩ := lex_layout hlex
  obtain ⟨file', hfile', -⟩ := parse_of_strip_eq _ (strip_of_sameTexts htexts) hparse
  refine format_eq_ok.2 ⟨⟨file', parseSource_eq_ok.2 ⟨us, hus, hfile'⟩⟩, ?_⟩
  rw [String.toList_ofList, layout_layout]

theorem isFormatted_of_format (h : format s = .ok t) : isFormatted t = .ok true := by
  rw [isFormatted, format_of_format h]
  simp

theorem format_idempotent (h : format s = .ok t) : format t = .ok t ∧ isFormatted t = .ok true :=
  ⟨format_of_format h, isFormatted_of_format h⟩

theorem format_idempotent_rawString :
    ∃ t, format "package p\r\n\n\nvar s = \x60x \n\n\ny\x60 /* a \t\n */" = .ok t ∧
      t = "package p\n\nvar s = \x60x\n\ny\x60 /* a\n */\n" ∧
      format t = .ok t ∧ isFormatted t = .ok true := by
  have hformat : ∃ t, format "package p\r\n\n\nvar s = \x60x \n\n\ny\x60 /* a \t\n */" = .ok t ∧
      t = "package p\n\nvar s = \x60x\n\ny\x60 /* a\n */\n" := by decide +kernel
  obtain ⟨t, ht, htext⟩ := hformat
  exact ⟨t, ht, htext, format_idempotent ht⟩

theorem format_keeps_meaning (h : format s = .ok t) (hlex : lex s = .ok ts)
    (hlines : ∀ tok ∈ ts, '\n' ∉ tok.span.slice s.toList) :
    ∃ us, lex t = .ok us ∧ us.map (·.node) = ts.map (·.node) ∧
      ∃ file file', parseSource s = .ok file ∧ parseSource t = .ok file' ∧
        file'.strip id = file.strip id := by
  obtain ⟨⟨file, hfile⟩, rfl⟩ := format_eq_ok.1 h
  obtain ⟨ts', hlex', hparse⟩ := parseSource_eq_ok.1 hfile
  obtain rfl := Except.ok.inj (hlex.symm.trans hlex')
  obtain ⟨us, hus, htexts⟩ := lex_layout hlex
  have hnodes := nodes_of_sameTexts htexts hlines
  obtain ⟨file', hfile', hsame⟩ := parse_of_strip_eq id (strip_of_nodes hnodes id) hparse
  exact ⟨us, hus, hnodes, file, file', hfile, parseSource_eq_ok.2 ⟨us, hus, hfile'⟩, hsame⟩

theorem format_keeps_meaning_group :
    let s := "package p\r\n\n\nconst (\n\n\tA = \x60x\x60 // a \t\n\n /* b \r\n\n\n */ B ; \n\n)"
    ∃ t ts, format s = .ok t ∧ lex s = .ok ts ∧
      t = "package p\n\nconst (\n\tA = \x60x\x60 // a\n\n /* b\n\n */ B ;\n)\n" ∧
      (∀ tok ∈ ts, '\n' ∉ tok.span.slice s.toList) ∧
      ∃ us, lex t = .ok us ∧ us.map (·.node) = ts.map (·.node) ∧
        ∃ file file', parseSource s = .ok file ∧ parseSource t = .ok file' ∧
          file'.strip id = file.strip id := by
  intro s
  have hformat : ∃ t, format s = .ok t ∧
      t = "package p\n\nconst (\n\tA = \x60x\x60 // a\n\n /* b\n\n */ B ;\n)\n" := by
    decide +kernel
  have hlex : ∃ ts, lex s = .ok ts ∧ ∀ tok ∈ ts, '\n' ∉ tok.span.slice s.toList := by
    decide +kernel
  obtain ⟨t, ht, htext⟩ := hformat
  obtain ⟨ts, hts, hlines⟩ := hlex
  exact ⟨t, ts, ht, hts, htext, hlines, format_keeps_meaning ht hts hlines⟩

end GoEnum.Layout
