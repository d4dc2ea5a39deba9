import GoEnum.Constant.Value
import GoEnum.Proofs.Token.Cut

namespace GoEnum.Token

open Constant Text

theorem lex_of_quote (s : String) :
    lex (quote s) = .ok [⟨.string s, ⟨0, (quote s).utf8ByteSize⟩⟩,
      ⟨.punctuation .semicolon, .point (quote s).utf8ByteSize⟩,
      ⟨.eof, .point (quote s).utf8ByteSize⟩] := by
  have hlexeme : lexeme '"' (s.toList.flatMap quoteChar ++ ['"']) =
      .token (.string s) (s.toList.flatMap quoteChar ++ ['"']).length := by
    change stringLiteral _ = _
    rw [stringLiteral_quote, List.length_append, List.length_singleton]
  exact lex_of_token (toList_quote s) hlexeme

theorem isControl_of_mem_quote (h : c ∈ (quote s).toList) : isControl c = false := by
  rw [toList_quote, List.cons_append, List.mem_cons, List.mem_append, List.mem_singleton] at h
  rcases h with rfl | h | rfl
  · rfl
  · obtain ⟨d, -, hd⟩ := List.mem_flatMap.1 h
    exact isControl_of_mem_quoteChar hd
  · rfl

/-- Lexing undoes quoting: a quoted text is one string token over the whole of it, which the end of
the text makes a statement. There are no control characters in it, and different texts, and so
different string constants, have different literals. -/
theorem lex_inverts_quote (s : String) :
    lex (quote s) = .ok [⟨.string s, ⟨0, (quote s).utf8ByteSize⟩⟩,
      ⟨.punctuation .semicolon, .point (quote s).utf8ByteSize⟩,
      ⟨.eof, .point (quote s).utf8ByteSize⟩] ∧
    (∀ c ∈ (quote s).toList, isControl c = false) ∧
    (∀ t, quote s = quote t ↔ s = t) ∧
    ∀ t, (Value.string s).literal = (Value.string t).literal ↔ Value.string s = .string t := by
  have hinjective : ∀ t, quote s = quote t ↔ s = t := fun t => ⟨quote_injective, congrArg quote⟩
  refine ⟨lex_of_quote s, fun c => isControl_of_mem_quote, hinjective, fun t => ?_⟩
  rw [Value.string.injEq]
  exact hinjective t

example : quote "a\"\n\x01\u00adé" = "\"a\\\"\\n\\x01\\u00adé\"" := by decide

end GoEnum.Token
