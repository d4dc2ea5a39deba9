import GoEnum.Proofs.Token.Atom

namespace GoEnum.Token

/-- The kinds of the tokens of a text, or the causes of its errors. -/
def outcome (s : String) : Except (List LexCause) (List TokenKind) :=
  match lex s with
  | .ok ts => .ok (ts.map (·.node))
  | .error es => .error (es.map (·.cause))

def Located.trace (l : Located) : Form × List LexCause := (l.form, l.errors.map (·.cause))

def outcomeOf (xs : List (Form × List LexCause)) : Except (List LexCause) (List TokenKind) :=
  match xs.flatMap (·.2) with
  | [] => .ok (kindsOf false (xs.map (·.1)))
  | causes => .error causes

theorem map_trace_lexemes (cs : List Char) (m n : Nat) :
    (lexemes m cs).map Located.trace = (lexemes n cs).map Located.trace := by
  fun_induction lexemes m cs generalizing n with
  | case1 => rw [lexemes]
  | case2 m c cs l place span ih =>
    rw [lexemes, List.map_cons, List.map_cons]
    congr 1
    · simp [Located.trace, l]
    · exact ih _

theorem outcome_eq (s : String) (n : Nat) :
    outcome s = outcomeOf ((lexemes n s.toList).map Located.trace) := by
  rw [map_trace_lexemes s.toList n 0]
  have hcauses : ((lexemes 0 s.toList).map Located.trace).flatMap (·.2) =
      ((lexemes 0 s.toList).flatMap (·.errors)).map (·.cause) := by
    rw [List.flatMap_map, List.map_flatMap]
    rfl
  have hforms : ((lexemes 0 s.toList).map Located.trace).map (·.1) =
      (lexemes 0 s.toList).map (·.form) := List.map_map
  rw [outcome, outcomeOf, lex, hcauses, hforms]
  cases (lexemes 0 s.toList).flatMap (·.errors) with
  | nil => simp [map_node_tokensOf]
  | cons e es => rfl

theorem outcome_eq_ok : outcome s = .ok ks ↔ ∃ ts, lex s = .ok ts ∧ ts.map (·.node) = ks := by
  rw [outcome]
  cases lex s with
  | ok ts => simp
  | error es => simp

theorem outcome_skip (h : lexeme c cs = ⟨f, n, []⟩) (hf : ∀ k, f ≠ .token k) :
    outcome (String.ofList (c :: cs)) = outcome (String.ofList (cs.drop n)) := by
  rw [outcome_eq _ 0, String.toList_ofList, lexemes, List.map_cons, h]
  rw [outcome_eq _ (0 + byteSize (c :: cs.take n)), String.toList_ofList]
  cases f with
  | token k => exact absurd rfl (hf k)
  | _ => rfl

theorem outcome_lineComment (h : '\n' ∉ cs) (hrest : Stops (· != '\n') rest) :
    outcome (String.ofList ('/' :: '/' :: (cs ++ rest))) = outcome (String.ofList rest) := by
  have hskip := outcome_skip (lexeme_lineComment h hrest) nofun
  rwa [List.cons_append, List.drop_succ_cons, List.drop_left] at hskip

theorem outcome_blockComment (cs : List Char) : outcome (String.ofList ('/' :: '*' :: cs)) =
    match commentEnd? cs with
    | none => .error [.openComment]
    | some n => outcome (String.ofList (cs.drop n)) := by
  have hread : lexeme '/' ('*' :: cs) = blockComment cs := rfl
  cases hend : commentEnd? cs with
  | none =>
    rw [blockComment, hend] at hread
    rw [outcome_eq _ 0, String.toList_ofList, lexemes, List.map_cons, hread]
    simp [Lexeme.fault, lexemes, outcomeOf, Located.trace]
  | some n =>
    rw [blockComment, hend] at hread
    dsimp only at hread
    change _ = outcome (String.ofList (('*' :: cs).drop (n + 1)))
    split at hread
    · exact outcome_skip hread (by simp)
    · exact outcome_skip hread (by simp)

theorem stops_dropWhile_append {p : Char → Bool} (cs : List Char) (h : Stops p rest) :
    Stops p (cs.dropWhile p ++ rest) := by
  induction cs with
  | nil => exact h
  | cons c cs ih =>
    by_cases hc : p c
    · rwa [List.dropWhile_cons_of_pos hc]
    · rw [List.dropWhile_cons_of_neg hc]
      exact stops_cons (eq_false_of_ne_true hc)

theorem outcome_comment (cs rest : List Char) :
    outcome (String.ofList ('/' :: '/' :: (cs ++ '\n' :: rest))) =
      outcome (String.ofList (cs.dropWhile (· != '\n') ++ '\n' :: rest)) := by
  have hline : '\n' ∉ cs.takeWhile (· != '\n') := fun hmem => by
    simpa using List.mem_takeWhile_imp hmem
  have hstops : Stops (· != '\n') ('\n' :: rest) := stops_cons rfl
  have hskip := outcome_lineComment hline (stops_dropWhile_append cs hstops)
  rwa [← List.append_assoc, List.takeWhile_append_dropWhile] at hskip

end GoEnum.Token
