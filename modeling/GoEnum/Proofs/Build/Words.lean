import GoEnum.Build.Constraint
import GoEnum.Proofs.Except
import GoEnum.Proofs.Token.Spelled

namespace GoEnum.Build

open Text Token

def Word.isMark : Word → Bool
  | .tag _ => false
  | _ => true

def IsTag (name : String) : Prop := name ≠ "" ∧ ∀ c ∈ name.toList, isTagChar c

instance (name : String) : Decidable (IsTag name) :=
  decidable_of_iff (name ≠ "" ∧ name.toList.all isTagChar) (by rw [List.all_eq_true, IsTag])

inductive Spells : List Word → List Char → Prop
  | nil : Spells [] []
  | blank : c ∈ [' ', '\t'] → Spells ws cs → Spells ws (c :: cs)
  | mark {w : Word} : w.isMark → Spells ws cs → Spells (w :: ws) (w.spelling.toList ++ cs)
  | tag : IsTag name → Stops isTagChar cs → Spells ws cs →
      Spells (.tag name :: ws) (name.toList ++ cs)

theorem words_of_isTagChar (h : isTagChar c) (cs : List Char) :
    words (c :: cs) = do
      let part := cs.takeWhile isTagChar
      return .tag (String.ofList (c :: part)) :: (← words (cs.drop part.length)) := by
  have hspecial : c ∉ [' ', '\t', '!', '(', ')', '&', '|'] := not_mem_of_all (by decide) h
  simp only [List.mem_cons, not_or] at hspecial
  rw [words]
  · rw [if_pos h]
  all_goals grind

theorem words_of_spells (h : Spells ws cs) : words cs = .ok ws := by
  induction h with
  | nil => rw [words]
  | @blank c ws cs hc _ ih =>
    simp only [List.mem_cons, List.not_mem_nil, or_false] at hc
    obtain rfl | rfl := hc <;> rw [words, ih]
  | @mark ws cs w hmark _ ih =>
    cases w with
    | tag name => cases hmark
    | _ =>
      simp only [Word.spelling, String.reduceToList, List.cons_append, List.nil_append, words, ih]
      rfl
  | @tag name cs ws hname hstops _ ih =>
    obtain ⟨c, part, hpart⟩ := List.exists_cons_of_ne_nil (mt String.toList_eq_nil_iff.1 hname.1)
    obtain ⟨hc, hall⟩ := List.forall_mem_cons.1 (hpart ▸ hname.2)
    have hsplit : (part ++ cs).takeWhile isTagChar = part := takeWhile_append_of_stops hall hstops
    rw [hpart, List.cons_append, words_of_isTagChar hc, hsplit]
    dsimp only
    rw [List.drop_left, ih, ← hpart, String.ofList_toList]
    rfl

theorem spells_of_mark {w : Word} (hw : w.isMark) (ih : ∀ {vs}, words cs = .ok vs → Spells vs cs)
    (h : (do return w :: (← words cs)) = .ok ws) : Spells ws (w.spelling.toList ++ cs) := by
  obtain ⟨vs, hvs, h⟩ := bind_eq_ok.1 h
  cases h
  exact .mark hw (ih hvs)

theorem spells_longest (hc : isTagChar c)
    (h : Spells ws (cs.drop (cs.takeWhile isTagChar).length)) :
    Spells (.tag (String.ofList (c :: cs.takeWhile isTagChar)) :: ws) (c :: cs) := by
  have hall : ∀ d ∈ c :: cs.takeWhile isTagChar, isTagChar d :=
    List.forall_mem_cons.2 ⟨hc, fun d hd => List.mem_takeWhile_imp hd⟩
  have hname : IsTag (String.ofList (c :: cs.takeWhile isTagChar)) :=
    ⟨by simp, by rwa [String.toList_ofList]⟩
  have hsplit : cs.takeWhile isTagChar ++ cs.drop (cs.takeWhile isTagChar).length = cs :=
    List.prefix_iff_eq_append.1 (List.takeWhile_prefix isTagChar)
  have htag := Spells.tag hname (stops_drop_takeWhile isTagChar cs) h
  rwa [String.toList_ofList, List.cons_append, hsplit] at htag

theorem spells_of_words (h : words cs = .ok ws) : Spells ws cs := by
  fun_induction words generalizing ws with
  | case1 =>
    cases h
    exact .nil
  | case2 cs ih | case3 cs ih => exact .blank (by simp) (ih h)
  | case4 cs ih => exact spells_of_mark (w := .not) rfl ih h
  | case5 cs ih => exact spells_of_mark (w := .lparen) rfl ih h
  | case6 cs ih => exact spells_of_mark (w := .rparen) rfl ih h
  | case7 cs ih => exact spells_of_mark (w := .and) rfl ih h
  | case8 cs ih => exact spells_of_mark (w := .or) rfl ih h
  | case9 c cs _ _ _ _ _ _ _ hc =>
    rename_i ih
    obtain ⟨vs, hvs, h⟩ := bind_eq_ok.1 h
    cases h
    exact spells_longest hc (ih hvs)
  | case10 => cases h

theorem words_eq_ok : words cs = .ok ws ↔ Spells ws cs := ⟨spells_of_words, words_of_spells⟩

end GoEnum.Build
