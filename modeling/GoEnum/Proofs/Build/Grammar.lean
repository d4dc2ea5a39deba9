import GoEnum.Proofs.Build.Words

namespace GoEnum.Build

open Token

inductive Joint
  | and
  | or
  deriving DecidableEq, Repr

namespace Joint

def mark : Joint → Word
  | .and => .and
  | .or => .or

def join : Joint → Constraint → Constraint → Constraint
  | .and => .and
  | .or => .or

end Joint

/-- The symbols of the grammar: an operand, operands with a mark between any two of them, and those
that go on after a left operand. -/
inductive Symbol
  | operand
  | chain (j : Joint)
  | rest (j : Joint) (left : Constraint)

def Joint.unit : Joint → Symbol
  | .and => .operand
  | .or => .chain .and

/-- The words that are derived from a symbol, with the tree of the derivation. -/
inductive Derives : Symbol → List Word → Constraint → Prop
  | tag : Derives .operand [.tag name] (.tag name)
  | not : Derives .operand ws c → Derives .operand (.not :: ws) (.not c)
  | paren : Derives (.chain .or) ws c → Derives .operand (.lparen :: (ws ++ [.rparen])) c
  | chain {j : Joint} : Derives j.unit us left → Derives (.rest j left) vs c →
      Derives (.chain j) (us ++ vs) c
  | done : Derives (.rest j left) [] left
  | next {j : Joint} : Derives j.unit us right → Derives (.rest j (j.join left right)) vs c →
      Derives (.rest j left) (j.mark :: (us ++ vs)) c

theorem Joint.unit_ne_rest (j k : Joint) (left : Constraint) : j.unit ≠ .rest k left := by
  cases j <;> exact Symbol.noConfusion

theorem Derives.ne_nil (h : Derives s ws c) (hs : ∀ j left, s ≠ .rest j left) : ws ≠ [] := by
  induction h with
  | @chain us left vs c j _ _ ih _ => simp [ih (Joint.unit_ne_rest j)]
  | done => exact absurd rfl (hs _ _)
  | _ => simp

namespace Constraint

def Derived (r : Reader Constraint) (s : Symbol) : Prop :=
  ∀ ws c rest, r.run ws = .ok (c, rest) → ∃ us, ws = us ++ rest ∧ Derives s us c

def Passes (r : Reader Constraint) (s : Symbol) (n : Nat) (marks : List Word) : Prop :=
  ∀ ws c rest, Derives s ws c → ws.length ≤ n → (∀ w ∈ rest.head?, w ∉ marks) →
    r.run (ws ++ rest) = .ok (c, rest)

section

variable {r expr : Reader Constraint} {s : Symbol} {j : Joint} {ws rest marks : List Word}
  {c left : Constraint} {m n : Nat}

theorem run_joinRest_cons (r : Reader Constraint) (j : Joint) (n : Nat) (left : Constraint)
    (w : Word) (ws : List Word) : (joinRest j.mark j.join r (n + 1) left).run (w :: ws) =
      if w = j.mark then
        r.run ws >>= fun x => (joinRest j.mark j.join r n (j.join left x.1)).run x.2
      else .ok (left, w :: ws) := by
  by_cases h : w = j.mark
  · rw [if_pos h]
    simp [joinRest, h]
  · rw [if_neg h]
    simp [joinRest, h]

theorem run_joinRest_of_next (h : ∀ w ∈ rest.head?, w ≠ j.mark) :
    (joinRest j.mark j.join r n left).run rest = .ok (left, rest) := by
  cases n with
  | zero => rfl
  | succ n =>
    cases rest with
    | nil => rfl
    | cons w ws => rw [run_joinRest_cons, if_neg (h w rfl)]

theorem derived_rest (hr : Derived r j.unit)
    (h : (joinRest j.mark j.join r n left).run ws = .ok (c, rest)) :
    ∃ us, ws = us ++ rest ∧ Derives (.rest j left) us c := by
  induction n generalizing left ws with
  | zero =>
    cases h
    exact ⟨[], rfl, .done⟩
  | succ n ih =>
    cases ws with
    | nil =>
      cases h
      exact ⟨[], rfl, .done⟩
    | cons w ws =>
      rw [run_joinRest_cons] at h
      split at h
      · rename_i hw
        obtain ⟨⟨right, vs⟩, hright, hrest⟩ := bind_eq_ok.1 h
        obtain ⟨us, rfl, hus⟩ := hr _ _ _ hright
        obtain ⟨us', rfl, hus'⟩ := ih hrest
        exact ⟨j.mark :: (us ++ us'), by simp [hw], .next hus hus'⟩
      · cases h
        exact ⟨[], rfl, .done⟩

theorem derived_chain (hr : Derived r j.unit) (n : Nat) :
    Derived (do joinRest j.mark j.join r n (← r)) (.chain j) := by
  intro ws c rest h
  obtain ⟨⟨left, vs⟩, hleft, hrest⟩ := bind_eq_ok.1 h
  obtain ⟨us, rfl, hus⟩ := hr _ _ _ hleft
  obtain ⟨us', rfl, hus'⟩ := derived_rest hr hrest
  exact ⟨us ++ us', by simp, .chain hus hus'⟩

theorem derived_operand (hexpr : Derived expr (.chain .or)) (n : Nat) :
    Derived (operand expr n) .operand := by
  induction n with
  | zero => nofun
  | succ n ih =>
    intro ws c rest h
    cases ws with
    | nil => cases h
    | cons w ws =>
      cases w with
      | tag name =>
        cases h
        exact ⟨[.tag name], rfl, .tag⟩
      | not =>
        obtain ⟨⟨inner, vs⟩, hinner, hrest⟩ := bind_eq_ok.1 h
        cases hrest
        obtain ⟨us, rfl, hus⟩ := ih _ _ _ hinner
        exact ⟨.not :: us, rfl, .not hus⟩
      | lparen =>
        obtain ⟨⟨inner, vs⟩, hinner, hrest⟩ := bind_eq_ok.1 h
        obtain ⟨us, rfl, hus⟩ := hexpr _ _ _ hinner
        cases vs with
        | nil => cases hrest
        | cons v vs =>
          cases v with
          | rparen =>
            cases hrest
            exact ⟨.lparen :: (us ++ [.rparen]), by simp, .paren hus⟩
          | _ => cases hrest
      | _ => cases h

theorem derived_exprWithin (n : Nat) : Derived (exprWithin n) (.chain .or) := by
  induction n with
  | zero => nofun
  | succ n ih =>
    have hand := derived_chain (j := .and) (derived_operand ih (n + 1)) n
    exact derived_chain (j := .or) hand n

theorem next_rest (h : Derives (.rest j left) ws c) (hmark : j.mark ∉ marks)
    (hrest : ∀ w ∈ rest.head?, w ∉ marks) : ∀ w ∈ (ws ++ rest).head?, w ∉ marks := by
  cases h with
  | done => exact hrest
  | next _ _ =>
    rintro _ ⟨⟩
    exact hmark

theorem passes_rest (hr : Passes r j.unit n marks) (hmark : j.mark ∉ marks)
    (h : Derives (.rest j left) ws c) (hm : ws.length ≤ m) (hn : ws.length ≤ n)
    (hrest : ∀ w ∈ rest.head?, w ∉ j.mark :: marks) :
    (joinRest j.mark j.join r m left).run (ws ++ rest) = .ok (c, rest) := by
  induction m generalizing left ws with
  | zero =>
    obtain rfl := List.length_eq_zero_iff.1 (Nat.le_zero.1 hm)
    cases h
    rfl
  | succ m ih =>
    cases h with
    | done => exact run_joinRest_of_next fun w hw => List.ne_of_not_mem_cons (hrest w hw)
    | @next us right vs _ _ _ hus hvs =>
      rw [List.length_cons, List.length_append] at hm hn
      have hnext := next_rest hvs hmark fun w hw => List.not_mem_of_not_mem_cons (hrest w hw)
      rw [List.cons_append, List.append_assoc, run_joinRest_cons, if_pos rfl,
        hr _ _ _ hus (by omega) hnext]
      exact ih hvs (by omega) (by omega)

theorem passes_chain (hr : Passes r j.unit n marks) (hmark : j.mark ∉ marks) (hn : n ≤ m + 1) :
    Passes (do joinRest j.mark j.join r m (← r)) (.chain j) n (j.mark :: marks) := by
  intro ws c rest h hws hrest
  cases h with
  | @chain us left vs _ _ hus hvs =>
    have hpos := List.length_pos_iff.2 (hus.ne_nil (Joint.unit_ne_rest j))
    rw [List.length_append] at hws
    have hnext := next_rest hvs hmark fun w hw => List.not_mem_of_not_mem_cons (hrest w hw)
    have hleft := hr _ _ _ hus (by omega) hnext
    rw [List.append_assoc, StateT.run_bind, hleft]
    exact passes_rest hr hmark hvs (by omega) (by omega) hrest

theorem passes_operand (hexpr : Passes expr (.chain .or) n [.or, .and]) (hm : m ≤ n + 1) :
    Passes (operand expr m) .operand m [] := by
  induction m with
  | zero =>
    intro ws c rest h hws _
    exact absurd (List.length_eq_zero_iff.1 (Nat.le_zero.1 hws)) (h.ne_nil nofun)
  | succ m ih =>
    intro ws c rest h hws hrest
    cases h with
    | tag => rfl
    | not hinner =>
      have hpass := ih (by omega) _ _ _ hinner (Nat.le_of_succ_le_succ hws) hrest
      exact bind_eq_ok.2 ⟨_, hpass, rfl⟩
    | @paren ws c hinner =>
      rw [List.length_cons, List.length_append, List.length_singleton] at hws
      have hpass := hexpr _ _ (.rparen :: rest) hinner (by omega) (by simp)
      rw [List.cons_append, List.append_assoc]
      exact bind_eq_ok.2 ⟨_, hpass, rfl⟩

theorem passes_exprWithin (n : Nat) : Passes (exprWithin n) (.chain .or) n [.or, .and] := by
  induction n with
  | zero =>
    intro ws c rest h hws _
    exact absurd (List.length_eq_zero_iff.1 (Nat.le_zero.1 hws)) (h.ne_nil nofun)
  | succ n ih =>
    have hand := passes_chain (j := .and) (m := n) (passes_operand ih (Nat.le_refl _)) (by simp)
      (Nat.le_refl _)
    exact passes_chain (j := .or) hand (by decide) (Nat.le_refl _)

/-- The words of an expression are derived as a whole. -/
theorem ofWords_eq_ok : ofWords ws = .ok c ↔ Derives (.chain .or) ws c := by
  constructor
  · intro h
    unfold ofWords at h
    split at h
    · cases h
    · obtain ⟨⟨d, vs⟩, hrun, h⟩ := bind_eq_ok.1 h
      cases vs with
      | nil =>
        cases h
        obtain ⟨us, hus, hderives⟩ := derived_exprWithin _ _ _ _ hrun
        rwa [hus, List.append_nil]
      | cons v vs => cases h
  · intro h
    have hpass := passes_exprWithin ws.length ws c [] h (Nat.le_refl _) (by simp)
    rw [List.append_nil] at hpass
    have hne : ¬ ws.isEmpty := by simpa using h.ne_nil nofun
    rw [ofWords, if_neg hne]
    exact bind_eq_ok.2 ⟨_, hpass, rfl⟩

theorem parse_eq_ok {cs : List Char} :
    parse cs = .ok c ↔ ∃ ws, Spells ws cs ∧ Derives (.chain .or) ws c := by
  simp only [parse, bind_eq_ok, words_eq_ok, ofWords_eq_ok]

end

def binding : Constraint → Nat
  | .tag _ | .not _ => 2
  | .and _ _ => 1
  | .or _ _ => 0

/-- The words of a constraint in a place for operators that bind at least that tightly. -/
def enclose (least : Nat) (c : Constraint) (ws : List Word) : List Word :=
  if c.binding < least then .lparen :: (ws ++ [.rparen]) else ws

def words : Constraint → List Word
  | .tag name => [.tag name]
  | .not c => .not :: enclose 2 c c.words
  | .and a b => enclose 1 a a.words ++ .and :: enclose 2 b b.words
  | .or a b => a.words ++ .or :: enclose 1 b b.words

def text (c : Constraint) : List Char := c.words.flatMap (·.spelling.toList)

def tags : Constraint → List String
  | .tag name => [name]
  | .not c => c.tags
  | .and a b | .or a b => a.tags ++ b.tags

def symbolAt : Nat → Symbol
  | 0 => .chain .or
  | 1 => .chain .and
  | _ => .operand

section

variable {s : Symbol} {j : Joint} {us vs ws : List Word} {c left right : Constraint}
  {k least : Nat}

theorem derives_single (h : Derives j.unit ws c) : Derives (.chain j) ws c := by
  have hchain := Derives.chain h .done
  rwa [List.append_nil] at hchain

theorem derives_weaker (h : Derives (symbolAt k) ws c) (hle : least ≤ k) :
    Derives (symbolAt least) ws c := by
  match k, least, hle with
  | 0, 0, _ => exact h
  | 1, 1, _ => exact h
  | 1, 0, _ => exact derives_single (j := .or) h
  | _ + 2, 0, _ => exact derives_single (j := .or) (derives_single (j := .and) h)
  | _ + 2, 1, _ => exact derives_single (j := .and) h
  | _ + 2, _ + 2, _ => exact h

theorem derives_rest_last (h : Derives s us c) (hs : s = .rest j left)
    (hright : Derives j.unit vs right) : Derives s (us ++ j.mark :: vs) (j.join c right) := by
  induction h generalizing left with
  | done =>
    cases hs
    rw [List.nil_append, ← List.append_nil vs]
    exact .next hright .done
  | next hunit _ _ ih =>
    cases hs
    have hnext := Derives.next hunit (ih rfl)
    rwa [← List.append_assoc] at hnext
  | _ => cases hs

theorem derives_last (h : Derives (.chain j) us left) (hright : Derives j.unit vs right) :
    Derives (.chain j) (us ++ j.mark :: vs) (j.join left right) := by
  cases h with
  | chain hunit hws =>
    rw [List.append_assoc]
    exact .chain hunit (derives_rest_last hws rfl hright)

theorem derives_enclose (h : Derives (symbolAt c.binding) c.words c) (least : Nat) :
    Derives (symbolAt least) (enclose least c c.words) c := by
  unfold enclose
  split
  · have hparen : Derives (symbolAt (least + 2)) _ c := .paren (derives_weaker h (Nat.zero_le _))
    exact derives_weaker hparen (Nat.le_add_right _ _)
  · exact derives_weaker h (by omega)

theorem derives_words (c : Constraint) : Derives (symbolAt c.binding) c.words c := by
  induction c with
  | tag name => exact .tag
  | not c ih => exact .not (derives_enclose ih 2)
  | and a b iha ihb =>
    exact derives_last (j := .and) (derives_enclose iha 1) (derives_enclose ihb 2)
  | or a b iha ihb =>
    exact derives_last (j := .or) (derives_weaker iha (Nat.zero_le _)) (derives_enclose ihb 1)

def Fits (ws : List Word) : Prop := ∀ vs cs, Stops isTagChar cs → Spells vs cs →
  Spells (ws ++ vs) (ws.flatMap (·.spelling.toList) ++ cs)

theorem fits_nil : Fits [] := fun _ _ _ h => h

theorem fits_tag {name : String} (h : IsTag name) : Fits [.tag name] := by
  intro vs cs hstops hcs
  rw [List.flatMap_singleton]
  exact .tag h hstops hcs

theorem fits_mark {w : Word} (hw : w.isMark) (h : Fits ws) : Fits (w :: ws) := by
  intro vs cs hstops hcs
  rw [List.flatMap_cons, List.append_assoc]
  exact .mark hw (h vs cs hstops hcs)

theorem fits_around {w : Word} (hus : Fits us) (hw : w.isMark) (hws : Fits ws) :
    Fits (us ++ w :: ws) := by
  intro vs cs hstops hcs
  have hmark : Stops isTagChar (w.spelling.toList ++ (ws.flatMap (·.spelling.toList) ++ cs)) := by
    cases w with
    | tag name => cases hw
    | _ => exact stops_cons (by decide)
  rw [List.flatMap_append, List.flatMap_cons, List.append_assoc, List.append_assoc,
    List.append_assoc]
  exact hus _ _ hmark (.mark hw (hws vs cs hstops hcs))

theorem fits_enclose (h : Fits c.words) (least : Nat) : Fits (enclose least c c.words) := by
  unfold enclose
  split
  · exact fits_mark rfl (fits_around h rfl fits_nil)
  · exact h

theorem fits_words (h : ∀ name ∈ c.tags, IsTag name) : Fits c.words := by
  induction c with
  | tag name => exact fits_tag (h name (List.mem_singleton_self name))
  | not c ih => exact fits_mark rfl (fits_enclose (ih h) 2)
  | and a b iha ihb =>
    obtain ⟨ha, hb⟩ := List.forall_mem_append.1 h
    exact fits_around (fits_enclose (iha ha) 1) rfl (fits_enclose (ihb hb) 2)
  | or a b iha ihb =>
    obtain ⟨ha, hb⟩ := List.forall_mem_append.1 h
    exact fits_around (iha ha) rfl (fits_enclose (ihb hb) 1)

theorem spells_text (h : ∀ name ∈ c.tags, IsTag name) : Spells c.words c.text := by
  have hspells := fits_words h [] [] (by simp [Stops]) .nil
  rwa [List.append_nil, List.append_nil] at hspells

/-- A constraint is parsed from every text that its words are spelled in, and a text is parsed just
where it is spelled in words that the grammar derives, as the tree of their derivation. -/
theorem constraint_grammar_exact :
    (∀ c : Constraint, (∀ name ∈ c.tags, IsTag name) →
      parse c.text = .ok c ∧ ∀ cs, Spells c.words cs → parse cs = .ok c) ∧
    ∀ cs c, parse cs = .ok c ↔ ∃ ws, ws ≠ [] ∧ Spells ws cs ∧ Derives (.chain .or) ws c := by
  have hparse : ∀ c cs, Spells c.words cs → parse cs = .ok c := fun c cs hcs =>
    parse_eq_ok.2 ⟨c.words, hcs, derives_weaker (derives_words c) (Nat.zero_le _)⟩
  refine ⟨fun c h => ⟨hparse c _ (spells_text h), hparse c⟩, fun cs c => ?_⟩
  rw [parse_eq_ok]
  exact exists_congr fun ws => ⟨fun ⟨hcs, hc⟩ => ⟨hc.ne_nil nofun, hcs, hc⟩, And.right⟩

end

def platforms : Constraint :=
  .and (.or (.tag "linux") (.not (.tag "go1.21"))) (.and (.tag "cgo") (.tag "purego"))

theorem constraint_grammar_exact_platforms : (∀ name ∈ platforms.tags, IsTag name) ∧
    platforms.text = "(linux||!go1.21)&&(cgo&&purego)".toList ∧
    parse platforms.text = .ok platforms ∧
    parse "(linux || !go1.21) && ( cgo\t&&purego )".toList = .ok platforms := by
  have htags : ∀ name ∈ platforms.tags, IsTag name := by decide +kernel
  have hwords : Build.words "(linux || !go1.21) && ( cgo\t&&purego )".toList =
      .ok platforms.words := by
    decide +kernel
  obtain ⟨hparse, hspelled⟩ := constraint_grammar_exact.1 platforms htags
  exact ⟨htags, by decide +kernel, hparse, hspelled _ (words_eq_ok.1 hwords)⟩

end Constraint

end GoEnum.Build
