import GoEnum.Token.Basic

namespace GoEnum.Token

/-- The delimiters that are open after a token, innermost first. There is no answer if the token
closes what is not open, or is the end. -/
def afterToken (stack : List Punctuation) : TokenKind → Option (List Punctuation)
  | .punctuation p =>
    if p.isOpener then some (p :: stack)
    else if p.isCloser then
      match stack with
      | [] => none
      | top :: stack => if top.closing? = some p then some stack else none
    else some stack
  | .eof => none
  | _ => some stack

def afterTokens (stack : List Punctuation) (ks : List TokenKind) : Option (List Punctuation) :=
  ks.foldlM afterToken stack

def Balanced (ks : List TokenKind) : Prop := afterTokens [] ks = some []

instance (ks : List TokenKind) : Decidable (Balanced ks) :=
  inferInstanceAs (Decidable (afterTokens [] ks = some []))

theorem afterTokens_cons (stack : List Punctuation) (k : TokenKind) (ks : List TokenKind) :
    afterTokens stack (k :: ks) = (afterToken stack k).bind (afterTokens · ks) :=
  List.foldlM_cons

theorem afterTokens_append (stack : List Punctuation) (ks ls : List TokenKind) :
    afterTokens stack (ks ++ ls) = (afterTokens stack ks).bind (afterTokens · ls) :=
  List.foldlM_append

theorem afterToken_outer (h : afterToken stack k = some stack') (outer : List Punctuation) :
    afterToken (stack ++ outer) k = some (stack' ++ outer) := by
  unfold afterToken at h ⊢
  split at h
  · split at h
    · cases h
      simp [*]
    · split at h
      · split at h
        · cases h
        · rename_i top stack
          split at h
          · cases h
            simp [*]
          · cases h
      · cases h
        simp [*]
  · cases h
  · cases h
    rfl

theorem afterTokens_outer (h : afterTokens stack ks = some stack') (outer : List Punctuation) :
    afterTokens (stack ++ outer) ks = some (stack' ++ outer) := by
  induction ks generalizing stack with
  | nil =>
    cases h
    rfl
  | cons k ks ih =>
    rw [afterTokens_cons] at h ⊢
    obtain ⟨next, hnext, h⟩ := Option.bind_eq_some_iff.1 h
    rw [afterToken_outer hnext]
    exact ih h

theorem Balanced.afterTokens (h : Balanced ks) (stack : List Punctuation) :
    afterTokens stack ks = some stack := afterTokens_outer h stack

theorem eof_not_mem_of_afterTokens (h : afterTokens stack ks = some stack') : .eof ∉ ks := by
  intro hmem
  induction ks generalizing stack with
  | nil => cases hmem
  | cons k ks ih =>
    rw [afterTokens_cons] at h
    obtain ⟨_, hk, hks⟩ := Option.bind_eq_some_iff.1 h
    cases hmem with
    | head => cases hk
    | tail _ hmem => exact ih hks hmem

theorem balanced_nil : Balanced [] := rfl

theorem Balanced.append (hu : Balanced ks) (hv : Balanced ls) : Balanced (ks ++ ls) := by
  rw [Balanced, afterTokens_append, hu, Option.bind_some, hv]

theorem Balanced.group (h : Balanced ks) (hopen : p.closing? = some q) :
    Balanced (.punctuation p :: ks ++ [.punctuation q]) := by
  have hp : p.isOpener := by rw [Punctuation.isOpener, hopen, Option.isSome_some]
  have hq : q.isOpener = false ∧ q.isCloser = true := by
    cases p <;> cases hopen <;> exact ⟨rfl, rfl⟩
  have hstart : afterToken [] (.punctuation p) = some [p] := by simp [afterToken, hp]
  have hend : afterToken [p] (.punctuation q) = some [] := by simp [afterToken, hq, hopen]
  rw [Balanced, List.cons_append, afterTokens_cons, hstart, Option.bind_some, afterTokens_append,
    h.afterTokens, Option.bind_some, afterTokens_cons, hend]
  rfl

theorem balanced_flatMap {xs : List α} {f : α → List TokenKind} (h : ∀ x ∈ xs, Balanced (f x)) :
    Balanced (xs.flatMap f) := by
  induction xs with
  | nil => exact balanced_nil
  | cons x xs ih =>
    rw [List.flatMap_cons]
    exact (h x List.mem_cons_self).append (ih fun y hy => h y (List.mem_cons_of_mem x hy))

def TokenKind.isOpener : TokenKind → Bool
  | .punctuation p => p.isOpener
  | _ => false

def TokenKind.isCloser : TokenKind → Bool
  | .punctuation p => p.isCloser
  | _ => false

theorem afterToken_opener (h : p.isOpener = true) :
    afterToken stack (.punctuation p) = some (p :: stack) := by
  simp [afterToken, h]

theorem afterToken_closer (h : top.closing? = some q) :
    afterToken (top :: stack) (.punctuation q) = some stack := by
  cases top <;> cases h <;> rfl

theorem afterToken_plain (hopen : k.isOpener = false) (hclose : k.isCloser = false)
    (heof : k ≠ .eof) : afterToken stack k = some stack := by
  cases k with
  | punctuation p =>
    have hopen : p.isOpener = false := hopen
    have hclose : p.isCloser = false := hclose
    simp [afterToken, hopen, hclose]
  | eof => exact absurd rfl heof
  | _ => rfl

theorem afterToken_eq_some (h : afterToken stack k = some stack') :
    (∃ p, k = .punctuation p ∧ p.isOpener = true ∧ stack' = p :: stack) ∨
    (∃ top q, k = .punctuation q ∧ top.closing? = some q ∧ stack = top :: stack') ∨
    (k.isOpener = false ∧ k.isCloser = false ∧ k ≠ .eof ∧ stack' = stack) := by
  unfold afterToken at h
  split at h
  · rename_i p
    split at h
    · cases h
      exact .inl ⟨p, rfl, ‹_›, rfl⟩
    · split at h
      · split at h
        · cases h
        · rename_i top stack
          split at h
          · cases h
            exact .inr (.inl ⟨top, p, rfl, ‹_›, rfl⟩)
          · cases h
      · cases h
        exact .inr (.inr ⟨eq_false_of_ne_true ‹_›, eq_false_of_ne_true ‹_›, by simp, rfl⟩)
  · cases h
  · rename_i hp heof
    cases h
    cases k with
    | punctuation p => exact absurd rfl (hp p)
    | eof => exact absurd rfl heof
    | _ => exact .inr (.inr ⟨rfl, rfl, by simp, rfl⟩)

theorem exists_closing (h : afterTokens (stack ++ [p]) ks = some []) :
    ∃ us q vs, ks = us ++ .punctuation q :: vs ∧ p.closing? = some q ∧
      afterTokens stack us = some [] ∧ Balanced vs := by
  induction ks generalizing stack with
  | nil => simp [afterTokens] at h
  | cons k ks ih =>
    rw [afterTokens_cons] at h
    obtain ⟨stack', hk, h⟩ := Option.bind_eq_some_iff.1 h
    have hinner : ∀ inner, afterToken stack k = some inner → stack' = inner ++ [p] →
        ∃ us q vs, k :: ks = us ++ .punctuation q :: vs ∧ p.closing? = some q ∧
          afterTokens stack us = some [] ∧ Balanced vs := by
      rintro inner hinner rfl
      obtain ⟨us, q, vs, rfl, hq, hus, hvs⟩ := ih h
      refine ⟨k :: us, q, vs, rfl, hq, ?_, hvs⟩
      rw [afterTokens_cons, hinner]
      exact hus
    obtain ⟨q, rfl, hopen, rfl⟩ | ⟨top, q, rfl, hclose, htop⟩ | ⟨hopen, hclose, heof, rfl⟩ :=
      afterToken_eq_some hk
    · exact hinner (q :: stack) (afterToken_opener hopen) rfl
    · cases stack with
      | nil =>
        cases htop
        exact ⟨[], q, ks, rfl, hclose, rfl, h⟩
      | cons _ stack =>
        cases htop
        exact hinner stack (afterToken_closer hclose) rfl
    · exact hinner stack (afterToken_plain hopen hclose heof) rfl

inductive Items (free : TokenKind → Prop) : List TokenKind → Prop
  | nil : Items free []
  | token : k.isOpener = false → free k → Items free ks → Items free (k :: ks)
  | group : p.closing? = some q → Balanced ks → Items free ls →
      Items free (.punctuation p :: (ks ++ .punctuation q :: ls))

theorem Items.imp {free free' : TokenKind → Prop} (h : Items free ks)
    (himp : ∀ k, free k → free' k) : Items free' ks := by
  induction h with
  | nil => exact .nil
  | token hk hfree _ ih => exact .token hk (himp _ hfree) ih
  | group hopen hks _ ih => exact .group hopen hks ih

theorem Balanced.items (h : Balanced ks) :
    Items (fun k => k.isCloser = false ∧ k ≠ .eof) ks := by
  induction hn : ks.length using Nat.strongRecOn generalizing ks with | ind n ih => ?_
  subst hn
  cases ks with
  | nil => exact .nil
  | cons k ks =>
    rw [Balanced, afterTokens_cons] at h
    obtain ⟨stack, hk, h⟩ := Option.bind_eq_some_iff.1 h
    obtain ⟨p, rfl, hopen, rfl⟩ | ⟨_, _, _, _, htop⟩ | ⟨hopen, hclose, heof, rfl⟩ :=
      afterToken_eq_some hk
    · have hopened : Token.afterTokens ([] ++ [p]) ks = some [] := h
      obtain ⟨us, q, vs, rfl, hq, hus, hvs⟩ := exists_closing hopened
      exact .group hq hus (ih _ (by simp; omega) hvs rfl)
    · cases htop
    · exact .token hopen ⟨hclose, heof⟩ (ih _ (Nat.lt_succ_self _) h rfl)

theorem Items.append {free : TokenKind → Prop} (h : Items free ks) (h' : Items free ls) :
    Items free (ks ++ ls) := by
  induction h with
  | nil => exact h'
  | token hk hfree _ ih => exact .token hk hfree ih
  | group hopen hks _ ih =>
    simp only [List.cons_append, List.append_assoc]
    exact .group hopen hks ih

theorem balanced_plain (hopen : k.isOpener = false) (hclose : k.isCloser = false)
    (heof : k ≠ .eof) : Balanced [k] := by
  rw [Balanced, afterTokens_cons, afterToken_plain hopen hclose heof]
  rfl

theorem balanced_group (hopen : p.closing? = some q) (hks : Balanced ks) (hls : Balanced ls) :
    Balanced (.punctuation p :: (ks ++ .punctuation q :: ls)) := by
  have happend := (hks.group hopen).append hls
  rwa [List.append_assoc, List.singleton_append, List.cons_append] at happend

theorem Items.balanced (h : Items (fun k => k.isCloser = false ∧ k ≠ .eof) ks) : Balanced ks := by
  induction h with
  | nil => exact balanced_nil
  | token hopen hfree _ ih => exact (balanced_plain hopen hfree.1 hfree.2).append ih
  | group hopen hks _ ih => exact balanced_group hopen hks ih

structure Undivided (ks : List TokenKind) : Prop where
  balanced : Balanced ks
  no_semicolon : ∀ us vs, ks = us ++ .punctuation .semicolon :: vs → ¬ Balanced us

theorem undivided_iff (ks : List TokenKind) : Undivided ks ↔ Balanced ks ∧
    ∀ i < ks.length, ks[i]? = some (.punctuation .semicolon) → ¬ Balanced (ks.take i) := by
  constructor
  · rintro ⟨hbalanced, hsemicolon⟩
    refine ⟨hbalanced, fun i hi hk => hsemicolon _ (ks.drop (i + 1)) ?_⟩
    obtain ⟨_, hk⟩ := List.getElem?_eq_some_iff.1 hk
    rw [← hk, ← List.drop_eq_getElem_cons, List.take_append_drop]
  · rintro ⟨hbalanced, hsemicolon⟩
    refine ⟨hbalanced, ?_⟩
    rintro us vs rfl
    simpa using hsemicolon us.length (by simp)

instance (ks : List TokenKind) : Decidable (Undivided ks) :=
  decidable_of_iff' _ (undivided_iff ks)

abbrev Line (ks : List TokenKind) : Prop :=
  Items (fun k => k.isCloser = false ∧ k ≠ .eof ∧ k ≠ .punctuation .semicolon) ks

theorem Line.balanced (h : Line ks) : Balanced ks :=
  (h.imp fun _ hk => ⟨hk.1, hk.2.1⟩).balanced

theorem Undivided.line (h : Undivided ks) : Line ks := by
  obtain ⟨hbalanced, hsemicolon⟩ := h
  have hitems := hbalanced.items
  clear hbalanced
  induction hitems with
  | nil => exact .nil
  | @token k ks hopen hfree _ ih =>
    refine .token hopen ⟨hfree.1, hfree.2, ?_⟩ (ih fun us vs hks hus => ?_)
    · rintro rfl
      exact hsemicolon [] ks rfl balanced_nil
    · refine hsemicolon (k :: us) vs (by rw [hks, List.cons_append]) ?_
      exact (balanced_plain hopen hfree.1 hfree.2).append hus
  | @group q ks ls p hopen hks _ ih =>
    refine .group hopen hks (ih fun us vs hls hus => ?_)
    refine hsemicolon (.punctuation p :: (ks ++ .punctuation q :: us)) vs (by simp [hls]) ?_
    exact balanced_group hopen hks hus

theorem Balanced.exists_line (h : Balanced ks) :
    ∃ us vs, ks = us ++ vs ∧ Line us ∧ (vs = [] ∨ ∃ ws, vs = .punctuation .semicolon :: ws ∧
      Balanced ws) := by
  have hitems := h.items
  clear h
  induction hitems with
  | nil => exact ⟨[], [], rfl, .nil, .inl rfl⟩
  | @token k ks hopen hfree hks ih =>
    by_cases hk : k = .punctuation .semicolon
    · exact ⟨[], k :: ks, rfl, .nil, .inr ⟨ks, by rw [hk], hks.balanced⟩⟩
    · obtain ⟨us, vs, rfl, hus, hvs⟩ := ih
      exact ⟨k :: us, vs, rfl, .token hopen ⟨hfree.1, hfree.2, hk⟩ hus, hvs⟩
  | @group q ks ls p hopen hks _ ih =>
    obtain ⟨us, vs, rfl, hus, hvs⟩ := ih
    exact ⟨.punctuation p :: (ks ++ .punctuation q :: us), vs, by simp, .group hopen hks hus, hvs⟩

end GoEnum.Token
