import GoEnum.Proofs.Parse.Orderly
import GoEnum.Proofs.Parse.Skip

/-!
Two texts that differ in one place, which is passed over as a whole. Parsers give the same on both.
-/

namespace GoEnum.Parse

open Token Syntax

inductive Differ (h h' : List TokenKind) : List TokenKind → List TokenKind → Prop
  | here : .eof ∈ post → Differ h h' (h ++ post) (h' ++ post)
  | cons (k : TokenKind) : Differ h h' ks ks' → Differ h h' (k :: ks) (k :: ks')

/-- What can be replaced: tokens that begin with one that opens something, and that are passed over
as a whole wherever that is passed. -/
structure Hole (opens : TokenKind → Bool) (h h' : List TokenKind) : Prop where
  head : ∃ k t t', h = k :: t ∧ h' = k :: t' ∧ opens k = true ∧ k ≠ .punctuation .semicolon
  line : Line h
  line' : Line h'
  skip : skipBalanced (plain (h ++ post)) = .ok u d → skipBalanced (plain (h' ++ post)) = .ok u d

def Together (h h' : List TokenKind) (c c' : Cursor) : Prop :=
  c' = c ∨ ∃ ks ks', c = plain ks ∧ c' = plain ks' ∧ Differ h h' ks ks'

def Alike (h h' : List TokenKind) (r r' : EStateM.Result SyntaxError Cursor α) : Prop :=
  ∀ x d, r = .ok x d → ∃ d', r' = .ok x d' ∧ Together h h' d d'

/-- Where the next token satisfies `K`, the parser does the same on both texts. -/
def Carries (h h' : List TokenKind) (K : TokenKind → Prop) (p : Parser α) : Prop :=
  ∀ ks ks', Differ h h' ks ks' → K (next ks) → Alike h h' (p (plain ks)) (p (plain ks'))

def CarriesWithin (h h' : List TokenKind) (K : TokenKind → Prop) (p : String → Nat → Parser α) :
    Prop :=
  ∀ out ks ks' n m, Differ h h' ks ks' → K (next ks) → (plain ks).left < n →
    (plain ks').left < m → Alike h h' (p out n (plain ks)) (p out m (plain ks'))

section

variable {h h' : List TokenKind} {K : TokenKind → Prop} {p : Parser α}

theorem Differ.eof_mem (hd : Differ h h' ks ks') : .eof ∈ ks ∧ .eof ∈ ks' := by
  induction hd with
  | here hend => exact ⟨List.mem_append_right _ hend, List.mem_append_right _ hend⟩
  | cons k _ ih => exact ih.imp (List.mem_cons_of_mem k) (List.mem_cons_of_mem k)

theorem alike_refl (r : EStateM.Result SyntaxError Cursor α) : Alike h h' r r :=
  fun _ d hr => ⟨d, hr, .inl rfl⟩

theorem alike_ok (x : α) (hd : Differ h h' ks ks') :
    Alike h h' (.ok x (plain ks)) (.ok x (plain ks')) := by
  rintro x d ⟨⟩
  exact ⟨_, rfl, .inr ⟨ks, ks', rfl, rfl, hd⟩⟩

theorem Carries.alike (hp : Carries h h' (fun _ => True) p) (hc : Together h h' c c') :
    Alike h h' (p c) (p c') := by
  obtain rfl | ⟨ks, ks', rfl, rfl, hd⟩ := hc
  · exact alike_refl _
  · exact hp ks ks' hd trivial

theorem Alike.bind {f : α → Parser β} (hp : Alike h h' (p c) (q c'))
    (hf : ∀ x, Carries h h' (fun _ => True) (f x)) : Alike h h' ((p >>= f) c) ((q >>= f) c') := by
  intro y e hy
  obtain ⟨x, d, hx, hy⟩ := bind_ok.1 hy
  obtain ⟨d', hx', hd⟩ := hp x d hx
  obtain ⟨e', hy', he⟩ := (hf x).alike hd y e hy
  exact ⟨e', bind_ok.2 ⟨x, d', hx', hy'⟩, he⟩

theorem carries_pure (x : α) : Carries h h' K (pure x) := fun _ _ hd _ => alike_ok x hd

theorem carries_fail (cause : SyntaxCause) (span : Span) :
    Carries h h' K (fail cause span : Parser α) := by
  rintro ks ks' hd - x d ⟨⟩

theorem Carries.bind {f : α → Parser β} (hp : Carries h h' K p)
    (hf : ∀ x, Carries h h' (fun _ => True) (f x)) : Carries h h' K (p >>= f) :=
  fun ks ks' hd hk => (hp ks ks' hd hk).bind hf

theorem Carries.here (hp : Carries h h' (fun _ => True) p) : Carries h h' K p :=
  fun ks ks' hd _ => hp ks ks' hd trivial

theorem Carries.currentSpan {f : Span → Parser α} (hf : ∀ span, Carries h h' K (f span)) :
    Carries h h' K (currentSpan >>= f) := by
  intro ks ks' hd hk
  rw [currentSpan_bind_eq, currentSpan_bind_eq, span_plain, span_plain]
  exact hf _ ks ks' hd hk

theorem carries_previousSpan : Carries h h' K previousSpan := fun _ _ hd _ => alike_ok _ hd

theorem carries_spanned (hp : Carries h h' K p) : Carries h h' K (spanned p) :=
  .currentSpan fun _ => hp.bind fun _ => carries_previousSpan.bind fun _ => carries_pure _

theorem Settles.run_eq {p : String → Nat → Parser α} (hp : Settles p) (hn : c.left < n)
    (hm : c.left < m) : p out n c = p out m c := hp out out n m c (Nat.lt_min.2 ⟨hn, hm⟩)

theorem alike_of_settles {p : String → Nat → Parser α} (hsettles : Settles p) (hn : c.left < n)
    (hm : c.left < m) : Alike h h' (p out n c) (p out m c) := by
  rw [hsettles.run_eq hn hm]
  exact alike_refl _

theorem carriesWithin_of_settles {p : String → Nat → Parser α} (hsettles : Settles p)
    (hp : ∀ out n, Carries h h' K (p out n)) : CarriesWithin h h' K p := by
  intro out ks ks' n m hd hk hn hm
  rw [hsettles.run_eq hn (Nat.lt_of_lt_of_le hn (Nat.le_max_left n m)),
    hsettles.run_eq hm (Nat.lt_of_lt_of_le hm (Nat.le_max_right n m))]
  exact hp out _ ks ks' hd hk

theorem CarriesWithin.bounded {p : String → Nat → Parser α} (hp : CarriesWithin h h' K p) :
    Carries h h' K (bounded p) :=
  fun ks ks' hd hk =>
    hp "nothing" ks ks' _ _ hd hk (plain ks).left_lt_bound (plain ks').left_lt_bound

end

section

variable {opens : TokenKind → Bool} {h h' : List TokenKind} {K : TokenKind → Prop}
  (hole : Hole opens h h')

include hole

theorem Hole.next_eq (hd : Differ h h' ks ks') : next ks = next ks' := by
  obtain ⟨k, t, t', rfl, rfl, -⟩ := hole.head
  cases hd <;> rfl

theorem Hole.second_eq (hd : Differ h h' ks ks') :
    (ks[1]?).getD .eof = (ks'[1]?).getD .eof ∨ opens (next ks) = true := by
  obtain ⟨k, t, t', rfl, rfl, hopens, -⟩ := hole.head
  cases hd with
  | here => exact .inr hopens
  | cons l hd =>
    refine .inl ?_
    rw [List.getElem?_cons_succ, List.getElem?_cons_succ, ← List.head?_eq_getElem?,
      ← List.head?_eq_getElem?]
    exact hole.next_eq hd

theorem Hole.third_eq (hd : Differ h h' ks ks') :
    (ks[2]?).getD .eof = (ks'[2]?).getD .eof ∨ opens (next ks) = true ∨
      opens ((ks[1]?).getD .eof) = true := by
  cases hd with
  | here =>
    obtain ⟨k, t, t', rfl, rfl, hopens, -⟩ := hole.head
    exact .inr (.inl hopens)
  | cons l hd =>
    simp only [List.getElem?_cons_succ, ← List.head?_eq_getElem?]
    exact (hole.second_eq hd).imp_right .inr

theorem Hole.carries_peek {f : TokenKind → Parser α} (hf : ∀ k, K k → Carries h h' (· = k) (f k)) :
    Carries h h' K (peek >>= f) := by
  intro ks ks' hd hk
  rw [peek_bind_eq, peek_bind_eq, kind_plain, kind_plain, ← hole.next_eq hd]
  exact hf _ hk ks ks' hd rfl

theorem Hole.carries_peekOne {f : TokenKind → TokenKind → Parser α}
    (hf : ∀ k k₁, K k → Carries h h' (· = k) (f k k₁))
    (hopens : ∀ k k₁ l₁, opens k = true → f k k₁ = f k l₁) :
    Carries h h' K (do f (← peek) (← peekAt 1)) := by
  intro ks ks' hd hk
  change Alike h h' (f (plain ks).kind ((plain ks).kindAt 1) (plain ks))
    (f (plain ks').kind ((plain ks').kindAt 1) (plain ks'))
  simp only [kind_plain, Cursor.kindAt_eq, kinds_plain, ← hole.next_eq hd]
  have hsame : f (next ks) ((ks[1]?).getD .eof) = f (next ks) ((ks'[1]?).getD .eof) := by
    obtain hsecond | hnext := hole.second_eq hd
    · rw [hsecond]
    · exact hopens _ _ _ hnext
  rw [← hsame]
  exact hf _ _ hk ks ks' hd rfl

theorem Hole.carries_peekTwo {f : TokenKind → TokenKind → TokenKind → Parser α}
    (hf : ∀ k k₁ k₂, K k → Carries h h' (· = k) (f k k₁ k₂))
    (hopens : ∀ k k₁ k₂ l₁ l₂, opens k = true → f k k₁ k₂ = f k l₁ l₂)
    (hopens₁ : ∀ k k₁ k₂ l₂, opens k₁ = true → f k k₁ k₂ = f k k₁ l₂) :
    Carries h h' K (do f (← peek) (← peekAt 1) (← peekAt 2)) := by
  intro ks ks' hd hk
  change Alike h h' (f (plain ks).kind ((plain ks).kindAt 1) ((plain ks).kindAt 2) (plain ks))
    (f (plain ks').kind ((plain ks').kindAt 1) ((plain ks').kindAt 2) (plain ks'))
  simp only [kind_plain, Cursor.kindAt_eq, kinds_plain, ← hole.next_eq hd]
  have hsame : f (next ks) ((ks[1]?).getD .eof) ((ks[2]?).getD .eof) =
      f (next ks) ((ks'[1]?).getD .eof) ((ks'[2]?).getD .eof) := by
    obtain hsecond | hnext := hole.second_eq hd
    · obtain hthird | hnext | hsecond' := hole.third_eq hd
      · rw [hsecond, hthird]
      · exact hopens _ _ _ _ _ hnext
      · rw [← hsecond]
        exact hopens₁ _ _ _ _ hsecond'
    · exact hopens _ _ _ _ _ hnext
  rw [← hsame]
  exact hf _ _ _ hk ks ks' hd rfl

theorem Hole.carries_advance (hopens : ∀ k, K k → opens k = false) : Carries h h' K advance := by
  intro ks ks' hd hk
  cases hd with
  | here =>
    obtain ⟨k, t, t', rfl, rfl, hopen, -⟩ := hole.head
    have hclosed := hopens k hk
    rw [hopen] at hclosed
    cases hclosed
  | @cons ks ks' k hd =>
    change Alike h h' (.ok () (plain (k :: ks)).advance) (.ok () (plain (k :: ks')).advance)
    by_cases hend : k = .eof
    · subst hend
      exact alike_ok () (.cons .eof hd)
    · rw [advance_plain hend, advance_plain hend]
      exact alike_ok () hd

theorem Hole.differ_dropSemicolons (hd : Differ h h' ks ks') :
    Differ h h' (dropSemicolons ks) (dropSemicolons ks') := by
  have hkeep : ∀ {k ls}, k ≠ .punctuation .semicolon → dropSemicolons (k :: ls) = k :: ls :=
    fun hk => dropSemicolons_eq_self hk
  induction hd with
  | here hend =>
    obtain ⟨k, t, t', rfl, rfl, -, hne⟩ := hole.head
    rw [List.cons_append, List.cons_append, hkeep hne, hkeep hne]
    exact .here hend
  | cons k hd ih =>
    by_cases hk : k = .punctuation .semicolon
    · rw [hk, dropSemicolons_cons, dropSemicolons_cons]
      exact ih
    · rw [hkeep hk, hkeep hk]
      exact .cons k hd

theorem Hole.carries_skipSemicolons : Carries h h' K skipSemicolons := by
  intro ks ks' hd _
  change Alike h h' (.ok () (plain ks).skipSemicolons) (.ok () (plain ks').skipSemicolons)
  rw [skipSemicolons_plain, skipSemicolons_plain]
  exact alike_ok () (hole.differ_dropSemicolons hd)

theorem Hole.alike_closeAll (hd : Differ h h' ks ks') (stack : List Punctuation)
    (hn : (plain ks).left < n) (hm : (plain ks').left < m) :
    Alike h h' (closeAll (.point 0) out n stack (plain ks))
      (closeAll (.point 0) out m stack (plain ks')) := by
  induction hd generalizing stack n m with
  | here hend =>
    cases stack with
    | nil =>
      rw [closeAll_nil, closeAll_nil]
      exact alike_ok () (.here hend)
    | cons top stack =>
      obtain ⟨i, hi, hpost⟩ := exists_closeAll hole.line.balanced (List.cons_ne_nil top stack) hn
      obtain ⟨j, hj, hpost'⟩ := exists_closeAll hole.line'.balanced (List.cons_ne_nil top stack) hm
      rw [hpost, hpost']
      exact alike_of_settles (settles_closeAll _ _) hi hj
  | cons k hd ih =>
    cases stack with
    | nil =>
      rw [closeAll_nil, closeAll_nil]
      exact alike_ok () (.cons k hd)
    | cons top stack =>
      intro u d hu
      obtain ⟨stack', hk⟩ := afterToken_of_closeAll hu
      rw [kind_plain, next_cons] at hk
      have hend : k ≠ .eof := by
        rintro rfl
        cases hk
      rw [left_cons hend] at hn hm
      obtain ⟨n, rfl⟩ := Nat.exists_eq_succ_of_ne_zero (Nat.ne_of_gt (Nat.zero_lt_of_lt hn))
      obtain ⟨m, rfl⟩ := Nat.exists_eq_succ_of_ne_zero (Nat.ne_of_gt (Nat.zero_lt_of_lt hm))
      have hstep : ∀ (i : Nat) (ls : List TokenKind),
          closeAll (.point 0) out (i + 1) (top :: stack) (plain (k :: ls)) =
            closeAll (.point 0) out i stack' (plain ls) := by
        intro i ls
        rw [closeAll_token (by rwa [kind_plain, next_cons]), advance_plain hend]
      rw [hstep] at hu
      rw [hstep]
      exact ih stack' (Nat.lt_of_succ_lt_succ hn) (Nat.lt_of_succ_lt_succ hm) u d hu

theorem Hole.carries_skipBalanced : Carries h h' K skipBalanced := by
  intro ks ks' hd _
  cases hd with
  | here hend => exact fun u d hu => ⟨d, hole.skip hu, .inl rfl⟩
  | cons k hd =>
    cases k with
    | punctuation p =>
      have hclose : CarriesWithin h h' (fun _ => True) fun out n =>
          closeAll (.point 0) out n [p] :=
        fun _ _ _ _ _ hd _ => hole.alike_closeAll hd [p]
      exact hclose.bounded _ _ hd trivial
    | _ => rintro u d ⟨⟩

theorem Hole.alike_skipItem (k : TokenKind) (hend : k ≠ .eof) (hd : Differ h h' ks ks') :
    Alike h h' (skipItem (plain (k :: ks))) (skipItem (plain (k :: ks'))) := by
  cases hopen : k.isOpener with
  | false =>
    rw [skipItem_token hopen hend, skipItem_token hopen hend]
    exact alike_ok () hd
  | true =>
    cases k with
    | punctuation p =>
      rw [skipItem_opener hopen, skipItem_opener hopen]
      exact hole.carries_skipBalanced (K := fun _ => True) _ _ (.cons _ hd) trivial
    | _ => cases hopen

theorem Hole.carriesWithin_skipsItems {p : String → Nat → Parser Unit} (hp : SkipsItems stops p) :
    CarriesWithin h h' (fun _ => True) p := by
  intro out ks ks' n m hd _ hn hm
  induction n generalizing m ks ks' with
  | zero => cases hn
  | succ n ih =>
    cases hd with
    | here hend =>
      obtain ⟨i, hi, hpost⟩ := hp.exists_line hole.line hn
      obtain ⟨j, hj, hpost'⟩ := hp.exists_line hole.line' hm
      rw [hpost, hpost']
      exact alike_of_settles hp.settles hi hj
    | @cons ks ks' k hd =>
      obtain ⟨m, rfl⟩ := Nat.exists_eq_succ_of_ne_zero (Nat.ne_of_gt (Nat.zero_lt_of_lt hm))
      cases hstop : stops k with
      | true =>
        rw [hp.stop (by rwa [kind_plain]), hp.stop (by rwa [kind_plain])]
        exact alike_ok () (.cons k hd)
      | false =>
        by_cases hend : k = .eof
        · intro u d hu
          exact absurd hu (hp.fail (by rwa [kind_plain]) (by rwa [kind_plain]))
        · rw [hp.item (by rwa [kind_plain]) (by rwa [kind_plain]),
            hp.item (by rwa [kind_plain]) (by rwa [kind_plain])]
          intro u d hu
          obtain ⟨_, e, he, hu⟩ := bind_ok.1 hu
          obtain ⟨e', he', hsame⟩ := hole.alike_skipItem k hend hd _ e he
          have hleft := left_skipItem (by rwa [kind_plain]) he
          have hleft' := left_skipItem (by rwa [kind_plain]) he'
          have hrest : Alike h h' (p out n e) (p out m e') := by
            obtain rfl | ⟨ls, ls', rfl, rfl, hls⟩ := hsame
            · exact alike_of_settles hp.settles (by omega) (by omega)
            · exact ih ls ls' m hls (by omega) (by omega)
          obtain ⟨d', hd', hsame'⟩ := hrest u d hu
          exact ⟨d', bind_ok.2 ⟨_, e', he', hd'⟩, hsame'⟩

/-- Parsers that look at one token after the other do the same on both texts. -/
theorem Orderly.carries {p : Parser α} (hp : Orderly opens K p) : Carries h h' K p := by
  induction hp with
  | pure => exact carries_pure _
  | fail => exact carries_fail _ _
  | bind _ _ ih ih' => exact ih.bind ih'
  | peek _ ih => exact hole.carries_peek ih
  | peekOne _ hopens ih => exact hole.carries_peekOne ih hopens
  | peekTwo _ hopens hopens₁ ih => exact hole.carries_peekTwo ih hopens hopens₁
  | currentSpan _ ih => exact .currentSpan ih
  | previousSpan => exact carries_previousSpan
  | advance hopens => exact hole.carries_advance hopens
  | skipSemicolons => exact hole.carries_skipSemicolons
  | bounded hsettles _ ih => exact (carriesWithin_of_settles hsettles ih).bounded
  | skipBalanced => exact hole.carries_skipBalanced
  | skipValues => exact (hole.carriesWithin_skipsItems skipsItems_skipValues).bounded.here
  | skipUntil => exact (hole.carriesWithin_skipsItems (skipsItems_skipUntil rfl)).bounded.here

end

end GoEnum.Parse
