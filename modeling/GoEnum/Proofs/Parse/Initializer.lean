import GoEnum.Proofs.Parse.OrderlyFile
import GoEnum.Proofs.Parse.Carry

namespace GoEnum.Parse

open Token Syntax

def isName : TokenKind → Bool
  | .ident _ | .punctuation .comma => true
  | _ => false

theorem identifier_plain (name : String) (ks : List TokenKind) :
    identifier (plain (.ident name :: ks)) = .ok ⟨name, .point 0⟩ (plain ks) := rfl

theorem exists_ident (h : identifier (plain ks) = .ok x d) :
    ∃ name ls, ks = .ident name :: ls ∧ x = ⟨name, .point 0⟩ ∧ d = plain ls := by
  obtain _ | ⟨k, ks⟩ := ks
  · cases h
  · cases k with
    | ident name =>
      cases h
      exact ⟨name, ks, rfl, rfl, rfl⟩
    | _ => cases h

theorem accept_plain (hk : k ≠ .eof) (ks : List TokenKind) :
    accept k (plain (k :: ks)) = .ok true (plain ks) := by
  rw [accept_run, kind_plain, next_cons, beq_self_eq_true, if_pos rfl, advance_plain hk]

theorem refuse_plain (hks : next ks ≠ k) : accept k (plain ks) = .ok false (plain ks) := by
  rw [accept_run, kind_plain, if_neg (by simpa using hks)]

theorem run_bind {p : Parser α} {f : α → Parser β} (h : p c = .ok x d) : (p >>= f) c = f x d := by
  change EStateM.bind p f c = _
  rw [EStateM.bind, h]

theorem next_append (h : next rest' = next rest) (ks : List TokenKind) :
    next (ks ++ rest') = next (ks ++ rest) := by
  cases ks with
  | nil => exact h
  | cons => rfl

theorem exists_ident_append (h : identifier (plain (us ++ rest)) = .ok x d)
    (hrest : isName (next rest) = false) :
    ∃ name vs, us = .ident name :: vs ∧ x = ⟨name, .point 0⟩ ∧ d = plain (vs ++ rest) := by
  obtain ⟨name, ls, hls, rfl, rfl⟩ := exists_ident h
  cases us with
  | nil =>
    rw [List.nil_append] at hls
    rw [hls] at hrest
    cases hrest
  | cons k us =>
    cases hls
    exact ⟨name, us, rfl, rfl, rfl⟩

theorem exists_names (h : commaSeparated identifier out n (plain (us ++ rest)) = .ok xs d)
    (hrest : isName (next rest) = false) (hn : us.length < n) :
    ∃ ps vs, us = ps ++ vs ∧ (∀ k ∈ ps, isName k = true) ∧ d = plain (vs ++ rest) ∧
      ∀ m rest', us.length < m → next rest' = next rest →
        commaSeparated identifier out m (plain (us ++ rest')) = .ok xs (plain (vs ++ rest')) := by
  induction n generalizing us xs with
  | zero => cases hn
  | succ n ih =>
    obtain ⟨x, _, hx, h⟩ := bind_ok.1 h
    obtain ⟨name, us, rfl, rfl, rfl⟩ := exists_ident_append hx hrest
    by_cases hcomma : next (us ++ rest) = .punctuation .comma
    · obtain _ | ⟨k, us⟩ := us
      · rw [List.nil_append] at hcomma
        rw [hcomma] at hrest
        cases hrest
      obtain rfl : k = _ := hcomma
      rw [List.cons_append, run_bind (accept_plain (by simp) _)] at h
      obtain ⟨xs, _, hxs, h⟩ := bind_ok.1 h
      cases h
      simp only [List.length_cons] at hn
      obtain ⟨ps, vs, rfl, hps, rfl, hsame⟩ := ih hxs (by omega)
      refine ⟨.ident name :: .punctuation .comma :: ps, vs, rfl, ?_, rfl,
        fun m rest' hm hnext => ?_⟩
      · simpa [isName] using hps
      · obtain _ | m := m
        · cases hm
        simp only [List.length_cons] at hm
        rw [commaSeparated, List.cons_append, run_bind (identifier_plain _ _), List.cons_append,
          run_bind (accept_plain (by simp) _)]
        exact run_bind (hsame m rest' (by omega) hnext)
    · rw [run_bind (refuse_plain hcomma)] at h
      cases h
      refine ⟨[.ident name], us, rfl, by simp [isName], rfl, fun m rest' hm hnext => ?_⟩
      obtain _ | m := m
      · cases hm
      rw [commaSeparated, List.cons_append, run_bind (identifier_plain _ _),
        run_bind (refuse_plain (by rwa [next_append hnext]))]
      rfl

theorem identifiers_append (h : identifiers (plain (us ++ rest)) = .ok xs d)
    (hrest : isName (next rest) = false) :
    ∃ ps vs, us = ps ++ vs ∧ (∀ k ∈ ps, isName k = true) ∧ d = plain (vs ++ rest) ∧
      ∀ rest', next rest' = next rest →
        identifiers (plain (us ++ rest')) = .ok xs (plain (vs ++ rest')) := by
  have hlength : ∀ rest : List TokenKind, us.length < (plain (us ++ rest)).rest.length + 1 := by
    intro rest
    rw [length_plain, List.length_append]
    exact Nat.lt_succ_of_le (Nat.le_add_right _ _)
  obtain ⟨ps, vs, hus, hps, hd, hsame⟩ := exists_names h hrest (hlength rest)
  exact ⟨ps, vs, hus, hps, hd, fun rest' => hsame _ rest' (hlength rest')⟩

theorem line_of_append (hps : ∀ k ∈ ps, isName k = true) (h : Line (ps ++ vs)) : Line vs := by
  induction ps with
  | nil => exact h
  | cons k ps ih =>
    refine ih (fun l hl => hps l (List.mem_cons_of_mem k hl)) ?_
    have hk := hps k List.mem_cons_self
    rw [List.cons_append] at h
    generalize hks : k :: (ps ++ vs) = ks at h
    cases h with
    | nil => cases hks
    | token _ _ h =>
      cases hks
      exact h
    | @group q _ _ p hopen =>
      obtain ⟨rfl, -⟩ := List.cons.inj hks
      cases p with
      | comma => cases hopen
      | _ => cases hk

theorem skipValues_line (hks : Line ks) (rest : List TokenKind) :
    bounded skipValues (plain (ks ++ rest)) = bounded skipValues (plain rest) := by
  obtain ⟨i, hi, hpass⟩ := skipsItems_skipValues.exists_line hks
    (plain (ks ++ rest)).left_lt_bound
  change skipValues "nothing" ((plain (ks ++ rest)).rest.length + 1) _ =
    skipValues "nothing" ((plain rest).rest.length + 1) _
  rw [hpass]
  exact settles_skipValues.run_eq hi (plain rest).left_lt_bound

theorem varSpec_append (h : varSpec (plain (us ++ rest)) = .ok xs d) (hus : Line us)
    (hrest : isName (next rest) = false) (hnext : next rest' = next rest)
    (hskip : ∀ vs, Line vs → bounded skipValues (plain (vs ++ rest)) = .ok () d →
      bounded skipValues (plain (vs ++ rest')) = .ok () d') :
    varSpec (plain (us ++ rest')) = .ok xs d' := by
  obtain ⟨xs, _, hxs, h⟩ := bind_ok.1 h
  obtain ⟨⟨⟩, _, hskipped, h⟩ := bind_ok.1 h
  cases h
  obtain ⟨ps, vs, rfl, hps, rfl, hsame⟩ := identifiers_append hxs hrest
  refine (run_bind (hsame rest' hnext)).trans (run_bind (hskip vs ?_ hskipped))
  exact line_of_append hps hus

theorem varSpec_initializer (hus : Line us) (hb : Line b) (hb' : Line b')
    (h : varSpec (plain (us ++ .operator .assign :: (b ++ post))) = .ok xs d) :
    varSpec (plain (us ++ .operator .assign :: (b' ++ post))) = .ok xs d := by
  have hpass : ∀ {vs b : List TokenKind}, Line vs → Line b →
      bounded skipValues (plain (vs ++ .operator .assign :: (b ++ post))) =
        bounded skipValues (plain post) := by
    intro vs b hvs hb
    have hline : Line (vs ++ .operator .assign :: b) :=
      hvs.append (.token rfl ⟨rfl, by simp, by simp⟩ hb)
    have hskip := skipValues_line hline post
    rwa [List.append_assoc, List.cons_append] at hskip
  refine varSpec_append h hus rfl rfl fun vs hvs hskip => ?_
  rw [hpass hvs hb']
  rwa [hpass hvs hb] at hskip

theorem varSpec_semicolon (h : varSpec (plain (us ++ .punctuation .semicolon :: rest)) = .ok xs d)
    (hus : Line us) (rest' : List TokenKind) :
    d = plain (.punctuation .semicolon :: rest) ∧
      varSpec (plain (us ++ .punctuation .semicolon :: rest')) =
        .ok xs (plain (.punctuation .semicolon :: rest')) := by
  have hstop : ∀ {vs : List TokenKind} rest, Line vs →
      bounded skipValues (plain (vs ++ .punctuation .semicolon :: rest)) =
        .ok () (plain (.punctuation .semicolon :: rest)) := fun _ hvs => skipValues_line hvs _
  have hd : d = plain (.punctuation .semicolon :: rest) := by
    obtain ⟨_, _, hxs, h⟩ := bind_ok.1 h
    obtain ⟨_, _, hskip, h⟩ := bind_ok.1 h
    obtain ⟨ps, vs, rfl, hps, rfl, -⟩ := identifiers_append hxs rfl
    rw [hstop _ (line_of_append hps hus)] at hskip
    cases hskip
    cases h
    rfl
  exact ⟨hd, varSpec_append h hus rfl rfl fun vs hvs _ => hstop _ hvs⟩

theorem endOfSpec_semicolon (what : String) (ks : List TokenKind) :
    endOfSpec what (plain (.punctuation .semicolon :: ks)) = .ok () (plain ks) := rfl

theorem skipSemicolons_run (ks : List TokenKind) :
    skipSemicolons (plain ks) = .ok () (plain (dropSemicolons ks)) :=
  congrArg (EStateM.Result.ok ()) (skipSemicolons_plain ks)

theorem exists_dropSemicolons (h : Balanced ks) : ∃ ls, Balanced ls ∧ ls.length ≤ ks.length ∧
    ∀ rest, next rest ≠ .punctuation .semicolon → dropSemicolons (ks ++ rest) = ls ++ rest := by
  induction ks with
  | nil => exact ⟨[], balanced_nil, Nat.le_refl _, fun rest => dropSemicolons_eq_self⟩
  | cons k ks ih =>
    by_cases hk : k = .punctuation .semicolon
    · subst hk
      obtain ⟨ls, hls, hle, hdrop⟩ := ih h
      exact ⟨ls, hls, Nat.le_succ_of_le hle, hdrop⟩
    · exact ⟨k :: ks, h, Nat.le_refl _, fun rest _ => dropSemicolons_eq_self hk⟩

theorem next_balanced (h : Balanced ks) (hclose : (next rest).isCloser = false)
    (hend : next rest ≠ .eof) :
    (next (ks ++ rest)).isCloser = false ∧ next (ks ++ rest) ≠ .eof := by
  cases ks with
  | nil => exact ⟨hclose, hend⟩
  | cons k ks =>
    rw [Token.Balanced, afterTokens_cons] at h
    obtain ⟨stack, hk, -⟩ := Option.bind_eq_some_iff.1 h
    obtain ⟨p, rfl, hp, -⟩ | ⟨_, _, _, _, htop⟩ | ⟨-, hclose, hend, -⟩ := afterToken_eq_some hk
    · refine ⟨?_, by simp⟩
      cases p <;> first | rfl | cases hp
    · cases htop
    · exact ⟨hclose, hend⟩

theorem groupLines_line {line : Nat → Parser α} (hclose : c.kind.isCloser = false)
    (hend : c.kind ≠ .eof) (closing ending : String) (n i : Nat) :
    groupLines closing ending line out (n + 1) i c = (do
      let x ← line i
      endOfSpec ending
      skipSemicolons
      return x :: (← groupLines closing ending line out n (i + 1))) c := by
  have hrparen : accept Punctuation.rparen c = .ok false c := by
    rw [accept_run, if_neg]
    intro hk
    rw [beq_iff_eq.1 hk] at hclose
    cases hclose
  rw [groupLines, run_bind hrparen, if_neg Bool.false_ne_true, atEnd_bind_eq,
    beq_eq_false_iff_ne.2 hend]
  rfl

theorem settles_varLines (closing ending : String) (i : Nat) :
    Settles fun out n => groupLines closing ending (fun _ => varSpec) out n i :=
  settles_of_agrees fun _ _ _ _ _ =>
    agrees_groupLines _ _ (fun _ => (passes_varSpec opensHole_of_opensNone).anywhere) i

theorem left_lt_after_line (hus : Balanced us) (hws : Balanced ws) (hls : Balanced ls)
    (hle : ls.length ≤ ws.length) (rest : List TokenKind) :
    (plain (ls ++ rest)).left < (plain (us ++ .punctuation .semicolon :: (ws ++ rest))).left := by
  rw [left_append (eof_not_mem_of_afterTokens hls), left_append (eof_not_mem_of_afterTokens hus),
    left_cons (k := .punctuation .semicolon) (by simp),
    left_append (eof_not_mem_of_afterTokens hws)]
  omega

theorem groupLines_initializer (closing ending : String) (hpre : Balanced pre) (hb : Line b)
    (hb' : Line b') (hn : (plain (pre ++ .operator .assign :: (b ++ post))).left < n)
    (hm : (plain (pre ++ .operator .assign :: (b' ++ post))).left < m)
    (h : groupLines closing ending (fun _ => varSpec) out n i
      (plain (pre ++ .operator .assign :: (b ++ post))) = .ok xs d) :
    groupLines closing ending (fun _ => varSpec) out m i
      (plain (pre ++ .operator .assign :: (b' ++ post))) = .ok xs d := by
  have hshrinks : Shrinks varSpec := (passes_varSpec opensHole_of_opensNone).anywhere
  induction n generalizing pre m i xs with
  | zero => cases h
  | succ n ih =>
    obtain ⟨m, rfl⟩ := Nat.exists_eq_succ_of_ne_zero (Nat.ne_of_gt (Nat.zero_lt_of_lt hm))
    have hgo : ∀ ls, (next (pre ++ .operator .assign :: ls)).isCloser = false ∧
        next (pre ++ .operator .assign :: ls) ≠ .eof := fun ls => next_balanced hpre rfl (by simp)
    simp only [← kind_plain] at hgo
    rw [groupLines_line (hgo _).1 (hgo _).2] at h ⊢
    obtain ⟨x, e, hx, h⟩ := bind_ok.1 h
    obtain ⟨⟨⟩, e₁, hspec, h⟩ := bind_ok.1 h
    obtain ⟨⟨⟩, e₂, hskip, h⟩ := bind_ok.1 h
    obtain ⟨xs, e₃, hxs, h⟩ := bind_ok.1 h
    cases h
    obtain ⟨us, vs, rfl, hus, rfl | ⟨ws, rfl, hws⟩⟩ := hpre.exists_line
    · -- the initializer belongs to this line, so what follows is the same
      rw [List.append_nil] at *
      have hx' := varSpec_initializer hus hb hb' hx
      have hle := Nat.le_trans (moves_skipSemicolons.left_le hskip)
        ((moves_endOfSpec _).left_le hspec)
      have hlt := hshrinks _ _ _ hx
      have hlt' := hshrinks _ _ _ hx'
      have hsame : groupLines closing ending (fun _ => varSpec) out m (i + 1) e₂ = .ok xs d := by
        rw [← hxs]
        exact (settles_varLines closing ending (i + 1)).run_eq (by omega) (by omega)
      rw [run_bind hx', run_bind hspec, run_bind hskip, run_bind hsame]
      rfl
    · -- the line ends in front of a semicolon
      simp only [List.append_assoc, List.cons_append] at hx hn hm ⊢
      obtain ⟨rfl, hx'⟩ := varSpec_semicolon hx hus _
      rw [endOfSpec_semicolon] at hspec
      cases hspec
      obtain ⟨ls, hls, hle, hdrop⟩ := exists_dropSemicolons hws
      rw [skipSemicolons_run, hdrop _ (by simp)] at hskip
      cases hskip
      have hleft := left_lt_after_line hus.balanced hws hls hle
      have hsame := ih hls (Nat.lt_of_lt_of_le (hleft _) (Nat.le_of_lt_succ hn))
        (Nat.lt_of_lt_of_le (hleft _) (Nat.le_of_lt_succ hm)) hxs
      rw [run_bind hx', run_bind (endOfSpec_semicolon _ _), run_bind (skipSemicolons_run _),
        hdrop _ (by simp), run_bind hsame]
      rfl

def varGroup : Parser (Bool × List (List (Spanned String))) :=
  group "')' to close var group" "';' or ')' after variable spec" fun _ => varSpec

theorem varDecl_congr
    (hsame : ∀ x d, varGroup (plain ks) = .ok x d → varGroup (plain ks') = .ok x d)
    (h : varDecl (plain (.keyword .var :: ks)) = .ok xs d) :
    varDecl (plain (.keyword .var :: ks')) = .ok xs d := by
  have hvar : ∀ ls, expect Keyword.var "'var'" (plain (.keyword .var :: ls)) =
      .ok () (plain ls) := fun ls => run_bind (accept_plain (by simp) ls)
  rw [varDecl, run_bind (hvar _)] at h ⊢
  obtain ⟨x, e, hx, h⟩ := bind_ok.1 h
  exact (run_bind (hsame x e hx)).trans h

theorem varDecl_single (hus : Line us) (hparen : us.head? ≠ some (.punctuation .lparen))
    (hb : Line b) (hb' : Line b')
    (h : varDecl (plain (.keyword .var :: (us ++ .operator .assign :: (b ++ post)))) = .ok xs d) :
    varDecl (plain (.keyword .var :: (us ++ .operator .assign :: (b' ++ post)))) = .ok xs d := by
  have hrefuse : ∀ ls, accept Punctuation.lparen (plain (us ++ .operator .assign :: ls)) =
      .ok false (plain (us ++ .operator .assign :: ls)) := by
    intro ls
    refine refuse_plain ?_
    cases us with
    | nil => simp
    | cons k us => simpa using hparen
  refine varDecl_congr (fun x d hgroup => ?_) h
  rw [varGroup, group, run_bind (hrefuse _)] at hgroup ⊢
  obtain ⟨names, e, hnames, hgroup⟩ := bind_ok.1 hgroup
  exact (run_bind (varSpec_initializer hus hb hb' hnames)).trans hgroup

theorem varDecl_group (hpre : Balanced pre) (hb : Line b) (hb' : Line b')
    (h : varDecl (plain (.keyword .var :: .punctuation .lparen ::
      (pre ++ .operator .assign :: (b ++ post)))) = .ok xs d) :
    varDecl (plain (.keyword .var :: .punctuation .lparen ::
      (pre ++ .operator .assign :: (b' ++ post)))) = .ok xs d := by
  obtain ⟨ls, hls, -, hdrop⟩ := exists_dropSemicolons hpre
  refine varDecl_congr (fun x d hgroup => ?_) h
  rw [varGroup, group, run_bind (accept_plain (by simp) _), if_pos rfl,
    run_bind (skipSemicolons_run _), hdrop _ (by simp)] at hgroup ⊢
  obtain ⟨specs, e, hspecs, hgroup⟩ := bind_ok.1 hgroup
  have hsame := groupLines_initializer _ _ hls hb hb' (Cursor.left_lt_bound _)
    (Cursor.left_lt_bound _) hspecs
  exact (run_bind hsame).trans hgroup

end GoEnum.Parse
