import GoEnum.Proofs.Parse.Initializer
import GoEnum.Proofs.Parse.StripFile

namespace GoEnum.Parse

open Token Syntax

/-- Tokens that differ in a body, which stands between braces, or in an initializer. The latter is
that of the only line of a declaration of variables, or of a line in a group. -/
inductive Skipped : List TokenKind → List TokenKind → Prop
  | body : Balanced b → Balanced b' →
      Skipped (.punctuation .lbrace :: (b ++ [.punctuation .rbrace]))
        (.punctuation .lbrace :: (b' ++ [.punctuation .rbrace]))
  | single : Undivided names → names.head? ≠ some (.punctuation .lparen) →
      Undivided b → Undivided b' →
      Skipped (.keyword .var :: (names ++ .operator .assign :: b))
        (.keyword .var :: (names ++ .operator .assign :: b'))
  | group : Balanced pre → Undivided b → Undivided b' → Balanced more →
      Skipped
        (.keyword .var :: .punctuation .lparen ::
          (pre ++ .operator .assign :: (b ++ (more ++ [.punctuation .rparen]))))
        (.keyword .var :: .punctuation .lparen ::
          (pre ++ .operator .assign :: (b' ++ (more ++ [.punctuation .rparen]))))

theorem hole_body (hb : Balanced b) (hb' : Balanced b') :
    Hole (· == .punctuation .lbrace) (.punctuation .lbrace :: (b ++ [.punctuation .rbrace]))
      (.punctuation .lbrace :: (b' ++ [.punctuation .rbrace])) where
  head := ⟨_, _, _, rfl, rfl, rfl, by simp⟩
  line := .group rfl hb .nil
  line' := .group rfl hb' .nil
  skip {post _ _} h := by
    have hskip : ∀ {b : List TokenKind}, Balanced b →
        skipBalanced (plain (.punctuation .lbrace :: (b ++ [.punctuation .rbrace]) ++ post)) =
          .ok () (plain post) := by
      intro b hb
      rw [List.cons_append, List.append_assoc]
      exact skipBalanced_group rfl hb post
    rw [hskip hb']
    rwa [hskip hb] at h

theorem hole_var (hks : Line ks) (hks' : Line ks') :
    Hole (· == .keyword .var) (.keyword .var :: ks) (.keyword .var :: ks') where
  head := ⟨_, _, _, rfl, rfl, rfl, by simp⟩
  line := .token rfl ⟨rfl, by simp, by simp⟩ hks
  line' := .token rfl ⟨rfl, by simp, by simp⟩ hks'
  skip := by rintro post u d ⟨⟩

theorem line_initializer (hus : Line us) (hb : Line b) : Line (us ++ .operator .assign :: b) :=
  hus.append (.token rfl ⟨rfl, by simp, by simp⟩ hb)

theorem line_group (hpre : Balanced pre) (hb : Balanced b) (hmore : Balanced more) :
    Line (.punctuation .lparen ::
      (pre ++ .operator .assign :: (b ++ (more ++ [.punctuation .rparen])))) := by
  have hassign : Balanced [.operator .assign] := rfl
  have hgroup : Balanced (pre ++ ([.operator .assign] ++ (b ++ more))) :=
    hpre.append (hassign.append (hb.append hmore))
  have hline : Line (.punctuation .lparen :: (_ ++ .punctuation .rparen :: [])) :=
    .group rfl hgroup .nil
  simpa using hline

theorem left_harvest {item : Parser α} (h : Moves item) (test : Cursor → Bool) (n : Nat)
    (c : Cursor) :
    (harvest test item n c).cursor.left ≤ c.left := by
  induction n generalizing c with
  | zero => exact Nat.le_refl _
  | succ n ih =>
    have hitem := h c
    rw [harvest]
    split
    · cases hx : item c with
      | ok x d =>
        rw [hx] at hitem
        exact Nat.le_trans (ih _) (Nat.le_trans d.left_skipSemicolons hitem)
      | error e d =>
        rw [hx] at hitem
        exact Nat.le_trans (ih _) (Nat.le_trans (Cursor.left_skipSemicolons _)
          (Nat.le_trans d.left_synchronize hitem))
    · exact Nat.le_refl _

theorem left_plain (h : .eof ∈ ks) : (plain ks).left < ks.length := by
  rw [Cursor.left, kinds_plain]
  refine Nat.lt_of_le_of_ne (List.takeWhile_sublist _).length_le fun hlength => ?_
  rw [← (List.takeWhile_sublist _).eq_of_length hlength] at h
  exact absurd (List.all_eq_true.1 List.all_takeWhile _ h) (by simp)

theorem left_lt_of_packageClause (hend : .eof ∈ ks)
    (h : packageClause (plain ks).skipSemicolons = .ok package c) :
    c.skipSemicolons.left < (plain ks).rest.length := by
  have hle := (orderly_packageClause opensHole_of_opensNone).moves.left_le h
  have hle' := c.left_skipSemicolons
  have hle'' := (plain ks).left_skipSemicolons
  have hlt := left_plain hend
  rw [length_plain]
  omega

section

variable {h h' : List TokenKind} {opens : TokenKind → Bool} (hole : Hole opens h h')

include hole

theorem Together.kind_eq (hc : Together h h' c c') : c'.kind = c.kind := by
  obtain rfl | ⟨ks, ks', rfl, rfl, hd⟩ := hc
  · rfl
  · rw [kind_plain, kind_plain, hole.next_eq hd]

theorem Together.skipSemicolons (hc : Together h h' c c') :
    Together h h' c.skipSemicolons c'.skipSemicolons := by
  obtain rfl | ⟨ks, ks', rfl, rfl, hd⟩ := hc
  · exact .inl rfl
  · rw [skipSemicolons_plain, skipSemicolons_plain]
    exact .inr ⟨_, _, rfl, rfl, hole.differ_dropSemicolons hd⟩

theorem Together.harvest {item : Parser α} (hitem : Carries h h' (fun _ => True) item)
    (hshrinks : Shrinks item) {test : Cursor → Bool}
    (htest : ∀ c c' : Cursor, c'.kind = c.kind → test c' = test c) (hc : Together h h' c c')
    (hn : c.left < n) (hm : c'.left < m) (herrors : (harvest test item n c).errors = []) :
    (harvest test item m c').items = (harvest test item n c).items ∧
      (harvest test item m c').errors = [] ∧
      Together h h' (harvest test item n c).cursor (harvest test item m c').cursor := by
  induction n generalizing m c c' with
  | zero => cases hn
  | succ n ih =>
    obtain ⟨m, rfl⟩ := Nat.exists_eq_succ_of_ne_zero (Nat.ne_of_gt (Nat.zero_lt_of_lt hm))
    have hkind : test c' = test c := htest c c' (hc.kind_eq hole)
    rw [Parse.harvest] at herrors ⊢
    rw [Parse.harvest, hkind]
    by_cases hmore : test c = true
    · rw [if_pos hmore] at herrors ⊢
      rw [if_pos hmore]
      have halike := hitem.alike hc
      cases hx : item c with
      | error e d =>
        rw [hx] at herrors
        cases herrors
      | ok x d =>
        rw [hx] at herrors
        obtain ⟨d', hx', hd⟩ := halike x d hx
        have hlt := hshrinks c x d hx
        have hlt' := hshrinks c' x d' hx'
        have hle := d.left_skipSemicolons
        have hle' := d'.left_skipSemicolons
        obtain ⟨hitems, hnone, hcursor⟩ :=
          ih (m := m) (hd.skipSemicolons hole) (by omega) (by omega) herrors
        rw [hx']
        exact ⟨congrArg (x :: ·) hitems, hnone, hcursor⟩
    · rw [if_neg hmore] at herrors ⊢
      rw [if_neg hmore]
      exact ⟨rfl, rfl, hc⟩

theorem carries_varDecl (ho : ∀ k, opens k = true → opensHole k = true)
    (hvar : ∀ post xs d, varDecl (plain (h ++ post)) = .ok xs d →
      varDecl (plain (h' ++ post)) = .ok xs d) :
    Carries h h' (· = .keyword .var) varDecl := by
  intro ks ks' hd hk
  cases hd with
  | here => exact fun xs d hxs => ⟨d, hvar _ xs d hxs, .inl rfl⟩
  | cons k hd =>
    obtain rfl : k = _ := hk
    have hexpect : ∀ ls, expect Keyword.var "'var'" (plain (.keyword .var :: ls)) =
        .ok () (plain ls) := fun ls => run_bind (accept_plain (by simp) ls)
    refine Alike.bind (p := expect Keyword.var "'var'") ?_ fun _ => ?_
    · rw [hexpect, hexpect]
      exact alike_ok () hd
    · exact (Carries.bind ((orderly_group ho _ _ fun _ => passes_varSpec ho).carries hole)
        fun _ => carries_pure _)

theorem carries_declaration (ho : ∀ k, opens k = true → opensHole k = true)
    (hvar : Carries h h' (· = .keyword .var) varDecl) :
    Carries h h' (fun _ => True) declaration := by
  refine (carries_spanned (hole.carries_peek fun k _ => ?_)).bind fun decl =>
    ((orderly_endOfDecl ho _).carries hole).bind fun _ => carries_pure _
  split
  · exact (((passes_constDecl ho).orderly.carries hole).bind fun _ => carries_pure _).here
  · exact hvar.bind fun _ => carries_pure _
  · exact (((passes_typeDecl ho).orderly.carries hole).bind fun _ => carries_pure _).here
  · exact (((passes_funcDecl ho).orderly.carries hole).bind fun _ => carries_pure _).here
  · exact .currentSpan fun _ => carries_fail _ _
  · exact (orderly_unexpected _).carries hole

theorem parse_differ (ho : ∀ k, opens k = true → opensHole k = true)
    (hdecl : Carries h h' (fun _ => True) declaration) (hd : Differ h h' ks ks')
    (hparse : parse (plain ks).rest = .ok file) : parse (plain ks').rest = .ok file := by
  obtain ⟨hend, hend'⟩ := hd.eof_mem
  have hc : Together h h' (plain ks) (plain ks') := .inr ⟨ks, ks', rfl, rfl, hd⟩
  rw [parse, isEmpty_rest_plain hend, if_neg Bool.false_ne_true, start_plain] at hparse
  rw [parse, isEmpty_rest_plain hend', if_neg Bool.false_ne_true, start_plain]
  cases hx : packageClause (plain ks).skipSemicolons with
  | error e c =>
    rw [hx] at hparse
    cases hparse
  | ok package c =>
    rw [hx] at hparse
    obtain ⟨c', hx', hc'⟩ :=
      ((orderly_packageClause ho).carries hole).alike (hc.skipSemicolons hole) package c hx
    have hleft := left_lt_of_packageClause hend hx
    have hleft' := left_lt_of_packageClause hend' hx'
    rw [hx']
    dsimp only at hparse ⊢
    split at hparse
    · rename_i hnone
      obtain ⟨hnone, hnone'⟩ := List.append_eq_nil_iff.1 hnone
      have hitem := passes_importDecl ho
      obtain ⟨himports, herrors, hcursor⟩ := (hc'.skipSemicolons hole).harvest hole
        (hitem.orderly.carries hole) hitem.anywhere (fun c c' hk => by rw [hk]) hleft hleft' hnone
      have hmoves := left_harvest hitem.orderly.moves (·.kind == .keyword .import)
      obtain ⟨hdecls, herrors', -⟩ := hcursor.harvest hole hdecl
        (passes_declaration opensHole_of_opensNone rfl).anywhere
        (fun c c' hk => by rw [Cursor.atEnd, Cursor.atEnd, hk])
        (Nat.lt_of_le_of_lt (hmoves _ _) hleft) (Nat.lt_of_le_of_lt (hmoves _ _) hleft') hnone'
      rw [herrors, herrors', himports, hdecls]
      exact hparse
    · cases hparse

end

theorem parse_differ_of_skipped (h : Skipped ks ks') (hd : Differ ks ks' ls ls')
    (hparse : parse (plain ls).rest = .ok file) : parse (plain ls').rest = .ok file := by
  have hbrace := opensHole_of_beq (l := .punctuation .lbrace) rfl
  have hkeyword := opensHole_of_beq (l := .keyword .var) rfl
  cases h with
  | body hb hb' =>
    have hole := hole_body hb hb'
    exact parse_differ hole hbrace ((passes_declaration hbrace rfl).orderly.carries hole) hd hparse
  | single hfront hparen hb hb' =>
    have hole := hole_var (line_initializer hfront.line hb.line)
      (line_initializer hfront.line hb'.line)
    have hvar := carries_varDecl hole hkeyword fun post xs d hxs => by
      simp only [List.cons_append, List.append_assoc] at hxs ⊢
      exact varDecl_single hfront.line hparen hb.line hb'.line hxs
    exact parse_differ hole hkeyword (carries_declaration hole hkeyword hvar) hd hparse
  | group hpre hb hb' hmore =>
    have hole := hole_var (line_group hpre hb.balanced hmore) (line_group hpre hb'.balanced hmore)
    have hvar := carries_varDecl hole hkeyword fun post xs d hxs => by
      simp only [List.cons_append, List.append_assoc] at hxs ⊢
      exact varDecl_group hpre hb.line hb'.line hxs
    exact parse_differ hole hkeyword (carries_declaration hole hkeyword hvar) hd hparse

theorem differ_append (pre : List TokenKind) (hend : .eof ∈ post) :
    Differ h h' (pre ++ h ++ post) (pre ++ h' ++ post) := by
  induction pre with
  | nil => exact .here hend
  | cons k pre ih => exact .cons k ih

/-- Files that differ in a body or in an initializer only are parsed alike: if one is read then so
is the other, and but for places they are the same. -/
theorem parse_of_skipped (h : Skipped ks ks') {pre post : List TokenKind} (hend : .eof ∈ post)
    {ts us : List Token} (hts : ts.map (·.node) = pre ++ ks ++ post)
    (hus : us.map (·.node) = pre ++ ks' ++ post) (hparse : parse ts = .ok file) :
    ∃ file', parse us = .ok file' ∧ file'.strip id = file.strip id := by
  have hplain : parse (plain (ts.map (·.node))).rest = .ok (file.strip id) := by
    rw [← strip_eq_plain, parse_strip, hparse]
    rfl
  rw [hts] at hplain
  have hplain' := parse_differ_of_skipped h (differ_append pre hend) hplain
  rw [← hus, ← strip_eq_plain, parse_strip] at hplain'
  cases hfile : parse us with
  | error es =>
    rw [hfile] at hplain'
    cases hplain'
  | ok file' =>
    rw [hfile] at hplain'
    exact ⟨file', rfl, Except.ok.inj hplain'⟩

def twoVars (value : List TokenKind) : List TokenKind :=
  .keyword .var :: .punctuation .lparen :: ([.ident "x"] ++ .operator .assign :: (value ++
    ([.punctuation .semicolon, .ident "y", .ident "int"] ++ [.punctuation .rparen])))

def braced (body : List TokenKind) : List TokenKind :=
  .punctuation .lbrace :: (body ++ [.punctuation .rbrace])

def twoVarsFront : List TokenKind := [.keyword .package, .ident "p", .punctuation .semicolon]

def funcFront : List TokenKind :=
  [.punctuation .semicolon, .keyword .func, .ident "f", .punctuation .lparen, .punctuation .rparen]

def twoVarsKinds (value body : List TokenKind) : List TokenKind :=
  twoVarsFront ++ twoVars value ++ (funcFront ++ braced body ++ [.punctuation .semicolon, .eof])

def twoVarsFile (value body : List TokenKind) : List Token :=
  (twoVarsKinds value body).map (⟨·, .point 0⟩)

def funcValue : List TokenKind :=
  [.keyword .func, .punctuation .lparen, .punctuation .rparen, .punctuation .lbrace,
    .keyword .type, .punctuation .semicolon, .punctuation .rbrace]

theorem parse_of_skipped_funcValue : Skipped (twoVars [.int 1]) (twoVars funcValue) ∧
    Skipped (braced []) (braced funcValue) ∧
    ∃ file file' file'', parse (twoVarsFile [.int 1] []) = .ok file ∧
      parse (twoVarsFile funcValue []) = .ok file' ∧ file'.strip id = file.strip id ∧
      parse (twoVarsFile funcValue funcValue) = .ok file'' ∧
      file''.strip id = file'.strip id := by
  have hvars : Skipped (twoVars [.int 1]) (twoVars funcValue) :=
    .group (by decide) (by decide) (by decide) (by decide)
  have hbody : Skipped (braced []) (braced funcValue) := .body (by decide) (by decide)
  have hkinds : ∀ value body, (twoVarsFile value body).map (·.node) = twoVarsKinds value body := by
    intro value body
    simp [twoVarsFile, Function.comp_def]
  obtain ⟨file, hfile⟩ : ∃ file, parse (twoVarsFile [.int 1] []) = .ok file := ⟨_, rfl⟩
  obtain ⟨file', hfile', hsame⟩ := parse_of_skipped hvars (by decide) (hkinds [.int 1] [])
    (hkinds funcValue []) hfile
  have hkinds' : ∀ body, (twoVarsFile funcValue body).map (·.node) =
      (twoVarsFront ++ twoVars funcValue ++ funcFront) ++ braced body ++
        [.punctuation .semicolon, .eof] := by
    intro body
    rw [hkinds, twoVarsKinds]
    simp only [List.append_assoc]
  obtain ⟨file'', hfile'', hsame'⟩ := parse_of_skipped hbody (by decide) (hkinds' [])
    (hkinds' funcValue) hfile'
  exact ⟨hvars, hbody, file, file', file'', hfile, hfile', hsame, hfile'', hsame'⟩

end GoEnum.Parse
