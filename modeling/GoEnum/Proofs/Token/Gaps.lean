import GoEnum.Proofs.Token.LineEnd
import GoEnum.Proofs.Token.Lossless
import GoEnum.Proofs.Token.Outcome

/-!
Texts without tokens. A line that comes after such a text is one of the first lines of a file: no
token stands before it, and no block comment holds it.
-/

namespace GoEnum.Token

open Text

inductive Gaps (rest : List Char) : List Char → Prop
  | nil : Gaps rest []
  | cons : Gap (v ++ rest) w → Gaps rest v → Gaps rest (w ++ v)

def LineStart (u : List Char) : Prop := u = [] ∨ ['\n'] <:+ u

section

variable {u v w x r r' body rest : List Char} {c : Char} {cs : List Char}

theorem commentEnd?_append_mark (h : ¬ ['*', '/'] <:+: body ++ ['*']) (rest : List Char) :
    commentEnd? (body ++ '*' :: '/' :: rest) = some (body.length + 2) := by
  induction body with
  | nil => rfl
  | cons c body ih =>
    rw [List.cons_append, List.infix_cons_iff, not_or] at h
    rw [List.cons_append, commentEnd?_cons, ih h.2]
    · rfl
    · rintro ds rfl hslash
      cases body with
      | nil => cases hslash
      | cons d body =>
        obtain ⟨rfl, -⟩ := List.cons.inj hslash
        exact h.1 (List.prefix_append ['*', '/'] _)

theorem lexeme_of_gap (h : Gap rest (c :: w)) :
    ∃ f, (∀ k, f ≠ .token k) ∧ lexeme c (w ++ rest) = ⟨f, w.length, []⟩ := by
  generalize hcs : c :: w = cs at h
  cases h with
  | blank hblank =>
    obtain ⟨rfl, rfl⟩ := List.cons.inj hcs
    simp only [List.mem_cons, List.not_mem_nil, or_false] at hblank
    obtain rfl | rfl | rfl | rfl := hblank
    · exact ⟨.gap, nofun, rfl⟩
    · exact ⟨.gap, nofun, rfl⟩
    · exact ⟨.gap, nofun, rfl⟩
    · exact ⟨.lineBreak, nofun, rfl⟩
  | lineComment hline hrest =>
    obtain ⟨rfl, rfl⟩ := List.cons.inj hcs
    exact ⟨.gap, nofun, lexeme_lineComment hline hrest⟩
  | @blockComment body hnone =>
    obtain ⟨rfl, rfl⟩ := List.cons.inj hcs
    have hread : lexeme '/' ('*' :: (body ++ ['*', '/']) ++ rest) =
        blockComment (body ++ '*' :: '/' :: rest) := by
      rw [List.cons_append, List.append_assoc]
      rfl
    rw [hread, blockComment_of_commentEnd? (commentEnd?_append_mark hnone rest)]
    split
    · exact ⟨.lineBreak, nofun, by simp [Lexeme.lineBreak]⟩
    · exact ⟨.gap, nofun, by simp [Lexeme.gap]⟩

theorem gap_of_lexeme (h : lexeme c cs = ⟨f, n, []⟩) (hf : ∀ k, f ≠ .token k) :
    Gap (cs.drop n) (c :: cs.take n) := by
  have hspelled := isSpelled_lexeme c cs (by rw [h])
  rw [h] at hspelled
  generalize c :: cs.take n = w at hspelled
  cases hspelled with
  | gap hgap => exact hgap
  | lineBreak hgap => exact hgap
  | _ => exact absurd rfl (hf _)

theorem Gap.exists_cons (h : Gap rest w) : ∃ c cs, w = c :: cs := by
  cases h with
  | _ => exact ⟨_, _, rfl⟩

theorem Gap.congr (h : Gap r w) (hr : Stops (· != '\n') r → Stops (· != '\n') r') : Gap r' w := by
  cases h with
  | blank hc => exact .blank hc
  | lineComment hline hrest => exact .lineComment hline (hr hrest)
  | blockComment hnone => exact .blockComment hnone

theorem stops_append_congr {p : Char → Bool} (hr : Stops p r → Stops p r') (v : List Char) :
    Stops p (v ++ r) → Stops p (v ++ r') := by
  cases v with
  | nil => exact hr
  | cons c v => exact id

theorem Gaps.congr (h : Gaps r u) (hr : Stops (· != '\n') r → Stops (· != '\n') r') :
    Gaps r' u := by
  induction h with
  | nil => exact .nil
  | @cons v w hgap _ ih => exact .cons (hgap.congr (stops_append_congr hr v)) ih

theorem LineStart.of_append (h : LineStart (u ++ v)) : LineStart v := by
  obtain hnil | hbreak := h
  · exact .inl (List.append_eq_nil_iff.1 hnil).2
  · cases v with
    | nil => exact .inl rfl
    | cons c v =>
      refine .inr (List.suffix_of_suffix_length_le hbreak (List.suffix_append u _) ?_)
      simp

theorem Gap.congr_of_lineStart (h : Gap r w) (hw : LineStart w) : Gap r' w := by
  cases h with
  | blank hc => exact .blank hc
  | blockComment hnone => exact .blockComment hnone
  | @lineComment cs hline _ =>
    obtain hnil | hbreak := hw
    · cases hnil
    · have hmem : '\n' ∈ '/' :: '/' :: cs := hbreak.subset (List.mem_singleton_self '\n')
      simp [hline] at hmem

theorem Gaps.congr_of_lineStart (h : Gaps r u) (hu : LineStart u) : Gaps r' u := by
  induction h with
  | nil => exact .nil
  | @cons v w hgap _ ih =>
    refine .cons ?_ (ih hu.of_append)
    cases v with
    | nil =>
      rw [List.append_nil] at hu
      exact hgap.congr_of_lineStart hu
    | cons c v => exact hgap.congr id

theorem Gaps.outcome_append (h : Gaps rest u) :
    outcome (String.ofList (u ++ rest)) = outcome (String.ofList rest) := by
  induction h with
  | nil => rfl
  | @cons v w hgap _ ih =>
    obtain ⟨c, cs, rfl⟩ := hgap.exists_cons
    obtain ⟨f, hf, hread⟩ := lexeme_of_gap hgap
    have hskip := outcome_skip hread hf
    rw [List.drop_left] at hskip
    rw [List.append_assoc, List.cons_append, hskip, ih]

theorem Gaps.append (h : Gaps (v ++ rest) u) (h' : Gaps rest v) : Gaps rest (u ++ v) := by
  induction h with
  | nil => exact h'
  | cons hgap _ ih =>
    rw [List.append_assoc]
    rw [← List.append_assoc] at hgap
    exact .cons hgap ih

theorem Gap.gaps (h : Gap rest w) : Gaps rest w := by
  have hgaps : Gaps rest (w ++ []) := .cons h .nil
  rwa [List.append_nil] at hgaps

theorem tokensAt_ne_nil (start : Nat) (ends : Bool) (ps : List Stretch) :
    tokensAt start ends ps ≠ [] := by
  induction ps generalizing start ends with
  | nil => simp [tokensAt]
  | cons p ps ih =>
    obtain ⟨w, f⟩ := p
    cases f <;> simp [tokensAt, ih]

theorem Gaps.of_drop (hread : lexeme c cs = ⟨f, n, []⟩) (hf : ∀ k, f ≠ .token k)
    (h : Gaps [] (cs.drop n)) : Gaps [] (c :: cs) := by
  have hgap := gap_of_lexeme hread hf
  rw [← List.append_nil (cs.drop n)] at hgap
  have hgaps : Gaps [] _ := .cons hgap h
  rwa [List.cons_append, List.take_append_drop] at hgaps

theorem tokensAt_skip (hf : ∀ k, f ≠ .token k) (start : Nat) (w : List Char) (ps : List Stretch) :
    tokensAt start false (⟨w, f⟩ :: ps) = tokensAt (start + byteSize w) false ps := by
  cases f with
  | token k => exact absurd rfl (hf k)
  | _ => rfl

theorem gaps_of_cut (h : Cut u ps) (htokens : (tokensAt start false ps).map (·.node) = [.eof]) :
    Gaps [] u := by
  induction h generalizing start with
  | nil => exact .nil
  | @cons c cs ps hfaults _ ih =>
    have hf : ∀ k, (lexeme c cs).form ≠ .token k := by
      intro k hform
      rw [hform, tokensAt, List.map_cons, List.cons.injEq, List.map_eq_nil_iff] at htokens
      exact tokensAt_ne_nil _ _ _ htokens.2
    rw [tokensAt_skip hf] at htokens
    have hread : lexeme c cs = ⟨(lexeme c cs).form, (lexeme c cs).length, []⟩ := by rw [← hfaults]
    exact .of_drop hread hf (ih htokens)

theorem gaps_iff_outcome : Gaps [] u ↔ outcome (String.ofList u) = .ok [.eof] := by
  constructor
  · intro h
    have hnil : outcome (String.ofList []) = .ok [.eof] := by decide +kernel
    have houtcome := h.outcome_append
    rwa [List.append_nil, hnil] at houtcome
  · intro h
    obtain ⟨ts, hlex, hkinds⟩ := outcome_eq_ok.1 h
    obtain ⟨ps, hcut, rfl⟩ := lex_eq_ok.1 hlex
    rw [String.toList_ofList] at hcut
    exact gaps_of_cut hcut hkinds

end

def joined (ps : List Stretch) : List Char := ps.flatMap (·.text)

/-- Every block comment among the stretches of a text ends before the line after `u`, or begins
behind it. -/
def CommentsApart (ps : List Stretch) (u line : List Char) : Prop :=
  ∀ qs p rs, ps = qs ++ p :: rs → ['/', '*'] <+: p.text →
    joined (qs ++ [p]) <+: u ∨ u ++ line <+: joined qs

/-- The line after `u` begins before the first token, and lies outside every block comment. -/
structure InHeader (s : String) (u line : List Char) : Prop where
  tokens : ∀ ts, lex s = .ok ts → ∀ t ∈ ts, byteSize u < t.span.start
  comments : ∀ ps, Cut s.toList ps → CommentsApart ps u line

section

variable {u v w x line : List Char} {ps : List Stretch} {p : Stretch} {start : Nat} {ends : Bool}

theorem joined_cons (p : Stretch) (ps : List Stretch) : joined (p :: ps) = p.text ++ joined ps :=
  List.flatMap_cons

theorem commentsApart_cons : CommentsApart (p :: ps) (p.text ++ u) line ↔
    CommentsApart ps u line := by
  constructor
  · rintro h qs q rs rfl hopen
    have hcons := h (p :: qs) q rs rfl hopen
    rwa [List.cons_append, joined_cons, joined_cons, List.append_assoc,
      List.prefix_append_right_inj, List.prefix_append_right_inj] at hcons
  · intro h qs q rs hps hopen
    cases qs with
    | nil =>
      obtain ⟨rfl, -⟩ := List.cons.inj hps
      refine .inl ?_
      rw [List.nil_append, joined_cons, List.prefix_append_right_inj]
      exact List.nil_prefix
    | cons p' qs =>
      obtain ⟨rfl, rfl⟩ := List.cons.inj hps
      rw [List.cons_append, joined_cons, joined_cons, List.append_assoc,
        List.prefix_append_right_inj, List.prefix_append_right_inj]
      exact h qs q rs rfl hopen

theorem Gap.prefix_of_lineStart (h : Gap rest w) (htext : u ++ x = w ++ rest) (hu : LineStart u)
    (hne : u ≠ []) (hblock : ['/', '*'] <+: w → w <+: u) : w <+: u := by
  cases h with
  | @blank c _ =>
    cases u with
    | nil => exact absurd rfl hne
    | cons d u =>
      obtain ⟨rfl, -⟩ := List.cons.inj htext
      exact ⟨u, rfl⟩
  | @lineComment cs hline _ =>
    have hw : '/' :: '/' :: cs <+: u ++ x := ⟨rest, htext.symm⟩
    obtain hprefix | hprefix := List.prefix_or_prefix_of_prefix hw (List.prefix_append u x)
    · exact hprefix
    · have hbreak := (hu.resolve_left hne).subset (List.mem_singleton_self '\n')
      have hmem := hprefix.subset hbreak
      simp [hline] at hmem
  | blockComment _ => exact hblock (List.prefix_append ['/', '*'] _)

/-- What stands before the first token, and outside every block comment, has no tokens before it. -/
theorem gaps_of_apart (h : Cut (u ++ x) ps)
    (htokens : ∀ t ∈ tokensAt start false ps, start + byteSize u < t.span.start)
    (hcomments : CommentsApart ps u line) (hu : LineStart u) : Gaps x u := by
  induction hlength : u.length using Nat.strongRecOn generalizing u ps start with
  | ind n ih =>
    cases u with
    | nil => exact .nil
    | cons c cs =>
      rw [List.cons_append] at h
      obtain ⟨f, k, qs, hread, hcut, rfl⟩ := h.exists_cons
      have hf : ∀ t, f ≠ .token t := by
        rintro t rfl
        have hhead := htokens _ List.mem_cons_self
        simp at hhead
      have hgap := gap_of_lexeme hread hf
      have htext : c :: cs ++ x = c :: (cs ++ x).take k ++ (cs ++ x).drop k := by simp
      have hblock : ['/', '*'] <+: c :: (cs ++ x).take k → c :: (cs ++ x).take k <+: c :: cs := by
        intro hopen
        have hleft := (hcomments [] _ qs rfl hopen).resolve_right (by simp [joined])
        rwa [List.nil_append, joined_cons, joined, List.flatMap_nil, List.append_nil] at hleft
      obtain ⟨v, hv⟩ := hgap.prefix_of_lineStart htext hu (by simp) hblock
      rw [← hv, List.append_assoc, List.append_cancel_left_eq] at htext
      rw [← htext] at hgap hcut
      rw [tokensAt_skip hf] at htokens
      rw [← hv] at htokens hcomments hu hlength ⊢
      rw [byteSize_append, ← Nat.add_assoc] at htokens
      have hlt : v.length < n := by
        rw [← hlength, List.length_append, List.length_cons]
        omega
      exact .cons hgap (ih _ hlt hcut htokens (commentsApart_cons.1 hcomments) hu.of_append rfl)

theorem Cut.exists_gap (h : Cut (w ++ rest) ps) (hgap : Gap rest w) :
    ∃ f qs, (∀ k, f ≠ .token k) ∧ Cut rest qs ∧ ps = ⟨w, f⟩ :: qs := by
  obtain ⟨c, cs, rfl⟩ := hgap.exists_cons
  obtain ⟨f, hf, hread⟩ := lexeme_of_gap hgap
  rw [List.cons_append] at h
  obtain ⟨f', k, qs, hread', hcut, rfl⟩ := h.exists_cons
  cases hread.symm.trans hread'
  rw [List.drop_left] at hcut
  rw [List.take_left]
  exact ⟨f, qs, hf, hcut, rfl⟩

theorem CommentsApart.cons (h : CommentsApart ps [] line) (hp : ¬ ['/', '*'] <+: p.text) :
    CommentsApart (p :: ps) [] (p.text ++ line) := by
  intro qs q rs hps hopen
  cases qs with
  | nil =>
    obtain ⟨rfl, -⟩ := List.cons.inj hps
    exact absurd hopen hp
  | cons p' qs =>
    obtain ⟨rfl, rfl⟩ := List.cons.inj hps
    obtain hnil | hprefix := h qs q rs rfl hopen
    · have hempty : q.text = [] := (by simpa [joined] using hnil : _ ∧ _).2
      rw [hempty] at hopen
      cases List.prefix_nil.1 hopen
    · exact .inr ((List.prefix_append_right_inj p.text).2 hprefix)

theorem apart_of_comment (hb : ∀ c ∈ b, isBlank c) (hw : '\n' ∉ w) (hv : Stops (· != '\n') v)
    (h : Cut (b ++ '/' :: '/' :: w ++ v) ps) (start : Nat) :
    (∀ t ∈ tokensAt start false ps, start < t.span.start) ∧
      CommentsApart ps [] (b ++ '/' :: '/' :: w) := by
  induction b generalizing ps start with
  | nil =>
    obtain ⟨f, qs, hf, hrest, rfl⟩ := h.exists_gap (.lineComment hw hv)
    rw [tokensAt_skip hf]
    refine ⟨fun t ht => ?_, ?_⟩
    · have hfrom := (tiles_of_cut hrest _ false).from_start t ht
      exact Nat.lt_of_lt_of_le (by simp [byteSize, Char.utf8Size_pos]) hfrom
    · have hnone : CommentsApart qs [] [] := fun _ _ _ _ _ => .inr List.nil_prefix
      have hcons := hnone.cons (p := ⟨'/' :: '/' :: w, f⟩) fun hopen => by simp at hopen
      rwa [List.append_nil] at hcons
  | cons c b ih =>
    obtain ⟨hc, hb⟩ := List.forall_mem_cons.1 hb
    have hblank : c ∈ [' ', '\t', '\r', '\n'] := by
      cases h with
      | cons hfaults _ => exact mem_of_faultless hc hfaults
    obtain ⟨f, qs, hf, hrest, rfl⟩ := h.exists_gap (w := [c]) (.blank hblank)
    obtain ⟨htokens, hcomments⟩ := ih hb hrest (start + byteSize [c])
    rw [tokensAt_skip hf]
    refine ⟨fun t ht => Nat.lt_of_le_of_lt (Nat.le_add_right _ _) (htokens t ht), ?_⟩
    refine hcomments.cons fun hopen => ?_
    simp at hopen

theorem apart_of_gaps (h : Gaps x u) (hcut : Cut (u ++ x) ps)
    (hx : ∀ ps start, Cut x ps →
      (∀ t ∈ tokensAt start false ps, start < t.span.start) ∧ CommentsApart ps [] line) :
    (∀ t ∈ tokensAt start false ps, start + byteSize u < t.span.start) ∧
      CommentsApart ps u line := by
  induction h generalizing ps start with
  | nil => exact hx ps start hcut
  | @cons v w hgap _ ih =>
    rw [List.append_assoc] at hcut
    obtain ⟨f, qs, hf, hrest, rfl⟩ := hcut.exists_gap hgap
    obtain ⟨htokens, hcomments⟩ := ih hrest
    rw [tokensAt_skip hf, byteSize_append, ← Nat.add_assoc]
    exact ⟨htokens, commentsApart_cons.2 hcomments⟩

theorem inHeader_iff (hlex : lex s = .ok ts) (hs : s.toList = u ++ (b ++ '/' :: '/' :: w ++ v))
    (hu : LineStart u) (hb : ∀ c ∈ b, isBlank c) (hw : '\n' ∉ w) (hv : Stops (· != '\n') v) :
    InHeader s u (b ++ '/' :: '/' :: w) ↔ outcome (String.ofList u) = .ok [.eof] := by
  obtain ⟨ps, hcut, htokens⟩ := lex_eq_ok.1 hlex
  rw [← gaps_iff_outcome]
  constructor
  · intro h
    have htokens' : ∀ t ∈ tokensAt 0 false ps, 0 + byteSize u < t.span.start := by
      rw [htokens, Nat.zero_add]
      exact h.tokens ts hlex
    have hgaps := gaps_of_apart (hs ▸ hcut) htokens' (h.comments ps hcut) hu
    exact hgaps.congr fun _ => by simp [Stops]
  · intro h
    have hapart : (∀ t ∈ tokensAt 0 false ps, 0 + byteSize u < t.span.start) ∧
        CommentsApart ps u (b ++ '/' :: '/' :: w) :=
      apart_of_gaps (h.congr_of_lineStart hu) (hs ▸ hcut) fun ps start hps =>
        apart_of_comment hb hw hv hps start
    rw [htokens, Nat.zero_add] at hapart
    obtain ⟨hafter, hcomments⟩ := hapart
    constructor
    · intro ts' hlex'
      cases hlex.symm.trans hlex'
      exact hafter
    · intro ps' hcut'
      obtain rfl := hcut.unique hcut'
      exact hcomments

end

end GoEnum.Token
