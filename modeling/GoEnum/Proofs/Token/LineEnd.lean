import GoEnum.Proofs.Token.Enclosed
import Mathlib.Data.List.Forall2

/-!
Blanks at the end of a line mean nothing: without them a text has the same tokens, but for raw
strings that span lines. Nor does a missing line break at the end of the text.
-/

namespace GoEnum.Token

open Text

inductive Alike : Stretch → Stretch → Prop
  | same : Alike p p
  | gap : Alike ⟨w, .gap⟩ ⟨w', .gap⟩
  | lineBreak : Alike ⟨w, .lineBreak⟩ ⟨w', .lineBreak⟩
  | raw : '\n' ∈ w → '\n' ∈ w' → Alike ⟨w, .token (.string s)⟩ ⟨w', .token (.string s')⟩

/-- The lexeme that begins with `c` and goes on in `cs`, at the end `n` of a line or at the end `m`.
It is the same and ends in `cs`, or it ends in front of the same text. -/
inductive Beside (c : Char) (cs n m : List Char) : Prop
  | within : k ≤ cs.length → lexeme c (cs ++ n) = ⟨f, k, []⟩ → lexeme c (cs ++ m) = ⟨f, k, []⟩ →
      Beside c cs n m
  | across (w w' rest : List Char) : cs ++ n = w ++ rest → cs ++ m = w' ++ rest →
      lexeme c (w ++ rest) = ⟨f, w.length, []⟩ → lexeme c (w' ++ rest) = ⟨f', w'.length, []⟩ →
      Alike ⟨c :: w, f⟩ ⟨c :: w', f'⟩ → Beside c cs n m

section

variable {n m : List Char}

theorem LineEnd.within (hend : LineEnd n m) (h : Enclosed (lexeme c) 0 cs) : Beside c cs n m := by
  obtain ⟨f, k, hk, hread⟩ := h
  rw [Nat.zero_add] at hread
  exact .within hk (hread n hend.apart.1) (hread m hend.apart.2)

theorem LineEnd.steady (hend : LineEnd n m) (h : Steady c cs)
    (hfaults : (lexeme c (cs ++ n)).faults = []) : Beside c cs n m := by
  have hsame := fun rest hrest => (h rest hrest).1
  have hwithin := (h n hend.apart.1).2
  rw [hsame n hend.apart.1] at hfaults
  refine hend.within ⟨(lexeme c cs).form, (lexeme c cs).length, hwithin hfaults, ?_⟩
  intro rest hrest
  rw [hsame rest hrest, Nat.zero_add, ← hfaults]

theorem rawString_close (h : '\x60' ∉ body) (rest : List Char) :
    rawString (body ++ '\x60' :: rest) =
      .token (.string (String.ofList (body.filter (· != '\r')))) (body.length + 1) := by
  have hbody : (body ++ '\x60' :: rest).takeWhile (· != '\x60') = body := by
    refine takeWhile_append_of_stops (fun c hc => ?_) (stops_cons rfl)
    rw [bne_iff_ne]
    rintro rfl
    exact h hc
  simp [rawString, hbody]

theorem exists_of_rawString (h : (rawString cs).faults = []) :
    ∃ body rest, cs = body ++ '\x60' :: rest ∧ '\x60' ∉ body := by
  refine List.eq_append_cons_of_mem ?_
  by_contra hnone
  have hall : cs.takeWhile (· != '\x60') = cs := by
    refine List.takeWhile_eq_self_iff.2 fun c hc => ?_
    rw [bne_iff_ne]
    rintro rfl
    exact hnone hc
  simp [rawString, hall, Lexeme.fault] at h

theorem LineEnd.rawString (hend : LineEnd n m) (h : (rawString (cs ++ n)).faults = []) :
    Beside '\x60' cs n m := by
  by_cases hcs : '\x60' ∈ cs
  · obtain ⟨body, rest, rfl, hbody⟩ := List.eq_append_cons_of_mem hcs
    have hread : ∀ v, lexeme '\x60' ((body ++ '\x60' :: rest) ++ v) =
        ⟨.token (.string (String.ofList (body.filter (· != '\r')))), body.length + 1, []⟩ := by
      intro v
      rw [List.append_assoc]
      exact rawString_close hbody (rest ++ v)
    exact .within (by simp) (hread n) (hread m)
  · obtain ⟨body, rest, htext, hbody⟩ := exists_of_rawString h
    have hn : '\x60' ∈ n := by
      have hmem : '\x60' ∈ cs ++ n := by simp [htext]
      exact (List.mem_append.1 hmem).resolve_left hcs
    cases hend with
    | close => cases hn
    | @blank b v hb =>
      have hquote := ne_of_isBlank hb (d := '\x60') (by decide)
      have hv : '\x60' ∈ v := by simpa [hquote.symm] using hn
      obtain ⟨body, rest, rfl, hbody⟩ := List.eq_append_cons_of_mem hv
      have hread : ∀ u, '\x60' ∉ u → lexeme '\x60' ((u ++ ['\x60']) ++ rest) =
          ⟨.token (.string (String.ofList (u.filter (· != '\r')))), (u ++ ['\x60']).length,
            []⟩ := by
        intro u hu
        rw [List.append_assoc, List.length_append]
        exact rawString_close hu rest
      refine .across ((cs ++ b :: '\n' :: body) ++ ['\x60']) ((cs ++ '\n' :: body) ++ ['\x60']) rest
        (by simp) (by simp) (hread _ ?_) (hread _ ?_) (.raw (by simp) (by simp))
      · simp [hcs, hbody, hquote.symm]
      · simp [hcs, hbody]

theorem commentEnd?_cons (h : ∀ ds, c = '*' → cs ≠ '/' :: ds) :
    commentEnd? (c :: cs) = (commentEnd? cs).map (· + 1) := by
  rw [commentEnd?]
  exact h

theorem commentEnd?_append_apart (h : Apart rest) (cs : List Char) :
    commentEnd? (cs ++ rest) =
      (commentEnd? cs).or ((commentEnd? rest).map (· + cs.length)) := by
  fun_induction commentEnd? cs with
  | case1 => simp
  | case2 cs => rfl
  | case3 c cs hclose ih =>
    rw [List.cons_append, commentEnd?_cons, ih]
    · cases commentEnd? cs <;> simp [Function.comp_def, Nat.add_assoc]
    · rintro ds rfl heq
      cases cs with
      | nil =>
        rw [List.nil_append] at heq
        have hslash := h '/' (by rw [heq]; rfl)
        cases hslash
      | cons d cs =>
        obtain ⟨rfl, -⟩ := List.cons.inj heq
        exact hclose cs rfl rfl

theorem commentEnd?_le (h : commentEnd? cs = some k) : k ≤ cs.length := by
  fun_induction commentEnd? cs generalizing k with
  | case1 => cases h
  | case2 cs =>
    cases h
    exact Nat.le_add_left _ _
  | case3 c cs hclose ih =>
    obtain ⟨j, hj, rfl⟩ := Option.map_eq_some_iff.1 h
    exact Nat.succ_le_succ (ih hj)

theorem blockComment_of_commentEnd? (h : commentEnd? cs = some k) :
    blockComment cs = if (cs.take k).contains '\n' then .lineBreak (k + 1) else .gap (k + 1) := by
  rw [blockComment, h]

theorem blockComment_across (hcs : commentEnd? cs = none) (hb : isBlank b) (hline : '\n' ∈ b :: e)
    (he : commentEnd? (b :: e ++ v) = some ((b :: e).length + k)) (hk : k ≤ v.length) :
    lexeme '/' ('*' :: (cs ++ b :: e ++ v.take k) ++ v.drop k) =
      ⟨.lineBreak, ('*' :: (cs ++ b :: e ++ v.take k)).length, []⟩ := by
  have htext : '*' :: (cs ++ b :: e ++ v.take k) ++ v.drop k = '*' :: (cs ++ (b :: e ++ v)) := by
    simp
  have hend : commentEnd? (cs ++ (b :: e ++ v)) = some ((b :: e).length + k + cs.length) := by
    have hapart : Apart (b :: e ++ v) := apart_cons hb _
    rw [commentEnd?_append_apart hapart, hcs, he]
    rfl
  have hmem : '\n' ∈ (cs ++ (b :: e ++ v)).take ((b :: e).length + k + cs.length) := by
    rw [Nat.add_comm, List.take_length_add_append, List.take_length_add_append]
    exact List.mem_append_right _ (List.mem_append_left _ hline)
  rw [htext]
  refine (blockComment_of_commentEnd? hend).trans ?_
  rw [if_pos (List.contains_iff_mem.2 hmem), Lexeme.lineBreak]
  congr 1
  simp only [List.length_cons, List.length_append, List.length_take]
  omega

theorem LineEnd.blockComment (hend : LineEnd n m)
    (h : (blockComment (cs ++ n)).faults = []) : Beside '/' ('*' :: cs) n m := by
  obtain ⟨k, hk⟩ : ∃ k, commentEnd? (cs ++ n) = some k := by
    cases hk : commentEnd? (cs ++ n) with
    | some k => exact ⟨k, rfl⟩
    | none =>
      rw [Token.blockComment, hk] at h
      cases h
  rw [commentEnd?_append_apart hend.apart.1] at hk
  cases hcs : commentEnd? cs with
  | some j =>
    have hle := commentEnd?_le hcs
    have hread : ∀ rest, Apart rest → lexeme '/' ('*' :: cs ++ rest) =
        ⟨if (cs.take j).contains '\n' then .lineBreak else .gap, j + 1, []⟩ := by
      intro rest hrest
      have hj : commentEnd? (cs ++ rest) = some j := by
        rw [commentEnd?_append_apart hrest, hcs, Option.some_or]
      refine (blockComment_of_commentEnd? hj).trans ?_
      rw [List.take_append_of_le_length hle]
      split <;> rfl
    exact .within (Nat.succ_le_succ hle) (hread n hend.apart.1) (hread m hend.apart.2)
  | none =>
    cases hend with
    | close => simp [hcs, commentEnd?] at hk
    | @blank b v hb =>
      have hstar := ne_of_isBlank hb (d := '*') (by decide)
      have hline : commentEnd? ('\n' :: v) = (commentEnd? v).map (· + 1) :=
        commentEnd?_cons fun _ h => nomatch h
      have hblank : commentEnd? (b :: '\n' :: v) = (commentEnd? v).map (· + 2) := by
        rw [commentEnd?_cons fun _ h => absurd h hstar, hline, Option.map_map]
        rfl
      cases hv : commentEnd? v with
      | none => simp [hcs, hblank, hv] at hk
      | some j =>
        have hle := commentEnd?_le hv
        rw [hv, Option.map_some, Nat.add_comm] at hline hblank
        exact .across ('*' :: (cs ++ b :: ['\n'] ++ v.take j))
          ('*' :: (cs ++ '\n' :: [] ++ v.take j)) (v.drop j) (by simp) (by simp)
          (blockComment_across hcs hb (by simp) hblank hle)
          (blockComment_across hcs (by decide) (by simp) hline hle) .lineBreak

theorem LineEnd.lineComment (hend : LineEnd n m) (cs : List Char) :
    Beside '/' ('/' :: cs) n m := by
  by_cases hcs : '\n' ∈ cs
  · obtain ⟨body, rest, rfl, hbody⟩ := List.eq_append_cons_of_mem hcs
    have hread : ∀ v, lexeme '/' ('/' :: (body ++ '\n' :: rest) ++ v) =
        ⟨.gap, body.length + 1, []⟩ := by
      intro v
      have htext : '/' :: (body ++ '\n' :: rest) ++ v = '/' :: body ++ '\n' :: (rest ++ v) := by
        simp
      rw [htext]
      exact lexeme_lineComment hbody (stops_cons rfl)
    exact .within (by simp) (hread n) (hread m)
  · have hbreak : ∀ v, lexeme '/' ('/' :: cs ++ '\n' :: v) = ⟨.gap, cs.length + 1, []⟩ :=
      fun v => lexeme_lineComment hcs (stops_cons rfl)
    cases hend with
    | close =>
      exact .within (Nat.le_refl _) (lexeme_lineComment hcs (by simp [Stops])) (hbreak [])
    | @blank b v hb =>
      by_cases hline : b = '\n'
      · subst hline
        exact .within (Nat.le_refl _) (hbreak _) (hbreak v)
      · have hread : lexeme '/' ('/' :: (cs ++ [b]) ++ '\n' :: v) =
            ⟨.gap, (cs ++ [b]).length + 1, []⟩ :=
          lexeme_lineComment (by simp [hcs, Ne.symm hline]) (stops_cons rfl)
        exact .across ('/' :: (cs ++ [b])) ('/' :: cs) ('\n' :: v) (by simp) rfl hread (hbreak v)
          .gap

theorem LineEnd.beside (hend : LineEnd n m) (h : (lexeme c (cs ++ n)).faults = []) :
    Beside c cs n m := by
  by_cases hc : c ∈ ['/', '"', '\x60', '\'']
  · simp only [List.mem_cons, List.not_mem_nil, or_false] at hc
    obtain rfl | rfl | rfl | rfl := hc
    · by_cases hcomment : Stops (fun c => c == '/' || c == '*') cs
      · exact hend.steady (steady_slash hcomment) h
      · cases cs with
        | nil => exact absurd (by simp [Stops]) hcomment
        | cons d ds =>
          by_cases hslash : d = '/'
          · subst hslash
            exact hend.lineComment ds
          · by_cases hstar : d = '*'
            · subst hstar
              exact hend.blockComment h
            · exact absurd (stops_cons (by simp [hslash, hstar])) hcomment
    · obtain ⟨f, k, hk, hread⟩ := enclosed_stringRest hend 0 [] cs h
      exact hend.within ⟨f, k, hk, hread⟩
    · exact hend.rawString h
    · obtain ⟨f, k, hk, hread⟩ := enclosed_runeLiteral hend h
      exact hend.within ⟨f, k, hk, hread⟩
  · exact hend.steady (steady_of_not_mem hc cs) h

end

theorem longest?_of_isBlank (hb : isBlank b) (cs : List Char) :
    Operator.longest? (b :: cs) = none := by
  rw [Option.eq_none_iff_forall_ne_some]
  intro o ho
  obtain ⟨rest, hrest⟩ := (longest?_spec ho).1
  cases hspelling : o.spelling.toList with
  | nil => cases o <;> cases hspelling
  | cons d ds =>
    rw [hspelling] at hrest
    obtain ⟨rfl, -⟩ := List.cons.inj hrest
    have hoperator := isOperatorChar_of_mem_spelling o d (by simp [hspelling])
    rw [isOperatorChar_of_isBlank hb] at hoperator
    cases hoperator

theorem mem_of_faultless (hb : isBlank b) (h : (lexeme b cs).faults = []) :
    b ∈ [' ', '\t', '\r', '\n'] := by
  by_contra hplain
  have hspecial : b ∉ specials := by
    have hblanks : specials.filter isBlank = [' ', '\t', '\r', '\n'] := by decide
    intro hmem
    exact hplain (hblanks ▸ List.mem_filter.2 ⟨hmem, hb⟩)
  have hdigit := forall_blank (p := fun c => !c.isDigit && mark? c == none) (by decide) hb
  simp only [Bool.and_eq_true, Bool.not_eq_true', beq_iff_eq] at hdigit
  have hstart : isIdentStart b = false := by
    by_contra hstart
    have hpart := isIdentPart_of_isIdentStart (Bool.eq_true_of_not_eq_false hstart)
    rw [isIdentPart_of_isBlank hb] at hpart
    cases hpart
  simp [lexeme_of_not_special hspecial, hdigit, wordOrSymbol, hstart, longest?_of_isBlank hb,
    Lexeme.fault] at h

inductive Kept : TokenText → TokenText → Prop
  | same : Kept t t
  | raw : '\n' ∈ w → '\n' ∈ w' → Kept ⟨.string s, w⟩ ⟨.string s', w'⟩

theorem Kept.trans (h : Kept t u) (h' : Kept u v) : Kept t v := by
  cases h with
  | same => exact h'
  | raw hw hw' =>
    cases h' with
    | same => exact .raw hw hw'
    | raw _ hv => exact .raw hw hv

def SameTexts (ts us : List TokenText) : Prop := List.Forall₂ Kept ts us

theorem SameTexts.refl (ts : List TokenText) : SameTexts ts ts :=
  List.forall₂_same.2 fun _ _ => .same

theorem SameTexts.append (h : SameTexts ts us) (ws : List TokenText) :
    SameTexts (ws ++ ts) (ws ++ us) := List.rel_append (SameTexts.refl ws) h

theorem SameTexts.trans (h : SameTexts ts us) (h' : SameTexts us vs) : SameTexts ts vs := by
  induction h generalizing vs with
  | nil => exact h'
  | cons ht _ ih =>
    cases h' with
    | cons hu h' => exact .cons (ht.trans hu) (ih h')

theorem SameTexts.map_eq {f : TokenText → α} (hf : ∀ {t u}, Kept t u → f u = f t)
    (h : SameTexts ts us) : us.map f = ts.map f := by
  induction h with
  | nil => rfl
  | cons ht _ ih => rw [List.map_cons, List.map_cons, hf ht, ih]

theorem SameTexts.eq (h : SameTexts ts us) (hlines : ∀ t ∈ ts, '\n' ∉ t.text) : us = ts := by
  induction h with
  | nil => rfl
  | cons ht _ ih =>
    obtain ⟨hline, hlines⟩ := List.forall_mem_cons.1 hlines
    cases ht with
    | same => rw [ih hlines]
    | raw hw _ => exact absurd hw hline

theorem sameTexts_cons (hpq : Alike p q)
    (h : ∀ ends, SameTexts (textsOf ends ps) (textsOf ends qs)) (ends : Bool) :
    SameTexts (textsOf ends (p :: ps)) (textsOf ends (q :: qs)) := by
  cases hpq with
  | same =>
    obtain ⟨w, f⟩ := p
    cases f with
    | token k => exact .cons .same (h _)
    | gap => exact h ends
    | lineBreak => exact (h false).append _
  | gap => exact h ends
  | lineBreak => exact (h false).append _
  | raw hw hw' => exact .cons (.raw hw hw') (h _)

section

variable {n m : List Char}

theorem LineEnd.cut_nil (hend : LineEnd n m) (h : Cut n ps) :
    ∃ qs, Cut m qs ∧ ∀ ends, SameTexts (textsOf ends ps) (textsOf ends qs) := by
  cases hend with
  | close =>
    cases h
    exact ⟨_, .cons rfl .nil, fun ends => SameTexts.refl _⟩
  | @blank b v hb =>
    cases h with
    | cons hfaults hcut =>
      have hmem := mem_of_faultless hb hfaults
      simp only [List.mem_cons, List.not_mem_nil, or_false] at hmem
      obtain rfl | rfl | rfl | rfl := hmem
      · exact ⟨_, hcut, fun ends => SameTexts.refl _⟩
      · exact ⟨_, hcut, fun ends => SameTexts.refl _⟩
      · exact ⟨_, hcut, fun ends => SameTexts.refl _⟩
      · refine ⟨_, hcut, fun ends => ?_⟩
        cases hcut
        exact SameTexts.refl _

/-- The end of a line matters to raw strings that span lines only. -/
theorem LineEnd.cut (hend : LineEnd n m) (h : Cut (u ++ n) ps) :
    ∃ qs, Cut (u ++ m) qs ∧ ∀ ends, SameTexts (textsOf ends ps) (textsOf ends qs) := by
  induction hlength : u.length using Nat.strongRecOn generalizing u ps with
  | ind l ih =>
    subst hlength
    cases u with
    | nil => exact hend.cut_nil h
    | cons c cs =>
      rw [List.cons_append] at h ⊢
      obtain ⟨f, k, rs, hread, hcut, rfl⟩ := h.exists_cons
      cases hend.beside (by rw [hread]) with
      | within hk hn hm =>
        cases hread.symm.trans hn
        rw [List.drop_append_of_le_length hk] at hcut
        have hlt : (cs.drop k).length < (c :: cs).length :=
          Nat.lt_succ_of_le (List.drop_sublist _ _).length_le
        obtain ⟨qs, hqs, htexts⟩ := ih _ hlt hcut rfl
        rw [← List.drop_append_of_le_length hk] at hqs
        refine ⟨_, .lexeme hm hqs, sameTexts_cons ?_ htexts⟩
        rw [List.take_append_of_le_length hk, List.take_append_of_le_length hk]
        exact .same
      | across w w' rest hw hw' hn hm halike =>
        rw [hw] at hread hcut ⊢
        cases hread.symm.trans hn
        rw [List.drop_left] at hcut
        rw [hw']
        refine ⟨_, .lexeme hm (by rwa [List.drop_left]), sameTexts_cons ?_ fun _ => .refl _⟩
        rw [List.take_left, List.take_left]
        exact halike

end

end GoEnum.Token
