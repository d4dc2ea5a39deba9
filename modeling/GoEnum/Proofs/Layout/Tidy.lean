import GoEnum.Proofs.Layout.Writer
import GoEnum.Proofs.Token.LineEnd
import Mathlib.Logic.Relation

/-!
Layout as a chain of small steps, each of which keeps the tokens: a last line is closed, a blank in
front of a line break goes, an empty first line goes.
-/

namespace GoEnum.Layout

open Relation Text Token

inductive Tidy : List Char → List Char → Prop
  | head : Tidy ('\n' :: v) v
  | ending (u : List Char) : LineEnd n m → Tidy (u ++ n) (u ++ m)

theorem Tidy.cut (h : Tidy cs ds) (hcut : Cut cs ps) :
    ∃ qs, Cut ds qs ∧ SameTexts (textsOf false ps) (textsOf false qs) := by
  cases h with
  | head =>
    cases hcut with
    | cons _ hcut => exact ⟨_, hcut, SameTexts.refl _⟩
  | ending u hend =>
    obtain ⟨qs, hqs, htexts⟩ := hend.cut hcut
    exact ⟨qs, hqs, htexts false⟩

theorem cut_of_tidies (h : ReflTransGen Tidy cs ds) (hcut : Cut cs ps) :
    ∃ qs, Cut ds qs ∧ SameTexts (textsOf false ps) (textsOf false qs) := by
  induction h with
  | refl => exact ⟨ps, hcut, SameTexts.refl _⟩
  | tail _ hstep ih =>
    obtain ⟨qs, hqs, htexts⟩ := ih
    obtain ⟨rs, hrs, htexts'⟩ := hstep.cut hqs
    exact ⟨rs, hrs, htexts.trans htexts'⟩

theorem tidies_blanks (h : ∀ c ∈ t, isBlank c) (u v : List Char) :
    ReflTransGen Tidy (u ++ (t ++ '\n' :: v)) (u ++ '\n' :: v) := by
  induction t generalizing u with
  | nil => exact .refl
  | cons b t ih =>
    obtain ⟨hb, ht⟩ := List.forall_mem_cons.1 h
    have hrest := ih ht (u ++ [b])
    simp only [List.append_assoc, List.singleton_append] at hrest
    exact hrest.tail (.ending u (.blank hb))

theorem exists_trimRight (l : List Char) :
    ∃ t, l = trimRight l ++ t ∧ ∀ c ∈ t, isBlank c := by
  refine ⟨(l.reverse.takeWhile isBlank).reverse, ?_, fun c hc => ?_⟩
  · rw [trimRight, ← List.reverse_append, List.takeWhile_append_dropWhile, List.reverse_reverse]
  · exact List.mem_takeWhile_imp (List.mem_reverse.1 hc)

theorem tidies_trimRight (l u v : List Char) :
    ReflTransGen Tidy (u ++ (l ++ '\n' :: v)) (u ++ (trimRight l ++ '\n' :: v)) := by
  obtain ⟨t, hl, ht⟩ := exists_trimRight l
  have hblanks := tidies_blanks ht (u ++ trimRight l) v
  rw [List.append_assoc, List.append_assoc, ← List.append_assoc (trimRight l), ← hl] at hblanks
  exact hblanks

namespace Writer

def text (w : Writer) : List Char := w.written ++ if w.pendingBlank then ['\n'] else []

structure Sound (w : Writer) : Prop where
  whole : w.written = [] ∨ ∃ u, w.written = u ++ ['\n']
  waiting : w.pendingBlank → w.written ≠ [] ∧ w.afterOpen = false

theorem sound_empty : empty.Sound := ⟨.inl rfl, nofun⟩

variable {w : Writer}

theorem writeLine_blank (h : trimRight l = []) (w : Writer) :
    w.writeLine l =
      { w with pendingBlank := w.pendingBlank || (!w.written.isEmpty && !w.afterOpen) } := by
  rw [writeLine, h]
  rfl

theorem writeLine_inked (h : trimRight l ≠ []) (w : Writer) :
    w.writeLine l = ⟨w.written ++ (if w.pendingBlank && !closesBlock (trimRight l) then ['\n']
      else []) ++ trimRight l ++ ['\n'], false, opensBlock (trimRight l)⟩ := by
  rw [writeLine]
  exact if_neg (mt List.isEmpty_iff.1 h)

theorem Sound.writeLine (h : w.Sound) (l : List Char) : (w.writeLine l).Sound := by
  by_cases hl : trimRight l = []
  · rw [writeLine_blank hl]
    refine ⟨h.whole, fun hpending => ?_⟩
    obtain hpending | hfresh := Bool.or_eq_true_iff.1 hpending
    · exact h.waiting hpending
    · simpa using hfresh
  · rw [writeLine_inked hl]
    exact ⟨.inr ⟨_, rfl⟩, nofun⟩

theorem Sound.tidies_empty (h : w.Sound) (v : List Char) :
    ReflTransGen Tidy (w.written ++ '\n' :: v) (w.written ++ v) := by
  obtain hnil | ⟨u, hu⟩ := h.whole
  · rw [hnil]
    exact .single .head
  · rw [hu]
    simp only [List.append_assoc, List.singleton_append]
    exact .single (.ending u (.blank (by decide)))

theorem Sound.tidies_text (h : w.Sound) (v : List Char) :
    ReflTransGen Tidy (w.text ++ v) (w.written ++ v) := by
  rw [text]
  cases w.pendingBlank with
  | false => simpa using ReflTransGen.refl
  | true => simpa using h.tidies_empty v

theorem Sound.tidies_writeLine (h : w.Sound) (l v : List Char) :
    ReflTransGen Tidy (w.text ++ (l ++ '\n' :: v)) ((w.writeLine l).text ++ v) := by
  refine (tidies_trimRight l w.text v).trans ?_
  by_cases hl : trimRight l = []
  · rw [writeLine_blank hl, hl, List.nil_append]
    cases hpending : w.pendingBlank with
    | true =>
      have hempty : Tidy (w.written ++ '\n' :: '\n' :: v) (w.written ++ '\n' :: v) :=
        .ending w.written (.blank (by decide))
      simpa [text, hpending] using ReflTransGen.single hempty
    | false =>
      cases hkept : !w.written.isEmpty && !w.afterOpen with
      | true => simpa [text, hpending, hkept] using ReflTransGen.refl
      | false => simpa [text, hpending, hkept] using h.tidies_empty v
  · rw [writeLine_inked hl]
    cases hgap : w.pendingBlank && !closesBlock (trimRight l) with
    | true =>
      obtain ⟨hpending, -⟩ := Bool.and_eq_true_iff.1 hgap
      simpa [text, hpending, hgap] using ReflTransGen.refl
    | false => simpa [text, hgap] using h.tidies_text (trimRight l ++ '\n' :: v)

theorem Sound.tidies_writeLines (h : w.Sound) (ls : List (List Char)) :
    ReflTransGen Tidy (w.text ++ unlines ls) (w.writeLines ls).written := by
  induction ls generalizing w with
  | nil =>
    have htext := h.tidies_text []
    rw [List.append_nil w.written] at htext
    exact htext
  | cons l ls ih =>
    have hline := h.tidies_writeLine l (unlines ls)
    have htext : unlines (l :: ls) = l ++ '\n' :: unlines ls := by simp [unlines]
    rw [htext]
    exact hline.trans (ih (h.writeLine l))

theorem trimRight_dropReturn (l : List Char) : trimRight (dropReturn l) = trimRight l := by
  unfold dropReturn
  split
  · rename_i r hr
    rw [trimRight, trimRight, hr, List.reverse_reverse]
    rfl
  · rfl

theorem writeLine_dropReturn (w : Writer) (l : List Char) :
    w.writeLine (dropReturn l) = w.writeLine l := by
  rw [writeLine, trimRight_dropReturn, writeLine]

theorem written_finishLines (w : Writer) (ls : List (List Char)) :
    (w.writeLines (finishLines ls)).written = (w.writeLines ls).written := by
  induction ls generalizing w with
  | nil => rfl
  | cons l ls ih =>
    cases ls with
    | nil =>
      cases l with
      | nil => rfl
      | cons c cs => rfl
    | cons l' ls =>
      have hline : w.writeLines (finishLines (l :: l' :: ls)) =
          (w.writeLine l).writeLines (finishLines (l' :: ls)) := by
        rw [← writeLine_dropReturn]
        rfl
      rw [hline, ih]
      rfl

/-- What is written is made of lines that would be written the same once more. -/
def Settled (w : Writer) : Prop :=
  ∃ ls, (∀ l ∈ ls, IsLine l) ∧ w.written = unlines ls ∧
    empty.writeLines ls = { w with pendingBlank := false }

theorem settled_empty : empty.Settled := ⟨[], by simp, rfl, rfl⟩

theorem trimmed_trimRight (l : List Char) : Trimmed (trimRight l) := by
  intro c hc
  rw [trimRight, List.getLast?_reverse] at hc
  have hnot := List.head?_dropWhile_not isBlank l.reverse
  rw [hc] at hnot
  exact hnot

theorem isLine_trimRight (h : '\n' ∉ l) : IsLine (trimRight l) := by
  refine ⟨fun hmem => h ?_, trimmed_trimRight l⟩
  obtain ⟨t, hl, -⟩ := exists_trimRight l
  rw [hl]
  exact List.mem_append_left t hmem

theorem Settled.writeLine (h : w.Settled) (hsound : w.Sound) (hl : '\n' ∉ l) :
    (w.writeLine l).Settled := by
  obtain ⟨ls, hls, hwritten, hagain⟩ := h
  by_cases hblank : trimRight l = []
  · rw [writeLine_blank hblank]
    exact ⟨ls, hls, hwritten, hagain⟩
  · have hline := isLine_trimRight hl
    have hself := trimRight_eq_self hline.trimmed
    have hinked : trimRight (trimRight l) ≠ [] := by rwa [hself]
    rw [writeLine_inked hblank]
    cases hgap : w.pendingBlank && !closesBlock (trimRight l) with
    | false =>
      refine ⟨ls ++ [trimRight l], ?_, ?_, ?_⟩
      · exact List.forall_mem_append.2 ⟨hls, List.forall_mem_singleton.2 hline⟩
      · simp [unlines, hwritten]
      · have hlast : empty.writeLines (ls ++ [trimRight l]) =
            (empty.writeLines ls).writeLine (trimRight l) := List.foldl_append
        rw [hlast, hagain, writeLine_inked hinked, hself]
        rfl
    | true =>
      obtain ⟨hpending, hcloses⟩ := Bool.and_eq_true_iff.1 hgap
      obtain ⟨hne, hopen⟩ := hsound.waiting hpending
      refine ⟨ls ++ [[], trimRight l], ?_, ?_, ?_⟩
      · refine List.forall_mem_append.2 ⟨hls, List.forall_mem_cons.2 ⟨isLine_nil, ?_⟩⟩
        exact List.forall_mem_singleton.2 hline
      · simp [unlines, hwritten]
      · have hlast : empty.writeLines (ls ++ [[], trimRight l]) =
            ((empty.writeLines ls).writeLine []).writeLine (trimRight l) := List.foldl_append
        have hnil : trimRight [] = [] := rfl
        rw [hlast, hagain, writeLine_blank hnil, writeLine_inked hinked, hself]
        simp [hne, hopen, hcloses]

theorem Settled.writeLines (h : w.Settled) (hsound : w.Sound) (hls : ∀ l ∈ ls, '\n' ∉ l) :
    (w.writeLines ls).Settled := by
  induction ls generalizing w with
  | nil => exact h
  | cons l ls ih =>
    obtain ⟨hl, hls⟩ := List.forall_mem_cons.1 hls
    exact ih (h.writeLine hsound hl) (hsound.writeLine l) hls

end Writer

theorem splitOn_spec (cs : List Char) : unlines (cs.splitOn '\n') = cs ++ ['\n'] ∧
    ∀ l ∈ cs.splitOn '\n', '\n' ∉ l := by
  induction hlength : cs.length using Nat.strongRecOn generalizing cs with
  | ind n ih =>
    by_cases hmem : '\n' ∈ cs
    · obtain ⟨u, v, rfl, hu⟩ := List.eq_append_cons_of_mem hmem
      obtain ⟨htext, hlines⟩ := ih v.length (by simp at hlength; omega) v rfl
      rw [List.splitOn_append_cons_self_of_not_mem hu]
      refine ⟨?_, List.forall_mem_cons.2 ⟨hu, hlines⟩⟩
      rw [unlines, List.flatMap_cons, ← unlines, htext]
      simp
    · rw [List.splitOn_eq_singleton hmem]
      simpa [unlines] using hmem

theorem layout_eq (cs : List Char) :
    layout cs = (Writer.empty.writeLines (cs.splitOn '\n')).written :=
  Writer.written_finishLines _ _

theorem tidies_layout (cs : List Char) : ReflTransGen Tidy cs (layout cs) := by
  have hclosed : Tidy (cs ++ []) (cs ++ ['\n']) := .ending cs .close
  have hwritten := Writer.sound_empty.tidies_writeLines (cs.splitOn '\n')
  rw [(splitOn_spec cs).1, ← layout_eq] at hwritten
  rw [List.append_nil] at hclosed
  exact hwritten.head hclosed

theorem layout_layout (cs : List Char) : layout (layout cs) = layout cs := by
  have hsettled := Writer.settled_empty.writeLines Writer.sound_empty (splitOn_spec cs).2
  obtain ⟨ls, hls, hwritten, hagain⟩ := hsettled
  rw [← layout_eq] at hwritten
  rw [hwritten, layout, lines_unlines hls, hagain, ← hwritten, layout_eq]

end GoEnum.Layout
