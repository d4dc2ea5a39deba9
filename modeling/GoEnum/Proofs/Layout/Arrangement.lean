import GoEnum.Proofs.Layout.Format

namespace GoEnum.Layout

open Text Token

def isBlankLine (l : List Char) : Bool := l.all isBlank

def visible (ls : List (List Char)) : List (List Char) := ls.filter fun l => !isBlankLine l

def gapBetween (l m : List Char) (blanks : List (List Char)) : List (List Char) :=
  if blanks = [] ∨ opensBlock l ∨ closesBlock m then [] else [[]]

def gapAfter (l : List Char) (ls : List (List Char)) : List (List Char) :=
  match ls.dropWhile isBlankLine with
  | [] => []
  | m :: _ => gapBetween (trimRight l) (trimRight m) (ls.takeWhile isBlankLine)

/-- Every line that is not blank without the blanks at its end, and what stands behind it. -/
def arrange : List (List Char) → List (List Char)
  | [] => []
  | l :: ls => if isBlankLine l then arrange ls else trimRight l :: (gapAfter l ls ++ arrange ls)

structure Arranged (ls os : List (List Char)) : Prop where
  unbroken : ∀ o ∈ os, '\n' ∉ o
  kept : visible os = (visible ls).map trimRight
  between : ∀ us l bs m vs, ls = us ++ l :: (bs ++ m :: vs) → isBlankLine l = false →
    (∀ b ∈ bs, isBlankLine b) → isBlankLine m = false →
    ∃ us' vs', visible us' = (visible us).map trimRight ∧ os = us' ++ trimRight l ::
      (gapBetween (trimRight l) (trimRight m) bs ++ trimRight m :: vs')
  first : ∀ o ∈ os.head?, isBlankLine o = false
  last : ∀ o ∈ os.getLast?, isBlankLine o = false

/-- The two sides of a blank line: what the line before it and the line behind it are not. -/
def Borders (l m : List Char) : Prop :=
  (m = [] → l ≠ [] ∧ opensBlock l = false) ∧ (l = [] → m ≠ [] ∧ closesBlock m = false)

/-- Lines that nothing is left to do on: there are no blanks at their ends, and blank lines stand
only where they may, and neither at the beginning nor at the end. -/
structure Neat (os : List (List Char)) : Prop where
  lines : ∀ o ∈ os, IsLine o
  blank : os.IsChain Borders
  first : os.head? ≠ some []
  last : os.getLast? ≠ some []

section

variable {l m : List Char} {ls os us vs bs : List (List Char)}

theorem trimRight_eq_nil : trimRight l = [] ↔ isBlankLine l := by
  rw [trimRight, List.reverse_eq_nil_iff, List.dropWhile_eq_nil_iff, isBlankLine, List.all_eq_true]
  simp

theorem isBlankLine_trimRight (l : List Char) : isBlankLine (trimRight l) = isBlankLine l := by
  rw [Bool.eq_iff_iff, ← trimRight_eq_nil, ← trimRight_eq_nil,
    trimRight_eq_self (Writer.trimmed_trimRight l)]

theorem arrange_blank (h : isBlankLine l) (ls : List (List Char)) :
    arrange (l :: ls) = arrange ls := if_pos h

theorem arrange_cons (h : isBlankLine l = false) (ls : List (List Char)) :
    arrange (l :: ls) = trimRight l :: (gapAfter l ls ++ arrange ls) := by
  rw [arrange, h]
  rfl

theorem visible_append (ls ms : List (List Char)) :
    visible (ls ++ ms) = visible ls ++ visible ms := List.filter_append ..

theorem visible_blank (h : isBlankLine l) (ls : List (List Char)) :
    visible (l :: ls) = visible ls := by simp [visible, h]

theorem visible_cons (h : isBlankLine l = false) (ls : List (List Char)) :
    visible (l :: ls) = l :: visible ls := by simp [visible, h]

theorem visible_gapAfter (l : List Char) (ls : List (List Char)) :
    visible (gapAfter l ls) = [] := by
  unfold gapAfter gapBetween
  split
  · rfl
  · split <;> rfl

theorem arrange_skip (h : ∀ b ∈ bs, isBlankLine b) (ls : List (List Char)) :
    arrange (bs ++ ls) = arrange ls := by
  induction bs with
  | nil => rfl
  | cons b bs ih =>
    obtain ⟨hb, hbs⟩ := List.forall_mem_cons.1 h
    rw [List.cons_append, arrange_blank hb, ih hbs]

namespace Writer

def gapBefore (w : Writer) (ls : List (List Char)) : List (List Char) :=
  match ls.dropWhile isBlankLine with
  | [] => []
  | m :: _ =>
    if (w.pendingBlank ||
        !(ls.takeWhile isBlankLine).isEmpty && (!w.written.isEmpty && !w.afterOpen)) &&
      !closesBlock (trimRight m) then [[]] else []

variable {w : Writer}

theorem gapBefore_empty (ls : List (List Char)) : empty.gapBefore ls = [] := by
  unfold gapBefore
  split
  · rfl
  · simp [empty]

theorem gapBefore_writeLine_blank (h : isBlankLine l) (w : Writer) (ls : List (List Char)) :
    (w.writeLine l).gapBefore ls = w.gapBefore (l :: ls) := by
  rw [writeLine_blank (trimRight_eq_nil.2 h), gapBefore, gapBefore, List.dropWhile_cons_of_pos h,
    List.takeWhile_cons_of_pos h]
  have habsorb : ∀ p x y : Bool, (p || x || (y && x)) = (p || x) := by decide
  simp [habsorb]

theorem gapBefore_cons (h : isBlankLine l = false) (w : Writer) (ls : List (List Char)) :
    w.gapBefore (l :: ls) =
      if w.pendingBlank && !closesBlock (trimRight l) then [[]] else [] := by
  have hl : ¬ isBlankLine l := by simp [h]
  rw [gapBefore, List.dropWhile_cons_of_neg hl, List.takeWhile_cons_of_neg hl]
  simp

theorem gapBefore_writeLine_inked (h : isBlankLine l = false) (w : Writer)
    (ls : List (List Char)) : (w.writeLine l).gapBefore ls = gapAfter l ls := by
  have hl : trimRight l ≠ [] := by simp [trimRight_eq_nil, h]
  rw [writeLine_inked hl, gapBefore, gapAfter]
  cases ls.dropWhile isBlankLine with
  | nil => rfl
  | cons m ms =>
    generalize ls.takeWhile isBlankLine = bs
    cases bs <;> cases hopen : opensBlock (trimRight l) <;>
      cases hclose : closesBlock (trimRight m) <;> simp [gapBetween, hopen, hclose]

theorem written_writeLines (w : Writer) (ls : List (List Char)) :
    (w.writeLines ls).written = w.written ++ unlines (w.gapBefore ls ++ arrange ls) := by
  induction ls generalizing w with
  | nil => simp [writeLines, gapBefore, arrange, unlines]
  | cons l ls ih =>
    have hstep : w.writeLines (l :: ls) = (w.writeLine l).writeLines ls := rfl
    rw [hstep, ih]
    cases hl : isBlankLine l with
    | true =>
      rw [arrange_blank hl, gapBefore_writeLine_blank hl, writeLine_blank (trimRight_eq_nil.2 hl)]
    | false =>
      have hinked : trimRight l ≠ [] := by simp [trimRight_eq_nil, hl]
      rw [gapBefore_writeLine_inked hl, gapBefore_cons hl, arrange_cons hl, writeLine_inked hinked]
      cases w.pendingBlank && !closesBlock (trimRight l) with
      | true => simp [unlines]
      | false => simp [unlines]

end Writer

theorem written_eq_arrange (ls : List (List Char)) :
    (Writer.empty.writeLines ls).written = unlines (arrange ls) := by
  rw [Writer.written_writeLines, Writer.gapBefore_empty]
  rfl

theorem gapAfter_append (h : ∀ b ∈ bs, isBlankLine b) (hm : isBlankLine m = false)
    (l : List Char) (vs : List (List Char)) :
    gapAfter l (bs ++ m :: vs) = gapBetween (trimRight l) (trimRight m) bs := by
  have hm' : ¬ isBlankLine m := by simp [hm]
  rw [gapAfter, List.dropWhile_append_of_pos h, List.takeWhile_append_of_pos h,
    List.dropWhile_cons_of_neg hm', List.takeWhile_cons_of_neg hm', List.append_nil]

theorem gapAfter_eq_nil (h : ∀ b ∈ ls, isBlankLine b) (l : List Char) : gapAfter l ls = [] := by
  rw [gapAfter, List.dropWhile_eq_nil_iff.2 h]

theorem arrange_eq_nil : arrange ls = [] ↔ ∀ l ∈ ls, isBlankLine l := by
  induction ls with
  | nil => simp [arrange]
  | cons l ls ih =>
    cases hl : isBlankLine l with
    | true => simp [arrange_blank hl, ih, hl]
    | false => simp [arrange_cons hl, hl]

theorem visible_arrange_cons (h : isBlankLine l = false) (ls ms : List (List Char)) :
    visible (trimRight l :: (gapAfter l ls ++ ms)) = trimRight l :: visible ms := by
  rw [visible_cons (by rw [isBlankLine_trimRight, h]), visible_append, visible_gapAfter,
    List.nil_append]

theorem visible_arrange (ls : List (List Char)) :
    visible (arrange ls) = (visible ls).map trimRight := by
  induction ls with
  | nil => rfl
  | cons l ls ih =>
    cases hl : isBlankLine l with
    | true => rw [arrange_blank hl, visible_blank hl, ih]
    | false => rw [arrange_cons hl, visible_arrange_cons hl, visible_cons hl, ih, List.map_cons]

theorem arrange_append (us ls : List (List Char)) : ∃ us',
    visible us' = (visible us).map trimRight ∧ arrange (us ++ ls) = us' ++ arrange ls := by
  induction us with
  | nil => exact ⟨[], rfl, rfl⟩
  | cons u us ih =>
    obtain ⟨us', hvisible, harrange⟩ := ih
    rw [List.cons_append]
    cases hu : isBlankLine u with
    | true => exact ⟨us', by rw [visible_blank hu, hvisible], by rw [arrange_blank hu, harrange]⟩
    | false =>
      refine ⟨trimRight u :: (gapAfter u (us ++ ls) ++ us'), ?_, ?_⟩
      · rw [visible_arrange_cons hu, hvisible, visible_cons hu, List.map_cons]
      · rw [arrange_cons hu, harrange, List.cons_append, List.append_assoc]

theorem isBlankLine_of_head?_arrange (h : o ∈ (arrange ls).head?) : isBlankLine o = false := by
  induction ls with
  | nil => cases h
  | cons l ls ih =>
    cases hl : isBlankLine l with
    | true => exact ih (by rwa [arrange_blank hl] at h)
    | false =>
      rw [arrange_cons hl] at h
      cases h
      rw [isBlankLine_trimRight, hl]

theorem isBlankLine_of_getLast?_arrange (h : o ∈ (arrange ls).getLast?) :
    isBlankLine o = false := by
  induction ls with
  | nil => cases h
  | cons l ls ih =>
    cases hl : isBlankLine l with
    | true => exact ih (by rwa [arrange_blank hl] at h)
    | false =>
      rw [arrange_cons hl] at h
      by_cases hnil : arrange ls = []
      · rw [hnil, gapAfter_eq_nil (arrange_eq_nil.1 hnil)] at h
        have ho : trimRight l = o := by simpa using h
        rw [← ho, isBlankLine_trimRight, hl]
      · rw [← List.cons_append, List.getLast?_append_of_ne_nil _ hnil] at h
        exact ih h

theorem forall_mem_gapAfter (l : List Char) (ls : List (List Char)) :
    ∀ o ∈ gapAfter l ls, o = [] := by
  unfold gapAfter gapBetween
  split
  · simp
  · split <;> simp

theorem isLine_of_mem_arrange (h : ∀ l ∈ ls, '\n' ∉ l) : ∀ o ∈ arrange ls, IsLine o := by
  induction ls with
  | nil => simp [arrange]
  | cons l ls ih =>
    obtain ⟨hl, hls⟩ := List.forall_mem_cons.1 h
    cases hblank : isBlankLine l with
    | true =>
      rw [arrange_blank hblank]
      exact ih hls
    | false =>
      rw [arrange_cons hblank]
      refine List.forall_mem_cons.2 ⟨Writer.isLine_trimRight hl, ?_⟩
      refine List.forall_mem_append.2 ⟨fun o ho => ?_, ih hls⟩
      rw [forall_mem_gapAfter l ls o ho]
      exact isLine_nil

theorem arranged_arrange (h : ∀ l ∈ ls, '\n' ∉ l) : Arranged ls (arrange ls) where
  unbroken o ho := (isLine_of_mem_arrange h o ho).unbroken
  kept := visible_arrange ls
  between := by
    rintro us l bs m vs rfl hl hbs hm
    obtain ⟨us', hvisible, harrange⟩ := arrange_append us (l :: (bs ++ m :: vs))
    refine ⟨us', gapAfter m vs ++ arrange vs, hvisible, ?_⟩
    rw [harrange, arrange_cons hl, gapAfter_append hbs hm, arrange_skip hbs, arrange_cons hm]
  first o := isBlankLine_of_head?_arrange
  last o := isBlankLine_of_getLast?_arrange

theorem isBlankLine_eq_true_iff (h : Trimmed l) : isBlankLine l ↔ l = [] := by
  rw [← trimRight_eq_nil, trimRight_eq_self h]

theorem exists_visible (ls : List (List Char)) : (∀ b ∈ ls, isBlankLine b) ∨ ∃ bs m vs,
    ls = bs ++ m :: vs ∧ (∀ b ∈ bs, isBlankLine b) ∧ isBlankLine m = false := by
  have hblank : ∀ b ∈ ls.takeWhile isBlankLine, isBlankLine b := fun b => List.mem_takeWhile_imp
  have hsplit := List.takeWhile_append_dropWhile (p := isBlankLine) (l := ls)
  cases hdrop : ls.dropWhile isBlankLine with
  | nil =>
    rw [hdrop, List.append_nil] at hsplit
    exact .inl (hsplit ▸ hblank)
  | cons m vs =>
    have hm := List.head?_dropWhile_not isBlankLine ls
    rw [hdrop] at hsplit hm
    exact .inr ⟨_, m, vs, hsplit.symm, hblank, hm⟩

theorem borders_of_ne_nil (hl : l ≠ []) (hm : m ≠ []) : Borders l m :=
  ⟨fun h => absurd h hm, fun h => absurd h hl⟩

theorem isChain_gapBetween (hl : l ≠ []) (hm : m ≠ []) (h : (m :: os).IsChain Borders)
    (bs : List (List Char)) : (l :: (gapBetween l m bs ++ m :: os)).IsChain Borders := by
  unfold gapBetween
  split
  · exact List.isChain_cons_cons.2 ⟨borders_of_ne_nil hl hm, h⟩
  · rename_i hgap
    simp only [not_or, Bool.not_eq_true] at hgap
    obtain ⟨-, hopen, hclose⟩ := hgap
    refine List.isChain_cons_cons.2 ⟨⟨fun _ => ⟨hl, hopen⟩, fun h => absurd h hl⟩, ?_⟩
    exact List.isChain_cons_cons.2 ⟨⟨fun h => absurd h hm, fun _ => ⟨hm, hclose⟩⟩, h⟩

theorem isChain_arrange (ls : List (List Char)) : (arrange ls).IsChain Borders := by
  induction ls with
  | nil => exact .nil
  | cons l ls ih =>
    cases hl : isBlankLine l with
    | true => rwa [arrange_blank hl]
    | false =>
      rw [arrange_cons hl]
      obtain hblank | ⟨bs, m, vs, rfl, hbs, hm⟩ := exists_visible ls
      · rw [gapAfter_eq_nil hblank, arrange_eq_nil.2 hblank]
        exact .singleton _
      · rw [arrange_skip hbs, arrange_cons hm] at ih ⊢
        rw [gapAfter_append hbs hm]
        exact isChain_gapBetween (by simp [trimRight_eq_nil, hl]) (by simp [trimRight_eq_nil, hm])
          ih bs

theorem neat_arrange (h : ∀ l ∈ ls, '\n' ∉ l) : Neat (arrange ls) where
  lines := isLine_of_mem_arrange h
  blank := isChain_arrange ls
  first hnil := by cases isBlankLine_of_head?_arrange hnil
  last hnil := by cases isBlankLine_of_getLast?_arrange hnil

theorem isBlankLine_eq_false (h : Trimmed l) (hne : l ≠ []) : isBlankLine l = false := by
  rwa [← Bool.not_eq_true, isBlankLine_eq_true_iff h]

theorem gapAfter_of_isChain (hlines : ∀ o ∈ l :: os, IsLine o)
    (h : (l :: os).IsChain Borders) (hlast : os.getLast? ≠ some []) :
    gapAfter l os ++ os.dropWhile isBlankLine = os := by
  obtain ⟨hline, hos⟩ := List.forall_mem_cons.1 hlines
  have hself := trimRight_eq_self hline.trimmed
  cases os with
  | nil => rfl
  | cons m os =>
    obtain ⟨hborders, h⟩ := List.isChain_cons_cons.1 h
    obtain ⟨hm, hos⟩ := List.forall_mem_cons.1 hos
    by_cases hnil : m = []
    · subst hnil
      obtain ⟨-, hopen⟩ := hborders.1 rfl
      cases os with
      | nil => exact absurd rfl hlast
      | cons o os =>
        obtain ⟨hne, hclose⟩ := (List.isChain_cons_cons.1 h).1.2 rfl
        have ho := hos o (List.mem_cons_of_mem _ List.mem_cons_self)
        have hblank := isBlankLine_eq_false ho.trimmed hne
        have hempty : ∀ b ∈ [([] : List Char)], isBlankLine b := by simp [isBlankLine]
        have hgap := gapAfter_append hempty hblank l os
        rw [hself, trimRight_eq_self ho.trimmed] at hgap
        change gapAfter l ([[]] ++ o :: os) ++ _ = _
        rw [hgap, List.dropWhile_cons_of_pos rfl, List.dropWhile_cons_of_neg (by simp [hblank])]
        simp [gapBetween, hopen, hclose]
    · have hblank := isBlankLine_eq_false hm.trimmed hnil
      have hnone : ∀ b ∈ ([] : List (List Char)), isBlankLine b := by simp
      have hgap := gapAfter_append hnone hblank l os
      rw [List.nil_append] at hgap
      rw [hgap, List.dropWhile_cons_of_neg (by simp [hblank])]
      rfl

theorem arrange_of_isChain (hlines : ∀ o ∈ os, IsLine o) (h : os.IsChain Borders)
    (hlast : os.getLast? ≠ some []) : arrange os = os.dropWhile isBlankLine := by
  induction os with
  | nil => rfl
  | cons l os ih =>
    obtain ⟨hl, hos⟩ := List.forall_mem_cons.1 hlines
    have hlast' : os.getLast? ≠ some [] := by
      cases os with
      | nil => simp
      | cons m os => rwa [List.getLast?_cons_cons] at hlast
    have hrest := ih hos h.of_cons hlast'
    by_cases hnil : l = []
    · subst hnil
      rw [arrange_blank rfl, hrest, List.dropWhile_cons_of_pos rfl]
    · have hblank := isBlankLine_eq_false hl.trimmed hnil
      rw [arrange_cons hblank, hrest, gapAfter_of_isChain hlines h hlast',
        trimRight_eq_self hl.trimmed, List.dropWhile_cons_of_neg (by simp [hblank])]

theorem arrange_of_neat (h : Neat os) : arrange os = os := by
  rw [arrange_of_isChain h.lines h.blank h.last]
  cases os with
  | nil => rfl
  | cons l os =>
    have hne : l ≠ [] := by
      rintro rfl
      exact h.first rfl
    have hblank := isBlankLine_eq_false (h.lines l List.mem_cons_self).trimmed hne
    rw [List.dropWhile_cons_of_neg (by simp [hblank])]

def EndsOnce (cs : List Char) : Prop := cs = [] ∨ ∃ u c, cs = u ++ [c, '\n'] ∧ c ≠ '\n'

theorem endsOnce_unlines (h : Neat os) : EndsOnce (unlines os) := by
  obtain rfl | ⟨ls, l, rfl⟩ := os.eq_nil_or_concat'
  · exact .inl rfl
  · have hne : l ≠ [] := by
      rintro rfl
      exact h.last (by simp)
    obtain ⟨u, c, rfl⟩ := (List.eq_nil_or_concat' l).resolve_left hne
    refine .inr ⟨unlines ls ++ u, c, by simp [unlines], ?_⟩
    rintro rfl
    have hline := h.lines (u ++ ['\n']) (by simp)
    exact hline.unbroken (by simp)

theorem layout_eq_arrange (cs : List Char) : layout cs = unlines (arrange (cs.splitOn '\n')) := by
  rw [layout_eq, written_eq_arrange]

/-- The texts that layout leaves as they are. -/
theorem layout_eq_self (cs : List Char) : layout cs = cs ↔ ∃ os, cs = unlines os ∧ Neat os := by
  constructor
  · intro h
    refine ⟨arrange (cs.splitOn '\n'), ?_, neat_arrange (splitOn_spec cs).2⟩
    rw [← layout_eq_arrange, h]
  · rintro ⟨os, rfl, hneat⟩
    rw [layout, lines_unlines hneat.lines, written_eq_arrange, arrange_of_neat hneat]

theorem isFormatted_eq_ok_true : isFormatted s = .ok true ↔
    (∃ file, Parse.parseSource s = .ok file) ∧ layout s.toList = s.toList := by
  rw [isFormatted, bind_eq_ok]
  constructor
  · rintro ⟨t, ht, heq⟩
    obtain ⟨hfile, rfl⟩ := format_eq_ok.1 ht
    have hself : String.ofList (layout s.toList) = s := by simpa using heq
    exact ⟨hfile, by rw [← String.toList_inj, String.toList_ofList] at hself; exact hself⟩
  · rintro ⟨hfile, heq⟩
    refine ⟨_, format_eq_ok.2 ⟨hfile, rfl⟩, ?_⟩
    rw [heq]
    simp

/-- What layout makes of lines: they are arranged, and there is one line break at the end. The
sources that are formatted are those that can be lexed and parsed and are arranged like that. -/
theorem layout_rules (h : ∀ l ∈ ls, '\n' ∉ l) :
    ((Writer.empty.writeLines ls).written = unlines (arrange ls) ∧ Arranged ls (arrange ls) ∧
      EndsOnce (Writer.empty.writeLines ls).written) ∧
    ∀ s, isFormatted s = .ok true ↔
      (∃ file ts, lex s = .ok ts ∧ Parse.parse ts = .ok file) ∧
        ∃ os, s.toList = unlines os ∧ Neat os := by
  refine ⟨⟨written_eq_arrange ls, arranged_arrange h, ?_⟩, fun s => ?_⟩
  · rw [written_eq_arrange]
    exact endsOnce_unlines (neat_arrange h)
  · simp only [isFormatted_eq_ok_true, parseSource_eq_ok, layout_eq_self]

end

theorem layout_rules_group :
    let ls := ["", "const (  ", " ", "\tA = 1\t", "", "  ", "\tB", "", "  )", "\t"].map (·.toList)
    let os := ["const (", "\tA = 1", "", "\tB", "  )"].map (·.toList)
    (∀ l ∈ ls, '\n' ∉ l) ∧ (Writer.empty.writeLines ls).written = unlines os ∧ Arranged ls os ∧
      EndsOnce (unlines os) := by
  intro ls os
  have hlines : ∀ l ∈ ls, '\n' ∉ l := by decide
  have hos : arrange ls = os := by decide
  obtain ⟨hwritten, harranged, hend⟩ := (layout_rules hlines).1
  rw [hos] at hwritten harranged
  exact ⟨hlines, hwritten, harranged, hwritten ▸ hend⟩

end GoEnum.Layout
