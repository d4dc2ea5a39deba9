import GoEnum.Build.Target
import GoEnum.Proofs.Layout.Tidy
import GoEnum.Proofs.Token.Gaps

/-!
The lines in front of a build constraint. They are told apart by their beginnings, and not cut into
lexemes; so a comment may be taken to be closed where it is not, or to be all of its line.
-/

namespace GoEnum.Build

open Text Token
open Layout (exists_trimRight splitOn_spec splitOn_unlines)

structure Marks (l expr : List Char) : Prop where
  text : trim l = "//go:build".toList ++ expr
  apart : Apart expr

def closes (l : List Char) : Bool := occursIn "*/".toList l

/-- A line that is skipped inside a comment or outside, and whether a comment is taken to be open
after it. -/
inductive Skims : Bool → List Char → Bool → Prop
  | inside : Skims true l (!closes (trim l))
  | blank : trim l = [] → Skims false l false
  | lineComment : ['/', '/'] <+: trim l → (∀ expr, ¬ Marks l expr) → Skims false l false
  | blockComment : ['/', '*'] <+: trim l → Skims false l (!closes (trim l))

inductive SkimsAll : Bool → List (List Char) → Bool → Prop
  | nil : SkimsAll b [] b
  | cons : Skims b l b' → SkimsAll b' ls b'' → SkimsAll b (l :: ls) b''

section

variable {l m s t cs expr : List Char} {b b' : Bool} {ls before : List (List Char)}

theorem after?_eq_some {part rest : List Char} :
    after? part cs = some rest ↔ cs = part ++ rest := by
  rw [after?]
  split
  · rename_i hpart
    obtain ⟨rest', rfl⟩ := List.isPrefixOf_iff_prefix.1 hpart
    simp [eq_comm]
  · rename_i hpart
    refine ⟨nofun, ?_⟩
    rintro rfl
    exact absurd (List.isPrefixOf_iff_prefix.2 (List.prefix_append _ _)) hpart

theorem after?_eq_none {part : List Char} : after? part cs = none ↔ ¬ part <+: cs := by
  rw [after?, ite_eq_right_iff]
  simp

theorem constraintIn_inked (h : trim l ≠ []) (ls : List (List Char)) :
    constraintIn false (l :: ls) = match after? "//go:build".toList (trim l) with
      | some [] => some <$> Constraint.parse []
      | some (c :: cs) =>
        if isBlank c then some <$> Constraint.parse (c :: cs) else constraintIn false ls
      | none =>
        if "//".toList.isPrefixOf (trim l) then constraintIn false ls
        else if "/*".toList.isPrefixOf (trim l) then constraintIn (!closes (trim l)) ls
        else .ok none := by
  rw [constraintIn, if_neg (by decide), if_neg (by simpa using h)]
  rfl

theorem Marks.constraintIn_eq (h : Marks l expr) (ls : List (List Char)) :
    constraintIn false (l :: ls) = some <$> Constraint.parse expr := by
  rw [constraintIn_inked (by simp [h.text]), after?_eq_some.2 h.text]
  cases expr with
  | nil => rfl
  | cons c expr => exact if_pos (h.apart c rfl)

theorem Skims.constraintIn_eq (h : Skims b l b') (ls : List (List Char)) :
    constraintIn b (l :: ls) = constraintIn b' ls := by
  have hinked : ∀ {d : Char}, ['/', d] <+: trim l → trim l ≠ [] := fun hopen hblank => by
    simp [hblank] at hopen
  cases h with
  | inside => rfl
  | blank hblank => simp [constraintIn, hblank]
  | lineComment hline hnone =>
    rw [constraintIn_inked (hinked hline)]
    split
    · exact absurd ⟨after?_eq_some.1 ‹_›, apart_nil⟩ (hnone [])
    · rename_i c expr hmark
      refine if_neg fun hc => hnone (c :: expr) ⟨after?_eq_some.1 hmark, apart_cons hc expr⟩
    · exact if_pos (List.isPrefixOf_iff_prefix.2 hline)
  | blockComment hopen =>
    obtain ⟨rest, hrest⟩ := hopen
    have hline : ¬ "//".toList.isPrefixOf (trim l) = true := by simp [← hrest]
    have hmark : after? "//go:build".toList (trim l) = none := by
      rw [after?_eq_none, ← hrest]
      simp
    rw [constraintIn_inked (hinked ⟨rest, hrest⟩), hmark]
    exact (if_neg hline).trans (if_pos (List.isPrefixOf_iff_prefix.2 ⟨rest, hrest⟩))

theorem SkimsAll.constraintIn_eq (h : SkimsAll b before b') (ls : List (List Char)) :
    constraintIn b (before ++ ls) = constraintIn b' ls := by
  induction h with
  | nil => rfl
  | cons hl _ ih => exact (hl.constraintIn_eq _).trans ih

theorem skims_or_marks (b : Bool) (l : List Char) : (∃ b', Skims b l b') ∨
    (b = false ∧ ∃ expr, Marks l expr) ∨ ∀ ls, constraintIn b (l :: ls) = .ok none := by
  cases b with
  | true => exact .inl ⟨_, .inside⟩
  | false =>
    by_cases hblank : trim l = []
    · exact .inl ⟨false, .blank hblank⟩
    by_cases hmarks : ∃ expr, Marks l expr
    · exact .inr (.inl ⟨rfl, hmarks⟩)
    by_cases hline : ['/', '/'] <+: trim l
    · exact .inl ⟨false, .lineComment hline (not_exists.1 hmarks)⟩
    by_cases hopen : ['/', '*'] <+: trim l
    · exact .inl ⟨_, .blockComment hopen⟩
    refine .inr (.inr fun ls => ?_)
    have hmark : after? "//go:build".toList (trim l) = none :=
      after?_eq_none.2 fun hmark => hline (List.IsPrefix.trans (by decide) hmark)
    rw [constraintIn_inked hblank, hmark]
    exact (if_neg (mt List.isPrefixOf_iff_prefix.1 hline)).trans
      (if_neg (mt List.isPrefixOf_iff_prefix.1 hopen))

theorem exists_marks (h : constraintIn b ls ≠ .ok none) :
    ∃ before l after expr, ls = before ++ l :: after ∧ SkimsAll b before false ∧
      Marks l expr := by
  induction ls generalizing b with
  | nil => exact absurd rfl h
  | cons l ls ih =>
    obtain ⟨b', hskims⟩ | ⟨rfl, expr, hmarks⟩ | hstop := skims_or_marks b l
    · rw [hskims.constraintIn_eq] at h
      obtain ⟨before, l', after, expr, rfl, hbefore, hmarks⟩ := ih h
      exact ⟨l :: before, l', after, expr, rfl, .cons hskims hbefore, hmarks⟩
    · exact ⟨[], l, ls, expr, rfl, .nil, hmarks⟩
    · exact absurd (hstop ls) h

theorem exists_trim (l : List Char) :
    ∃ s t, l = s ++ (trim l ++ t) ∧ (∀ c ∈ s, isBlank c) ∧ ∀ c ∈ t, isBlank c := by
  obtain ⟨t, hl, ht⟩ := exists_trimRight (trimLeft l)
  refine ⟨l.takeWhile isBlank, t, ?_, fun c hc => List.mem_takeWhile_imp hc, ht⟩
  rw [trim, ← hl]
  exact List.takeWhile_append_dropWhile.symm

theorem trimRight_concat (hc : isBlank c) (l : List Char) : trimRight (l ++ [c]) = trimRight l := by
  rw [trimRight, List.reverse_append, List.reverse_singleton, List.singleton_append,
    List.dropWhile_cons_of_pos hc, trimRight]

theorem trim_concat (hc : isBlank c) (l : List Char) : trim (l ++ [c]) = trim l := by
  rw [trim, trimLeft, List.dropWhile_append]
  split
  · rename_i hempty
    rw [trim, trimLeft, List.isEmpty_iff.1 hempty, List.dropWhile_cons_of_pos hc]
    rfl
  · exact trimRight_concat hc _

theorem trim_dropReturn (l : List Char) : trim (dropReturn l) = trim l := by
  unfold dropReturn
  split
  · rename_i r hr
    rw [List.reverse_eq_cons_iff.1 hr, trim_concat (by decide)]
  · rfl

theorem constraintIn_congr {l' : List Char} {ls' : List (List Char)} (hl : trim l = trim l')
    (hls : ∀ b, constraintIn b ls = constraintIn b ls') (b : Bool) :
    constraintIn b (l :: ls) = constraintIn b (l' :: ls') := by
  rw [constraintIn, constraintIn, hl]
  simp only [hls]

theorem constraintIn_finishLines (b : Bool) (ls : List (List Char)) :
    constraintIn b (finishLines ls) = constraintIn b ls := by
  induction ls generalizing b with
  | nil => rfl
  | cons l ls ih =>
    cases ls with
    | nil =>
      cases l with
      | nil => cases b <;> rfl
      | cons c cs => rfl
    | cons l' ls => exact constraintIn_congr (trim_dropReturn l) ih b

theorem closes_eq (l : List Char) : closes l = (commentEnd? l).isSome := by
  unfold closes
  fun_induction commentEnd? l with
  | case1 => rfl
  | case2 cs => rfl
  | case3 c cs hclose ih =>
    have hmark : "*/".toList.isPrefixOf (c :: cs) = false := by
      by_contra hprefix
      obtain ⟨rest, hrest⟩ := List.isPrefixOf_iff_prefix.1 (Bool.eq_true_of_not_eq_false hprefix)
      obtain ⟨rfl, rfl⟩ := List.cons.inj hrest
      exact hclose rest rfl rfl
    rw [Option.isSome_map, ← ih, occursIn, hmark, Bool.false_or]

theorem isSome_commentEnd?_append (hs : ∀ c ∈ s, isBlank c) (cs : List Char) :
    (commentEnd? (s ++ cs)).isSome = (commentEnd? cs).isSome := by
  induction s with
  | nil => rfl
  | cons c s ih =>
    obtain ⟨hc, hs⟩ := List.forall_mem_cons.1 hs
    have hstar := ne_of_isBlank hc (d := '*') (by decide)
    rw [List.cons_append, commentEnd?_cons fun _ h => absurd h hstar, Option.isSome_map, ih hs]

theorem commentEnd?_tail (h : commentEnd? (c :: cs) = none) : commentEnd? cs = none := by
  rw [commentEnd?.eq_def] at h
  split at h
  · rename_i hnil
    cases hnil
  · cases h
  · rename_i hcons
    obtain ⟨rfl, rfl⟩ := List.cons.inj hcons
    exact Option.map_eq_none_iff.1 h

theorem closes_trim (l : List Char) : closes (trim l) = closes l := by
  obtain ⟨s, t, hl, hs, ht⟩ := exists_trim l
  have hapart : Apart t := fun c hc => ht c (List.mem_of_mem_head? hc)
  have hnone : commentEnd? t = none := by
    have hblanks := isSome_commentEnd?_append ht []
    rw [List.append_nil] at hblanks
    simpa [commentEnd?] using hblanks
  conv_rhs => rw [hl]
  rw [closes_eq, closes_eq, isSome_commentEnd?_append hs, commentEnd?_append_apart hapart, hnone]
  simp

def opening (inComment : Bool) : List Char := if inComment then ['/', '*'] else []

theorem outcome_inside (h : commentEnd? l = none) (rest : List Char) :
    outcome (String.ofList ('/' :: '*' :: (l ++ '\n' :: rest))) =
      outcome (String.ofList ('/' :: '*' :: rest)) := by
  have hline : commentEnd? ('\n' :: rest) = (commentEnd? rest).map (· + 1) :=
    commentEnd?_cons nofun
  rw [outcome_blockComment, outcome_blockComment,
    commentEnd?_append_apart (apart_cons (by decide) rest), h, hline]
  cases commentEnd? rest with
  | none => rfl
  | some n =>
    have hdrop : (l ++ '\n' :: rest).drop (n + 1 + l.length) = rest.drop n := by
      rw [Nat.add_comm, ← List.drop_drop, List.drop_left, List.drop_succ_cons]
    simp only [Option.map_some, Option.none_or, hdrop]

theorem outcome_of_gaps (h : Gaps ('\n' :: rest) l) :
    outcome (String.ofList (l ++ '\n' :: rest)) = outcome (String.ofList rest) := by
  have hbreak : lexeme '\n' rest = ⟨.lineBreak, 0, []⟩ := rfl
  rw [h.outcome_append, outcome_skip hbreak nofun, List.drop_zero]

theorem gaps_of_isBlank (hs : ∀ c ∈ s, isBlank c)
    (hok : outcome (String.ofList (s ++ cs)) = .ok ks) (rest : List Char) : Gaps rest s := by
  induction s with
  | nil => exact .nil
  | cons c s ih =>
    obtain ⟨hc, hs⟩ := List.forall_mem_cons.1 hs
    obtain ⟨ts, hlex, -⟩ := outcome_eq_ok.1 hok
    obtain ⟨ps, hcut, -⟩ := lex_eq_ok.1 hlex
    rw [String.toList_ofList, List.cons_append] at hcut
    have hblank : c ∈ [' ', '\t', '\r', '\n'] := by
      cases hcut with
      | cons hfaults _ => exact mem_of_faultless hc hfaults
    have hgap : ∀ r, Gap r [c] := fun _ => .blank hblank
    rw [List.cons_append, ← List.singleton_append, (hgap (s ++ cs)).gaps.outcome_append] at hok
    exact .cons (hgap _) (ih hs hok)

theorem exists_of_prefix_trim (h : marks <+: trim l) :
    ∃ s m, l = s ++ (marks ++ m) ∧ ∀ c ∈ s, isBlank c := by
  obtain ⟨s, t, hl, hs, -⟩ := exists_trim l
  obtain ⟨m, hm⟩ := h
  rw [← hm, List.append_assoc] at hl
  exact ⟨s, m ++ t, hl, hs⟩

/-- A line without closing marks is taken as the lexer takes it. Where there is such a mark, it has
to be known that nothing but blanks and whole comments is on the line. -/
theorem outcome_of_skims (h : Skims b l b') (hl : '\n' ∉ l)
    (hok : outcome (String.ofList (opening b ++ (l ++ cs))) = .ok ks)
    (hclose : closes l → b' = false → outcome (String.ofList (opening b ++ l)) = .ok [.eof])
    (rest : List Char) : outcome (String.ofList (opening b ++ (l ++ '\n' :: rest))) =
      outcome (String.ofList (opening b' ++ rest)) := by
  have hstops : Stops (· != '\n') [] → Stops (· != '\n') ('\n' :: rest) := fun _ => stops_cons rfl
  have hclosed : closes l → b' = false →
      outcome (String.ofList (opening b ++ (l ++ '\n' :: rest))) =
        outcome (String.ofList rest) := fun hmark hb' => by
    rw [← List.append_assoc]
    exact outcome_of_gaps ((gaps_iff_outcome.2 (hclose hmark hb')).congr hstops)
  cases h with
  | inside =>
    rw [closes_trim] at hclosed ⊢
    cases hmark : closes l with
    | true => exact hclosed hmark (by rw [hmark]; rfl)
    | false =>
      rw [closes_eq, Option.isSome_eq_false_iff, Option.isNone_iff_eq_none] at hmark
      exact outcome_inside hmark rest
  | blank hblank =>
    obtain ⟨s, t, hst, hs, ht⟩ := exists_trim l
    have hall : ∀ c ∈ l, isBlank c := by
      rw [hblank] at hst
      rw [hst]
      exact List.forall_mem_append.2 ⟨hs, ht⟩
    exact outcome_of_gaps (gaps_of_isBlank hall hok _)
  | lineComment hline _ =>
    obtain ⟨s, m, rfl, hs⟩ := exists_of_prefix_trim hline
    rw [List.append_assoc] at hok
    have hbreak : '\n' ∉ m := fun hmem => hl (by simp [hmem])
    have hgap : Gap ('\n' :: rest) ('/' :: '/' :: m) := .lineComment hbreak (stops_cons rfl)
    exact outcome_of_gaps ((gaps_of_isBlank hs hok _).append hgap.gaps)
  | blockComment hopen =>
    rw [closes_trim] at hclosed ⊢
    cases hmark : closes l with
    | true => exact hclosed hmark (by rw [hmark]; rfl)
    | false =>
      obtain ⟨s, m, rfl, hs⟩ := exists_of_prefix_trim hopen
      rw [closes_eq, isSome_commentEnd?_append hs, Option.isSome_eq_false_iff,
        Option.isNone_iff_eq_none] at hmark
      rw [List.append_assoc] at hok
      have hskip := (gaps_of_isBlank hs hok ('/' :: '*' :: (m ++ '\n' :: rest))).outcome_append
      have hinside := outcome_inside (commentEnd?_tail (commentEnd?_tail hmark)) rest
      rw [List.append_assoc]
      exact hskip.trans hinside

def ClosesAlike : Bool → List (List Char) → Prop
  | _, [] => True
  | b, l :: ls => ∀ b', Skims b l b' →
    (closes l → b' = false → outcome (String.ofList (opening b ++ l)) = .ok [.eof]) ∧
      ClosesAlike b' ls

theorem Skims.unique (h : Skims b l b') (h' : Skims b l b'') : b' = b'' := by
  have hempty : ∀ {d : Char}, trim l = [] → ¬ ['/', d] <+: trim l := fun hblank hopen => by
    simp [hblank] at hopen
  have hmarks : ['/', '/'] <+: trim l → ¬ ['/', '*'] <+: trim l := fun hline hopen => by
    obtain ⟨rest, hrest⟩ := hline
    simp [← hrest] at hopen
  cases h with
  | inside =>
    cases h'
    rfl
  | blank hblank =>
    cases h' with
    | blank _ => rfl
    | lineComment hline _ => exact absurd hline (hempty hblank)
    | blockComment hopen => exact absurd hopen (hempty hblank)
  | lineComment hline _ =>
    cases h' with
    | blockComment hopen => exact absurd hopen (hmarks hline)
    | _ => rfl
  | blockComment hopen =>
    cases h' with
    | blank hblank => exact absurd hopen (hempty hblank)
    | lineComment hline _ => exact absurd hopen (hmarks hline)
    | blockComment _ => rfl

theorem Skims.closesAlike (h : Skims b l b')
    (hmark : closes l → b' = false → outcome (String.ofList (opening b ++ l)) = .ok [.eof])
    (hrest : ClosesAlike b' ls) : ClosesAlike b (l :: ls) := fun _ h' => by
  obtain rfl := h.unique h'
  exact ⟨hmark, hrest⟩

theorem outcome_of_skimsAll (h : SkimsAll b ls b') (hlines : ∀ l ∈ ls, '\n' ∉ l)
    (hok : outcome (String.ofList (opening b ++ (unlines ls ++ cs))) = .ok ks)
    (hclose : ClosesAlike b ls) (rest : List Char) :
    outcome (String.ofList (opening b ++ (unlines ls ++ rest))) =
      outcome (String.ofList (opening b' ++ rest)) := by
  induction h with
  | nil => rfl
  | @cons b l b₁ ls b₂ hskims _ ih =>
    obtain ⟨hl, hlines⟩ := List.forall_mem_cons.1 hlines
    obtain ⟨hmark, hrest⟩ := hclose b₁ hskims
    have htext : ∀ v, unlines (l :: ls) ++ v = l ++ '\n' :: (unlines ls ++ v) := by simp [unlines]
    have hstep := outcome_of_skims hskims hl (htext cs ▸ hok) hmark
    rw [htext, hstep] at hok ⊢
    exact ih hlines hok hrest

end

/-- The line of a source that is used as its constraint: the first one after lines that are all
skipped. -/
structure UsedLine (s : String) (before : List (List Char)) (line expr : List Char) : Prop where
  text : ∃ rest, s.toList = unlines before ++ (line ++ rest) ∧ Stops (· != '\n') rest
  unbroken : ∀ l ∈ line :: before, '\n' ∉ l
  skipped : SkimsAll false before false
  marked : Marks line expr

section

variable {s : String} {before : List (List Char)} {line expr : List Char}

theorem lineStart_unlines (ls : List (List Char)) : LineStart (unlines ls) := by
  obtain rfl | ⟨ls, l, rfl⟩ := ls.eq_nil_or_concat
  · exact .inl rfl
  · refine .inr ⟨unlines ls ++ l, ?_⟩
    rw [List.concat_eq_append, unlines_append]
    simp [unlines]

theorem exists_rest (after : List (List Char)) :
    ∃ rest, '\n' :: unlines after = rest ++ ['\n'] ∧ Stops (· != '\n') rest := by
  obtain rfl | ⟨after, l, rfl⟩ := after.eq_nil_or_concat
  · exact ⟨[], rfl, by simp [Stops]⟩
  · refine ⟨'\n' :: (unlines after ++ l), ?_, stops_cons rfl⟩
    rw [List.concat_eq_append, unlines_append]
    simp [unlines]

theorem findConstraint_eq (s : String) :
    findConstraint s = constraintIn false (s.toList.splitOn '\n') :=
  constraintIn_finishLines false _

theorem exists_usedLine (h : findConstraint s ≠ .ok none) :
    ∃ before line expr, UsedLine s before line expr := by
  rw [findConstraint_eq] at h
  obtain ⟨before, line, after, expr, hsplit, hskipped, hmarked⟩ := exists_marks h
  obtain ⟨htext, hunbroken⟩ := splitOn_spec s.toList
  rw [hsplit] at htext hunbroken
  obtain ⟨hbefore, hafter⟩ := List.forall_mem_append.1 hunbroken
  obtain ⟨hline, -⟩ := List.forall_mem_cons.1 hafter
  obtain ⟨rest, hrest, hstops⟩ := exists_rest after
  have hs : s.toList ++ ['\n'] = unlines before ++ (line ++ rest) ++ ['\n'] := by
    rw [← htext, unlines_append, List.append_assoc, List.append_assoc, ← hrest]
    simp [unlines]
  exact ⟨before, line, expr, ⟨rest, List.append_cancel_right hs, hstops⟩,
    List.forall_mem_cons.2 ⟨hline, hbefore⟩, hskipped, hmarked⟩

theorem UsedLine.findConstraint_eq (h : UsedLine s before line expr) :
    findConstraint s = some <$> Constraint.parse expr := by
  obtain ⟨rest, htext, hrest⟩ := h.text
  obtain ⟨hline, hbefore⟩ := List.forall_mem_cons.1 h.unbroken
  rw [Build.findConstraint_eq, htext, splitOn_unlines hbefore, h.skipped.constraintIn_eq]
  cases rest with
  | nil =>
    rw [List.append_nil, List.splitOn_eq_singleton hline]
    exact h.marked.constraintIn_eq []
  | cons c rest =>
    obtain rfl : c = '\n' := by simpa [Stops] using hrest
    rw [List.splitOn_append_cons_self_of_not_mem hline]
    exact h.marked.constraintIn_eq _

theorem UsedLine.inHeader_iff (h : UsedLine s before line expr) (hlex : lex s = .ok ts) :
    InHeader s (unlines before) line ↔ outcome (String.ofList (unlines before)) = .ok [.eof] := by
  obtain ⟨rest, htext, hrest⟩ := h.text
  obtain ⟨u, v, hline, hu, -⟩ := exists_trim line
  have hcomment : line = u ++ '/' :: '/' :: ("go:build".toList ++ expr ++ v) := by
    rw [h.marked.text] at hline
    simpa using hline
  have hunbroken := h.unbroken line List.mem_cons_self
  rw [hcomment] at htext hunbroken ⊢
  refine Token.inHeader_iff hlex htext (lineStart_unlines before) hu (fun hmem => ?_) hrest
  exact hunbroken (List.mem_append_right _ (.tail _ (.tail _ hmem)))

/-- The line that a constraint is taken from begins before the first token and lies outside every
block comment exactly if all before it is read as blanks and whole comments. It is so as long as
comments are closed alike; lines that close none never matter. -/
theorem constraint_in_header (hlex : lex s = .ok ts) (h : findConstraint s ≠ .ok none) :
    (∃ before line expr, UsedLine s before line expr) ∧
    ∀ before line expr, UsedLine s before line expr →
      findConstraint s = some <$> Constraint.parse expr ∧
      (InHeader s (unlines before) line ↔
        outcome (String.ofList (unlines before)) = .ok [.eof]) ∧
      (ClosesAlike false before → InHeader s (unlines before) line) := by
  refine ⟨exists_usedLine h, fun before line expr hused =>
    ⟨hused.findConstraint_eq, hused.inHeader_iff hlex, ?_⟩⟩
  intro hclose
  obtain ⟨rest, htext, -⟩ := hused.text
  have hok : outcome (String.ofList (opening false ++ (unlines before ++ (line ++ rest)))) =
      .ok (ts.map (·.node)) := by
    refine outcome_eq_ok.2 ⟨ts, ?_, rfl⟩
    rw [opening, if_neg (by decide), List.nil_append, ← htext, String.ofList_toList, hlex]
  have hbefore : ∀ l ∈ before, '\n' ∉ l := fun l hl => hused.unbroken l (.tail _ hl)
  have hskip := outcome_of_skimsAll hused.skipped hbefore hok hclose []
  rw [List.append_nil] at hskip
  exact (hused.inHeader_iff hlex).2 (hskip.trans (by decide +kernel))

def guarded : String := "/* for\nunix */\n\n//go:build unix\n\npackage p\n"

theorem constraint_in_header_guarded : ∃ ts, lex guarded = .ok ts ∧
    findConstraint guarded ≠ .ok none ∧
    ∃ before line expr, UsedLine guarded before line expr ∧ ClosesAlike false before ∧
      InHeader guarded (unlines before) line := by
  obtain ⟨ts, hts, -⟩ : ∃ ts, lex guarded = .ok ts ∧ ts ≠ [] := by decide +kernel
  have hfound : findConstraint guarded ≠ .ok none := by decide +kernel
  have hfirst : Skims false "/* for".toList true := .blockComment (by decide)
  have hsecond : Skims true "unix */".toList false := .inside
  have hthird : Skims false [] false := .blank rfl
  have hused : UsedLine guarded ["/* for".toList, "unix */".toList, []]
      "//go:build unix".toList " unix".toList := by
    refine ⟨⟨"\n\npackage p\n".toList, by decide, by simp [Stops]⟩, by decide, ?_, by decide, ?_⟩
    · exact .cons hfirst (.cons hsecond (.cons hthird .nil))
    · exact apart_cons (by decide) _
  have hclose : ClosesAlike false ["/* for".toList, "unix */".toList, []] := by
    refine hfirst.closesAlike (by decide) (hsecond.closesAlike (fun _ _ => ?_) ?_)
    · decide +kernel
    · exact hthird.closesAlike (fun hmark => absurd hmark (by decide)) trivial
  exact ⟨ts, hts, hfound, _, _, _, hused, hclose,
    ((constraint_in_header hts hfound).2 _ _ _ hused).2.2 hclose⟩

/-- A constraint is found in a source that can be lexed, on a line that is not in the header. -/
def Misplaced (s : String) (c : Constraint) : Prop :=
  findConstraint s = .ok (some c) ∧ ∃ before line expr, UsedLine s before line expr ∧
    ∃ ts, lex s = .ok ts ∧ ¬ InHeader s (unlines before) line

theorem UsedLine.misplaced (h : UsedLine s before line expr)
    (hfound : findConstraint s = .ok (some c)) (hok : (lex s).toOption.isSome)
    (hbefore : outcome (String.ofList (unlines before)) ≠ .ok [.eof]) : Misplaced s c := by
  refine ⟨hfound, before, line, expr, h, ?_⟩
  cases hlex : lex s with
  | error es =>
    rw [hlex] at hok
    cases hok
  | ok ts => exact ⟨ts, rfl, fun hin => hbefore ((h.inHeader_iff hlex).1 hin)⟩

/-- A constraint behind the package clause, which stands beside the end of a comment, and one inside
a comment whose opening star is taken for its end. -/
theorem constraint_misplaced :
    Misplaced "/*\n*/ package p\n//go:build ignore\n" (.tag "ignore") ∧
      Misplaced "/*/\n//go:build ignore\n*/\npackage p\n" (.tag "ignore") := by
  have hmarks : Marks "//go:build ignore".toList " ignore".toList :=
    ⟨by decide, apart_cons (by decide) _⟩
  constructor
  · have hopen : Skims false "/*".toList true := .blockComment (by decide)
    have hused : UsedLine "/*\n*/ package p\n//go:build ignore\n"
        ["/*".toList, "*/ package p".toList] "//go:build ignore".toList " ignore".toList :=
      ⟨⟨"\n".toList, by decide, by simp [Stops]⟩, by decide,
        .cons hopen (.cons .inside .nil), hmarks⟩
    exact hused.misplaced (by decide +kernel) (by decide +kernel) (by decide +kernel)
  · have hclosed : Skims false "/*/".toList false := .blockComment (by decide)
    have hused : UsedLine "/*/\n//go:build ignore\n*/\npackage p\n"
        ["/*/".toList] "//go:build ignore".toList " ignore".toList :=
      ⟨⟨"\n*/\npackage p\n".toList, by decide, by simp [Stops]⟩, by decide,
        .cons hclosed .nil, hmarks⟩
    exact hused.misplaced (by decide +kernel) (by decide +kernel) (by decide +kernel)

end

end GoEnum.Build
