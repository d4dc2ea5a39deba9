import GoEnum.Diagnostic
import GoEnum.Proofs.Layout.Tidy
import GoEnum.Proofs.Token.Lossless

namespace GoEnum

open Layout Token

/-- The byte `n` is the place of `info` in a text: so many whole lines come before it, and so many
characters of its own line. -/
structure LineInfo.Locates (info : LineInfo) (cs : List Char) (n : Nat) : Prop where
  line_pos : 1 ≤ info.line
  text_eq : (cs.splitOn '\n')[info.line - 1]? = some info.text.toList
  column_pos : 1 ≤ info.column
  column_le : info.column ≤ info.text.toList.length + 1
  offset_eq : byteSize (unlines ((cs.splitOn '\n').take (info.line - 1))) +
    byteSize (info.text.toList.take (info.column - 1)) = n

section

variable {ls : List (List Char)} {head tail rest : List Char}

def LineStops (rest : List Char) : Prop := rest.head?.all (· == '\n')

theorem takeWhile_line (h : '\n' ∉ tail) (hrest : LineStops rest) :
    (tail ++ rest).takeWhile (· != '\n') = tail := by
  rw [List.takeWhile_append_of_pos fun c hc => bne_iff_ne.2 (ne_of_mem_of_not_mem hc h)]
  cases rest with
  | nil => rw [List.takeWhile_nil, List.append_nil]
  | cons c rest =>
    have hc : ¬ (c != '\n') = true := by simpa [LineStops] using hrest
    rw [List.takeWhile_cons_of_neg (p := (· != '\n')) hc, List.append_nil]

theorem reverse_takeWhile_line (h : '\n' ∉ head) :
    ((unlines ls ++ head).reverse.takeWhile (· != '\n')).reverse = head := by
  have hrest : LineStops (unlines ls).reverse := by
    obtain rfl | ⟨ls, l, rfl⟩ := ls.eq_nil_or_concat
    · rfl
    · simp [LineStops, unlines]
  rw [List.reverse_append, takeWhile_line (mt List.mem_reverse.1 h) hrest, List.reverse_reverse]

theorem count_unlines (h : ∀ l ∈ ls, '\n' ∉ l) : (unlines ls).count '\n' = ls.length := by
  induction ls with
  | nil => rfl
  | cons l ls ih =>
    obtain ⟨hl, hls⟩ := List.forall_mem_cons.1 h
    rw [unlines, List.flatMap_cons, ← unlines, List.count_append, ih hls, List.count_append,
      List.count_eq_zero.2 hl]
    exact Nat.add_comm _ _

theorem exists_lines (u : List Char) :
    ∃ ls head, u = unlines ls ++ head ∧ (∀ l ∈ ls, '\n' ∉ l) ∧ '\n' ∉ head := by
  obtain ⟨htext, hlines⟩ := splitOn_spec u
  obtain hnil | ⟨ls, head, hsplit⟩ := (u.splitOn '\n').eq_nil_or_concat
  · simp [hnil, unlines] at htext
  · rw [hsplit, List.concat_eq_append] at htext hlines
    refine ⟨ls, head, ?_, fun l hl => hlines l (by simp [hl]), hlines head (by simp)⟩
    rw [unlines_append] at htext
    simpa [unlines, ← List.append_assoc] using htext.symm

theorem exists_lineStops (v : List Char) : ∃ tail rest, v = tail ++ rest ∧ '\n' ∉ tail ∧
    LineStops rest := by
  refine ⟨v.takeWhile (· != '\n'), v.dropWhile (· != '\n'), List.takeWhile_append_dropWhile.symm,
    fun h => ?_, ?_⟩
  · simpa using List.mem_takeWhile_imp h
  · have hhead := List.head?_dropWhile_not (· != '\n') v
    rw [LineStops]
    cases hrest : (v.dropWhile (· != '\n')).head? with
    | none => rfl
    | some c => simpa [hrest] using hhead

theorem lineInfo_of_lines (hls : ∀ l ∈ ls, '\n' ∉ l) (hhead : '\n' ∉ head) (htail : '\n' ∉ tail)
    (hrest : LineStops rest) (htext : String.toList s = unlines ls ++ (head ++ (tail ++ rest))) :
    lineInfo s (byteSize (unlines ls) + byteSize head) =
      ⟨ls.length + 1, head.length + 1, String.ofList (head ++ tail)⟩ := by
  rw [← byteSize_append, lineInfo, htext, ← List.append_assoc, splitBytes_byteSize]
  dsimp only
  rw [reverse_takeWhile_line hhead, takeWhile_line htail hrest, List.count_append,
    count_unlines hls, List.count_eq_zero.2 hhead, Nat.add_zero]

theorem splitOn_lines (hls : ∀ l ∈ ls, '\n' ∉ l) (hline : '\n' ∉ line) (hrest : LineStops rest) :
    ∃ ms, (unlines ls ++ (line ++ rest)).splitOn '\n' = ls ++ line :: ms := by
  rw [splitOn_unlines hls]
  cases rest with
  | nil => exact ⟨[], by rw [List.append_nil, List.splitOn_eq_singleton hline]⟩
  | cons c rest =>
    obtain rfl : c = '\n' := by simpa [LineStops] using hrest
    exact ⟨_, by rw [List.splitOn_append_cons_self_of_not_mem hline]⟩

theorem locates_of_lines (hls : ∀ l ∈ ls, '\n' ∉ l) (hhead : '\n' ∉ head) (htail : '\n' ∉ tail)
    (hrest : LineStops rest) :
    LineInfo.Locates ⟨ls.length + 1, head.length + 1, String.ofList (head ++ tail)⟩
      (unlines ls ++ (head ++ (tail ++ rest))) (byteSize (unlines ls) + byteSize head) := by
  have hline : '\n' ∉ head ++ tail := by simp [hhead, htail]
  obtain ⟨ms, hsplit⟩ := splitOn_lines hls hline hrest
  rw [List.append_assoc] at hsplit
  exact {
    line_pos := Nat.le_add_left 1 _
    text_eq := by simp [hsplit]
    column_pos := Nat.le_add_left 1 _
    column_le := by simp
    offset_eq := by simp [hsplit] }

end

section

variable {s : String} {n m : Nat} {info info' : LineInfo}

theorem lineInfo_locates (h : IsBoundary n s.toList) : (lineInfo s n).Locates s.toList n := by
  obtain ⟨u, v, htext, rfl⟩ := h
  obtain ⟨ls, head, rfl, hls, hhead⟩ := exists_lines u
  obtain ⟨tail, rest, rfl, htail, hrest⟩ := exists_lineStops v
  rw [List.append_assoc] at htext
  rw [byteSize_append, lineInfo_of_lines hls hhead htail hrest htext, htext]
  exact locates_of_lines hls hhead htail hrest

theorem LineInfo.Locates.unique {cs : List Char} (h : info.Locates cs n) (h' : info'.Locates cs m)
    (hline : info.line = info'.line) (hcolumn : info.column = info'.column) : n = m := by
  have htext : info.text.toList = info'.text.toList := by
    have hlines := h.text_eq
    rw [hline, h'.text_eq] at hlines
    exact (Option.some.inj hlines).symm
  rw [← h.offset_eq, ← h'.offset_eq, hline, hcolumn, htext]

/-- The line and the column of a byte say which byte it is. -/
theorem lineInfo_identifies (s : String) :
    (∀ n, IsBoundary n s.toList → (lineInfo s n).Locates s.toList n) ∧
      ∀ n m, IsBoundary n s.toList → IsBoundary m s.toList →
        (lineInfo s n).line = (lineInfo s m).line →
        (lineInfo s n).column = (lineInfo s m).column → n = m := by
  refine ⟨fun n h => lineInfo_locates h, fun n m hn hm hline hcolumn => ?_⟩
  exact (lineInfo_locates hn).unique (lineInfo_locates hm) hline hcolumn

theorem lineInfo_identifies_second_line : IsBoundary 10 "const π\nab".toList ∧
    lineInfo "const π\nab" 10 = ⟨2, 2, "ab"⟩ ∧
    LineInfo.Locates ⟨2, 2, "ab"⟩ "const π\nab".toList 10 := by
  have hboundary : IsBoundary 10 "const π\nab".toList :=
    ⟨"const π\na".toList, "b".toList, by decide, by decide⟩
  have hplace : lineInfo "const π\nab" 10 = ⟨2, 2, "ab"⟩ := by decide +kernel
  have hlocates := (lineInfo_identifies "const π\nab").1 10 hboundary
  rw [hplace] at hlocates
  exact ⟨hboundary, hplace, hlocates⟩

end

end GoEnum
