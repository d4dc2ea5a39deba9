import GoEnum.Layout.Writer
import GoEnum.Proofs.Token.Line

namespace GoEnum.Layout

open Text Token

variable {w : Writer}

theorem trimRight_eq_self (h : Trimmed l) : trimRight l = l := by
  rw [trimRight, List.reverse_eq_iff]
  cases hl : l.reverse with
  | nil => rfl
  | cons c cs =>
    refine List.dropWhile_cons_of_neg ?_
    have hlast : c ∈ l.getLast? := by rw [← List.head?_reverse, hl]; rfl
    simp [h c hlast]

theorem dropReturn_eq_self (h : Trimmed l) : dropReturn l = l := by
  unfold dropReturn
  split
  · rename_i r hr
    have hlast : '\r' ∈ l.getLast? := by rw [← List.head?_reverse, hr]; rfl
    have hblank := h '\r' hlast
    cases hblank
  · rfl

theorem splitOn_unlines (h : ∀ l ∈ ls, '\n' ∉ l) (cs : List Char) :
    (unlines ls ++ cs).splitOn '\n' = ls ++ cs.splitOn '\n' := by
  induction ls with
  | nil => rfl
  | cons l ls ih =>
    obtain ⟨hl, hls⟩ := List.forall_mem_cons.1 h
    have hcons : unlines (l :: ls) ++ cs = l ++ '\n' :: (unlines ls ++ cs) := by simp [unlines]
    rw [hcons, List.splitOn_append_cons_self_of_not_mem hl, ih hls, List.cons_append]

theorem finishLines_concat (h : ∀ l ∈ ls, IsLine l) : finishLines (ls ++ [[]]) = ls := by
  induction ls with
  | nil => rfl
  | cons l ls ih =>
    obtain ⟨hl, hls⟩ := List.forall_mem_cons.1 h
    rw [List.cons_append, finishLines, ih hls, dropReturn_eq_self hl.trimmed]
    simp

theorem lines_unlines (h : ∀ l ∈ ls, IsLine l) : lines (unlines ls) = ls := by
  have hsplit := splitOn_unlines (fun l hl => (h l hl).unbroken) []
  rw [List.append_nil] at hsplit
  rw [lines, hsplit]
  exact finishLines_concat h

theorem isLine_of_readsEach (h : ReadsEach ls ks) : ∀ l ∈ ls, IsLine l := by
  induction h with
  | nil => simp
  | cons hl _ _ ih => exact List.forall_mem_cons.2 ⟨hl, ih⟩

theorem isText_line (b : Bool) (hl : IsLine l) (h : ReadsLines (l ++ ['\n']) ks) :
    IsText ((if b then ['\n'] else []) ++ l ++ ['\n']) ks := by
  cases b with
  | false => exact ⟨[l], by simp [unlines], .single hl h⟩
  | true => exact ⟨[[], l], by simp [unlines], .cons isLine_nil readsLines_blank (.single hl h)⟩

theorem isText_writeLine (hw : IsText w.written ks) (hl : IsLine l)
    (h : ReadsLines (l ++ ['\n']) ls) : IsText (w.writeLine l).written (ks ++ ls) := by
  unfold Writer.writeLine
  simp only [trimRight_eq_self hl.trimmed]
  split
  · rename_i hempty
    obtain rfl := List.isEmpty_iff.1 hempty
    rw [readsLines_unique h readsLines_blank, List.append_nil]
    exact hw
  · have happend := hw.append (isText_line (w.pendingBlank && !closesBlock l) hl h)
    simpa only [List.append_assoc] using happend

theorem isText_writeLines (hw : IsText w.written ks) (h : ReadsEach ms ls) :
    IsText (w.writeLines ms).written (ks ++ ls) := by
  induction h generalizing w ks with
  | nil =>
    rw [List.append_nil]
    exact hw
  | cons hl hls _ ih =>
    rw [← List.append_assoc]
    exact ih (isText_writeLine hw hl hls)

theorem isText_layout (h : IsText cs ks) : IsText (layout cs) ks := by
  obtain ⟨ls, rfl, hls⟩ := h
  rw [layout, lines_unlines (isLine_of_readsEach hls)]
  have hempty : IsText Writer.empty.written [] := isText_nil
  exact isText_writeLines hempty hls

end GoEnum.Layout
