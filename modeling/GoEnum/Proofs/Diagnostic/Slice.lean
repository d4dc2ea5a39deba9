import GoEnum.Proofs.Diagnostic.Place

namespace GoEnum

open Layout Token

def splitAt? (n : Nat) : List Char → Option (List Char × List Char)
  | [] => if n = 0 then some ([], []) else none
  | c :: cs =>
    if n = 0 then some ([], c :: cs)
    else if n < c.utf8Size then none
    else (splitAt? (n - c.utf8Size) cs).map fun (before, after) => (c :: before, after)

def slice? (cs : List Char) (start stop : Nat) : Option (List Char) :=
  if stop < start then none
  else do
    let (before, _) ← splitAt? stop cs
    let (_, part) ← splitAt? start before
    return part

def findBreak? : List Char → Option Nat
  | [] => none
  | c :: cs => if c = '\n' then some 0 else (findBreak? cs).map (c.utf8Size + ·)

def findLastBreak? : List Char → Option Nat
  | [] => none
  | c :: cs => match findLastBreak? cs with
    | some n => some (c.utf8Size + n)
    | none => if c = '\n' then some 0 else none

def lineInfo? (source : String) (offset : Nat) : Option LineInfo := do
  let cs := source.toList
  let size := byteSize cs
  let offset := min offset size
  let lineStart := (findLastBreak? (← slice? cs 0 offset)).elim 0 (· + 1)
  let lineStop := (findBreak? (← slice? cs offset size)).elim size (offset + ·)
  let line := (← slice? cs 0 lineStart).count '\n' + 1
  let column := (← slice? cs lineStart offset).length + 1
  return ⟨line, column, String.ofList (← slice? cs lineStart lineStop)⟩

section

variable {cs u v w : List Char} {n : Nat}

theorem splitAt?_byteSize (u v : List Char) : splitAt? (byteSize u) (u ++ v) = some (u, v) := by
  induction u with
  | nil => cases v <;> rfl
  | cons c u ih =>
    have hpos := c.utf8Size_pos
    have hne : byteSize (c :: u) ≠ 0 := by
      rw [byteSize]
      omega
    have hle : ¬ byteSize (c :: u) < c.utf8Size := by
      rw [byteSize]
      omega
    have hrest : byteSize (c :: u) - c.utf8Size = byteSize u := by
      rw [byteSize, Nat.add_sub_cancel_left]
    rw [List.cons_append, splitAt?, if_neg hne, if_neg hle, hrest, ih]
    rfl

theorem splitAt?_eq_some (h : splitAt? n cs = some (u, v)) : cs = u ++ v ∧ byteSize u = n := by
  induction cs generalizing n u with
  | nil =>
    rw [splitAt?] at h
    split at h
    · rename_i hn
      cases h
      exact ⟨rfl, hn.symm⟩
    · cases h
  | cons c cs ih =>
    rw [splitAt?] at h
    split at h
    · rename_i hn
      cases h
      exact ⟨rfl, hn.symm⟩
    · split at h
      · cases h
      · obtain ⟨⟨before, after⟩, hrest, heq⟩ := Option.map_eq_some_iff.1 h
        cases heq
        obtain ⟨rfl, hsize⟩ := ih hrest
        refine ⟨rfl, ?_⟩
        rw [byteSize, hsize]
        omega

theorem slice?_eq_some : slice? cs start stop = some w ↔
    ∃ u v, cs = u ++ (w ++ v) ∧ byteSize u = start ∧ byteSize u + byteSize w = stop := by
  constructor
  · intro h
    unfold slice? at h
    split at h
    · cases h
    · obtain ⟨⟨before, v⟩, hstop, h⟩ := Option.bind_eq_some_iff.1 h
      obtain ⟨⟨u, part⟩, hstart, heq⟩ := Option.bind_eq_some_iff.1 h
      cases heq
      obtain ⟨rfl, rfl⟩ := splitAt?_eq_some hstop
      obtain ⟨rfl, rfl⟩ := splitAt?_eq_some hstart
      exact ⟨u, v, List.append_assoc u w v, rfl, (byteSize_append u w).symm⟩
  · rintro ⟨u, v, rfl, rfl, rfl⟩
    have hle : ¬ byteSize u + byteSize w < byteSize u := Nat.not_lt.2 (Nat.le_add_right _ _)
    rw [slice?, if_neg hle, ← byteSize_append, ← List.append_assoc, splitAt?_byteSize]
    change (splitAt? (byteSize u) (u ++ w)).bind _ = _
    rw [splitAt?_byteSize]
    rfl

theorem findBreak?_line (h : '\n' ∉ w) (v : List Char) :
    findBreak? (w ++ '\n' :: v) = some (byteSize w) := by
  induction w with
  | nil => rfl
  | cons c w ih =>
    obtain ⟨hc, hw⟩ := not_or.1 (mt List.mem_cons.2 h)
    rw [List.cons_append, findBreak?, if_neg (Ne.symm hc), ih hw]
    rfl

theorem findBreak?_eq_none (h : '\n' ∉ w) : findBreak? w = none := by
  induction w with
  | nil => rfl
  | cons c w ih =>
    obtain ⟨hc, hw⟩ := not_or.1 (mt List.mem_cons.2 h)
    rw [findBreak?, if_neg (Ne.symm hc), ih hw]
    rfl

theorem findLastBreak?_eq_none (h : '\n' ∉ w) : findLastBreak? w = none := by
  induction w with
  | nil => rfl
  | cons c w ih =>
    obtain ⟨hc, hw⟩ := not_or.1 (mt List.mem_cons.2 h)
    rw [findLastBreak?, ih hw]
    exact if_neg (Ne.symm hc)

theorem findLastBreak?_line (h : '\n' ∉ w) (u : List Char) :
    findLastBreak? (u ++ '\n' :: w) = some (byteSize u) := by
  induction u with
  | nil =>
    rw [List.nil_append, findLastBreak?, findLastBreak?_eq_none h]
    rfl
  | cons c u ih =>
    rw [List.cons_append, findLastBreak?, ih]
    rfl

end

section

variable {ls : List (List Char)} {head tail rest : List Char}

theorem lineStart_eq (h : '\n' ∉ head) :
    (findLastBreak? (unlines ls ++ head)).elim 0 (· + 1) = byteSize (unlines ls) := by
  obtain rfl | ⟨ls, l, rfl⟩ := ls.eq_nil_or_concat
  · rw [unlines, List.flatMap_nil, List.nil_append, findLastBreak?_eq_none h]
    rfl
  · have hlines : unlines (ls.concat l) = unlines ls ++ l ++ ['\n'] := by simp [unlines]
    rw [hlines, List.append_assoc _ ['\n'], List.singleton_append, findLastBreak?_line h,
      byteSize_append _ ['\n']]
    rfl

theorem lineStop_eq (h : '\n' ∉ tail) (hrest : LineStops rest)
    (hsize : size = n + byteSize (tail ++ rest)) :
    (findBreak? (tail ++ rest)).elim size (n + ·) = n + byteSize tail := by
  cases rest with
  | nil => rw [List.append_nil, findBreak?_eq_none h, Option.elim_none, hsize, List.append_nil]
  | cons c rest =>
    obtain rfl : c = '\n' := by simpa [LineStops] using hrest
    rw [findBreak?_line h, Option.elim_some]

end

theorem lineInfo?_eq_some (h : IsBoundary n s.toList) : lineInfo? s n = some (lineInfo s n) := by
  obtain ⟨u, v, htext, rfl⟩ := h
  obtain ⟨ls, head, rfl, hls, hhead⟩ := exists_lines u
  obtain ⟨tail, rest, rfl, htail, hrest⟩ := exists_lineStops v
  rw [List.append_assoc] at htext
  have hsize : byteSize s.toList = byteSize (unlines ls ++ head) + byteSize (tail ++ rest) := by
    rw [htext, ← List.append_assoc, byteSize_append]
  have hmin : min (byteSize (unlines ls ++ head)) (byteSize s.toList) =
      byteSize (unlines ls ++ head) := Nat.min_eq_left (by rw [hsize]; exact Nat.le_add_right _ _)
  have hbefore : slice? s.toList 0 (byteSize (unlines ls ++ head)) = some (unlines ls ++ head) :=
    slice?_eq_some.2 ⟨[], tail ++ rest, by simp [htext], rfl, by simp [byteSize]⟩
  have hafter : slice? s.toList (byteSize (unlines ls ++ head)) (byteSize s.toList) =
      some (tail ++ rest) :=
    slice?_eq_some.2 ⟨unlines ls ++ head, [], by simp [htext], rfl, hsize.symm⟩
  have hlines : slice? s.toList 0 (byteSize (unlines ls)) = some (unlines ls) :=
    slice?_eq_some.2 ⟨[], head ++ (tail ++ rest), by simp [htext], rfl, by simp [byteSize]⟩
  have hhead' : slice? s.toList (byteSize (unlines ls)) (byteSize (unlines ls ++ head)) =
      some head :=
    slice?_eq_some.2 ⟨unlines ls, tail ++ rest, htext, rfl, (byteSize_append _ _).symm⟩
  have hline : slice? s.toList (byteSize (unlines ls))
      (byteSize (unlines ls ++ head) + byteSize tail) = some (head ++ tail) :=
    slice?_eq_some.2 ⟨unlines ls, rest, by simp [htext], rfl, by simp [byteSize_append]; omega⟩
  have hplace := lineInfo_of_lines hls hhead htail hrest htext
  rw [← byteSize_append] at hplace
  simp only [lineInfo?, hmin, hbefore, hafter, hlines, hhead', hline, lineStart_eq hhead,
    lineStop_eq htail hrest hsize, hplace, bind, pure, Option.bind_some, count_unlines hls]

theorem isSome_lineInfo?_iff :
    (lineInfo? s n).isSome ↔ IsBoundary (min n (byteSize s.toList)) s.toList := by
  constructor
  · intro h
    obtain ⟨info, h⟩ := Option.isSome_iff_exists.1 h
    obtain ⟨before, hbefore, -⟩ := Option.bind_eq_some_iff.1 h
    obtain ⟨u, v, htext, hstart, hstop⟩ := slice?_eq_some.1 hbefore
    obtain rfl := byteSize_eq_zero hstart
    exact ⟨before, v, htext, by rw [← hstop, hstart, Nat.zero_add]⟩
  · intro h
    have hmin : lineInfo? s n = lineInfo? s (min n (byteSize s.toList)) := by
      simp only [lineInfo?, Nat.min_assoc, Nat.min_self]
    rw [hmin, lineInfo?_eq_some h]
    rfl

end GoEnum
