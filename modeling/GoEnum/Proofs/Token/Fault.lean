import GoEnum.Proofs.Token.Lossless

namespace GoEnum.Token

structure Span.InText (cs : List Char) (s : Span) : Prop where
  le : s.start ≤ s.stop
  stop_le : s.stop ≤ byteSize cs
  start_boundary : IsBoundary s.start cs
  stop_boundary : IsBoundary s.stop cs

section

variable {cs : List Char} {s t : Span}

theorem isBoundary_append (u v : List Char) : IsBoundary (byteSize u) (u ++ v) := ⟨u, v, rfl, rfl⟩

theorem Span.inText_append (u w v : List Char) :
    Span.InText (u ++ (w ++ v)) ⟨byteSize u, byteSize u + byteSize w⟩ where
  le := Nat.le_add_right _ _
  stop_le := by
    rw [byteSize_append, byteSize_append]
    exact Nat.add_le_add_left (Nat.le_add_right _ _) _
  start_boundary := isBoundary_append u (w ++ v)
  stop_boundary := by
    rw [← byteSize_append, ← List.append_assoc]
    exact isBoundary_append (u ++ w) v

theorem Span.InText.merge (hs : s.InText cs) (ht : t.InText cs) : (s.merge t).InText cs where
  le := Nat.le_trans (Nat.min_le_left _ _) (Nat.le_trans hs.le (Nat.le_max_left _ _))
  stop_le := Nat.max_le.2 ⟨hs.stop_le, ht.stop_le⟩
  start_boundary := by
    change IsBoundary (min s.start t.start) cs
    obtain h | h := Nat.le_total s.start t.start
    · rw [Nat.min_eq_left h]
      exact hs.start_boundary
    · rw [Nat.min_eq_right h]
      exact ht.start_boundary
  stop_boundary := by
    change IsBoundary (max s.stop t.stop) cs
    obtain h | h := Nat.le_total s.stop t.stop
    · rw [Nat.max_eq_right h]
      exact ht.stop_boundary
    · rw [Nat.max_eq_left h]
      exact hs.stop_boundary

theorem Lossless.inText (h : Lossless cs ts) : ∀ t ∈ ts, t.span.InText cs := fun t ht =>
  ⟨(h.inside t ht).1, (h.inside t ht).2, (h.boundary t ht).1, (h.boundary t ht).2⟩

end

theorem inText_of_lexemes (u : List Char) (hu : byteSize u = start) :
    ∀ e ∈ (lexemes start cs).flatMap (·.errors), e.span.InText (u ++ cs) := by
  fun_induction lexemes generalizing u with
  | case1 start => simp
  | case2 start c cs l place span ih =>
    have hplace : ∀ n, (place n).InText (u ++ c :: cs) := by
      intro n
      have htext := Span.inText_append u (c :: cs.take n) (cs.drop n)
      rwa [List.cons_append, List.take_append_drop, hu] at htext
    intro e he
    rw [List.flatMap_cons, List.mem_append] at he
    obtain he | he := he
    · obtain ⟨f, -, rfl⟩ := List.mem_map.1 he
      exact hplace f.length
    · have hrest := ih (u ++ c :: cs.take l.length) (by rw [byteSize_append, hu]) e he
      rwa [List.append_assoc, List.cons_append, List.take_append_drop] at hrest

theorem inText_of_lex_error (h : lex s = .error es) : ∀ e ∈ es, e.span.InText s.toList := by
  unfold lex at h
  dsimp only at h
  split at h
  · cases h
  · cases h
    exact inText_of_lexemes [] rfl

end GoEnum.Token
