import GoEnum.Proofs.Except
import GoEnum.Proofs.Token.Spelled

namespace GoEnum.Token

def TokenKind.spelling? : TokenKind → Option String
  | .keyword k => some k.spelling
  | .operator o => some o.spelling
  | .punctuation p => some p.spelling
  | .ident name => some name
  | _ => none

/-- Tokens that fill a text, which starts at byte `start`, but for blanks and comments. Where no
characters are, there may be semicolons, and at the end is the last token. -/
inductive Tiles : Nat → List Char → List Token → Prop
  | eof : Tiles start [] [⟨.eof, .point start⟩]
  | gap : Gap rest w → Tiles (start + byteSize w) rest ts → Tiles start (w ++ rest) ts
  | semicolon : Tiles start cs ts → Tiles start cs (⟨.punctuation .semicolon, .point start⟩ :: ts)
  | token : Spelled rest w (.token k) → Tiles (start + byteSize w) rest ts →
      Tiles start (w ++ rest) (⟨k, start, start + byteSize w⟩ :: ts)

def IsBoundary (n : Nat) (cs : List Char) : Prop := ∃ u v, cs = u ++ v ∧ byteSize u = n

def IsOutside (n : Nat) (ts : List Token) : Prop :=
  ∀ t ∈ ts, n < t.span.start ∨ t.span.stop ≤ n

structure Lossless (cs : List Char) (ts : List Token) : Prop where
  tiled : Tiles 0 cs ts
  ordered : ts.Pairwise fun t u => t.span.stop ≤ u.span.start
  inside : ∀ t ∈ ts, t.span.start ≤ t.span.stop ∧ t.span.stop ≤ byteSize cs
  boundary : ∀ t ∈ ts, IsBoundary t.span.start cs ∧ IsBoundary t.span.stop cs
  last : ∃ us, ts = us ++ [⟨.eof, .point (byteSize cs)⟩] ∧ ∀ t ∈ us, t.node ≠ .eof
  outside : ∀ n < byteSize cs, IsOutside n ts → ∃ u w v, cs = u ++ (w ++ v) ∧ Gap v w ∧
    byteSize u ≤ n ∧ n < byteSize u + byteSize w
  spelled : ∀ t ∈ ts, ∀ s, t.node.spelling? = some s → t.span.slice cs = s.toList ∨
    t.node = .punctuation .semicolon ∧ t.span.start = t.span.stop
  longest : ∀ t ∈ ts, ∀ o, t.node = .operator o → IsLongest o (splitBytes t.span.start cs).2

theorem Spelled.spelling (h : Spelled rest w (.token k)) (hs : k.spelling? = some s) :
    w = s.toList := by
  cases h with
  | literal hk => cases k <;> cases hk <;> cases hs
  | _ =>
    cases hs
    rfl

theorem Spelled.ne_eof (h : Spelled rest w (.token k)) : k ≠ .eof := by
  rintro rfl
  cases h with
  | literal hk => cases hk

theorem tiles_autoSemicolon (h : Tiles start cs ts) (ends : Bool) :
    Tiles start cs (autoSemicolon ends start ++ ts) := by
  cases ends with
  | false => exact h
  | true => exact .semicolon h

theorem tiles_cons (h : Spelled rest w form)
    (hrest : ∀ n ends, Tiles n rest (tokensAt n ends ps)) (start : Nat) (ends : Bool) :
    Tiles start (w ++ rest) (tokensAt start ends (⟨w, form⟩ :: ps)) := by
  cases h with
  | gap hgap => exact .gap hgap (hrest _ _)
  | lineBreak hgap => exact tiles_autoSemicolon (.gap hgap (hrest _ _)) ends
  | keyword k => exact .token (.keyword k) (hrest _ _)
  | ident hname => exact .token (.ident hname) (hrest _ _)
  | operator hlongest => exact .token (.operator hlongest) (hrest _ _)
  | mark p => exact .token (.mark p) (hrest _ _)
  | literal hk => exact .token (.literal hk) (hrest _ _)

theorem tiles_of_cut (h : Cut cs ps) (start : Nat) (ends : Bool) :
    Tiles start cs (tokensAt start ends ps) := by
  induction h generalizing start ends with
  | nil => exact tiles_autoSemicolon .eof ends
  | @cons c cs ps hfaults _ ih =>
    have htiles := tiles_cons (isSpelled_lexeme c cs hfaults) ih start ends
    rwa [List.cons_append, List.take_append_drop] at htiles

section

variable {start : Nat} {cs : List Char} {ts : List Token}

inductive Placed (cs : List Char) (t : Token) : Prop
  | place (u w rest : List Char) (text : cs = u ++ (w ++ rest))
      (span : t.span = ⟨byteSize u, byteSize u + byteSize w⟩)
      (spelled : Spelled rest w (.token t.node) ∨
        w = [] ∧ (t.node = .punctuation .semicolon ∨ t.node = .eof))

theorem Tiles.placed (h : Tiles start cs ts) (u : List Char) (hu : byteSize u = start) :
    ∀ t ∈ ts, Placed (u ++ cs) t := by
  induction h generalizing u with
  | eof =>
    rw [List.forall_mem_singleton]
    exact .place u [] [] rfl (by rw [← hu]; rfl) (.inr ⟨rfl, .inr rfl⟩)
  | gap _ _ ih =>
    rw [← List.append_assoc]
    exact ih _ (by rw [byteSize_append, hu])
  | @semicolon start cs ts _ ih =>
    rw [List.forall_mem_cons]
    exact ⟨.place u [] cs rfl (by rw [← hu]; rfl) (.inr ⟨rfl, .inl rfl⟩), ih u hu⟩
  | @token rest w k start ts hspelled _ ih =>
    rw [List.forall_mem_cons]
    refine ⟨.place u w rest rfl (by rw [hu]) (.inl hspelled), ?_⟩
    rw [← List.append_assoc]
    exact ih _ (by rw [byteSize_append, hu])

theorem Tiles.from_start (h : Tiles start cs ts) : ∀ t ∈ ts, start ≤ t.span.start := by
  induction h with
  | eof => simp [Span.point]
  | gap _ _ ih => exact fun t ht => Nat.le_trans (Nat.le_add_right _ _) (ih t ht)
  | semicolon _ ih => exact List.forall_mem_cons.2 ⟨Nat.le_refl _, ih⟩
  | token _ _ ih =>
    refine List.forall_mem_cons.2 ⟨Nat.le_refl _, fun t ht => ?_⟩
    exact Nat.le_trans (Nat.le_add_right _ _) (ih t ht)

theorem Tiles.ordered (h : Tiles start cs ts) :
    ts.Pairwise fun t u => t.span.stop ≤ u.span.start := by
  induction h with
  | eof => exact List.pairwise_singleton _ _
  | gap _ _ ih => exact ih
  | semicolon h ih => exact List.pairwise_cons.2 ⟨h.from_start, ih⟩
  | token _ h ih => exact List.pairwise_cons.2 ⟨h.from_start, ih⟩

theorem Tiles.last (h : Tiles start cs ts) :
    ∃ us, ts = us ++ [⟨.eof, .point (start + byteSize cs)⟩] ∧ ∀ t ∈ us, t.node ≠ .eof := by
  induction h with
  | eof => exact ⟨[], rfl, by simp⟩
  | gap _ _ ih =>
    rw [byteSize_append, ← Nat.add_assoc]
    exact ih
  | semicolon _ ih =>
    obtain ⟨us, rfl, hus⟩ := ih
    exact ⟨_ :: us, rfl, List.forall_mem_cons.2 ⟨by simp, hus⟩⟩
  | token hspelled _ ih =>
    obtain ⟨us, rfl, hus⟩ := ih
    rw [byteSize_append, ← Nat.add_assoc]
    exact ⟨_ :: us, rfl, List.forall_mem_cons.2 ⟨hspelled.ne_eof, hus⟩⟩

theorem Tiles.outside (h : Tiles start cs ts) (u : List Char) (hu : byteSize u = start)
    (hn : n < start + byteSize cs) (hle : start ≤ n) (hout : IsOutside n ts) :
    ∃ v w rest, u ++ cs = v ++ (w ++ rest) ∧ Gap rest w ∧ byteSize v ≤ n ∧
      n < byteSize v + byteSize w := by
  induction h generalizing u with
  | eof =>
    rw [byteSize] at hn
    omega
  | @gap rest w start ts hgap _ ih =>
    rw [byteSize_append, ← Nat.add_assoc] at hn
    by_cases hlt : n < start + byteSize w
    · exact ⟨u, w, rest, rfl, hgap, by omega, by omega⟩
    · rw [← List.append_assoc]
      exact ih _ (by rw [byteSize_append, hu]) hn (by omega) hout
  | semicolon _ ih => exact ih u hu hn hle (List.forall_mem_cons.1 hout).2
  | @token rest w k start ts _ _ ih =>
    rw [byteSize_append, ← Nat.add_assoc] at hn
    obtain ⟨hlt | hstop, hout⟩ := List.forall_mem_cons.1 hout
    · exact absurd hlt (Nat.not_lt.2 hle)
    · rw [← List.append_assoc]
      exact ih _ (by rw [byteSize_append, hu]) hn hstop hout

end

section

variable {cs : List Char} {t : Token}

theorem Placed.inside (h : Placed cs t) :
    t.span.start ≤ t.span.stop ∧ t.span.stop ≤ byteSize cs := by
  obtain ⟨u, w, rest, rfl, hspan, -⟩ := h
  rw [hspan, byteSize_append, byteSize_append, ← Nat.add_assoc]
  exact ⟨Nat.le_add_right _ _, Nat.le_add_right _ _⟩

theorem Placed.boundary (h : Placed cs t) :
    IsBoundary t.span.start cs ∧ IsBoundary t.span.stop cs := by
  obtain ⟨u, w, rest, rfl, hspan, -⟩ := h
  rw [hspan]
  exact ⟨⟨u, w ++ rest, rfl, rfl⟩,
    ⟨u ++ w, rest, (List.append_assoc u w rest).symm, byteSize_append u w⟩⟩

theorem Placed.spelled (h : Placed cs t) (hs : t.node.spelling? = some s) :
    t.span.slice cs = s.toList ∨
      t.node = .punctuation .semicolon ∧ t.span.start = t.span.stop := by
  obtain ⟨u, w, rest, rfl, hspan, hspelled | ⟨rfl, hauto | heof⟩⟩ := h
  · rw [hspan, Span.slice_append]
    exact .inl (hspelled.spelling hs)
  · rw [hspan]
    exact .inr ⟨hauto, rfl⟩
  · rw [heof] at hs
    cases hs

theorem Placed.isIdentifier (h : Placed cs t) (hname : t.node = .ident name) :
    isIdentifier name := by
  obtain ⟨u, w, rest, rfl, hspan, hspelled | ⟨-, hauto | heof⟩⟩ := h
  · rw [hname] at hspelled
    cases hspelled with
    | ident hident => exact hident
    | literal hk => cases hk
  · cases hname.symm.trans hauto
  · cases hname.symm.trans heof

theorem Placed.longest (h : Placed cs t) (ho : t.node = .operator o) :
    IsLongest o (splitBytes t.span.start cs).2 := by
  obtain ⟨u, w, rest, rfl, hspan, hspelled | ⟨-, hauto | heof⟩⟩ := h
  · rw [hspan, splitBytes_byteSize]
    rw [ho] at hspelled
    cases hspelled with
    | operator hlongest => exact hlongest
    | literal hk => cases hk
  · cases ho.symm.trans hauto
  · cases ho.symm.trans heof

end

theorem isIdentifier_of_lex (hlex : lex s = .ok ts) (h : .ident name ∈ ts.map (·.node)) :
    isIdentifier name := by
  obtain ⟨ps, hcut, rfl⟩ := lex_eq_ok.1 hlex
  obtain ⟨t, ht, hname⟩ := List.mem_map.1 h
  exact ((tiles_of_cut hcut 0 false).placed [] rfl t ht).isIdentifier hname

theorem lex_lossless (h : lex s = .ok ts) : Lossless s.toList ts := by
  obtain ⟨ps, hcut, rfl⟩ := lex_eq_ok.1 h
  have htiles := tiles_of_cut hcut 0 false
  have hplaced := htiles.placed [] rfl
  obtain ⟨us, hus, hnone⟩ := htiles.last
  exact {
    tiled := htiles
    ordered := htiles.ordered
    inside := fun t ht => (hplaced t ht).inside
    boundary := fun t ht => (hplaced t ht).boundary
    last := ⟨us, by rw [hus, Nat.zero_add], hnone⟩
    outside := fun n hn hout => htiles.outside [] rfl (by rwa [Nat.zero_add]) (Nat.zero_le n) hout
    spelled := fun t ht s hs => (hplaced t ht).spelled hs
    longest := fun t ht o ho => (hplaced t ht).longest ho }

theorem lex_lossless_shift : ∃ ts, lex "π <<= 0x2 /* \n */ //\r" = .ok ts ∧
    ts = [⟨.ident "π", ⟨0, 2⟩⟩, ⟨.operator .shlEq, ⟨3, 6⟩⟩, ⟨.int 2, ⟨7, 10⟩⟩,
      ⟨.punctuation .semicolon, ⟨11, 11⟩⟩, ⟨.eof, ⟨22, 22⟩⟩] ∧
    Lossless "π <<= 0x2 /* \n */ //\r".toList ts := by
  have hlex : ∃ ts, lex "π <<= 0x2 /* \n */ //\r" = .ok ts ∧
      ts = [⟨.ident "π", ⟨0, 2⟩⟩, ⟨.operator .shlEq, ⟨3, 6⟩⟩, ⟨.int 2, ⟨7, 10⟩⟩,
        ⟨.punctuation .semicolon, ⟨11, 11⟩⟩, ⟨.eof, ⟨22, 22⟩⟩] := by decide +kernel
  obtain ⟨ts, hts, htokens⟩ := hlex
  exact ⟨ts, hts, htokens, lex_lossless hts⟩

end GoEnum.Token
