import GoEnum.Proofs.Token.Apart

namespace GoEnum.Token

open Text

inductive LineEnd : List Char → List Char → Prop
  | close : LineEnd [] ['\n']
  | blank : isBlank b → LineEnd (b :: '\n' :: v) ('\n' :: v)

theorem LineEnd.apart (h : LineEnd n m) : Apart n ∧ Apart m := by
  cases h with
  | close => exact ⟨apart_nil, apart_cons (by decide) _⟩
  | blank hb => exact ⟨apart_cons hb _, apart_cons (by decide) _⟩

section

variable {rest : List Char}

theorem leadingDigits_apart (h : Apart rest) (radix n : Nat) (cs : List Char) :
    leadingDigits radix n (cs ++ rest) = leadingDigits radix n cs := by
  have hdigit : ∀ {c}, isBlank c → (digit? radix c).isSome = false := by
    intro c hc
    rw [digit?_of_isBlank radix hc]
    rfl
  rw [leadingDigits, List.take_append, takeWhile_append_apart (h.take _) hdigit, leadingDigits]

theorem escape_append_apart (hcs : cs ≠ []) (q : Char) (h : Apart rest) :
    escape q (cs ++ rest) = escape q cs := by
  obtain ⟨c, cs, rfl⟩ := List.exists_cons_of_ne_nil hcs
  simp only [List.cons_append, escape, octalEscape, hexEscape, leadingDigits_apart h]

theorem escape_of_apart (h : Apart rest) (hq : isBlank q = false) :
    ∃ cause, (escape q rest).result = .error cause := by
  cases rest with
  | nil => exact ⟨_, rfl⟩
  | cons c cs =>
    have hc := h c rfl
    have hletter := forall_blank (p := fun c => letterEscape? c == none) (by decide) hc
    rw [beq_iff_eq] at hletter
    have hx := ne_of_isBlank hc (d := 'x') (by decide)
    have hu := ne_of_isBlank hc (d := 'u') (by decide)
    have hU := ne_of_isBlank hc (d := 'U') (by decide)
    have hquote := ne_of_isBlank hc hq
    simp [escape, hletter, hquote, digit?_of_isBlank 8 hc, hx, hu, hU]

end

theorem length_leadingDigits_le (radix n : Nat) (cs : List Char) :
    (leadingDigits radix n cs).length ≤ cs.length := by
  have hfilter := List.length_filterMap_le (digit? radix)
    ((cs.take n).takeWhile fun c => (digit? radix c).isSome)
  have htake := (List.takeWhile_prefix (l := cs.take n) fun c => (digit? radix c).isSome).length_le
  rw [List.length_take] at htake
  rw [leadingDigits]
  omega

theorem length_hexEscape_le (n : Nat) (cs : List Char) (value : Nat → Except LexCause Escaped) :
    (hexEscape n cs value).length ≤ cs.length + 1 := by
  have hdigits := length_leadingDigits_le 16 n cs
  unfold hexEscape
  dsimp only
  split <;> (dsimp only; omega)

theorem length_octalEscape_le (first : Nat) (cs : List Char) :
    (octalEscape first cs).length ≤ cs.length + 1 := by
  have hdigits := length_leadingDigits_le 8 2 cs
  unfold octalEscape
  dsimp only
  split <;> (dsimp only; omega)

theorem length_escape_le (q : Char) (cs : List Char) : (escape q cs).length ≤ cs.length := by
  have hone : ∀ d ds, 1 ≤ (d :: ds : List Char).length := fun d ds => Nat.le_add_left _ _
  unfold escape
  split
  · exact Nat.le_refl _
  · split
    · exact hone _ _
    · split
      · exact hone _ _
      · split
        · exact length_octalEscape_le _ _
        · repeat' split
          · exact length_hexEscape_le _ _ _
          · exact length_hexEscape_le _ _ _
          · exact length_hexEscape_le _ _ _
          · exact hone _ _

theorem stringRest_faults (h : faults ≠ []) (k : Nat) (bytes : List UInt8) (cs : List Char) :
    (stringRest k bytes faults cs).faults ≠ [] := by
  fun_induction stringRest with
  | case1 => exact List.append_ne_nil_of_right_ne_nil _ (List.cons_ne_nil _ _)
  | case2 => exact List.append_ne_nil_of_right_ne_nil _ (List.cons_ne_nil _ _)
  | case3 k bytes faults =>
    rw [closedString, if_neg (mt List.isEmpty_iff.1 h)]
    exact h
  | case4 _ _ _ _ _ _ _ _ _ _ ih => exact ih h
  | case5 _ _ _ _ _ _ _ _ _ _ ih => exact ih (List.append_ne_nil_of_left_ne_nil h _)
  | case6 _ _ _ _ _ _ _ _ ih => exact ih h

/-- What is read of `cs` alone, where nothing but what stands apart may follow. -/
def Enclosed (read : List Char → Lexeme) (start : Nat) (cs : List Char) : Prop :=
  ∃ f k, k ≤ cs.length ∧ ∀ rest, Apart rest → read (cs ++ rest) = ⟨f, start + k, []⟩

theorem stringRest_lineEnd (hend : LineEnd n m) (k : Nat) (bytes : List UInt8) :
    (stringRest k bytes [] n).faults ≠ [] := by
  cases hend with
  | close => simp [stringRest]
  | @blank b v hb =>
    have hquote := ne_of_isBlank hb (d := '"') (by decide)
    have hslash := ne_of_isBlank hb (d := '\\') (by decide)
    by_cases hline : b = '\n'
    · simp [stringRest, hline]
    · simp [stringRest, hline, hquote, hslash]

theorem closedString_of_faultless (h : (closedString k bytes []).faults = []) :
    ∃ f, closedString k bytes [] = ⟨f, k, []⟩ := by
  unfold closedString at h ⊢
  cases hs : String.fromUTF8? ⟨bytes.toArray⟩ with
  | some s => exact ⟨.token (.string s), rfl⟩
  | none =>
    rw [hs] at h
    cases h

theorem stringRest_quote (k : Nat) (bytes : List UInt8) (cs : List Char) :
    stringRest k bytes [] ('"' :: cs) = closedString (k + 1) bytes.reverse [] := by
  rw [stringRest]
  rfl

theorem stringRest_char (hline : c ≠ '\n') (hquote : c ≠ '"') (hslash : c ≠ '\\') (k : Nat)
    (bytes : List UInt8) (cs : List Char) : stringRest k bytes [] (c :: cs) =
      stringRest (k + 1) ((String.utf8EncodeChar c).reverse ++ bytes) [] cs := by
  rw [stringRest, if_neg hline, if_neg hquote, if_neg hslash]

theorem stringRest_escaped (h : escape '"' cs = e) (hv : e.result = .ok v) (k : Nat)
    (bytes : List UInt8) : stringRest k bytes [] ('\\' :: cs) =
      stringRest (k + 1 + e.length) (v.bytes.reverse ++ bytes) [] (cs.drop e.length) := by
  subst h
  rw [stringRest]
  simp [hv]

theorem escape_of_faultless (h : (stringRest k bytes [] ('\\' :: cs)).faults = []) :
    ∃ v, (escape '"' cs).result = .ok v := by
  cases hv : (escape '"' cs).result with
  | ok v => exact ⟨v, rfl⟩
  | error cause =>
    rw [stringRest] at h
    simp only [hv] at h
    exact absurd h (stringRest_faults (List.cons_ne_nil _ _) _ _ _)

theorem enclosed_escaped (hcs : cs ≠ []) (hv : (escape '"' cs).result = .ok v)
    (h : Enclosed (stringRest (k + 1 + (escape '"' cs).length) (v.bytes.reverse ++ bytes) [])
      (k + 1 + (escape '"' cs).length) (cs.drop (escape '"' cs).length)) :
    Enclosed (stringRest k bytes []) k ('\\' :: cs) := by
  obtain ⟨f, j, hj, hread⟩ := h
  have hle := length_escape_le '"' cs
  rw [List.length_drop] at hj
  refine ⟨f, j + (escape '"' cs).length + 1, ?_, fun rest hrest => ?_⟩
  · rw [List.length_cons]
    omega
  · rw [List.cons_append, stringRest_escaped (escape_append_apart hcs '"' hrest) hv,
      List.drop_append_of_le_length hle, hread rest hrest]
    congr 1
    omega

theorem enclosed_char (hline : c ≠ '\n') (hquote : c ≠ '"') (hslash : c ≠ '\\')
    (h : Enclosed (stringRest (k + 1) ((String.utf8EncodeChar c).reverse ++ bytes) []) (k + 1) cs) :
    Enclosed (stringRest k bytes []) k (c :: cs) := by
  obtain ⟨f, j, hj, hread⟩ := h
  refine ⟨f, j + 1, Nat.succ_le_succ hj, fun rest hrest => ?_⟩
  rw [List.cons_append, stringRest_char hline hquote hslash, hread rest hrest,
    Nat.add_right_comm, Nat.add_assoc]

theorem enclosed_stringRest (hend : LineEnd n m) (k : Nat) (bytes : List UInt8) (cs : List Char)
    (h : (stringRest k bytes [] (cs ++ n)).faults = []) :
    Enclosed (stringRest k bytes []) k cs := by
  induction hlength : cs.length using Nat.strongRecOn generalizing k bytes cs with
  | ind l ih =>
    cases cs with
    | nil => exact absurd h (stringRest_lineEnd hend k bytes)
    | cons c cs =>
      subst hlength
      rw [List.cons_append] at h
      by_cases hquote : c = '"'
      · subst hquote
        rw [stringRest_quote] at h
        obtain ⟨f, hf⟩ := closedString_of_faultless h
        exact ⟨f, 1, Nat.le_add_left _ _, fun rest _ => (stringRest_quote _ _ _).trans hf⟩
      · by_cases hslash : c = '\\'
        · subst hslash
          obtain ⟨v, hv⟩ := escape_of_faultless h
          have hcs : cs ≠ [] := by
            rintro rfl
            obtain ⟨cause, hcause⟩ := escape_of_apart hend.apart.1 (q := '"') (by decide)
            cases hcause.symm.trans hv
          have hsame := escape_append_apart hcs '"' hend.apart.1
          rw [hsame] at hv
          rw [stringRest_escaped hsame hv,
            List.drop_append_of_le_length (length_escape_le '"' cs)] at h
          have hlt : (cs.drop (escape '"' cs).length).length < ('\\' :: cs).length :=
            Nat.lt_succ_of_le (List.drop_sublist _ _).length_le
          exact enclosed_escaped hcs hv (ih _ hlt _ _ _ h rfl)
        · have hline : c ≠ '\n' := by
            rintro rfl
            simp [stringRest] at h
          rw [stringRest_char hline hquote hslash] at h
          exact enclosed_char hline hquote hslash (ih _ (Nat.lt_succ_self _) _ _ _ h rfl)

theorem enclosed_closeRune (hrest : Apart rest) (h : (closeRune v k (cs ++ rest)).faults = []) :
    Enclosed (closeRune v k) k cs := by
  cases cs with
  | nil =>
    cases rest with
    | nil => cases h
    | cons c rest =>
      have hquote := ne_of_isBlank (hrest c rfl) (d := '\'') (by decide)
      simp [closeRune, hquote] at h
  | cons c cs =>
    by_cases hquote : c = '\''
    · subst hquote
      exact ⟨_, 1, Nat.le_add_left _ _, fun _ _ => rfl⟩
    · simp [closeRune, hquote] at h

theorem runeLiteral_char (hline : c ≠ '\n') (hquote : c ≠ '\'') (hslash : c ≠ '\\')
    (cs : List Char) : runeLiteral (c :: cs) = closeRune c 1 cs := by
  rw [runeLiteral, if_neg hline, if_neg hquote, if_neg hslash]

theorem runeLiteral_escaped (h : escape '\'' cs = e) (hv : e.result = .ok v) :
    runeLiteral ('\\' :: cs) = closeRune v.toChar (e.length + 1) (cs.drop e.length) := by
  subst h
  simp [runeLiteral, hv]

theorem runeLiteral_lineEnd (hend : LineEnd n m) : (runeLiteral n).faults ≠ [] := by
  cases hend with
  | close => exact List.cons_ne_nil _ _
  | @blank b v hb =>
    have hquote := ne_of_isBlank hb (d := '\'') (by decide)
    have hslash := ne_of_isBlank hb (d := '\\') (by decide)
    by_cases hline : b = '\n'
    · simp [runeLiteral, hline, Lexeme.fault]
    · simp [runeLiteral_char hline hquote hslash, closeRune]

theorem enclosed_runeLiteral (hend : LineEnd n m) (h : (runeLiteral (cs ++ n)).faults = []) :
    Enclosed runeLiteral 0 cs := by
  have hapart := hend.apart.1
  cases cs with
  | nil => exact absurd h (runeLiteral_lineEnd hend)
  | cons c cs =>
    have hline : c ≠ '\n' := by
      rintro rfl
      cases h
    have hquote : c ≠ '\'' := by
      rintro rfl
      cases h
    rw [List.cons_append] at h
    by_cases hslash : c = '\\'
    · subst hslash
      obtain ⟨v, hv⟩ : ∃ v, (escape '\'' (cs ++ n)).result = .ok v := by
        cases hv : (escape '\'' (cs ++ n)).result with
        | ok v => exact ⟨v, rfl⟩
        | error cause => simp [runeLiteral, hv, Lexeme.fault] at h
      have hcs : cs ≠ [] := by
        rintro rfl
        obtain ⟨cause, hcause⟩ := escape_of_apart hapart (q := '\'') (by decide)
        cases hcause.symm.trans hv
      have hsame := escape_append_apart hcs '\'' hapart
      have hle := length_escape_le '\'' cs
      rw [hsame] at hv
      rw [runeLiteral_escaped hsame hv, List.drop_append_of_le_length hle] at h
      obtain ⟨f, j, hj, hread⟩ := enclosed_closeRune hapart h
      rw [List.length_drop] at hj
      refine ⟨f, (escape '\'' cs).length + 1 + j, ?_, fun rest hrest => ?_⟩
      · rw [List.length_cons]
        omega
      · rw [List.cons_append, runeLiteral_escaped (escape_append_apart hcs '\'' hrest) hv,
          List.drop_append_of_le_length hle, hread rest hrest, Nat.zero_add]
    · rw [runeLiteral_char hline hquote hslash] at h
      obtain ⟨f, j, hj, hread⟩ := enclosed_closeRune hapart h
      refine ⟨f, 1 + j, ?_, fun rest hrest => ?_⟩
      · rw [List.length_cons]
        omega
      · rw [List.cons_append, runeLiteral_char hline hquote hslash, hread rest hrest, Nat.zero_add]

end GoEnum.Token
