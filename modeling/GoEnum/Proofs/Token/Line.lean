import GoEnum.Proofs.Token.Atom
import GoEnum.Text.Blank

namespace GoEnum.Token

open Text

def Trimmed (l : List Char) : Prop := ∀ c ∈ l.getLast?, isBlank c = false

def Inked (l : List Char) : Prop := ∃ c ∈ l.getLast?, isBlank c = false

theorem Inked.trimmed (h : Inked l) : Trimmed l := by
  obtain ⟨c, hc, hblank⟩ := h
  intro d hd
  obtain rfl : c = d := Option.mem_unique hc hd
  exact hblank

theorem Inked.append (h : Inked v) (u : List Char) : Inked (u ++ v) := by
  obtain ⟨c, hc, hblank⟩ := h
  exact ⟨c, List.mem_getLast?_append_of_mem_getLast? hc, hblank⟩

theorem inked_concat (u : List Char) (h : isBlank c = false) : Inked (u ++ [c]) :=
  Inked.append ⟨c, rfl, h⟩ u

theorem inked_of_forall (hne : l ≠ []) (h : ∀ c ∈ l, isBlank c = false) : Inked l :=
  ⟨l.getLast hne, List.getLast?_eq_some_getLast hne, h _ (List.getLast_mem hne)⟩

structure IsLine (l : List Char) : Prop where
  unbroken : '\n' ∉ l
  trimmed : Trimmed l

theorem isLine_nil : IsLine [] := ⟨by simp, by simp [Trimmed]⟩

def unlines (ls : List (List Char)) : List Char := ls.flatMap (· ++ ['\n'])

theorem unlines_append (ls ms : List (List Char)) : unlines (ls ++ ms) = unlines ls ++ unlines ms :=
  List.flatMap_append

inductive ReadsEach : List (List Char) → List TokenKind → Prop
  | nil : ReadsEach [] []
  | cons : IsLine l → ReadsLines (l ++ ['\n']) ks → ReadsEach ls ks' →
      ReadsEach (l :: ls) (ks ++ ks')

namespace ReadsEach

theorem single (hl : IsLine l) (h : ReadsLines (l ++ ['\n']) ks) : ReadsEach [l] ks := by
  simpa using cons hl h nil

theorem append (h : ReadsEach ls ks) (h' : ReadsEach ms ks') :
    ReadsEach (ls ++ ms) (ks ++ ks') := by
  induction h with
  | nil => exact h'
  | cons hl hks _ ih =>
    rw [List.append_assoc]
    exact cons hl hks ih

theorem readsLines (h : ReadsEach ls ks) : ReadsLines (unlines ls) ks := by
  induction h with
  | nil => exact readsLines_nil
  | cons _ hks _ ih => exact hks.append ih

end ReadsEach

theorem readsLines_unique (h : ReadsLines u ks) (h' : ReadsLines u ls) : ks = ls := by
  have hkinds : kinds? false [] = some [.eof] := by
    rw [kinds?, scan_nil]
    rfl
  have heq := (h []).symm.trans (h' [])
  simpa [hkinds] using heq

def IsText (cs : List Char) (ks : List TokenKind) : Prop := ∃ ls, cs = unlines ls ∧ ReadsEach ls ks

theorem isText_nil : IsText [] [] := ⟨[], rfl, .nil⟩

theorem IsText.append (h : IsText u ks) (h' : IsText v ls) : IsText (u ++ v) (ks ++ ls) := by
  obtain ⟨us, rfl, hus⟩ := h
  obtain ⟨vs, rfl, hvs⟩ := h'
  exact ⟨us ++ vs, (unlines_append us vs).symm, hus.append hvs⟩

theorem IsText.readsLines (h : IsText cs ks) : ReadsLines cs ks := by
  obtain ⟨ls, rfl, hls⟩ := h
  exact hls.readsLines

theorem lex_of_isText (h : IsText s.toList ks) :
    ∃ ts, lex s = .ok ts ∧ ts.map (·.node) = ks ++ [.eof] := lex_of_readsLines h.readsLines

def blankCodes : List Nat :=
  List.range' 9 5 ++ [0x20, 0x85, 0xa0, 0x1680] ++ List.range' 0x2000 11 ++
    [0x2028, 0x2029, 0x202f, 0x205f, 0x3000]

theorem mem_blankCodes (h : isBlank c) : c.toNat ∈ blankCodes := by
  simp only [isBlank, Bool.or_eq_true, Bool.and_eq_true, decide_eq_true_eq, beq_iff_eq] at h
  simp only [blankCodes, List.mem_append, List.mem_range'_1, List.mem_cons, List.not_mem_nil,
    or_false]
  omega

theorem isBlank_of_isIdentPart (h : isIdentPart c) : isBlank c = false := by
  have hcodes : ∀ n ∈ blankCodes, isIdentPart (Char.ofNat n) = false := by decide +kernel
  by_contra hblank
  have hmem := hcodes _ (mem_blankCodes (Bool.eq_true_of_not_eq_false hblank))
  rw [Char.ofNat_toNat, h] at hmem
  cases hmem

theorem inked_of_isIdentifier (h : isIdentifier s) : Inked s.toList := by
  obtain ⟨c, cs, hs, hc, hcs, -⟩ := exists_cons_of_isIdentifier h
  rw [hs]
  refine inked_of_forall (List.cons_ne_nil c cs) (List.forall_mem_cons.2 ⟨?_, ?_⟩)
  · exact isBlank_of_isIdentPart (isIdentPart_of_isIdentStart hc)
  · exact fun d hd => isBlank_of_isIdentPart (hcs d hd)

end GoEnum.Token
