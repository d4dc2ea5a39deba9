import GoEnum.Proofs.Token.Apart
import GoEnum.Proofs.Token.Lossless

namespace GoEnum.Token

open Text

def TokenKind.isPrintable : TokenKind → Bool
  | .keyword _ | .operator _ | .punctuation _ => true
  | .ident name => isIdentifier name
  | .int n => n < intLimit
  | _ => false

def TokenKind.print : TokenKind → List Char
  | .int n => Nat.toDigits 10 n
  | k => (k.spelling?.getD "").toList

def printLine (ks : List TokenKind) : List Char := [' '].intercalate (ks.map TokenKind.print)

def printLines (lines : List (List TokenKind)) : String :=
  .ofList (['\n'].intercalate (lines.map printLine))

def terminated (ks : List TokenKind) : List TokenKind :=
  if ks.getLast?.any TokenKind.endsStatement then ks ++ [.punctuation .semicolon] else ks

theorem isNumberPart_of_isBlank (hc : isBlank c) : isNumberPart c = false := by
  have hpoint := ne_of_isBlank hc (d := '.') (by decide)
  simp [isNumberPart, isIdentPart_of_isBlank hc, hpoint]

theorem reads_mark_apart (p : Punctuation) : Reads Apart p.spelling.toList [.punctuation p] := by
  cases p with
  | colon => exact reads_colon.weaken fun rest h => h.stops isOperatorChar_of_isBlank
  | dot => exact reads_token (by decide) fun rest h => lexeme_dot_apart h
  | ellipsis => exact reads_token (by decide) fun rest _ => rfl
  | _ => exact (reads_mark fun _ => rfl).weaken fun _ _ => trivial

theorem reads_print (h : k.isPrintable) : Reads Apart k.print [k] := by
  cases k with
  | keyword k => exact (reads_keyword k).weaken fun rest h => h.stops isIdentPart_of_isBlank
  | operator o => exact (reads_operator o).weaken fun rest h => h.stops isOperatorChar_of_isBlank
  | punctuation p => exact reads_mark_apart p
  | ident name => exact (reads_ident h).weaken fun rest h => h.stops isIdentPart_of_isBlank
  | int n =>
    have hn : n < intLimit := by simpa [TokenKind.isPrintable] using h
    exact (reads_decimal hn).weaken fun rest h => h.stops isNumberPart_of_isBlank
  | _ => cases h

theorem reads_nothing (P : List Char → Prop) : Reads P [] [] := by
  refine ⟨by simp, fun ends rest _ => ?_⟩
  cases h : kinds? ends rest <;> simp [endsAfter, h]

theorem reads_printLine (h : ∀ k ∈ ks, k.isPrintable) : Reads Apart (printLine ks) ks := by
  induction ks with
  | nil => exact reads_nothing Apart
  | cons k ks ih =>
    obtain ⟨hk, hks⟩ := List.forall_mem_cons.1 h
    have hread := reads_print hk
    cases ks with
    | nil => simpa [printLine] using hread
    | cons l ks =>
      have hline : printLine (k :: l :: ks) = k.print ++ ([' '] ++ printLine (l :: ks)) := by
        simp [printLine]
      rw [hline]
      exact hread.append (reads_space.followed (ih hks)) fun rest _ => apart_cons (by decide) _

theorem endsAfter_eq (ends : Bool) (ks : List TokenKind) :
    endsAfter ends ks = (ks.getLast?.map TokenKind.endsStatement).getD ends := by
  induction ks generalizing ends with
  | nil => rfl
  | cons k ks ih =>
    have hcons : endsAfter ends (k :: ks) = endsAfter k.endsStatement ks := rfl
    rw [hcons, ih, List.getLast?_cons]
    cases ks.getLast? <;> rfl

theorem terminated_eq (ks : List TokenKind) :
    terminated ks = ks ++ lineEnd (endsAfter false ks) := by
  rw [terminated, endsAfter_eq, lineEnd]
  cases hlast : ks.getLast? with
  | none => simp
  | some k => cases hk : k.endsStatement <;> simp [hk]

theorem kinds?_printLines {lines : List (List TokenKind)}
    (h : ∀ ks ∈ lines, ∀ k ∈ ks, k.isPrintable) :
    kinds? false (['\n'].intercalate (lines.map printLine)) =
      some (lines.flatMap terminated ++ [.eof]) := by
  have hend : ∀ ends, kinds? ends [] = some (lineEnd ends ++ [.eof]) := by
    intro ends
    rw [kinds?, scan_nil]
    rfl
  induction lines with
  | nil => exact hend false
  | cons ks lines ih =>
    obtain ⟨hks, hlines⟩ := List.forall_mem_cons.1 h
    have hread := reads_printLine hks
    cases lines with
    | nil =>
      have hkinds := hread.kinds false [] apart_nil
      rw [List.append_nil, hend] at hkinds
      simpa [terminated_eq] using hkinds
    | cons ls lines =>
      have htext : ['\n'].intercalate ((ks :: ls :: lines).map printLine) =
          (printLine ks ++ ['\n']) ++ ['\n'].intercalate ((ls :: lines).map printLine) := by
        simp
      rw [htext, hread.line (apart_cons (by decide)), ih hlines, Option.map_some, ← terminated_eq,
        ← List.append_assoc, ← List.flatMap_cons]

theorem lex_printLines (lines : List (List TokenKind))
    (h : ∀ ks ∈ lines, ∀ k ∈ ks, k.isPrintable) :
    ∃ ts, lex (printLines lines) = .ok ts ∧
      ts.map (·.node) = lines.flatMap terminated ++ [.eof] := by
  have hkinds := kinds?_printLines h
  obtain ⟨fs, hfs, hks⟩ := Option.map_eq_some_iff.1 hkinds
  have hscan : scan (printLines lines).toList = some fs := by
    rw [printLines, String.toList_ofList, hfs]
  obtain ⟨ts, hts, hnodes⟩ := lex_of_scan hscan
  exact ⟨ts, hts, hnodes.trans hks⟩

theorem lex_printLines_const :
    let lines : List (List TokenKind) :=
      [[.keyword .const, .ident "π", .operator .assign, .int 3], [],
        [.operator .inc, .punctuation .semicolon], [.punctuation .dot, .punctuation .ellipsis]]
    printLines lines = "const π = 3\n\n++ ;\n. ..." ∧
    (∀ ks ∈ lines, ∀ k ∈ ks, k.isPrintable) ∧
    ∃ ts, lex (printLines lines) = .ok ts ∧ ts.map (·.node) =
      [.keyword .const, .ident "π", .operator .assign, .int 3, .punctuation .semicolon,
        .operator .inc, .punctuation .semicolon, .punctuation .dot, .punctuation .ellipsis,
        .eof] := by
  intro lines
  have hprintable : ∀ ks ∈ lines, ∀ k ∈ ks, k.isPrintable := by decide +kernel
  exact ⟨by decide +kernel, hprintable, lex_printLines lines hprintable⟩

end GoEnum.Token
