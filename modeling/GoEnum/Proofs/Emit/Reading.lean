import GoEnum.Emit.Switch
import GoEnum.Proofs.Emit.Written
import GoEnum.Proofs.Token.Balanced
import GoEnum.Proofs.Token.Number

namespace GoEnum.Emit

open Text Token

def readLabel : List TokenKind → Option Label
  | [.int n] => some (.literal (toString n))
  | [.operator .minus, .int n] => some (.literal ("-" ++ toString n))
  | [.string s] => some (.literal (quote s))
  | [.ident x, .punctuation .dot, .ident "String", .punctuation .lparen, .punctuation .rparen] =>
    some (.textOf x)
  | _ => none

def readAssigned : List TokenKind → Option Assigned
  | [.ident name] => some (.constant name)
  | [.ident type, .punctuation .lparen, .ident input, .punctuation .rparen] =>
    some (.converted type input)
  | _ => none

def readAssignment (receiver : String) : List TokenKind → Option Assigned
  | .operator .star :: .ident x :: .operator .assign :: ks =>
    if x = receiver then readAssigned ks else none
  | _ => none

def readCase (receiver : String) (ks : List TokenKind) : Option Case :=
  match ks.splitOn (.punctuation .colon) with
  | [labels, body] => do
    return ⟨← (labels.splitOn (.punctuation .comma)).mapM readLabel,
      ← readAssignment receiver body⟩
  | _ => none

def readFallback (receiver : String) : List TokenKind → Option Fallback
  | [.keyword .return, .ident "fmt", .punctuation .dot, .ident "Errorf", .punctuation .lparen,
      .string _, .punctuation .comma, .ident _, .punctuation .rparen] => some .fail
  | ks => match readAssignment receiver ks with
    | some (.constant name) => some (.assign name)
    | _ => none

def readClauses (receiver : String) : List (List TokenKind) → Option (List Case × Fallback)
  | [.keyword .default :: .punctuation .colon :: body, [.punctuation .rbrace],
      [.keyword .return, .ident "nil"], [.eof]] => (readFallback receiver body).map ([], ·)
  | (.keyword .case :: ks) :: rest => do
    let k ← readCase receiver ks
    let (cases, fallback) ← readClauses receiver rest
    return (k :: cases, fallback)
  | _ => none

def readSwitch (receiver : String) : List TokenKind → Option Switch
  | .keyword .switch :: .ident input :: .punctuation .lbrace :: ks => do
    let (cases, fallback) ← readClauses receiver (ks.splitOn (.punctuation .semicolon))
    return ⟨input, cases, fallback⟩
  | _ => none

/-- The switch that a text holds, whose cases assign to the receiver. -/
def readText (receiver text : String) : Option Switch :=
  match lex text with
  | .ok ts => readSwitch receiver (ts.map (·.node))
  | .error _ => none

def Label.Readable : Label → Prop
  | .literal text => (∃ n : Int, text = toString n ∧ n.natAbs < intLimit) ∨ ∃ s, text = quote s
  | .textOf constant => isIdentifier constant

def Assigned.Readable : Assigned → Prop
  | .converted type input => isIdentifier type ∧ isIdentifier input
  | .constant name => isIdentifier name

structure Case.Readable (k : Case) : Prop where
  labels : ∀ l ∈ k.labels, l.Readable
  nonempty : k.labels ≠ []
  assigned : k.assigned.Readable

structure Switch.Readable (s : Switch) : Prop where
  input : isIdentifier s.input
  cases : ∀ k ∈ s.cases, k.Readable
  fallback : ∀ name, s.fallback = .assign name → isIdentifier name

def isSeparator : TokenKind → Bool
  | .punctuation .comma | .punctuation .colon | .punctuation .semicolon | .operator .define => true
  | _ => false

/-- Tokens that separators do not break apart, and in which delimiters match. -/
structure Unbroken (ks : List TokenKind) : Prop where
  whole : ∀ k ∈ ks, isSeparator k = false
  balanced : Balanced ks

theorem Unbroken.not_mem (h : Unbroken ks) (hk : isSeparator k) : k ∉ ks := by
  intro hmem
  simp [h.whole k hmem] at hk

structure IsStatement (ks : List TokenKind) : Prop where
  unended : TokenKind.punctuation .semicolon ∉ ks
  undefining : TokenKind.operator .define ∉ ks
  balanced : Balanced ks

theorem Unbroken.isStatement (h : Unbroken ks) : IsStatement ks :=
  ⟨h.not_mem rfl, h.not_mem rfl, h.balanced⟩

theorem reads_call : Reads Anything ".String()".toList
    [.punctuation .dot, .ident "String", .punctuation .lparen, .punctuation .rparen] := by
  have hname : isIdentifier "String" := by decide
  have hparens := (reads_mark (c := '(') (p := .lparen) fun _ => rfl).followed
    (reads_mark (c := ')') (p := .rparen) fun _ => rfl)
  have hcall := (reads_ident hname).append hparens fun _ _ => stops_cons rfl
  exact reads_dot.append hcall fun _ _ => ⟨_, _, rfl, by decide⟩

theorem reads_int (n : Int) (hn : n.natAbs < intLimit) : ∃ ks,
    Reads (Stops isNumberPart) (toString n).toList ks ∧
      readLabel ks = some (.literal (toString n)) ∧ Unbroken ks := by
  cases n with
  | ofNat n =>
    refine ⟨[.int n], ?_, rfl, ⟨by simp [isSeparator], rfl⟩⟩
    have hdigits := reads_decimal hn
    rwa [← toList_toString] at hdigits
  | negSucc n =>
    refine ⟨[.operator .minus, .int (n + 1)], ?_, rfl, ⟨by simp [isSeparator], rfl⟩⟩
    have htext : (toString (Int.negSucc n)).toList = ['-'] ++ Nat.toDigits 10 (n + 1) := by
      rw [← toList_toString]
      exact String.toList_append
    have hdigits := reads_decimal hn
    rw [htext]
    refine (reads_operator .minus).append hdigits fun rest _ => ?_
    obtain ⟨c, cs, h⟩ := List.exists_cons_of_ne_nil (Nat.toDigits_ne_nil (n := n + 1) (b := 10))
    rw [h, List.cons_append]
    refine stops_cons (isOperatorChar_of_isDigit ?_)
    exact Nat.isDigit_of_mem_toDigits (by decide) (by decide) (h ▸ List.mem_cons_self)

theorem reads_label (h : l.Readable) : ∃ ks,
    Reads (Stops isNumberPart) l.code.toList ks ∧ readLabel ks = some l ∧
      Unbroken ks := by
  cases l with
  | literal text =>
    rcases h with ⟨n, rfl, hn⟩ | ⟨s, rfl⟩
    · exact reads_int n hn
    · refine ⟨[.string s], ?_, rfl, ⟨by simp [isSeparator], rfl⟩⟩
      exact (reads_quote s).weaken fun _ _ => trivial
  | textOf constant =>
    have hcode : (Label.code (.textOf constant)).toList =
        constant.toList ++ ".String()".toList := by
      simp only [Label.code, String.toList_append, toString]
    refine ⟨[.ident constant, .punctuation .dot, .ident "String", .punctuation .lparen,
      .punctuation .rparen], ?_, rfl, ⟨by simp [isSeparator], rfl⟩⟩
    rw [hcode]
    exact ((reads_ident h).append reads_call fun _ _ => stops_cons (by decide)).weaken
      fun _ _ => trivial

theorem reads_comma : Reads Anything [',', ' '] [.punctuation .comma] :=
  (reads_mark fun _ => rfl).append reads_space fun _ _ => trivial

theorem stops_comma : Stops isNumberPart (',' :: cs) := stops_cons (by decide)

theorem reads_labels (h : ∀ l ∈ ls, l.Readable) (hne : ls ≠ []) : ∃ kss,
    Reads (Stops isNumberPart) (", ".intercalate (ls.map Label.code)).toList
      ([.punctuation .comma].intercalate kss) ∧
    kss.mapM readLabel = some ls ∧ kss ≠ [] ∧ ∀ ks ∈ kss, Unbroken ks := by
  induction ls with
  | nil => exact absurd rfl hne
  | cons l ls ih =>
    obtain ⟨ks, hks, hread, hunbroken⟩ := reads_label (h l List.mem_cons_self)
    rcases ls with _ | ⟨l', ls⟩
    · refine ⟨[ks], ?_, by simp [hread], by simp, by simpa using hunbroken⟩
      simpa using hks
    · obtain ⟨kss, hkss, hreads, hsome, hall⟩ :=
        ih (fun m hm => h m (List.mem_cons_of_mem l hm)) (by simp)
      refine ⟨ks :: kss, ?_, by simp [hread, hreads], by simp, ?_⟩
      · rw [List.intercalate_cons_of_ne_nil hsome, List.map_cons,
          String.intercalate_cons_of_ne_nil (by simp), String.toList_append,
          String.toList_append]
        exact (hks.append reads_comma fun _ _ => stops_comma).append hkss
          fun _ _ => trivial
      · simpa using ⟨hunbroken, hall⟩

theorem reads_assigned (h : a.Readable) : ∃ ks,
    Reads (Stops isIdentPart) a.code.toList ks ∧ readAssigned ks = some a ∧ Unbroken ks ∧
      ∀ ends, endsAfter ends ks = true := by
  cases a with
  | constant name =>
    exact ⟨[.ident name], reads_ident h, rfl, ⟨by simp [isSeparator], rfl⟩, fun _ => rfl⟩
  | converted type input =>
    have hcode : (Assigned.code (.converted type input)).toList =
        type.toList ++ (['('] ++ (input.toList ++ [')'])) := by
      simp only [Assigned.code, String.toList_append, toString, List.append_assoc]
      rfl
    refine ⟨[.ident type, .punctuation .lparen, .ident input, .punctuation .rparen],
      ?_, rfl, ⟨by simp [isSeparator], rfl⟩, fun _ => rfl⟩
    rw [hcode]
    have hinput := (reads_ident h.2).append (reads_mark (c := ')') (p := .rparen) fun _ => rfl)
      fun _ _ => stops_cons (by decide)
    have hparens := (reads_mark (c := '(') (p := .lparen) fun _ => rfl).followed hinput
    exact ((reads_ident h.1).append hparens fun _ _ => stops_cons (by decide)).weaken
      fun _ _ => trivial

theorem inked_assigned {a : Assigned} (h : a.Readable) : Inked a.code.toList := by
  cases a with
  | constant name => exact inked_of_isIdentifier h
  | converted type input =>
    simp only [Assigned.code, String.toList_append, toString]
    exact inked_concat _ (by decide)

theorem writes_assign (hreceiver : isIdentifier c.receiver) (h : a.Readable) :
    ∃ ks : List TokenKind,
    Writes [Switch.assign c a.code] (ks ++ [TokenKind.punctuation .semicolon]) ∧
      readAssignment c.receiver ks = some a ∧ Unbroken ks := by
  obtain ⟨ks, hks, hread, hunbroken, hends⟩ := reads_assigned h
  have htext : (s!"*{c.receiver} = {a.code}").toList =
      Operator.star.spelling.toList ++ (c.receiver.toList ++
        ([' '] ++ (Operator.assign.spelling.toList ++ ([' '] ++ a.code.toList)))) := by
    simp only [String.toList_append, toString, List.append_assoc]
    rfl
  have hassign := (reads_operator .assign).append (reads_space.followed hks)
    fun _ _ => stops_cons (by decide)
  have htarget := (reads_ident hreceiver).append (reads_space.followed hassign)
    fun _ _ => stops_cons (by decide)
  have hline := (reads_operator .star).append htarget fun rest _ => by
    rw [List.append_assoc]
    exact stops_ident hreceiver
  rw [← htext] at hline
  have hink : Inked (s!"*{c.receiver} = {a.code}").toList := by
    rw [htext]
    simp only [← List.append_assoc]
    exact (inked_assigned h).append _
  have hwrites := writes_line hline (fun rest => stops_cons (by decide)) hink
  simp only [endsAfter_append, hends] at hwrites
  refine ⟨_, hwrites, ?_, ?_⟩
  · simp [readAssignment, hread]
  · exact ⟨by simpa [isSeparator] using hunbroken.whole, hunbroken.balanced⟩

theorem not_mem_intercalate_comma (h : ∀ ks ∈ kss, Unbroken ks) (hk : isSeparator k)
    (hcomma : k ≠ .punctuation .comma) : k ∉ [TokenKind.punctuation .comma].intercalate kss := by
  induction kss with
  | nil => simp
  | cons ks kss ih =>
    have hks := (h ks List.mem_cons_self).not_mem hk
    rcases kss with _ | ⟨ks', kss⟩
    · simpa using hks
    · have hrest := ih fun ls hls => h ls (List.mem_cons_of_mem ks hls)
      simpa [List.intercalate_cons_cons, hks, hcomma] using hrest

theorem balanced_intercalate_comma (h : ∀ ks ∈ kss, Unbroken ks) :
    Balanced ([TokenKind.punctuation .comma].intercalate kss) := by
  induction kss with
  | nil => exact balanced_nil
  | cons ks kss ih =>
    have hks := (h ks List.mem_cons_self).balanced
    have hrest := ih fun ls hls => h ls (List.mem_cons_of_mem ks hls)
    rcases kss with _ | ⟨ks', kss⟩
    · simpa using hks
    · rw [List.intercalate_cons_cons]
      exact (hks.append (by decide)).append hrest

theorem readCase_append (hlabels : kss.mapM readLabel = some ls) (hne : kss ≠ [])
    (hkss : ∀ ks ∈ kss, Unbroken ks) (hbody : readAssignment receiver body = some a)
    (hunbroken : Unbroken body) :
    readCase receiver ([.punctuation .comma].intercalate kss ++ .punctuation .colon :: body) =
      some ⟨ls, a⟩ := by
  have hcolon := not_mem_intercalate_comma hkss (k := .punctuation .colon) rfl (by decide)
  have hcomma : ∀ ks ∈ kss, .punctuation .comma ∉ ks := fun ks hks => (hkss ks hks).not_mem rfl
  have hsplit : body.splitOn (.punctuation .colon) = [body] :=
    List.splitOn_eq_singleton (hunbroken.not_mem rfl)
  rw [readCase, List.splitOn_append_cons_self_of_not_mem hcolon, hsplit]
  simp [List.splitOn_intercalate _ hcomma hne, hlabels, hbody]

theorem writes_case (hreceiver : isIdentifier c.receiver) (hk : k.Readable) : ∃ ks,
    Writes [.clause ("case " ++ ", ".intercalate (k.labels.map Label.code) ++ ":")
      [Switch.assign c k.assigned.code]]
        (.keyword .case :: ks ++ [TokenKind.punctuation .semicolon]) ∧
      readCase c.receiver ks = some k ∧ IsStatement ks := by
  obtain ⟨kss, hkss, hlabels, hne, hunbroken⟩ := reads_labels hk.labels hk.nonempty
  obtain ⟨body, hbody, hassign, hbroken⟩ := writes_assign hreceiver hk.assigned
  have htext : ("case " ++ ", ".intercalate (k.labels.map Label.code) ++ ":").toList =
      Keyword.case.spelling.toList ++ ([' '] ++
        ((", ".intercalate (k.labels.map Label.code)).toList ++ [':'])) := by
    simp only [String.toList_append, List.append_assoc]
    rfl
  have hheader := (reads_keyword .case).append
    (reads_space.followed (hkss.append reads_colon fun _ _ => stops_cons (by decide)))
    fun _ _ => stops_cons (by decide)
  rw [← htext] at hheader
  have hink : Inked ("case " ++ ", ".intercalate (k.labels.map Label.code) ++ ":").toList := by
    rw [String.toList_append]
    exact inked_concat _ (by decide)
  have hline := writes_line hheader (fun rest => stops_cons (by decide)) hink
  simp only [endsAfter_append] at hline
  refine ⟨_, ?_, readCase_append hlabels hne hunbroken hassign hbroken, ?_, ?_, ?_⟩
  · have hclause := writes_clause hline hbody
    simpa [lineEnd, endsAfter, TokenKind.endsStatement, Punctuation.endsStatement,
      Punctuation.isCloser] using hclause
  · have hlabels :=
      not_mem_intercalate_comma hunbroken (k := .punctuation .semicolon) rfl (by decide)
    have hbody := hbroken.not_mem (k := .punctuation .semicolon) rfl
    simp [hlabels, hbody]
  · have hlabels := not_mem_intercalate_comma hunbroken (k := .operator .define) rfl (by decide)
    have hbody := hbroken.not_mem (k := .operator .define) rfl
    simp [hlabels, hbody]
  · exact (balanced_intercalate_comma hunbroken).append hbroken.balanced

def errorKinds (message argument : String) : List TokenKind :=
  [.keyword .return, .ident "fmt", .punctuation .dot, .ident "Errorf", .punctuation .lparen,
    .string message, .punctuation .comma, .ident argument, .punctuation .rparen]

theorem writes_error
    (htext : s.toList = ("return fmt.Errorf(\"" ++ message ++ "\", " ++ argument ++ ")").toList)
    (hmessage : message.toList.all isPlain) (hargument : isIdentifier argument) :
    Writes [.line s] (errorKinds message argument ++ [TokenKind.punctuation .semicolon]) := by
  refine writes_spell [.keyword .return, .space, .ident "fmt", .mark .dot, .ident "Errorf",
    .mark .lparen, .plain message, .mark .comma, .space, .ident argument, .mark .rparen] ?_ rfl ?_
  · rw [htext]
    simp [spell, Piece.chars, Keyword.spelling, Punctuation.spelling]
  · simp only [List.forall_mem_cons]
    exact ⟨rfl, rfl, rfl, rfl, rfl, rfl, hmessage, rfl, rfl, hargument, rfl, by simp⟩

theorem isPlain_around (hname : isIdentifier name) {u v : String} (hu : u.toList.all isPlain)
    (hv : v.toList.all isPlain) : (u ++ name ++ v).toList.all isPlain := by
  have hplain : name.toList.all isPlain := List.all_eq_true.2 (isPlain_of_isIdentifier hname)
  simp only [String.toList_append, List.all_append, hu, hv, hplain]
  rfl

theorem isIdentifier_input (k : Conversion) : isIdentifier k.input := by
  cases k <;> decide

theorem writes_unrecognized (htype : isIdentifier c.type)
    (hoperation : ∀ d ∈ operation.toList, isPlain d) : ∃ message : String,
    Writes [.line (Switch.unrecognized c operation)]
      (errorKinds message c.conversion.input ++ [TokenKind.punctuation .semicolon]) := by
  have hstart : ("failed to " ++ operation ++ " ").toList.all isPlain := by
    simp only [String.toList_append, List.all_append, List.all_eq_true.2 hoperation]
    decide
  refine ⟨_, writes_error ?_ (isPlain_around htype hstart
    (v := " value: unrecognized value `%v`") (by decide)) (isIdentifier_input _)⟩
  unfold Switch.unrecognized
  simp [toString]

theorem readFallback_assign (h : readAssignment receiver ks = some (.constant name)) :
    readFallback receiver ks = some (.assign name) := by
  unfold readFallback
  split
  · cases h
  · rw [h]

def fallbackCode (c : TypeContext) (operation : String) : Fallback → Code
  | .assign name => Switch.assign c name
  | .fail => .line (Switch.unrecognized c operation)

theorem writes_fallback (hreceiver : isIdentifier c.receiver) (htype : isIdentifier c.type)
    (hoperation : ∀ d ∈ operation.toList, isPlain d)
    (hfallback : ∀ name, f = .assign name → isIdentifier name) : ∃ ks : List TokenKind,
    Writes [fallbackCode c operation f] (ks ++ [TokenKind.punctuation .semicolon]) ∧
      readFallback c.receiver ks = some f ∧ IsStatement ks := by
  cases f with
  | fail =>
    obtain ⟨message, hmessage⟩ := writes_unrecognized htype hoperation
    exact ⟨_, hmessage, rfl, by simp [errorKinds], by simp [errorKinds], rfl⟩
  | assign name =>
    obtain ⟨ks, hks, hread, hunbroken⟩ :=
      writes_assign (a := .constant name) hreceiver (hfallback name rfl)
    exact ⟨ks, hks, readFallback_assign hread, hunbroken.isStatement⟩

def terminated (kss : List (List TokenKind)) : List TokenKind :=
  kss.flatMap (· ++ [TokenKind.punctuation .semicolon])

def endKinds (ks : List TokenKind) : List TokenKind :=
  .keyword .default :: .punctuation .colon :: (ks ++ [TokenKind.punctuation .semicolon,
    .punctuation .rbrace, .punctuation .semicolon, .keyword .return, .ident "nil",
    .punctuation .semicolon])

def switchKinds (input : String) (kss : List (List TokenKind)) (ks : List TokenKind) :
    List TokenKind :=
  .keyword .switch :: .ident input :: .punctuation .lbrace :: (terminated kss ++ endKinds ks)

theorem splitOn_terminated (h : ∀ ks ∈ kss, TokenKind.punctuation .semicolon ∉ ks)
    (rest : List TokenKind) :
    (terminated kss ++ rest).splitOn (.punctuation .semicolon) =
      kss ++ rest.splitOn (.punctuation .semicolon) := by
  induction kss with
  | nil => rfl
  | cons ks kss ih =>
    have hks := h ks List.mem_cons_self
    have hcons : terminated (ks :: kss) ++ rest =
        ks ++ .punctuation .semicolon :: (terminated kss ++ rest) := by
      simp [terminated]
    rw [hcons, List.splitOn_append_cons_self_of_not_mem hks,
      ih fun ls hls => h ls (List.mem_cons_of_mem ks hls), List.cons_append]

theorem writes_cases (hreceiver : isIdentifier c.receiver) (h : ∀ k ∈ cases, k.Readable) :
    ∃ kss, Writes (cases.map fun k =>
        .clause ("case " ++ ", ".intercalate (k.labels.map Label.code) ++ ":")
          [Switch.assign c k.assigned.code]) (terminated kss) ∧
      (∀ ks ∈ kss, IsStatement ks) ∧
      ∀ rest fallback, readClauses c.receiver rest = some ([], fallback) →
        readClauses c.receiver (kss ++ rest) = some (cases, fallback) := by
  induction cases with
  | nil => exact ⟨[], writes_nil, by simp, fun _ _ hrest => hrest⟩
  | cons k cases ih =>
    obtain ⟨ks, hks, hread, hstatement⟩ := writes_case hreceiver (h k List.mem_cons_self)
    obtain ⟨kss, hkss, hall, hreads⟩ := ih fun l hl => h l (List.mem_cons_of_mem k hl)
    refine ⟨(.keyword .case :: ks) :: kss, ?_, ?_, ?_⟩
    · have hcons := hks.append hkss
      simpa [terminated] using hcons
    · refine List.forall_mem_cons.2 ⟨⟨?_, ?_, hstatement.balanced⟩, hall⟩
      · simpa using hstatement.unended
      · simpa using hstatement.undefining
    · intro rest fallback hrest
      simp [readClauses, hread, hreads rest fallback hrest]

theorem writes_head (h : isIdentifier input) : Writes [.line ("switch " ++ input ++ " \x7b")]
    [.keyword .switch, .ident input, .punctuation .lbrace] := by
  refine writes_spell [.keyword .switch, .space, .ident input, .space, .mark .lbrace] ?_
    rfl ?_
  · simp [spell, Piece.chars, Keyword.spelling, Punctuation.spelling]
  · simp only [List.forall_mem_cons]
    exact ⟨rfl, rfl, h, rfl, rfl, by simp⟩

theorem writes_end (hfallback : Writes [f] (ks ++ [TokenKind.punctuation .semicolon])) : Writes
    ([.clause "default:" [f]] ++ [Code.line "\x7d", .blank, .line "return nil"]) (endKinds ks) := by
  have hlabel := writes_spell (s := "default:") [.keyword .default, .mark .colon]
    (by decide) rfl (by decide)
  have hbrace := writes_spell (s := "\x7d") [.mark .rbrace] (by decide) rfl (by decide)
  have hreturn := writes_spell (s := "return nil")
    [.keyword .return, .space, .ident "nil"] (by decide) rfl (by decide)
  have hkinds : endKinds ks = .keyword .default :: .punctuation .colon ::
      (ks ++ [TokenKind.punctuation .semicolon]) ++
        (.punctuation .rbrace :: .punctuation .semicolon ::
          [.keyword .return, .ident "nil", .punctuation .semicolon]) := by
    simp [endKinds]
  rw [hkinds]
  exact (writes_clause hlabel hfallback).append (hbrace.append (writes_blank.append hreturn))

theorem readSwitch_terminated (input : String)
    (hall : ∀ ks ∈ kss, TokenKind.punctuation .semicolon ∉ ks)
    (hsemicolon : TokenKind.punctuation .semicolon ∉ ks)
    (hcases : ∀ rest fallback, readClauses receiver rest = some ([], fallback) →
      readClauses receiver (kss ++ rest) = some (cases, fallback))
    (hfallback : readFallback receiver ks = some fallback) :
    readSwitch receiver (switchKinds input kss ks ++ [TokenKind.eof]) =
      some ⟨input, cases, fallback⟩ := by
  have hend : (endKinds ks ++ [TokenKind.eof]).splitOn (.punctuation .semicolon) =
      [.keyword .default :: .punctuation .colon :: ks, [.punctuation .rbrace],
        [.keyword .return, .ident "nil"], [.eof]] := by
    have hdefault : TokenKind.punctuation .semicolon ∉
        TokenKind.keyword .default :: .punctuation .colon :: ks := by
      simp [hsemicolon]
    have hsplit := List.splitOn_append_cons_self_of_not_mem hdefault
      [.punctuation .rbrace, .punctuation .semicolon, .keyword .return, .ident "nil",
        .punctuation .semicolon, .eof]
    rw [endKinds, List.cons_append, List.cons_append, List.append_assoc]
    exact hsplit
  rw [switchKinds, List.cons_append, List.cons_append, List.cons_append, List.append_assoc,
    readSwitch, splitOn_terminated hall, hend,
    hcases _ fallback (by simp [readClauses, hfallback])]
  rfl

theorem balanced_switch (hkss : ∀ ks ∈ kss, Balanced ks) (hks : Balanced ks) :
    Balanced (switchKinds input kss ks) := by
  have hcases : Balanced (terminated kss) :=
    balanced_flatMap fun ks hks => (hkss ks hks).append (by decide)
  have hlabel : Balanced [.keyword .default, .punctuation .colon] := by decide
  have hdefault := hlabel.append (hks.append (by decide : Balanced [.punctuation .semicolon]))
  have hblock := (hcases.append hdefault).group (p := .lbrace) rfl
  have hhead : Balanced [.keyword .switch, .ident input] := rfl
  have hend : Balanced [.punctuation .semicolon, .keyword .return, .ident "nil",
      .punctuation .semicolon] := by decide
  simpa [switchKinds, endKinds] using hhead.append (hblock.append hend)

theorem define_not_mem_switch (hkss : ∀ ks ∈ kss, TokenKind.operator .define ∉ ks)
    (hks : TokenKind.operator .define ∉ ks) :
    TokenKind.operator .define ∉ switchKinds input kss ks := by
  have hcases : TokenKind.operator .define ∉ terminated kss := by
    intro hmem
    obtain ⟨ks', hks', hmem⟩ := List.mem_flatMap.1 hmem
    simp [hkss ks' hks'] at hmem
  simp [switchKinds, endKinds, hcases, hks]

theorem writes_switch (hs : s.Readable) (hreceiver : isIdentifier c.receiver)
    (htype : isIdentifier c.type) (hoperation : ∀ d ∈ operation.toList, isPlain d) :
    ∃ ks, Writes (s.code c operation) ks ∧ readSwitch c.receiver (ks ++ [TokenKind.eof]) = some s ∧
      Balanced ks ∧ .operator .define ∉ ks := by
  obtain ⟨kss, hkss, hall, hcases⟩ := writes_cases (c := c) hreceiver hs.cases
  obtain ⟨ks, hks, hfallback, hstatement⟩ :=
    writes_fallback hreceiver htype hoperation hs.fallback
  have hcode : s.code c operation = [.line ("switch " ++ s.input ++ " \x7b")] ++
      ((s.cases.map fun k =>
        .clause ("case " ++ ", ".intercalate (k.labels.map Label.code) ++ ":")
          [Switch.assign c k.assigned.code]) ++
        ([.clause "default:" [fallbackCode c operation s.fallback]] ++
          [.line "\x7d", .blank, .line "return nil"])) := by
    rw [Switch.code, ← List.append_assoc, ← List.append_assoc]
    cases s.fallback <;> rfl
  have hwrites := (writes_head hs.input).append (hkss.append (writes_end hks))
  rw [← hcode] at hwrites
  refine ⟨switchKinds s.input kss ks, hwrites, ?_, ?_, ?_⟩
  · exact readSwitch_terminated s.input (fun ks hks => (hall ks hks).unended)
      hstatement.unended hcases hfallback
  · exact balanced_switch (fun ks hks => (hall ks hks).balanced) hstatement.balanced
  · exact define_not_mem_switch (fun ks hks => (hall ks hks).undefining) hstatement.undefining

theorem readText_code (hs : s.Readable) (hreceiver : isIdentifier c.receiver)
    (htype : isIdentifier c.type) (hoperation : ∀ d ∈ operation.toList, isPlain d)
    (level : Nat) :
    readText c.receiver ((Emitter.mk "" level).codes (s.code c operation)).text = some s := by
  obtain ⟨ks, hwrites, hread, -, -⟩ := writes_switch hs hreceiver htype hoperation
  obtain ⟨ts, hlex, hkinds⟩ := lex_of_writes hwrites level
  rw [readText, hlex]
  simp only [hkinds]
  exact hread

end GoEnum.Emit
