import GoEnum.Emit.Methods
import GoEnum.Proofs.Emit.Reading
import GoEnum.Proofs.Syntax.Method

namespace GoEnum.Emit

open Token Syntax

structure IsBody (code : List Code) (ks : List TokenKind) : Prop where
  writes : Writes code ks
  balanced : Balanced ks

section

variable {s header : String} {u v body : List Code}

theorem IsBody.append (hu : IsBody u ks) (hv : IsBody v ls) : IsBody (u ++ v) (ks ++ ls) :=
  ⟨hu.writes.append hv.writes, hu.balanced.append hv.balanced⟩

theorem isBody_line (ps : List Piece) (htext : s.toList = spell ps) (h : isFluent ps)
    (hvalid : ∀ p ∈ ps, p.valid) (hends : endsAfter false (pieceKinds ps) = true)
    (hbalanced : Balanced (pieceKinds ps)) :
    IsBody [.line s] (pieceKinds ps ++ [TokenKind.punctuation .semicolon]) := by
  have hwrites := writes_spell ps htext h hvalid
  rw [hends] at hwrites
  exact ⟨hwrites, hbalanced.append (by decide)⟩

def ifKinds (condition body : List TokenKind) : List TokenKind :=
  .keyword .if :: (condition ++ .punctuation .lbrace :: body ++
    [.punctuation .rbrace, .punctuation .semicolon])

theorem isBody_if (ps : List Piece)
    (htext : (header ++ " \x7b").toList =
      spell (.keyword .if :: .space :: ps ++ [.space, .mark .lbrace]))
    (h : isFluent (.keyword .if :: .space :: ps ++ [.space, .mark .lbrace]))
    (hvalid : ∀ p ∈ ps, p.valid) (hbalanced : Balanced (pieceKinds ps)) (hbody : IsBody body ks) :
    IsBody [.block header body] (ifKinds (pieceKinds ps) ks) := by
  have hvalid' : ∀ p ∈ .keyword .if :: .space :: ps ++ [.space, .mark .lbrace], p.valid := by
    simp only [List.cons_append, List.forall_mem_cons, List.forall_mem_append]
    exact ⟨rfl, rfl, hvalid, by decide⟩
  have hkinds : pieceKinds (.keyword .if :: .space :: ps ++ [.space, .mark .lbrace]) =
      .keyword .if :: pieceKinds ps ++ [TokenKind.punctuation .lbrace] := by
    simp [pieceKinds, Piece.kinds]
  have hheader := writes_spell _ htext h hvalid'
  rw [hkinds, endsAfter_append] at hheader
  constructor
  · have hblock := writes_block hheader hbody.writes
    simpa [ifKinds, lineEnd, endsAfter, TokenKind.endsStatement, Punctuation.endsStatement,
      Punctuation.isCloser] using hblock
  · have hif : Balanced [.keyword .if] := rfl
    have hblock := hif.append (hbalanced.append (hbody.balanced.group (p := .lbrace) rfl))
    have hend : Balanced [.punctuation .semicolon] := rfl
    simpa [ifKinds] using hblock.append hend

def declareKinds (names : List String) (value : List TokenKind) : List TokenKind :=
  separated (names.map fun name => [.ident name]) ++
    .operator .define :: (value ++ [TokenKind.punctuation .semicolon])

theorem isBody_error
    (htext : s.toList = ("return fmt.Errorf(\"" ++ message ++ "\", " ++ argument ++ ")").toList)
    (hmessage : message.toList.all isPlain) (hargument : isIdentifier argument) :
    IsBody [.line s] (errorKinds message argument ++ [TokenKind.punctuation .semicolon]) :=
  ⟨writes_error htext hmessage hargument, rfl⟩

end

theorem isIdentifier_type (k : Conversion) : isIdentifier k.type := by
  cases k <;> decide

structure TypeContext.Readable (c : TypeContext) : Prop where
  type : isIdentifier c.type
  receiver : isIdentifier c.receiver
  switch : (Switch.of c).Readable

variable {c : TypeContext}

def scanMessage (c : TypeContext) : String :=
  "failed to scan " ++ c.type ++ (" value: expected type `" ++ c.conversion.type ++ "`, got `%T`")

theorem isPlain_scanMessage (h : isIdentifier c.type) : (scanMessage c).toList.all isPlain := by
  refine isPlain_around h (by decide) ?_
  cases c.conversion <;> decide

def scanGuard (c : TypeContext) : List TokenKind :=
  declareKinds [c.conversion.input, "ok"] [.ident "value", .punctuation .dot, .punctuation .lparen,
      .ident c.conversion.type, .punctuation .rparen] ++
    ifKinds [.operator .not, .ident "ok"]
      (errorKinds (scanMessage c) "value" ++ [TokenKind.punctuation .semicolon])

theorem isBody_scanGuard (h : isIdentifier c.type) : IsBody
    [.line s!"{c.conversion.input}, ok := value.({c.conversion.type})",
      .block "if !ok" [.line (
        s!"return fmt.Errorf(\"failed to scan {c.type} value: expected type `{c.conversion.type}`, " ++
          "got `%T`\", value)")]] (scanGuard c) := by
  refine IsBody.append (isBody_line [.ident c.conversion.input, .mark .comma, .space, .ident "ok",
    .space, .operator .define, .space, .ident "value", .mark .dot, .mark .lparen,
    .ident c.conversion.type, .mark .rparen] ?_ rfl ?_ rfl rfl)
    (isBody_if [.operator .not, .ident "ok"] (by decide) rfl (by decide) rfl
      (isBody_error ?_ (isPlain_scanMessage h) rfl))
  · simp [toString, spell, Piece.chars, Operator.spelling, Punctuation.spelling]
  · simp only [List.forall_mem_cons]
    exact ⟨isIdentifier_input _, rfl, rfl, rfl, rfl, rfl, rfl, rfl, rfl, rfl,
      isIdentifier_type _, rfl, by simp⟩
  · unfold scanMessage
    simp [toString]

def textKinds (c : TypeContext) : List TokenKind :=
  [.ident c.receiver, .punctuation .dot, .ident "String", .punctuation .lparen,
    .punctuation .rparen]

def callKinds (function argument : String) : List TokenKind :=
  [.ident function, .punctuation .lparen, .ident argument, .punctuation .rparen]

def valueKinds (c : TypeContext) : List TokenKind :=
  let value := if c.textual then textKinds c else callKinds c.conversion.type c.receiver
  .keyword .return :: (value ++
    [TokenKind.punctuation .comma, .ident "nil", .punctuation .semicolon])

theorem isBody_value (h : c.Readable) : IsBody (value c).body (valueKinds c) := by
  unfold value valueKinds
  dsimp only
  split
  · refine isBody_line [.keyword .return, .space, .ident c.receiver, .mark .dot, .ident "String",
      .mark .lparen, .mark .rparen, .mark .comma, .space, .ident "nil"] ?_ rfl ?_ rfl rfl
    · unfold textCall
      simp [toString, spell, Piece.chars, Keyword.spelling, Punctuation.spelling]
    · simp only [List.forall_mem_cons]
      exact ⟨rfl, rfl, h.receiver, rfl, rfl, rfl, rfl, rfl, rfl, rfl, by simp⟩
  · refine isBody_line [.keyword .return, .space, .ident c.conversion.type, .mark .lparen,
      .ident c.receiver, .mark .rparen, .mark .comma, .space, .ident "nil"] ?_ rfl ?_ rfl rfl
    · simp [toString, spell, Piece.chars, Keyword.spelling, Punctuation.spelling]
    · simp only [List.forall_mem_cons]
      exact ⟨rfl, rfl, isIdentifier_type _, rfl, h.receiver, rfl, rfl, rfl, rfl, by simp⟩

def bytesKinds (c : TypeContext) : List TokenKind :=
  if c.textual then textKinds c
  else if c.conversion.isInteger then
    [TokenKind.ident "fmt", .punctuation .dot, .ident "Sprintf", .punctuation .lparen,
      .string "%d", .punctuation .comma] ++ callKinds c.conversion.type c.receiver ++
      [TokenKind.punctuation .rparen]
  else [.ident c.receiver]

def marshalKinds (c : TypeContext) : List TokenKind :=
  [TokenKind.keyword .return, .punctuation .lbracket, .punctuation .rbracket, .ident "byte",
    .punctuation .lparen] ++ bytesKinds c ++
    [TokenKind.punctuation .rparen, .punctuation .comma, .ident "nil", .punctuation .semicolon]

theorem isBody_marshal (h : c.Readable) : IsBody (marshal c).body (marshalKinds c) := by
  unfold marshal marshalKinds bytesKinds
  dsimp only
  split
  · refine isBody_line [.keyword .return, .space, .mark .lbracket, .mark .rbracket, .ident "byte",
      .mark .lparen, .ident c.receiver, .mark .dot, .ident "String", .mark .lparen, .mark .rparen,
      .mark .rparen, .mark .comma, .space, .ident "nil"] ?_ rfl ?_ rfl rfl
    · unfold textCall
      simp [toString, spell, Piece.chars, Keyword.spelling, Punctuation.spelling]
    · simp only [List.forall_mem_cons]
      exact ⟨rfl, rfl, rfl, rfl, rfl, rfl, h.receiver, rfl, rfl, rfl, rfl, rfl, rfl, rfl, rfl,
        by simp⟩
  · split
    · refine isBody_line [.keyword .return, .space, .mark .lbracket, .mark .rbracket, .ident "byte",
        .mark .lparen, .ident "fmt", .mark .dot, .ident "Sprintf", .mark .lparen, .plain "%d",
        .mark .comma, .space, .ident c.conversion.type, .mark .lparen, .ident c.receiver,
        .mark .rparen, .mark .rparen, .mark .rparen, .mark .comma, .space, .ident "nil"] ?_ rfl ?_
        rfl rfl
      · simp [toString, spell, Piece.chars, Keyword.spelling, Punctuation.spelling]
      · simp only [List.forall_mem_cons]
        exact ⟨rfl, rfl, rfl, rfl, rfl, rfl, rfl, rfl, rfl, rfl, rfl, rfl, rfl,
          isIdentifier_type _, rfl, h.receiver, rfl, rfl, rfl, rfl, rfl, rfl, by simp⟩
    · refine isBody_line [.keyword .return, .space, .mark .lbracket, .mark .rbracket, .ident "byte",
        .mark .lparen, .ident c.receiver, .mark .rparen, .mark .comma, .space, .ident "nil"] ?_ rfl
        ?_ rfl rfl
      · simp [toString, spell, Piece.chars, Keyword.spelling, Punctuation.spelling]
      · simp only [List.forall_mem_cons]
        exact ⟨rfl, rfl, rfl, rfl, rfl, rfl, h.receiver, rfl, rfl, rfl, rfl, by simp⟩

def unmarshalMessage (c : TypeContext) : String :=
  "failed to unmarshal " ++ c.type ++
    (" value: could not convert `[]byte` to `" ++ c.conversion.type ++ "`: %v")

theorem isPlain_unmarshalMessage (h : isIdentifier c.type) :
    (unmarshalMessage c).toList.all isPlain := by
  refine isPlain_around h (by decide) ?_
  cases c.conversion <;> decide

def readIntegerKinds (c : TypeContext) (parser : String) : List TokenKind :=
  declareKinds ["v", "err"] [.ident "strconv", .punctuation .dot, .ident parser,
      .punctuation .lparen, .ident "str", .punctuation .comma, .int 10, .punctuation .comma,
      .int 64, .punctuation .rparen] ++
    (ifKinds [.ident "err", .operator .notEq, .ident "nil"]
      (errorKinds (unmarshalMessage c) "err" ++ [TokenKind.punctuation .semicolon]) ++
    declareKinds [c.conversion.input] (callKinds c.conversion.type "v"))

theorem isBody_readInteger (h : isIdentifier c.type) (hparser : isIdentifier parser) :
    IsBody (readInteger c parser) (readIntegerKinds c parser) := by
  unfold readInteger
  refine IsBody.append (isBody_line [.ident "v", .mark .comma, .space, .ident "err", .space,
    .operator .define, .space, .ident "strconv", .mark .dot, .ident parser, .mark .lparen,
    .ident "str", .mark .comma, .space, .int 10, .mark .comma, .space, .int 64, .mark .rparen]
    ?_ rfl ?_ rfl rfl) (IsBody.append
      (isBody_if [.ident "err", .space, .operator .notEq, .space, .ident "nil"] (by decide) rfl
        (by decide) rfl (isBody_error ?_ (isPlain_unmarshalMessage h) rfl))
      (isBody_line [.ident c.conversion.input, .space, .operator .define, .space,
        .ident c.conversion.type, .mark .lparen, .ident "v", .mark .rparen] ?_ rfl ?_ rfl rfl))
  · have hbase : Nat.toDigits 10 10 = ['1', '0'] := rfl
    have hbits : Nat.toDigits 10 64 = ['6', '4'] := rfl
    simp [toString, spell, Piece.chars, Operator.spelling, Punctuation.spelling, hbase, hbits]
  · simp only [List.forall_mem_cons]
    exact ⟨rfl, rfl, rfl, rfl, rfl, rfl, rfl, rfl, rfl, hparser, rfl, rfl, rfl, rfl, rfl, rfl, rfl,
      rfl, rfl, by simp⟩
  · unfold unmarshalMessage
    simp [toString]
  · simp [toString, spell, Piece.chars, Operator.spelling, Punctuation.spelling]
  · simp only [List.forall_mem_cons]
    exact ⟨isIdentifier_input _, rfl, rfl, rfl, isIdentifier_type _, rfl, rfl, rfl, by simp⟩

def integerKinds (c : TypeContext) : List TokenKind :=
  (c.conversion.parser?.map (readIntegerKinds c)).getD []

theorem isBody_integer (h : isIdentifier c.type) :
    IsBody ((c.conversion.parser?.map (readInteger c)).getD []) (integerKinds c) := by
  unfold integerKinds
  cases c.conversion with
  | string => exact ⟨writes_nil, balanced_nil⟩
  | int => exact isBody_readInteger h (by decide)
  | uint => exact isBody_readInteger h (by decide)

/-- The switch of a method, as the tokens `ks`. -/
structure IsSwitch (c : TypeContext) (operation : String) (ks : List TokenKind) : Prop extends
    IsBody ((Switch.of c).code c operation) ks where
  read : readSwitch c.receiver (ks ++ [TokenKind.eof]) = some (Switch.of c)
  undefining : TokenKind.operator .define ∉ ks

theorem exists_isSwitch (h : c.Readable) (hoperation : ∀ d ∈ operation.toList, isPlain d) :
    ∃ ks, IsSwitch c operation ks := by
  obtain ⟨ks, hwrites, hread, hbalanced, hundefining⟩ :=
    writes_switch h.switch h.receiver h.type hoperation
  exact ⟨ks, ⟨hwrites, hbalanced⟩, hread, hundefining⟩

theorem isBody_scan (h : c.Readable) (hks : IsSwitch c "scan" ks) :
    IsBody (scan c).body (scanGuard c ++ ks) := by
  unfold scan
  exact (isBody_scanGuard h.type).append hks.toIsBody

theorem isBody_unmarshal (h : c.Readable) (hks : IsSwitch c "unmarshal" ks) :
    IsBody (unmarshal c).body
      (declareKinds ["str"] (callKinds "string" "data") ++ integerKinds c ++ ks) := by
  unfold unmarshal
  have htext := isBody_line (s := "str := string(data)") [.ident "str", .space, .operator .define,
    .space, .ident "string", .mark .lparen, .ident "data", .mark .rparen] (by decide) rfl
    (by decide) rfl rfl
  exact (htext.append (isBody_integer h.type)).append hks.toIsBody

structure Method.Declares (m : Method) (t : MethodText) : Prop where
  emits : Emits m.emit (t.kinds ++ [TokenKind.punctuation .semicolon])
  wellFormed : t.WellFormed

section

variable {m : Method} {t : MethodText}

theorem declares_of (ps : List Piece)
    (htext : (s!"func ({m.receiver}) {m.signature}" ++ " \x7b").toList = spell ps)
    (h : isFluent ps) (hvalid : ∀ p ∈ ps, p.valid)
    (hkinds : pieceKinds ps = t.head ++ [TokenKind.punctuation .lbrace])
    (hdoc : '\n' ∉ m.doc.toList) (hink : Inked m.doc.toList) (hbody : IsBody m.body t.body)
    (hreceiver : (∃ base, t.receiverType = .named base) ∨
      ∃ base, t.receiverType = .pointer (.named base))
    (hsignature : t.signature.IsSimple) : m.Declares t := by
  refine ⟨?_, hreceiver, hsignature, hbody.balanced⟩
  have hheader := writes_spell ps htext h hvalid
  rw [hkinds, endsAfter_append] at hheader
  have hmethod : Emits m.emit _ :=
    ((emits_comment hdoc hink).comp (emits_block hheader hbody.writes)).comp emits_blank
  simpa [MethodText.kinds, lineEnd, endsAfter, TokenKind.endsStatement, Punctuation.endsStatement,
    Punctuation.isCloser] using hmethod

end

theorem inked_doc (h : isIdentifier c.type) (doc : String) :
    Inked (doc ++ c.type).toList := by
  rw [String.toList_append]
  exact (inked_of_isIdentifier h).append _

theorem lineBreak_not_mem_doc (h : isIdentifier c.type) {doc : String} (hdoc : '\n' ∉ doc.toList) :
    '\n' ∉ (doc ++ c.type).toList := by
  rw [String.toList_append, List.mem_append, not_or]
  refine ⟨hdoc, fun hmem => ?_⟩
  cases isPlain_of_isIdentifier h _ hmem

def scanText (c : TypeContext) (body : List TokenKind) : MethodText where
  receiver := c.receiver
  receiverType := .pointer (.named c.type)
  name := "Scan"
  signature := ⟨[⟨some "value", .interface, false⟩], unnamed [.named "error"]⟩
  body := body

theorem declares_scan (h : c.Readable) (hks : IsSwitch c "scan" ks) :
    (scan c).Declares (scanText c (scanGuard c ++ ks)) := by
  refine declares_of [.keyword .func, .space, .mark .lparen, .ident c.receiver, .space,
    .operator .star, .ident c.type, .mark .rparen, .space, .ident "Scan", .mark .lparen,
    .ident "value", .space, .keyword .interface, .mark .lbrace, .mark .rbrace, .mark .rparen,
    .space, .ident "error", .space, .mark .lbrace] ?_ rfl ?_ rfl
    (lineBreak_not_mem_doc h.type (by decide)) (inked_doc h.type _) (isBody_scan h hks)
    (.inr ⟨_, rfl⟩) ⟨simpleParams_named .interface _, simpleParams_unnamed ?_⟩
  · unfold scan pointerReceiver
    simp [toString, spell, Piece.chars, Keyword.spelling, Operator.spelling, Punctuation.spelling]
  · simp only [List.forall_mem_cons]
    exact ⟨rfl, rfl, rfl, h.receiver, rfl, rfl, h.type, rfl, rfl, rfl, rfl, rfl, rfl, rfl, rfl, rfl,
      rfl, rfl, rfl, rfl, rfl, by simp⟩
  · exact List.forall_mem_singleton.2 (.name .named)

def valueText (c : TypeContext) (body : List TokenKind) : MethodText where
  receiver := c.receiver
  receiverType := .named c.type
  name := "Value"
  signature := ⟨[], unnamed [.qualified "driver" "Value", .named "error"]⟩
  body := body

theorem declares_value (h : c.Readable) : (value c).Declares (valueText c (valueKinds c)) := by
  refine declares_of [.keyword .func, .space, .mark .lparen, .ident c.receiver, .space,
    .ident c.type, .mark .rparen, .space, .ident "Value", .mark .lparen, .mark .rparen, .space,
    .mark .lparen, .ident "driver", .mark .dot, .ident "Value", .mark .comma, .space,
    .ident "error", .mark .rparen, .space, .mark .lbrace] ?_ rfl ?_ rfl
    (lineBreak_not_mem_doc h.type (by decide)) (inked_doc h.type _) (isBody_value h)
    (.inl ⟨_, rfl⟩) ⟨simpleParams_nil, simpleParams_unnamed ?_⟩
  · unfold value valueReceiver
    simp [toString, spell, Piece.chars, Keyword.spelling, Punctuation.spelling]
  · simp only [List.forall_mem_cons]
    exact ⟨rfl, rfl, rfl, h.receiver, rfl, h.type, rfl, rfl, rfl, rfl, rfl, rfl, rfl, rfl, rfl, rfl,
      rfl, rfl, rfl, rfl, rfl, rfl, by simp⟩
  · simp only [List.forall_mem_cons]
    exact ⟨.name .qualified, .name .named, by simp⟩

def unmarshalText (c : TypeContext) (body : List TokenKind) : MethodText where
  receiver := c.receiver
  receiverType := .pointer (.named c.type)
  name := "UnmarshalJSON"
  signature := ⟨[⟨some "data", .slice (.named "byte"), false⟩], unnamed [.named "error"]⟩
  body := body

theorem declares_unmarshal (h : c.Readable) (hks : IsSwitch c "unmarshal" ks) :
    (unmarshal c).Declares (unmarshalText c
      (declareKinds ["str"] (callKinds "string" "data") ++ integerKinds c ++ ks)) := by
  refine declares_of [.keyword .func, .space, .mark .lparen, .ident c.receiver, .space,
    .operator .star, .ident c.type, .mark .rparen, .space, .ident "UnmarshalJSON", .mark .lparen,
    .ident "data", .space, .mark .lbracket, .mark .rbracket, .ident "byte", .mark .rparen, .space,
    .ident "error", .space, .mark .lbrace] ?_ rfl ?_ rfl
    (lineBreak_not_mem_doc h.type (by decide)) (inked_doc h.type _) (isBody_unmarshal h hks)
    (.inr ⟨_, rfl⟩) ⟨simpleParams_named (.slice (.name .named)) _, simpleParams_unnamed ?_⟩
  · unfold unmarshal pointerReceiver
    simp [toString, spell, Piece.chars, Keyword.spelling, Operator.spelling, Punctuation.spelling]
  · simp only [List.forall_mem_cons]
    exact ⟨rfl, rfl, rfl, h.receiver, rfl, rfl, h.type, rfl, rfl, rfl, rfl, rfl, rfl, rfl, rfl, rfl,
      rfl, rfl, rfl, rfl, rfl, by simp⟩
  · exact List.forall_mem_singleton.2 (.name .named)

def marshalText (c : TypeContext) (body : List TokenKind) : MethodText where
  receiver := c.receiver
  receiverType := .named c.type
  name := "MarshalJSON"
  signature := ⟨[], unnamed [.slice (.named "byte"), .named "error"]⟩
  body := body

theorem declares_marshal (h : c.Readable) :
    (marshal c).Declares (marshalText c (marshalKinds c)) := by
  refine declares_of [.keyword .func, .space, .mark .lparen, .ident c.receiver, .space,
    .ident c.type, .mark .rparen, .space, .ident "MarshalJSON", .mark .lparen, .mark .rparen,
    .space, .mark .lparen, .mark .lbracket, .mark .rbracket, .ident "byte", .mark .comma, .space,
    .ident "error", .mark .rparen, .space, .mark .lbrace] ?_ rfl ?_ rfl
    (lineBreak_not_mem_doc h.type (by decide)) (inked_doc h.type _) (isBody_marshal h)
    (.inl ⟨_, rfl⟩) ⟨simpleParams_nil, simpleParams_unnamed ?_⟩
  · unfold marshal valueReceiver
    simp [toString, spell, Piece.chars, Keyword.spelling, Punctuation.spelling]
  · simp only [List.forall_mem_cons]
    exact ⟨rfl, rfl, rfl, h.receiver, rfl, h.type, rfl, rfl, rfl, rfl, rfl, rfl, rfl, rfl, rfl, rfl,
      rfl, rfl, rfl, rfl, rfl, rfl, by simp⟩
  · simp only [List.forall_mem_cons]
    exact ⟨.slice (.name .named), .name .named, by simp⟩

end GoEnum.Emit
