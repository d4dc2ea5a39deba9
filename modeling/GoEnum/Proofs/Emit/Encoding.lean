import GoEnum.Proofs.Emit.Capture

namespace GoEnum.Emit

open Constant Enum Package Token

/-- What a method returns of the value that it is called on. -/
inductive Encoding
  | itself
  | text
  | converted (type : String)
  deriving DecidableEq, Repr

def readEncoding (receiver : String) : List TokenKind → Option Encoding
  | [.ident x] => if x = receiver then some .itself else none
  | [.ident x, .punctuation .dot, .ident "String", .punctuation .lparen, .punctuation .rparen] =>
    if x = receiver then some .text else none
  | [.ident type, .punctuation .lparen, .ident x, .punctuation .rparen] =>
    if x = receiver then some (.converted type) else none
  | _ => none

def withoutBytes (ks : List TokenKind) : List TokenKind :=
  match ks with
  | .punctuation .lbracket :: .punctuation .rbracket :: .ident "byte" ::
      .punctuation .lparen :: ls =>
    if ls.getLast? = some (.punctuation .rparen) then ls.dropLast else ks
  | _ => ks

def readReturn (receiver : String) : List TokenKind → Option Encoding
  | .keyword .return :: ks =>
    match ks.splitOn (.punctuation .comma) with
    | [e, [.ident "nil", .punctuation .semicolon, .eof]] => readEncoding receiver (withoutBytes e)
    | _ => none
  | _ => none

namespace Method

def encoding? (m : Method) : Option Encoding :=
  (receiverIn? m.receiver).bind fun receiver => readReturn receiver m.bodyKinds

def switch? (m : Method) : Option Switch :=
  (receiverIn? m.receiver).bind fun receiver =>
    readSwitch receiver (m.bodyKinds.dropWhile (· != .keyword .switch))

end Method

def Scope.encode (scope : Scope) (v : Value) : Encoding → Value
  | .itself => v
  | .text => .string (scope.text v)
  | .converted type => scope.convert type v

section

variable {c : TypeContext}

theorem switch?_scan (h : c.Readable) : (scan c).switch? = some (Switch.of c) := by
  obtain ⟨ks, hks⟩ : ∃ ks, IsSwitch c "scan" ks :=
    exists_isSwitch h (List.all_eq_true.1 (by decide))
  have hreceiver : receiverIn? (scan c).receiver = some c.receiver := receiverIn?_pointer h
  rw [Method.switch?, hreceiver]
  exact readSwitch_bodyKinds hks (isBody_scan h hks) (switch_not_mem_scanGuard c)

theorem switch?_unmarshal (h : c.Readable) : (unmarshal c).switch? = some (Switch.of c) := by
  obtain ⟨ks, hks⟩ : ∃ ks, IsSwitch c "unmarshal" ks :=
    exists_isSwitch h (List.all_eq_true.1 (by decide))
  have hreceiver : receiverIn? (unmarshal c).receiver = some c.receiver := receiverIn?_pointer h
  rw [Method.switch?, hreceiver]
  exact readSwitch_bodyKinds hks (isBody_unmarshal h hks) (switch_not_mem_integerKinds c)

theorem readReturn_append (receiver : String) (h : TokenKind.punctuation .comma ∉ e) :
    readReturn receiver (.keyword .return :: (e ++
      [TokenKind.punctuation .comma, .ident "nil", .punctuation .semicolon]) ++ [TokenKind.eof]) =
        readEncoding receiver (withoutBytes e) := by
  rw [List.cons_append, readReturn, List.append_assoc, List.cons_append,
    List.splitOn_append_cons_self_of_not_mem h]
  rfl

theorem encoding?_value (h : c.Readable) : (value c).encoding? =
    some (if c.textual then .text else .converted c.conversion.type) := by
  have hreceiver : receiverIn? (value c).receiver = some c.receiver := receiverIn?_value h
  rw [Method.encoding?, hreceiver, (isBody_value h).bodyKinds, valueKinds, Option.bind_some,
    readReturn_append]
  · cases c.textual <;> simp [textKinds, callKinds, withoutBytes, readEncoding]
  · cases c.textual <;> simp [textKinds, callKinds]

theorem encoding?_marshal (h : c.Readable) (hstring : c.set.kind = .string) :
    (marshal c).encoding? = some (if c.textual then .text else .itself) := by
  have hreceiver : receiverIn? (marshal c).receiver = some c.receiver := receiverIn?_value h
  have hinteger : c.conversion.isInteger = false := by
    simp [TypeContext.conversion, hstring, Conversion.isInteger]
  have hkinds : marshalKinds c = .keyword .return :: ((.punctuation .lbracket ::
      .punctuation .rbracket :: .ident "byte" :: .punctuation .lparen :: (bytesKinds c ++
        [TokenKind.punctuation .rparen])) ++
      [TokenKind.punctuation .comma, .ident "nil", .punctuation .semicolon]) := by
    simp [marshalKinds]
  rw [Method.encoding?, hreceiver, (isBody_marshal h).bodyKinds, hkinds, Option.bind_some,
    readReturn_append]
  · cases htextual : c.textual <;>
      simp [bytesKinds, htextual, hinteger, textKinds, withoutBytes, readEncoding]
  · cases htextual : c.textual <;> simp [bytesKinds, htextual, hinteger, textKinds]

end

section

variable {scope : Scope} {members : List Member} {policy : Policy} {r : Reduced} {type : String}

theorem decode?_text_iff (hd : scope.Declares type .string members)
    (hr : Reduces members policy r) (textual : Bool) (hv : scope.Declared members v) :
    scope.decode? (Switch.of ⟨type, r, textual⟩) (.string s) = some (.value v) ↔
      .string s = v ∨ ¬ scope.Declared members (.string s) ∧ r.errorOnUnknown = false ∧
        v = .string "" := by
  have hkind := kind_of_reduces hd hr
  have hc : (TypeContext.mk type r textual).multiCase = false := by
    simp [TypeContext.multiCase, hkind, Kind.isInteger]
  by_cases hs : scope.Declared members (.string s)
  · rw [decode?_declared hd hr hc hs]
    simp [hs]
  · have hne : Value.string s ≠ v := by
      rintro rfl
      exact hs hv
    rw [decode?_undeclared hd hr hc ⟨s, rfl⟩ hs, unknownOutcome, hkind]
    cases r.errorOnUnknown <;> simp [hs, hne, Kind.zeroValue, eq_comm]

/-- Of a string type whose text is preferred and which has one, the methods that write a value
return its text, whereas those that read one go by the literals. So a value comes back from its text
exactly if the text is the value itself, or if the value is the empty text that unknown input
becomes and its text is no declared value. -/
theorem text_roundtrip_iff (hd : scope.Declares type .string members)
    (hreduce : reduce type members policy = .ok r) (htextual : r.isTextual)
    (hnamed : WellNamed (.of type r true) members) :
    let c := TypeContext.of type r true
    (value c).encoding? = some .text ∧ (marshal c).encoding? = some .text ∧
    ∃ s, (scan c).switch? = some s ∧ (unmarshal c).switch? = some s ∧
      ∀ v, scope.Declared members v →
        let written := scope.encode v .text
        (scope.decode? s written = some (.value v) ↔ written = v ∨
          ¬ scope.Declared members written ∧ r.errorOnUnknown = false ∧ v = .string "") := by
  intro c
  have hr := reduces_of_reduce hreduce
  have hc : c.Readable := ⟨hnamed.type, hnamed.receiver, readable_of hd hr hnamed⟩
  have hchosen : c.textual = true := htextual
  have hvalue := encoding?_value hc
  have hmarshal := encoding?_marshal hc (kind_of_reduces hd hr)
  rw [hchosen] at hvalue hmarshal
  exact ⟨hvalue, hmarshal, Switch.of c, switch?_scan hc, switch?_unmarshal hc,
    fun v hv => decode?_text_iff hd hr _ hv⟩

end

def colors : List Member :=
  [⟨"Green", .string, "\"g\"", true, "c"⟩, ⟨"Red", .string, "\"r\"", true, "c"⟩]

def colorScope : Scope where
  value? name :=
    if name = "Green" then some (.string "g") else if name = "Red" then some (.string "r") else none
  text v := if v = .string "r" then "red" else "g"
  convert _ v := v

theorem colorScope_declares : colorScope.Declares "Color" .string colors where
  kind_eq := by decide
  value := by
    intro m hm
    simp only [colors, List.mem_cons, List.not_mem_nil, or_false] at hm
    rcases hm with rfl | rfl
    · exact ⟨.string "g", by decide, ⟨"g", rfl⟩, by decide⟩
    · exact ⟨.string "r", by decide, ⟨"r", rfl⟩, by decide⟩
  convert _ _ := rfl

theorem declared_colors : colorScope.Declared colors v ↔ v = .string "g" ∨ v = .string "r" := by
  simp [Scope.Declared, colors, colorScope, eq_comm]

def colorSet : Reduced where
  values := colors
  kind := .string
  receiver := "c"
  isTextual := true
  default? := none
  errorOnUnknown := true

theorem reduce_colors : reduce "Color" colors ⟨false, true, false⟩ = .ok colorSet := by
  have hsorted : distinctSorted colors = colors :=
    (List.mergeSort_of_pairwise (by decide)).trans (by decide)
  rw [reduce, hsorted]
  decide

theorem wellNamed_colors : WellNamed (.of "Color" colorSet true) colors where
  type := by decide
  receiver := by decide
  names := by decide
  integers := by
    intro m hm n hn
    have hquoted : ∀ m ∈ colors, '"' ∈ m.literal.toList := by decide
    exact absurd (hn ▸ hquoted m hm) (quote_not_mem_toString n)

theorem text_roundtrip_iff_colors :
    let c := TypeContext.of "Color" colorSet true
    (value c).encoding? = some .text ∧ ∃ s, (scan c).switch? = some s ∧
      colorScope.decode? s (.string "g") = some (.value (.string "g")) ∧
      colorScope.decode? s (.string "red") ≠ some (.value (.string "r")) := by
  obtain ⟨hvalue, -, s, hscan, -, hs⟩ :=
    text_roundtrip_iff colorScope_declares reduce_colors rfl wellNamed_colors
  refine ⟨hvalue, s, hscan, (hs _ (declared_colors.2 (.inl rfl))).2 (.inl rfl), fun h => ?_⟩
  obtain heq | ⟨-, hpolicy, -⟩ := (hs _ (declared_colors.2 (.inr rfl))).1 h
  · exact absurd heq (by decide)
  · cases hpolicy

def colorSource : Source where
  path := ⟨"p/color.go"⟩
  text := "package p\n\ntype Color string\n\nconst (\n\tGreen Color = \"g\"\n" ++
    "\tRed Color = \"r\"\n)\n\n" ++
    "func (c Color) String() string \x7b\n\tif c == Red \x7b\n\t\treturn \"red\"\n" ++
    "\t\x7d\n\treturn string(c)\n\x7d\n"

/-- A color has a text of its own, which is written for it, but which nothing recognizes. -/
theorem text_unrecognized : ∃ p, ofSources ⟨"p"⟩ [colorSource] = .ok p ∧
    collect p "Color" = .ok ⟨colors, false⟩ ∧
    reduce "Color" colors ⟨false, true, false⟩ = .ok colorSet ∧ colorSet.isTextual ∧
    colorScope.Declares "Color" .string colors ∧
    Set.InjOn colorScope.text {v | colorScope.Declared colors v} ∧
    colorScope.Declared colors (.string "r") ∧
    let c := TypeContext.of "Color" colorSet true
    (value c).encoding? = some .text ∧ ∃ s, (scan c).switch? = some s ∧
      colorScope.decode? s (colorScope.encode (.string "r") .text) = some .failure := by
  obtain ⟨p, hp, hcollect⟩ : ∃ p, ofSources ⟨"p"⟩ [colorSource] = .ok p ∧
      collect p "Color" = .ok ⟨colors, false⟩ := by decide +kernel
  have hr := reduces_of_reduce reduce_colors
  have hc : (TypeContext.of "Color" colorSet true).Readable :=
    ⟨wellNamed_colors.type, wellNamed_colors.receiver,
      readable_of colorScope_declares hr wellNamed_colors⟩
  have hinjective : Set.InjOn colorScope.text {v | colorScope.Declared colors v} := by
    intro v hv w hw h
    rcases declared_colors.1 hv with rfl | rfl <;> rcases declared_colors.1 hw with rfl | rfl
    · rfl
    · exact absurd h (by decide)
    · exact absurd h (by decide)
    · rfl
  exact ⟨p, hp, hcollect, reduce_colors, rfl, colorScope_declares, hinjective,
    declared_colors.2 (.inr rfl), encoding?_value hc, _, switch?_scan hc, by decide⟩

end GoEnum.Emit
