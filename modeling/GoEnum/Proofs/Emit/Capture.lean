import GoEnum.Proofs.Emit.Source

/-!
The names that a method binds, and when they hide the type or the constants that its body names.
-/

namespace GoEnum.Emit

open Enum Package Syntax Token

def kindsIn (s : String) : List TokenKind :=
  match lex s with
  | .ok ts => ts.map (·.node)
  | .error _ => []

def declared (names : List String) : List TokenKind → List String
  | [] => []
  | .ident x :: ks => declared (names ++ [x]) ks
  | .punctuation .comma :: ks => declared names ks
  | .operator .define :: ks => names ++ declared [] ks
  | _ :: ks => declared [] ks

def Label.constant? : Label → Option String
  | .literal _ => none
  | .textOf name => some name

def Assigned.constant? : Assigned → Option String
  | .converted _ _ => none
  | .constant name => some name

def Fallback.constant? : Fallback → Option String
  | .assign name => some name
  | .fail => none

def Switch.constants (s : Switch) : List String :=
  (s.cases.flatMap fun k => k.labels.filterMap Label.constant? ++ k.assigned.constant?.toList) ++
    s.fallback.constant?.toList

def receiverIn? (receiver : String) : Option String :=
  match kindsIn receiver with
  | .ident name :: _ => some name
  | _ => none

def paramIn? (signature : String) : Option String :=
  match kindsIn signature with
  | .ident _ :: .punctuation .lparen :: .ident name :: _ => some name
  | _ => none

namespace Method

variable (m : Method)

def bodyKinds : List TokenKind := kindsIn (Emitter.empty.codes m.body).text

/-- The parameter and the variables of the body. -/
def introduced : List String := (paramIn? m.signature).toList ++ declared [] m.bodyKinds

def bound : List String := (receiverIn? m.receiver).toList ++ m.introduced

def constants : List String :=
  let ks := m.bodyKinds.dropWhile (· != .keyword .switch)
  match readSwitch ((receiverIn? m.receiver).getD "") ks with
  | some s => s.constants
  | none => []

/-- No name is bound twice, and none hides the type or a constant that the body names. -/
structure Hygienic (type : String) : Prop where
  distinct : m.bound.Nodup
  type : type ∉ m.bound
  constants : ∀ name ∈ m.constants, name ∉ m.bound

end Method

section

variable {s : String} {m : Method} {c : TypeContext}

theorem kindsIn_spell (ps : List Piece) (htext : s.toList = spell ps) (h : isFluent ps)
    (hvalid : ∀ p ∈ ps, p.valid) :
    kindsIn s = pieceKinds ps ++ lineEnd (endsAfter false (pieceKinds ps)) ++ [TokenKind.eof] := by
  obtain ⟨ts, hts, hkinds⟩ := lex_spell htext h hvalid
  rw [kindsIn, hts]
  exact hkinds

theorem IsBody.bodyKinds (h : IsBody m.body ks) : m.bodyKinds = ks ++ [TokenKind.eof] := by
  obtain ⟨ts, hts, hkinds⟩ := lex_of_writes h.writes 0
  have hlex : lex (Emitter.empty.codes m.body).text = .ok ts := hts
  rw [Method.bodyKinds, kindsIn, hlex]
  exact hkinds

theorem declared_eq_nil (h : TokenKind.operator .define ∉ ks) (names : List String) :
    declared names ks = [] := by
  induction ks generalizing names with
  | nil => rfl
  | cons k ks ih =>
    obtain ⟨hk, hks⟩ := not_or.1 (mt List.mem_cons.2 h)
    unfold declared
    split
    · rfl
    · rename_i heq
      cases heq
      exact ih hks _
    · rename_i heq
      cases heq
      exact ih hks _
    · rename_i heq
      cases heq
      exact absurd rfl hk
    · rename_i heq
      cases heq
      exact ih hks _

theorem receiverIn?_pointer (h : c.Readable) :
    receiverIn? (pointerReceiver c) = some c.receiver := by
  have hkinds := kindsIn_spell (s := pointerReceiver c)
    [.ident c.receiver, .space, .operator .star, .ident c.type]
    (by
      unfold pointerReceiver
      simp [toString, spell, Piece.chars, Operator.spelling]) rfl
    (by
      simp only [List.forall_mem_cons]
      exact ⟨h.receiver, rfl, rfl, h.type, by simp⟩)
  rw [receiverIn?, hkinds]
  rfl

theorem receiverIn?_value (h : c.Readable) : receiverIn? (valueReceiver c) = some c.receiver := by
  have hkinds := kindsIn_spell (s := valueReceiver c) [.ident c.receiver, .space, .ident c.type]
    (by
      unfold valueReceiver
      simp [toString, spell, Piece.chars]) rfl
    (by
      simp only [List.forall_mem_cons]
      exact ⟨h.receiver, rfl, h.type, by simp⟩)
  rw [receiverIn?, hkinds]
  rfl

theorem exists_cons_of_readSwitch (h : readSwitch r ks = some switch) :
    ∃ ls, ks = .keyword .switch :: ls := by
  unfold readSwitch at h
  split at h
  · exact ⟨_, rfl⟩
  · cases h

structure Method.Binds (m : Method) (c : TypeContext) (param : Option String)
    (locals constants : List String) : Prop where
  receiver : receiverIn? m.receiver = some c.receiver
  param : paramIn? m.signature = param
  locals : declared [] m.bodyKinds = locals
  constants : m.constants = constants

variable {first : Option String} {locals constants : List String}

theorem Method.Binds.introduced (h : m.Binds c first locals constants) :
    m.introduced = first.toList ++ locals := by
  rw [Method.introduced, h.param, h.locals]

theorem Method.Binds.bound (h : m.Binds c first locals constants) :
    m.bound = c.receiver :: m.introduced := by
  rw [Method.bound, h.receiver]
  rfl

theorem readSwitch_bodyKinds {guard : List TokenKind} (hks : IsSwitch c operation ks)
    (hbody : IsBody m.body (guard ++ ks)) (hguard : TokenKind.keyword .switch ∉ guard) :
    readSwitch c.receiver (m.bodyKinds.dropWhile (· != .keyword .switch)) = some (Switch.of c) := by
  obtain ⟨ls, hls⟩ := exists_cons_of_readSwitch hks.read
  have hall : ∀ k ∈ guard, (k != .keyword .switch) = true := by
    intro k hk
    rw [bne_iff_ne]
    rintro rfl
    exact hguard hk
  rw [hbody.bodyKinds, List.append_assoc, List.dropWhile_append_of_pos hall, hls,
    List.dropWhile_cons_of_neg (by simp), ← hls]
  exact hks.read

theorem binds_of_switch {guard : List TokenKind}
    (hreceiver : receiverIn? m.receiver = some c.receiver)
    (hparam : paramIn? m.signature = some param) (hks : IsSwitch c operation ks)
    (hbody : IsBody m.body (guard ++ ks)) (hguard : TokenKind.keyword .switch ∉ guard)
    (hlocals : ∀ rest, declared [] (guard ++ rest) = locals ++ declared [] rest) :
    m.Binds c (some param) locals (Switch.of c).constants := by
  have hkinds := hbody.bodyKinds
  rw [List.append_assoc] at hkinds
  refine ⟨hreceiver, hparam, ?_, ?_⟩
  · have hnone : declared [] (ks ++ [TokenKind.eof]) = [] :=
      declared_eq_nil (by simpa using hks.undefining) []
    rw [hkinds, hlocals, hnone, List.append_nil]
  · rw [Method.constants, hreceiver, Option.getD_some, readSwitch_bodyKinds hks hbody hguard]

theorem binds_of_return (hreceiver : receiverIn? m.receiver = some c.receiver)
    (hparam : paramIn? m.signature = none) (hbody : IsBody m.body ks)
    (hdefine : TokenKind.operator .define ∉ ks) (hswitch : TokenKind.keyword .switch ∉ ks) :
    m.Binds c none [] [] := by
  have hkinds := hbody.bodyKinds
  refine ⟨hreceiver, hparam, ?_, ?_⟩
  · rw [hkinds]
    exact declared_eq_nil (by simpa using hdefine) []
  · have hdrop : m.bodyKinds.dropWhile (· != .keyword .switch) = [] := by
      rw [hkinds, List.dropWhile_eq_nil_iff]
      intro k hk
      rw [bne_iff_ne]
      rintro rfl
      exact hswitch (by simpa using hk)
    rw [Method.constants, hdrop]
    rfl

theorem switch_not_mem_scanGuard (c : TypeContext) : TokenKind.keyword .switch ∉ scanGuard c := by
  simp [scanGuard, declareKinds, ifKinds, errorKinds, separated]

theorem binds_scan (h : c.Readable) :
    (scan c).Binds c (some "value") [c.conversion.input, "ok"] (Switch.of c).constants := by
  obtain ⟨ks, hks⟩ : ∃ ks, IsSwitch c "scan" ks :=
    exists_isSwitch h (List.all_eq_true.1 (by decide))
  have hparam : paramIn? "Scan(value interface\x7b\x7d) error" = some "value" := by decide +kernel
  exact binds_of_switch (receiverIn?_pointer h) hparam hks (isBody_scan h hks)
    (switch_not_mem_scanGuard c) fun _ => rfl

theorem binds_value (h : c.Readable) : (value c).Binds c none [] [] := by
  have hparam : paramIn? "Value() (driver.Value, error)" = none := by decide +kernel
  refine binds_of_return (receiverIn?_value h) hparam (isBody_value h) ?_ ?_
  · unfold valueKinds
    split <;> simp [textKinds, callKinds]
  · unfold valueKinds
    split <;> simp [textKinds, callKinds]

def integerLocals (k : Conversion) : List String :=
  if k.isInteger then ["v", "err", k.input] else []

theorem declared_integerKinds (c : TypeContext) (rest : List TokenKind) :
    declared [] (integerKinds c ++ rest) = integerLocals c.conversion ++ declared [] rest := by
  have hread : ∀ parser, declared [] (readIntegerKinds c parser ++ rest) =
      ["v", "err", c.conversion.input] ++ declared [] rest := fun _ => rfl
  unfold integerKinds integerLocals
  generalize c.conversion.input = input at hread ⊢
  cases c.conversion with
  | string => rfl
  | int => exact hread _
  | uint => exact hread _

theorem switch_not_mem_integerKinds (c : TypeContext) : TokenKind.keyword .switch ∉
    declareKinds ["str"] (callKinds "string" "data") ++ integerKinds c := by
  unfold integerKinds
  cases c.conversion <;> simp [declareKinds, callKinds, Conversion.parser?, readIntegerKinds,
    ifKinds, errorKinds, separated]

theorem binds_unmarshal (h : c.Readable) : (unmarshal c).Binds c (some "data")
    ("str" :: integerLocals c.conversion) (Switch.of c).constants := by
  obtain ⟨ks, hks⟩ : ∃ ks, IsSwitch c "unmarshal" ks :=
    exists_isSwitch h (List.all_eq_true.1 (by decide))
  have hparam : paramIn? "UnmarshalJSON(data []byte) error" = some "data" := by decide +kernel
  refine binds_of_switch (receiverIn?_pointer h) hparam hks (isBody_unmarshal h hks)
    (switch_not_mem_integerKinds c) fun rest => ?_
  have hdeclared := declared_integerKinds c rest
  rw [List.append_assoc]
  exact congrArg ("str" :: ·) hdeclared

theorem binds_marshal (h : c.Readable) : (marshal c).Binds c none [] [] := by
  have hparam : paramIn? "MarshalJSON() ([]byte, error)" = none := by decide +kernel
  refine binds_of_return (receiverIn?_value h) hparam (isBody_marshal h) ?_ ?_
  · unfold marshalKinds bytesKinds
    split
    · simp [textKinds]
    · split <;> simp [callKinds]
  · unfold marshalKinds bytesKinds
    split
    · simp [textKinds]
    · split <;> simp [callKinds]

theorem Method.Binds.hygienic_iff_apart (h : m.Binds c first locals constants)
    (hnodup : m.introduced.Nodup) (type : String) : m.Hygienic type ↔
      (∀ name ∈ c.receiver :: type :: m.constants, name ∉ m.introduced) ∧
        c.receiver ∉ type :: m.constants := by
  constructor
  · intro hm
    have hdistinct := hm.distinct
    have htype := hm.type
    have hconstants := hm.constants
    rw [h.bound] at hdistinct htype hconstants
    constructor
    · simp only [List.forall_mem_cons]
      exact ⟨(List.nodup_cons.1 hdistinct).1, fun hmem => htype (List.mem_cons_of_mem _ hmem),
        fun name hname hmem => hconstants name hname (List.mem_cons_of_mem _ hmem)⟩
    · intro hmem
      obtain heq | hmem := List.mem_cons.1 hmem
      · exact htype (heq ▸ List.mem_cons_self)
      · exact hconstants c.receiver hmem List.mem_cons_self
  · rintro ⟨hapart, hreceiver⟩
    simp only [List.forall_mem_cons] at hapart
    obtain ⟨hreceiver', htype, hconstants⟩ := hapart
    refine ⟨?_, ?_, ?_⟩
    · rw [h.bound]
      exact List.nodup_cons.2 ⟨hreceiver', hnodup⟩
    · rw [h.bound]
      intro hmem
      obtain heq | hmem := List.mem_cons.1 hmem
      · exact hreceiver (heq ▸ List.mem_cons_self)
      · exact htype hmem
    · rw [h.bound]
      intro name hname hmem
      obtain rfl | hmem := List.mem_cons.1 hmem
      · exact hreceiver (List.mem_cons_of_mem _ hname)
      · exact hconstants name hname hmem

def reserved : List String := ["value", "data", "ok", "str", "i", "u", "v", "err"]

theorem exists_binds (h : c.Readable) {families : Families} (hm : m ∈ methods families c) :
    ∃ param locals, m.Binds c param locals
        (if param.isSome then (Switch.of c).constants else []) ∧
      (param.toList ++ locals).Nodup ∧ param.toList ++ locals ⊆ reserved := by
  have hcases : m = scan c ∨ m = value c ∨ m = unmarshal c ∨ m = marshal c := by
    have hall : methods families c ⊆ methods .both c := by
      cases families <;> simp [methods]
    simpa [methods, or_assoc] using hall hm
  obtain rfl | rfl | rfl | rfl := hcases
  · refine ⟨_, _, binds_scan h, ?_⟩
    cases c.conversion <;> decide
  · exact ⟨_, _, binds_value h, by decide⟩
  · refine ⟨_, _, binds_unmarshal h, ?_⟩
    cases c.conversion <;> decide
  · exact ⟨_, _, binds_marshal h, by decide⟩

/-- A name of a method is the receiver or one of few, and the constants that it names are those of
the switch, if it reads input. Nothing is hidden exactly where the receiver, the type and these
constants are none of the names, and the receiver is neither the type nor one of the constants. The
lower case of a capital I with a dot is no receiver, as it is not one letter. -/
theorem hygienic_iff {dir : Disk.Path} {sources : List Source} {p : Package} {config : Config}
    {type : String} (hp : ofSources dir sources = .ok p) (hc : contextOf config p type = .ok c)
    (hdotted : c.receiver ≠ "i\u0307") (hm : m ∈ methods config.families c) :
    (m.introduced.Nodup ∧ m.introduced ⊆ reserved) ∧
      m.constants = (if (paramIn? m.signature).isSome then (Switch.of c).constants else []) ∧
      (m.Hygienic type ↔ (∀ name ∈ c.receiver :: type :: m.constants, name ∉ m.introduced) ∧
        c.receiver ∉ type :: m.constants) := by
  have hreceiver := isIdentifier_receiver_of_contextOf hp hc hdotted
  have hreadable := readable_of_contextOf hp hc hreceiver
  obtain ⟨param, locals, hbinds, hnodup, hsub⟩ := exists_binds hreadable hm
  have hintroduced := hbinds.introduced
  rw [← hintroduced] at hnodup hsub
  refine ⟨⟨hnodup, hsub⟩, ?_, hbinds.hygienic_iff_apart hnodup type⟩
  rw [hbinds.constants, hbinds.param]

def levelSource : Source where
  path := ⟨"p/level.go"⟩
  text := "package p\n\ntype Level int\n\nconst Off Level = 0\n"

theorem hygienic_iff_level : ∃ p, ofSources ⟨"p"⟩ [levelSource] = .ok p ∧
    ∃ c, contextOf ⟨.both, false, false, false⟩ p "Level" = .ok c ∧ c.receiver ≠ "i\u0307" ∧
      unmarshal c ∈ methods .both c ∧ (unmarshal c).constants = ["Off"] ∧
      (unmarshal c).introduced = ["data", "str", "v", "err", "i"] ∧
      (unmarshal c).Hygienic "Level" := by
  obtain ⟨p, hp, c, hc, hreceiver, hlocals, hswitch⟩ :
      ∃ p, ofSources ⟨"p"⟩ [levelSource] = .ok p ∧
        ∃ c, contextOf ⟨.both, false, false, false⟩ p "Level" = .ok c ∧ c.receiver = "l" ∧
          integerLocals c.conversion = ["v", "err", "i"] ∧ (Switch.of c).constants = ["Off"] := by
    decide +kernel
  have hdotted : c.receiver ≠ "i\u0307" := by
    rw [hreceiver]
    decide
  have hidentifier := isIdentifier_receiver_of_contextOf hp hc hdotted
  have hbinds := binds_unmarshal (readable_of_contextOf hp hc hidentifier)
  have hconstants : (unmarshal c).constants = ["Off"] := hbinds.constants.trans hswitch
  have hnames : (unmarshal c).introduced = ["data", "str", "v", "err", "i"] := by
    rw [hbinds.introduced, hlocals]
    rfl
  have hm : unmarshal c ∈ methods .both c := by simp [methods]
  refine ⟨p, hp, c, hc, hdotted, hm, hconstants, hnames,
    (hygienic_iff hp hc hdotted hm).2.2.2 ?_⟩
  rw [hreceiver, hconstants, hnames]
  decide

def itemSource : Source where
  path := ⟨"p/a.go"⟩
  text := "package p\n\ntype Item int\n\nconst A Item = 1\n"

/-- The first letter of the type is the receiver, and the name of the converted input too. -/
theorem receiver_captured : ∃ p, ofSources ⟨"p"⟩ [itemSource] = .ok p ∧
    ∃ c, contextOf ⟨.storage, false, false, false⟩ p "Item" = .ok c ∧
      scan c ∈ methods .storage c ∧ (scan c).bound = ["i", "value", "i", "ok"] ∧
      ¬ (scan c).Hygienic "Item" := by
  obtain ⟨p, hp, c, hc, hreceiver, hinput⟩ : ∃ p, ofSources ⟨"p"⟩ [itemSource] = .ok p ∧
      ∃ c, contextOf ⟨.storage, false, false, false⟩ p "Item" = .ok c ∧ c.receiver = "i" ∧
        c.conversion.input = "i" := by
    decide +kernel
  have hidentifier : isIdentifier c.receiver := by
    rw [hreceiver]
    decide
  have hbinds := binds_scan (readable_of_contextOf hp hc hidentifier)
  have hbound : (scan c).bound = ["i", "value", "i", "ok"] := by
    rw [hbinds.bound, hbinds.introduced, hreceiver, hinput]
    rfl
  refine ⟨p, hp, c, hc, by simp [methods], hbound, fun h => ?_⟩
  have htwice : ¬ ["i", "value", "i", "ok"].Nodup := by decide
  exact htwice (hbound ▸ h.distinct)

end

end GoEnum.Emit
