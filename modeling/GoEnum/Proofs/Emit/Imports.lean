import GoEnum.Proofs.Emit.Session
import GoEnum.Proofs.Emit.Source

namespace GoEnum.Emit

open Package Syntax Token

def Mentions (x y : String) (ks : List TokenKind) : Prop :=
  [.ident x, .punctuation .dot, .ident y] <:+: ks

instance : Decidable (Mentions x y ks) := inferInstanceAs (Decidable (_ <:+: _))

def used (ks : List TokenKind) : Imports where
  driver := Mentions "driver" "Value" ks
  fmt := Mentions "fmt" "Errorf" ks ∨ Mentions "fmt" "Sprintf" ks
  strconv := Mentions "strconv" "ParseInt" ks ∨ Mentions "strconv" "ParseUint" ks

def usedAll (kss : List (List TokenKind)) : Imports :=
  kss.foldr (fun ks i => (used ks).union i) .nothing

/-- The tokens make use of the imports `i`, whatever comes after them. -/
def Uses (ks : List TokenKind) (i : Imports) : Prop :=
  ∀ rest, used (ks ++ rest) = i.union (used rest)

def isJoint : TokenKind → Bool
  | .ident _ | .punctuation .dot => true
  | _ => false

section

variable {x y : String} {k : TokenKind} {ks u v value condition body : List TokenKind}
  {kss : List (List TokenKind)} {i j : Imports}

theorem mentions_append_cons (hk : isJoint k = false) :
    Mentions x y (u ++ k :: v) ↔ Mentions x y u ∨ Mentions x y v := by
  have hmem : k ∉ [TokenKind.ident x, .punctuation .dot, .ident y] := by
    intro hmem
    simp only [List.mem_cons, List.not_mem_nil, or_false] at hmem
    obtain rfl | rfl | rfl := hmem <;> cases hk
  have hstart : ∀ l, l ≠ [] → l <+: k :: v → k ∈ l := fun l hne hl => by
    obtain rfl | ⟨t, rfl, -⟩ := List.prefix_cons_iff.1 hl
    · exact absurd rfl hne
    · exact List.mem_cons_self
  -- A use that begins in `u` and ends behind it would have `k` in it, and so would one that begins
  -- with `k`.
  rw [Mentions, List.infix_append_iff_ne_nil, List.infix_cons_iff]
  constructor
  · rintro (hu | (hv | hv) | ⟨l, l', -, hne, hsplit, -, hl'⟩)
    · exact .inl hu
    · exact absurd (hstart _ (by simp) hv) hmem
    · exact .inr hv
    · refine absurd ?_ hmem
      rw [hsplit]
      exact List.mem_append_right l (hstart l' hne hl')
  · rintro (hu | hv)
    · exact .inl hu
    · exact .inr (.inl (.inr hv))

theorem not_mentions_of_not_mem (h : TokenKind.punctuation .dot ∉ ks) : ¬ Mentions x y ks :=
  fun hmem => h (hmem.subset (by simp))

@[simp] theorem used_nil : used [] = .nothing := by simp [used, Mentions, Imports.nothing]

@[simp] theorem usedAll_nil : usedAll [] = .nothing := rfl

@[simp] theorem usedAll_cons (ks : List TokenKind) (kss : List (List TokenKind)) :
    usedAll (ks :: kss) = (used ks).union (usedAll kss) := rfl

theorem used_of_not_mem (h : TokenKind.punctuation .dot ∉ ks) : used ks = .nothing := by
  simp [used, not_mentions_of_not_mem h, Imports.nothing]

theorem used_append_cons (hk : isJoint k = false) (u v : List TokenKind) :
    used (u ++ k :: v) = (used u).union (used v) := by
  simp only [used, Imports.union, mentions_append_cons hk, Bool.decide_or, Imports.mk.injEq,
    true_and]
  exact ⟨by ac_rfl, by ac_rfl⟩

theorem used_cons (hk : isJoint k = false) (ks : List TokenKind) : used (k :: ks) = used ks :=
  (used_append_cons hk [] ks).trans (by simp)

theorem used_concat (hk : isJoint k = false) (ks : List TokenKind) : used (ks ++ [k]) = used ks :=
  (used_append_cons hk ks []).trans (by simp)

theorem used_intercalate (hk : isJoint k = false) (kss : List (List TokenKind)) :
    used ([k].intercalate kss) = usedAll kss := by
  induction kss with
  | nil => exact used_nil
  | cons ks kss ih =>
    cases kss with
    | nil => simp
    | cons ks' kss =>
      rw [List.intercalate_cons_cons, List.append_assoc, List.singleton_append,
        used_append_cons hk, ih, ← usedAll_cons]

theorem used_splitOn (hk : isJoint k = false) (ks : List TokenKind) :
    used ks = usedAll (ks.splitOn k) := by
  rw [← used_intercalate hk, List.intercalate_splitOn]

theorem usedAll_eq_nothing (h : ∀ ks ∈ kss, used ks = .nothing) : usedAll kss = .nothing := by
  induction kss with
  | nil => rfl
  | cons ks kss ih =>
    obtain ⟨hks, hkss⟩ := List.forall_mem_cons.1 h
    rw [usedAll_cons, hks, ih hkss, Imports.nothing_union]

theorem used_text (x : String) : used [.ident x, .punctuation .dot, .ident "String",
    .punctuation .lparen, .punctuation .rparen] = .nothing := by
  simp [used, Mentions, Imports.nothing, List.infix_cons_iff]

theorem used_of_readLabel (h : readLabel ks = some l) : used ks = .nothing := by
  unfold readLabel at h
  split at h
  · exact used_of_not_mem (by simp)
  · exact used_of_not_mem (by simp)
  · exact used_of_not_mem (by simp)
  · exact used_text _
  · cases h

theorem used_of_readLabels (h : kss.mapM readLabel = some ls) : ∀ ks ∈ kss, used ks = .nothing := by
  induction kss generalizing ls with
  | nil => simp
  | cons ks kss ih =>
    rw [List.mapM_cons] at h
    simp only [Option.bind_eq_bind, Option.bind_eq_some_iff] at h
    obtain ⟨l, hl, ls', hls, -⟩ := h
    exact List.forall_mem_cons.2 ⟨used_of_readLabel hl, ih hls⟩

theorem used_of_readAssigned (h : readAssigned ks = some a) : used ks = .nothing := by
  unfold readAssigned at h
  split at h
  · exact used_of_not_mem (by simp)
  · exact used_of_not_mem (by simp)
  · cases h

theorem used_of_readAssignment (h : readAssignment receiver ks = some a) : used ks = .nothing := by
  unfold readAssignment at h
  split at h
  · rename_i z body
    split at h
    · have htarget : used [.operator .star, .ident z] = .nothing := used_of_not_mem (by simp)
      have hsplit := used_append_cons (k := .operator .assign) rfl [.operator .star, .ident z] body
      rwa [htarget, used_of_readAssigned h] at hsplit
    · cases h
  · cases h

theorem used_of_readCase (h : readCase receiver ks = some c) : used ks = .nothing := by
  unfold readCase at h
  split at h
  · rename_i labels body hsplit
    simp only [Option.bind_eq_bind, Option.bind_eq_some_iff] at h
    obtain ⟨ls, hlabels, a, hbody, -⟩ := h
    have hused : used labels = .nothing := by
      rw [used_splitOn (k := .punctuation .comma) rfl]
      exact usedAll_eq_nothing (used_of_readLabels hlabels)
    rw [used_splitOn (k := .punctuation .colon) rfl, hsplit]
    simp [hused, used_of_readAssignment hbody]
  · cases h

theorem used_error (message argument : String) :
    used (errorKinds message argument) = ⟨false, true, false⟩ := by
  simp [errorKinds, used, Mentions, List.infix_cons_iff]

theorem used_of_readFallback (h : readFallback receiver ks = some f) :
    used ks = ⟨false, f == .fail, false⟩ := by
  unfold readFallback at h
  split at h
  · cases h
    exact used_error _ _
  · split at h
    · rename_i hbody
      cases h
      exact used_of_readAssignment hbody
    · cases h

theorem used_of_readClauses (h : readClauses receiver kss = some (cases, f)) :
    usedAll kss = ⟨false, f == .fail, false⟩ := by
  revert cases f
  fun_induction readClauses receiver kss with
  | case1 body =>
    intro cases f h
    obtain ⟨f', hbody, heq⟩ := Option.map_eq_some_iff.1 h
    cases heq
    have hend : usedAll [[TokenKind.punctuation .rbrace], [.keyword .return, .ident "nil"],
        [.eof]] = .nothing := by decide +kernel
    rw [usedAll_cons, hend, Imports.union_nothing, used_cons (k := .keyword .default) rfl,
      used_cons (k := .punctuation .colon) rfl, used_of_readFallback hbody]
  | case2 ks rest ih =>
    intro cases f h
    simp only [Option.bind_eq_bind, Option.bind_eq_some_iff] at h
    obtain ⟨k, hcase, ⟨cases', f'⟩, hrest, heq⟩ := h
    cases heq
    rw [usedAll_cons, used_cons (k := .keyword .case) rfl, used_of_readCase hcase, ih hrest,
      Imports.nothing_union]
  | case3 => exact nofun

theorem used_of_readSwitch (h : readSwitch receiver (ks ++ [TokenKind.eof]) = some s) :
    used ks = s.imports := by
  rw [← used_concat (k := .eof) rfl]
  generalize ks ++ [TokenKind.eof] = ls at h
  unfold readSwitch at h
  split at h
  · rename_i input ks'
    simp only [Option.bind_eq_bind, Option.bind_eq_some_iff] at h
    obtain ⟨⟨cases, f⟩, hclauses, heq⟩ := h
    cases heq
    have hhead : used [.keyword .switch, .ident input] = .nothing := used_of_not_mem (by simp)
    have hsplit := used_append_cons (k := .punctuation .lbrace) rfl
      [.keyword .switch, .ident input] ks'
    rw [hhead, used_splitOn (k := .punctuation .semicolon) rfl ks', used_of_readClauses hclauses]
      at hsplit
    exact hsplit
  · cases h

theorem Imports.union_comm (a b : Imports) : a.union b = b.union a := by
  simp [Imports.union, Bool.or_comm]

theorem uses_nil : Uses [] .nothing := fun rest => (Imports.nothing_union (used rest)).symm

theorem uses_concat (hk : isJoint k = false) (h : used ks = i) : Uses (ks ++ [k]) i := by
  intro rest
  rw [List.append_assoc, List.singleton_append, used_append_cons hk, h]

theorem Uses.append (hu : Uses u i) (hv : Uses v j) : Uses (u ++ v) (i.union j) := by
  intro rest
  rw [List.append_assoc, hu, hv, Imports.union_assoc]

theorem uses_declare (names : List String) (h : used value = i) :
    Uses (declareKinds names value) i := by
  have hnames : used (separated (names.map fun name => [.ident name])) = .nothing := by
    refine used_of_not_mem ?_
    induction names with
    | nil => simp [separated]
    | cons name names ih =>
      cases names with
      | nil => simp [separated]
      | cons name' names => simpa [separated] using ih
  have hall : used (separated (names.map fun name => [.ident name]) ++
      .operator .define :: value) = i := by
    rw [used_append_cons rfl, hnames, Imports.nothing_union, h]
  have huses := uses_concat (k := .punctuation .semicolon) rfl hall
  rwa [List.append_assoc, List.cons_append] at huses

theorem uses_if (hcondition : used condition = i) (hbody : used body = j) :
    Uses (ifKinds condition body) (i.union j) := by
  have hall : used (.keyword .if :: (condition ++ .punctuation .lbrace :: body ++
      [TokenKind.punctuation .rbrace])) = i.union j := by
    rw [used_cons rfl, used_concat rfl, used_append_cons rfl, hcondition, hbody]
  have huses := uses_concat (k := .punctuation .semicolon) rfl hall
  rwa [List.cons_append, List.append_assoc] at huses

theorem used_call (function argument : String) : used (callKinds function argument) = .nothing :=
  used_of_not_mem (by simp [callKinds])

theorem used_error_statement (message argument : String) :
    used (errorKinds message argument ++ [TokenKind.punctuation .semicolon]) =
      ⟨false, true, false⟩ := by
  rw [used_concat rfl, used_error]

end

section

variable {c : TypeContext} {ks : List TokenKind}

theorem uses_scanGuard (c : TypeContext) : Uses (scanGuard c) ⟨false, true, false⟩ := by
  have htype : used [.ident "value", .punctuation .dot, .punctuation .lparen,
      .ident c.conversion.type, .punctuation .rparen] = .nothing := by
    simp [used, Mentions, Imports.nothing, List.infix_cons_iff]
  have hok : used [.operator .not, .ident "ok"] = .nothing := used_of_not_mem (by simp)
  exact (uses_declare _ htype).append (uses_if hok (used_error_statement _ _))

theorem uses_readInteger (h : parser = "ParseInt" ∨ parser = "ParseUint") (c : TypeContext) :
    Uses (readIntegerKinds c parser) ⟨false, true, true⟩ := by
  have hparse : used [.ident "strconv", .punctuation .dot, .ident parser, .punctuation .lparen,
      .ident "str", .punctuation .comma, .int 10, .punctuation .comma, .int 64,
      .punctuation .rparen] = ⟨false, false, true⟩ := by
    obtain rfl | rfl := h <;> simp [used, Mentions, List.infix_cons_iff]
  have herr : used [.ident "err", .operator .notEq, .ident "nil"] = .nothing :=
    used_of_not_mem (by simp)
  exact (uses_declare _ hparse).append
    ((uses_if herr (used_error_statement _ _)).append (uses_declare _ (used_call _ _)))

theorem uses_integer (c : TypeContext) : Uses (integerKinds c)
    ⟨false, c.conversion.parser?.isSome, c.conversion.parser?.isSome⟩ := by
  unfold integerKinds
  cases c.conversion with
  | string => exact uses_nil
  | int => exact uses_readInteger (.inl rfl) c
  | uint => exact uses_readInteger (.inr rfl) c

theorem used_value (c : TypeContext) : used (valueKinds c) = .nothing := by
  have hend : used [.ident "nil", .punctuation .semicolon] = .nothing := used_of_not_mem (by simp)
  unfold valueKinds
  dsimp only
  split
  · rw [used_cons rfl, used_append_cons rfl, textKinds, used_text, hend]
    rfl
  · rw [used_cons rfl, used_append_cons rfl, used_call, hend]
    rfl

theorem used_bytes (c : TypeContext) :
    used (bytesKinds c) = { Imports.nothing with fmt := c.conversion.isInteger } := by
  unfold bytesKinds
  split
  · rename_i htextual
    rw [textKinds, used_text, TypeContext.conversion, if_pos htextual]
    rfl
  · split
    · rename_i hinteger
      have hprint : used [TokenKind.ident "fmt", .punctuation .dot, .ident "Sprintf",
          .punctuation .lparen, .string "%d"] = ⟨false, true, false⟩ := by
        simp [used, Mentions, List.infix_cons_iff]
      have huses := uses_concat (k := .punctuation .comma) rfl hprint
      rw [used_concat rfl, hinteger]
      exact (huses (callKinds c.conversion.type c.receiver)).trans (by rw [used_call]; rfl)
    · rename_i hinteger
      rw [used_of_not_mem (by simp), Bool.eq_false_of_not_eq_true hinteger]
      rfl

theorem used_marshal (c : TypeContext) :
    used (marshalKinds c) = { Imports.nothing with fmt := c.conversion.isInteger } := by
  have hbyte : used [.keyword .return, .punctuation .lbracket, .punctuation .rbracket,
      .ident "byte"] = .nothing := used_of_not_mem (by simp)
  have hend : used [.punctuation .comma, .ident "nil", .punctuation .semicolon] = .nothing :=
    used_of_not_mem (by simp)
  have huses := uses_concat (k := .punctuation .lparen) rfl hbyte
  rw [marshalKinds, used_append_cons rfl, hend, Imports.union_nothing]
  exact (huses (bytesKinds c)).trans (by rw [used_bytes, Imports.nothing_union])

theorem used_head {t : MethodText} (h : t.WellFormed) : used t.head = used t.signature.kinds := by
  have hreceiver : used (.keyword .func :: .punctuation .lparen :: .ident t.receiver ::
      t.receiverType.kinds) = .nothing := by
    obtain ⟨base, hbase⟩ | ⟨base, hbase⟩ := h.receiverType <;> rw [hbase] <;>
      exact used_of_not_mem (by simp [TypeExpr.kinds, TypeExpr.nameKinds])
  have hname : used (.ident t.name :: t.signature.kinds) = used t.signature.kinds := by
    obtain ⟨ks, hks⟩ : ∃ ks, t.signature.kinds = .punctuation .lparen :: ks := ⟨_, rfl⟩
    have hident : used [.ident t.name] = .nothing := used_of_not_mem (by simp)
    have hsplit := used_append_cons (k := .punctuation .lparen) rfl [.ident t.name] ks
    rw [hident, Imports.nothing_union] at hsplit
    rw [hks, used_cons (k := .punctuation .lparen) rfl]
    exact hsplit
  have hsplit := used_append_cons (k := .punctuation .rparen) rfl
    (.keyword .func :: .punctuation .lparen :: .ident t.receiver :: t.receiverType.kinds)
    (.ident t.name :: t.signature.kinds)
  rw [hreceiver, hname, Imports.nothing_union] at hsplit
  exact hsplit

structure Method.Accounted (m : Method) (t : MethodText) : Prop extends m.Declares t where
  uses : used t.kinds = m.imports

theorem accounted_of {m : Method} {t : MethodText} (h : m.Declares t)
    (hsignature : used t.signature.kinds = i) (hbody : used t.body = j)
    (himports : m.imports = i.union j) : m.Accounted t := by
  refine ⟨h, ?_⟩
  rw [MethodText.kinds, used_concat rfl, used_append_cons rfl, used_head h.wellFormed, hsignature,
    hbody, himports]

theorem accounted_scan (h : c.Readable) (hks : IsSwitch c "scan" ks) :
    (scan c).Accounted (scanText c (scanGuard c ++ ks)) := by
  have hsignature : used (Signature.kinds
      ⟨[⟨some "value", .interface, false⟩], unnamed [.named "error"]⟩) = .nothing := by
    decide +kernel
  refine accounted_of (declares_scan h hks) hsignature (uses_scanGuard c ks) ?_
  rw [used_of_readSwitch hks.read]
  rfl

theorem accounted_value (h : c.Readable) : (value c).Accounted (valueText c (valueKinds c)) := by
  have hsignature : used (Signature.kinds
      ⟨[], unnamed [.qualified "driver" "Value", .named "error"]⟩) = ⟨true, false, false⟩ := by
    decide +kernel
  exact accounted_of (declares_value h) hsignature (used_value c) rfl

theorem accounted_unmarshal (h : c.Readable) (hks : IsSwitch c "unmarshal" ks) :
    (unmarshal c).Accounted (unmarshalText c
      (declareKinds ["str"] (callKinds "string" "data") ++ integerKinds c ++ ks)) := by
  have hsignature : used (Signature.kinds
      ⟨[⟨some "data", .slice (.named "byte"), false⟩], unnamed [.named "error"]⟩) = .nothing := by
    decide +kernel
  have hbody := (uses_declare ["str"] (used_call "string" "data")).append (uses_integer c)
  have himports : (unmarshal c).imports = (Switch.of c).imports.union
    ⟨false, c.conversion.parser?.isSome, c.conversion.parser?.isSome⟩ := rfl
  refine accounted_of (declares_unmarshal h hks) hsignature (hbody ks) ?_
  rw [himports, used_of_readSwitch hks.read, Imports.nothing_union, Imports.nothing_union,
    Imports.union_comm]

theorem accounted_marshal (h : c.Readable) :
    (marshal c).Accounted (marshalText c (marshalKinds c)) := by
  have hsignature : used (Signature.kinds
      ⟨[], unnamed [.slice (.named "byte"), .named "error"]⟩) = .nothing := by
    decide +kernel
  exact accounted_of (declares_marshal h) hsignature (used_marshal c) rfl

theorem exists_accounted (h : c.Readable) (families : Families) :
    ∃ ts, List.Forall₂ Method.Accounted (methods families c) ts := by
  obtain ⟨ks, hks⟩ : ∃ ks, IsSwitch c "scan" ks :=
    exists_isSwitch h (List.all_eq_true.1 (by decide))
  obtain ⟨ls, hls⟩ : ∃ ls, IsSwitch c "unmarshal" ls :=
    exists_isSwitch h (List.all_eq_true.1 (by decide))
  have hscan := accounted_scan h hks
  have hvalue := accounted_value h
  have hunmarshal := accounted_unmarshal h hls
  have hmarshal := accounted_marshal h
  cases families with
  | both => exact ⟨_, .cons hscan (.cons hvalue (.cons hunmarshal (.cons hmarshal .nil)))⟩
  | storage => exact ⟨_, .cons hscan (.cons hvalue .nil)⟩
  | marshal => exact ⟨_, .cons hunmarshal (.cons hmarshal .nil)⟩

end

theorem Imports.mem_paths {i : Imports} : path ∈ i.paths ↔
    i.driver ∧ path = "database/sql/driver" ∨ i.fmt ∧ path = "fmt" ∨
      i.strconv ∧ path = "strconv" := by
  simp only [paths, List.mem_append, List.mem_ite_nil_right, List.mem_singleton, or_assoc]

theorem Imports.nodup_paths (i : Imports) : i.paths.Nodup := by
  obtain ⟨driver, fmt, strconv⟩ := i
  cases driver <;> cases fmt <;> cases strconv <;> decide

structure Output.Accounted (out : Output) (ts : List MethodText) : Prop where
  wellFormed : ∀ t ∈ ts, t.WellFormed
  text : IsText out.body.toList (methodLines ts)
  uses : Uses (methodLines ts) out.imports

section

variable {dir : Disk.Path} {sources : List Source} {p : Package} {config : Config} {type : String}
  {a b out : Output} {ms : List Method} {ts us : List MethodText}

theorem Output.accounted_empty : Output.empty.Accounted [] := ⟨by simp, isText_nil, uses_nil⟩

theorem Output.Accounted.append (ha : a.Accounted ts) (hb : b.Accounted us) :
    (a.append b).Accounted (ts ++ us) := by
  have hlines : methodLines (ts ++ us) = methodLines ts ++ methodLines us := List.flatMap_append
  refine ⟨List.forall_mem_append.2 ⟨ha.wellFormed, hb.wellFormed⟩, ?_, ?_⟩
  · rw [hlines, Output.append, String.toList_append]
    exact ha.text.append hb.text
  · rw [hlines]
    exact ha.uses.append hb.uses

theorem uses_methodLines (h : List.Forall₂ Method.Accounted ms ts) :
    Uses (methodLines ts) (Output.ofMethods ms).imports := by
  induction h with
  | nil => exact uses_nil
  | @cons m t ms ts hm _ ih =>
    have himports : (Output.ofMethods (m :: ms)).imports =
        m.imports.union (Output.ofMethods ms).imports := Imports.foldl_union _ ms
    rw [himports]
    exact (uses_concat (k := .punctuation .semicolon) rfl hm.uses).append ih

theorem Output.accounted_ofMethods (h : List.Forall₂ Method.Accounted ms ts) :
    (Output.ofMethods ms).Accounted ts := by
  have hdeclares := h.imp fun _ _ hm => hm.toDeclares
  exact ⟨wellFormed_of_declares hdeclares, isText_of_emits (emits_methods hdeclares) 0,
    uses_methodLines h⟩

theorem accounted_of_generateType (hp : ofSources dir sources = .ok p)
    (hreceiver : ∀ c, contextOf config p type = .ok c → isIdentifier c.receiver)
    (h : generateType config p type = .ok out) : ∃ ts, out.Accounted ts := by
  obtain ⟨c, hc, h⟩ := bind_eq_ok.1 h
  cases h
  have hreadable := readable_of_contextOf hp hc (hreceiver c hc)
  obtain ⟨ts, hts⟩ := exists_accounted hreadable config.families
  exact ⟨ts, Output.accounted_ofMethods hts⟩

end

end GoEnum.Emit
