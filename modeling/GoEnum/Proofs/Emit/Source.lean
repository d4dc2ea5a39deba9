import GoEnum.Emit.Output
import GoEnum.Proofs.Emit.Decoding
import GoEnum.Proofs.Emit.Methods
import GoEnum.Proofs.Enum.Naming

namespace GoEnum.Emit

open Constant Enum Package Syntax Token

section

variable {s sep : String} {paths args : List String}

theorem mem_intercalate {xs : List String} (h : c ∈ (sep.intercalate xs).toList) :
    c ∈ sep.toList ∨ ∃ x ∈ xs, c ∈ x.toList := by
  induction xs with
  | nil => simp at h
  | cons x xs ih =>
    cases xs with
    | nil => exact .inr ⟨x, List.mem_cons_self, by simpa using h⟩
    | cons y ys =>
      rw [String.intercalate_cons_of_ne_nil (by simp), String.toList_append, String.toList_append,
        List.mem_append, List.mem_append] at h
      obtain (hx | hsep) | hrest := h
      · exact .inr ⟨x, List.mem_cons_self, hx⟩
      · exact .inl hsep
      · exact (ih hrest).imp_right fun ⟨z, hz, hc⟩ => ⟨z, List.mem_cons_of_mem x hz, hc⟩

theorem lineBreak_not_mem_marker (h : ∀ arg ∈ args, '\n' ∉ arg.toList) :
    '\n' ∉ (generatedMarker args).toList := by
  have hcommand : '\n' ∉ (" ".intercalate ("enumgen" :: args)).toList := by
    intro hmem
    obtain hspace | ⟨arg, harg, hbreak⟩ := mem_intercalate hmem
    · revert hspace
      decide
    · obtain rfl | harg := List.mem_cons.1 harg
      · revert hbreak
        decide
      · exact h arg harg hbreak
  unfold generatedMarker
  simp only [String.toList_append, List.mem_append, not_or]
  exact ⟨⟨by decide, hcommand⟩, by decide⟩

theorem inked_marker (args : List String) : Inked (generatedMarker args).toList := by
  unfold generatedMarker
  rw [String.toList_append]
  exact Inked.append ⟨'.', by decide, by decide⟩ _

theorem emits_path (h : s.toList.all isPlain) :
    Emits (·.line s!"\"{s}\"") [.string s, .punctuation .semicolon] := by
  have hline := writes_spell (s := s!"\"{s}\"") [.plain s]
    (by simp [toString, spell, Piece.chars]) rfl (List.forall_mem_singleton.2 h)
  exact emits_of_writes_line hline

theorem emits_imports (h : ∀ path ∈ paths, path.toList.all isPlain) :
    Emits (·.imports paths) ((importGroups paths).flatMap importKinds) := by
  match paths, h with
  | [], _ => exact emits_id
  | [path], h =>
    have hline := writes_spell (s := s!"import \"{path}\"") [.keyword .import, .space, .plain path]
      (by simp [toString, spell, Piece.chars, Keyword.spelling]) rfl
      (by simpa [Piece.valid] using h)
    exact (emits_of_writes_line hline).comp emits_blank
  | path :: path' :: paths, h =>
    have hopen := writes_spell (s := "import (") [.keyword .import, .space, .mark .lparen]
      (by decide) rfl (by decide)
    have hclose := writes_spell (s := ")") [.mark .rparen] (by decide) rfl (by decide)
    have hlist := (emits_foldl fun path hpath => emits_path (h path hpath)).indented
    have himports : Emits (·.imports (path :: path' :: paths)) _ :=
      (((emits_of_writes_line hopen).comp hlist).comp (emits_of_writes_line hclose)).comp
        emits_blank
    rw [importGroups, if_neg (List.cons_ne_nil _ _), List.flatMap_singleton, importKinds]
    · simpa [pieceKinds, Piece.kinds, lineEnd, endsAfter, TokenKind.endsStatement,
        Punctuation.endsStatement, Punctuation.isCloser] using himports
    · simp

theorem isPlain_paths (i : Imports) : ∀ path ∈ i.paths, path.toList.all isPlain := by
  obtain ⟨driver, fmt, strconv⟩ := i
  cases driver <;> cases fmt <;> cases strconv <;> decide

theorem isText_preamble {p : Package} (hname : isIdentifier p.name) (imports : Imports)
    (h : ∀ arg ∈ args, '\n' ∉ arg.toList) : IsText (preamble p imports args).toList
      ([.keyword .package, .ident p.name, .punctuation .semicolon] ++
        (importGroups imports.paths).flatMap importKinds) := by
  have hpackage := writes_spell (s := s!"package {p.name}")
    [.keyword .package, .space, .ident p.name]
    (by simp [toString, spell, Piece.chars, Keyword.spelling]) rfl
    (by
      simp only [List.forall_mem_cons]
      exact ⟨rfl, rfl, hname, by simp⟩)
  have hhead := ((emits_comment (lineBreak_not_mem_marker h) (inked_marker args)).comp
    emits_blank).comp ((emits_of_writes_line hpackage).comp emits_blank)
  exact isText_of_emits (hhead.comp (emits_imports (isPlain_paths imports))) 0

end

section

variable {dir : Disk.Path} {sources : List Source} {p : Package} {config : Config} {type : String}
  {c : TypeContext}

theorem contextOf_ok (h : contextOf config p type = .ok c) :
    ∃ members r, collect p type = .ok members ∧
      reduce type members.values ⟨config.errorOnUnknown, config.preferTextual,
        members.hasPlaceholder⟩ = .ok r ∧ c = .of type r config.preferTextual := by
  obtain ⟨members, hmembers, h⟩ := bind_eq_ok.1 h
  obtain ⟨r, hr, h⟩ := bind_eq_ok.1 h
  cases h
  exact ⟨members, r, hmembers, hr, rfl⟩

theorem isIdentifier_receiver_of_contextOf (hp : ofSources dir sources = .ok p)
    (h : contextOf config p type = .ok c) (hdotted : c.receiver ≠ "i\u0307") :
    isIdentifier c.receiver := by
  obtain ⟨members, r, hmembers, hreduce, rfl⟩ := contextOf_ok h
  exact isIdentifier_receiver hp hmembers hreduce hdotted

theorem readable_of_contextOf (hp : ofSources dir sources = .ok p)
    (h : contextOf config p type = .ok c) (hreceiver : isIdentifier c.receiver) : c.Readable := by
  obtain ⟨members, r, hmembers, hreduce, rfl⟩ := contextOf_ok h
  have hr := reduces_of_reduce hreduce
  have hwritable : ∀ m ∈ members.values, isIdentifier type ∧ m.Writable :=
    fun m hm => writable_of_collect hp hmembers hm
  obtain ⟨least, hleast, -⟩ := hr.least
  have htype := (hwritable least hleast).1
  refine ⟨htype, hreceiver, readable_switch hr htype (fun m hm => (hwritable m hm).2.name) ?_ _⟩
  intro m hm
  obtain ⟨v, hkind, hliteral, hfits⟩ := (hwritable m hm).2.value
  refine readable_label hkind hliteral fun n hn => ?_
  have hbound := fits_iff.1 (hfits n hn)
  simp only [intLimit, Nat.pow_eq]
  omega

/-- The methods of a type, as a package knows them that declares them. -/
def promised (families : Families) (type receiver : String) : List (String × Package.Method) :=
  let name := if receiver = blankName then none else some receiver
  (if families = .marshal then [] else
    [(type, ⟨name, true, "Scan", 1, [.named "error"]⟩),
      (type, ⟨name, false, "Value", 0, [.qualified "driver" "Value", .named "error"]⟩)]) ++
  (if families = .storage then [] else
    [(type, ⟨name, true, "UnmarshalJSON", 1, [.named "error"]⟩),
      (type, ⟨name, false, "MarshalJSON", 0, [.slice (.named "byte"), .named "error"]⟩)])

def implemented? : Decl → Option (String × Package.Method)
  | .func f => if f.hasBody then Package.Method.ofDecl? f else none
  | _ => none

def readMethod? (t : MethodText) : Option (String × Package.Method) :=
  t.receiverType.baseName?.map fun base => (base, {
    receiver := if t.receiver = blankName then none else some t.receiver
    isPointer := t.receiverType.isPointer
    name := t.name
    paramCount := t.signature.params.length
    results := t.signature.results.map (·.type) })

theorem implemented?_of_isDeclared {t : MethodText} (h : t.IsDeclared f) :
    implemented? (.func f) = readMethod? t := by
  obtain ⟨⟨r, hr, htype, hname⟩, hmethod, hsignature, hbody⟩ := h
  rw [implemented?, if_pos hbody, Package.Method.ofDecl?, hr, readMethod?, ← htype, ← hname,
    ← hmethod, ← hsignature]
  simp only [Option.bind_eq_bind, Option.bind_some]
  cases r.type.node.baseName? <;> rfl

theorem exists_texts (h : c.Readable) (families : Families) :
    ∃ ts, List.Forall₂ Method.Declares (methods families c) ts ∧
      ts.map readMethod? = (promised families c.type c.receiver).map some := by
  obtain ⟨ks, hks⟩ : ∃ ks, IsSwitch c "scan" ks :=
    exists_isSwitch h (List.all_eq_true.1 (by decide))
  obtain ⟨ls, hls⟩ : ∃ ls, IsSwitch c "unmarshal" ls :=
    exists_isSwitch h (List.all_eq_true.1 (by decide))
  have hscan := declares_scan h hks
  have hvalue := declares_value h
  have hunmarshal := declares_unmarshal h hls
  have hmarshal := declares_marshal h
  cases families with
  | both => exact ⟨_, .cons hscan (.cons hvalue (.cons hunmarshal (.cons hmarshal .nil))), rfl⟩
  | storage => exact ⟨_, .cons hscan (.cons hvalue .nil), rfl⟩
  | marshal => exact ⟨_, .cons hunmarshal (.cons hmarshal .nil), rfl⟩

theorem emits_methods {ms : List Method} (h : List.Forall₂ Method.Declares ms ts) :
    Emits (fun e => ms.foldl (fun e m => m.emit e) e) (methodLines ts) := by
  induction h with
  | nil => exact emits_id
  | cons hm _ ih => exact hm.emits.comp ih

theorem wellFormed_of_declares {ms : List Method} (h : List.Forall₂ Method.Declares ms ts) :
    ∀ t ∈ ts, t.WellFormed := by
  induction h with
  | nil => simp
  | cons hm _ ih => exact List.forall_mem_cons.2 ⟨hm.wellFormed, ih⟩

theorem exists_texts_of_generateType (hp : ofSources dir sources = .ok p)
    (h : generateType config p type = .ok out)
    (hreceiver : ∀ c, contextOf config p type = .ok c → isIdentifier c.receiver) :
    ∃ c ts, contextOf config p type = .ok c ∧ (∀ t ∈ ts, t.WellFormed) ∧
      IsText out.body.toList (methodLines ts) ∧
      ts.map readMethod? = (promised config.families type c.receiver).map some := by
  obtain ⟨c, hc, h⟩ := bind_eq_ok.1 h
  cases h
  have hreadable := readable_of_contextOf hp hc (hreceiver c hc)
  obtain ⟨ts, hts, hpromised⟩ := exists_texts hreadable config.families
  obtain ⟨-, r, -, -, rfl⟩ := contextOf_ok hc
  exact ⟨_, ts, hc, wellFormed_of_declares hts, isText_of_emits (emits_methods hts) 0, hpromised⟩

end

end GoEnum.Emit
