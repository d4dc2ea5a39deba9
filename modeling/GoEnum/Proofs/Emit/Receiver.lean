import GoEnum.Proofs.Emit.Session
import GoEnum.Proofs.Emit.Source
import GoEnum.Proofs.Enum.Agreement

namespace GoEnum.Emit

open Enum Package Syntax Token

section

variable {dir : Disk.Path} {sources : List Source} {p : Package} {type : String} {config : Config}
  {out : Output} {c : TypeContext}

theorem kinds?_dot (ends : Bool) (rest : List Char) : kinds? ends ('\u0307' :: rest) = none := by
  have hlexeme : lexeme '\u0307' rest = .fault (.unexpected '\u0307') 0 := rfl
  rw [kinds?, scan_cons, hlexeme]
  rfl

theorem reads_dotted : Reads (Stops isIdentPart) "func (i".toList
    [.keyword .func, .punctuation .lparen, .ident "i"] := by
  have hopen : Reads (Stops isIdentPart) ([' '] ++ (['('] ++ "i".toList))
      [.punctuation .lparen, .ident "i"] :=
    reads_space.followed ((reads_mark fun _ => rfl).followed (reads_ident (by decide)))
  exact (reads_keyword .func).append hopen fun _ _ => stops_cons (by decide)

theorem exists_text_emit (m : Method) : ∃ rest, (m.emit .empty).text =
    "// " ++ m.doc ++ "\n" ++ ("func (" ++ m.receiver ++ rest) := by
  have hframes : Frames fun e => ((e.indent.codes m.body).dedent.line "\x7d").blank :=
    ((frames_codes m.body).indented.comp (frames_line _)).comp frames_blank
  let head := (Emitter.empty.comment m.doc).line
    (s!"func ({m.receiver}) {m.signature}" ++ " \x7b")
  obtain ⟨more, hmore⟩ : ∃ more, (m.emit .empty).text = head.text ++ more :=
    ⟨_, hframes.text head⟩
  refine ⟨") " ++ m.signature ++ " \x7b\n" ++ more, hmore.trans ?_⟩
  simp [head, Emitter.comment, Emitter.line, Emitter.tabs, Emitter.empty, String.append_assoc,
    toString]

theorem exists_body_ofMethods (m : Method) (ms : List Method) : ∃ rest,
    (Output.ofMethods (m :: ms)).body =
      "// " ++ m.doc ++ "\n" ++ ("func (" ++ m.receiver ++ rest) := by
  obtain ⟨rest, hrest⟩ := exists_text_emit m
  obtain ⟨more, hmore⟩ : ∃ more, (Output.ofMethods (m :: ms)).body = (m.emit .empty).text ++ more :=
    ⟨_, (frames_foldl Method.frames_emit ms).text (m.emit .empty)⟩
  refine ⟨rest ++ more, ?_⟩
  rw [hmore, hrest]
  simp only [String.append_assoc]

theorem exists_cons_methods (h : isIdentifier c.type) (families : Families) : ∃ m ms,
    methods families c = m :: ms ∧ m.receiver = pointerReceiver c ∧ '\n' ∉ m.doc.toList := by
  cases families with
  | both => exact ⟨scan c, _, rfl, rfl, lineBreak_not_mem_doc h (by decide)⟩
  | storage => exact ⟨scan c, _, rfl, rfl, lineBreak_not_mem_doc h (by decide)⟩
  | marshal => exact ⟨unmarshal c, _, rfl, rfl, lineBreak_not_mem_doc h (by decide)⟩

theorem kinds?_of_dotted (htype : isIdentifier c.type) (hdotted : c.receiver = "i\u0307")
    (families : Families) (rest : List Char) :
    kinds? false ((Output.ofMethods (methods families c)).body.toList ++ rest) = none := by
  obtain ⟨m, ms, hms, hreceiver, hdoc⟩ := exists_cons_methods htype families
  obtain ⟨more, hmore⟩ := exists_body_ofMethods m ms
  have htext : ((Output.ofMethods (m :: ms)).body.toList ++ rest) =
      ('/' :: '/' :: (' ' :: m.doc.toList) ++ ['\n']) ++
        ("func (i".toList ++ '\u0307' :: (" *" ++ c.type ++ more).toList ++ rest) := by
    rw [hmore, hreceiver, pointerReceiver, hdotted]
    simp [toString]
  have hcomment : ReadsLines ('/' :: '/' :: (' ' :: m.doc.toList) ++ ['\n']) _ :=
    (reads_comment (by simpa using hdoc)).line fun _ => stops_cons (by decide)
  rw [hms, htext, hcomment, List.append_assoc, List.cons_append,
    reads_dotted.kinds _ _ (stops_cons (by decide)), kinds?_dot]
  rfl

theorem isIdentifier_of_contextOf (hp : ofSources dir sources = .ok p)
    (h : contextOf config p type = .ok c) : isIdentifier c.type := by
  obtain ⟨members, r, hmembers, hreduce, rfl⟩ := contextOf_ok h
  obtain ⟨m, hm, -⟩ := (reduces_of_reduce hreduce).least
  exact (writable_of_collect hp hmembers hm).1

theorem isIdentifier_receiver_of_kinds? (hp : ofSources dir sources = .ok p)
    (hc : contextOf config p type = .ok c) (h : generateType config p type = .ok out)
    {rest : List Char} (hread : (kinds? false (out.body.toList ++ rest)).isSome) :
    isIdentifier c.receiver := by
  refine isIdentifier_receiver_of_contextOf hp hc fun hdotted => ?_
  obtain ⟨c', hc', h⟩ := bind_eq_ok.1 h
  obtain rfl := Except.ok.inj (hc.symm.trans hc')
  cases h
  rw [kinds?_of_dotted (isIdentifier_of_contextOf hp hc) hdotted] at hread
  cases hread

end

def TypeContext.withHint (c : TypeContext) (hint : String) : TypeContext :=
  { c with set := c.set.withHint c.type hint }

section

variable {dir : Disk.Path} {sources : List Source} {p p' : Package} {type hint : String}
  {config : Config} {c c' : TypeContext} {families : Families}

theorem code_congr (htype : c'.type = c.type) (hconversion : c'.conversion = c.conversion)
    (hreceiver : c'.receiver = c.receiver) : Switch.code c' = Switch.code c := by
  funext operation s
  unfold Switch.code Switch.assign Switch.unrecognized
  rw [htype, hconversion, hreceiver]

theorem methods_congr (htype : c'.type = c.type) (htextual : c'.textual = c.textual)
    (hconversion : c'.conversion = c.conversion) (hreceiver : c'.receiver = c.receiver)
    (hswitch : Switch.of c' = Switch.of c) (families : Families) :
    methods families c' = methods families c := by
  have hcode := code_congr htype hconversion hreceiver
  have hscan : scan c' = scan c := by
    unfold scan pointerReceiver
    rw [htype, hconversion, hreceiver, hswitch, hcode]
  have hvalue : value c' = value c := by
    unfold value valueReceiver textCall
    rw [htype, htextual, hconversion, hreceiver]
  have hread : readInteger c' = readInteger c := by
    funext parser
    unfold readInteger
    rw [htype, hconversion]
  have hunmarshal : unmarshal c' = unmarshal c := by
    unfold unmarshal pointerReceiver
    rw [htype, hconversion, hreceiver, hswitch, hcode, hread]
  have hmarshal : marshal c' = marshal c := by
    unfold marshal valueReceiver textCall
    rw [htype, htextual, hconversion, hreceiver]
  rw [methods, methods, hscan, hvalue, hunmarshal, hmarshal]

theorem switch_withHint (c : TypeContext) (hint : String) :
    Switch.of (c.withHint hint) = Switch.of c := by
  have hdefault : (c.withHint hint).defaultTarget? = c.defaultTarget? := by
    simp only [TypeContext.defaultTarget?, TypeContext.withHint, Reduced.withHint, Option.map_map]
    rfl
  unfold Switch.of
  rw [hdefault]
  simp only [TypeContext.withHint, Reduced.withHint, List.map_map, List.isEmpty_map]
  rfl

theorem methods_withHint (h : (c.withHint hint).receiver = c.receiver) (families : Families) :
    methods families (c.withHint hint) = methods families c :=
  methods_congr (by rfl) (by rfl) (by rfl) h (switch_withHint c hint) families

def chosen (type : String) (hint? : Option String) : String :=
  if hint?.getD "" = "" then defaultReceiver type else hint?.getD ""

theorem receiver_of_contextOf (hproper : Proper p type) (hp : ofSources dir sources = .ok p)
    (hc : contextOf config p type = .ok c) :
    c.receiver = chosen type (p.symbols.receiverHint? type) := by
  obtain ⟨members, r, hmembers, hreduce, rfl⟩ := contextOf_ok hc
  exact hproper.receiver_eq hp hmembers hreduce

theorem contextOf_insert (hproper : Proper p type) (hs : p.symbols.Agrees p'.symbols)
    {l₁ l₂ : List File} (hfiles : p.files = l₁ ++ l₂) (hfiles' : p'.files = l₁ ++ f :: l₂)
    (hf : constDecls f = []) (hc : contextOf config p type = .ok c) :
    contextOf config p' type =
      .ok (c.withHint ((p'.symbols.receiverHint? type).getD "")) := by
  obtain ⟨members, r, hmembers, hreduce, rfl⟩ := contextOf_ok hc
  refine bind_eq_ok.2 ⟨_, hproper.collect_insert hs hfiles hfiles' hf hmembers, ?_⟩
  dsimp only [Members.map]
  rw [reduce_withHint, hreduce]
  rfl

/-- A receiver that was chosen is chosen again where methods give it the name of the choice. -/
theorem chosen_again (hreceiver : receiver = chosen type hint?)
    (h : hint?' = hint? ∨ hint?' = some receiver) : chosen type hint?' = receiver := by
  obtain rfl | rfl := h
  · exact hreceiver.symm
  · unfold chosen at hreceiver ⊢
    rw [Option.getD_some]
    split
    · rename_i hempty
      split at hreceiver
      · exact hreceiver.symm
      · rename_i hnamed
        exact absurd (hreceiver.symm.trans hempty) hnamed
    · rfl

theorem generateType_insert (hp : ofSources dir sources = .ok p) (hproper : Proper p type)
    (hs : p.symbols.Agrees p'.symbols) {l₁ l₂ : List File} (hfiles : p.files = l₁ ++ l₂)
    (hfiles' : p'.files = l₁ ++ f :: l₂) (hf : constDecls f = [])
    (hhint : ∀ c, contextOf config p type = .ok c →
      p'.symbols.receiverHint? type = p.symbols.receiverHint? type ∨
        p'.symbols.receiverHint? type = some c.receiver)
    (h : generateType config p type = .ok out) : generateType config p' type = .ok out := by
  obtain ⟨c, hc, h⟩ := bind_eq_ok.1 h
  have hc' := contextOf_insert hproper hs hfiles hfiles' hf hc
  have hchosen := chosen_again (receiver_of_contextOf hproper hp hc) (hhint c hc)
  obtain ⟨members, r, hmembers, hreduce, rfl⟩ := contextOf_ok hc
  have hreceiver : (TypeContext.withHint (.of type r config.preferTextual)
      ((p'.symbols.receiverHint? type).getD "")).receiver = _ := hchosen
  rw [generateType, hc', ok_bind, methods_withHint hreceiver]
  exact h

end

end GoEnum.Emit
