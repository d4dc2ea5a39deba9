import GoEnum.Emit.Code
import GoEnum.Proofs.Token.Piece

namespace GoEnum.Emit

open Token

variable {s : String} {P : List Char → Prop}

/-- A step of the emitter that adds whole lines, which are read as the tokens `ks`. -/
def Emits (f : Emitter → Emitter) (ks : List TokenKind) : Prop :=
  ∀ e, ∃ ls, (f e).text.toList = e.text.toList ++ unlines ls ∧ (f e).level = e.level ∧
    ReadsEach ls ks

def Writes (code : List Code) (ks : List TokenKind) : Prop := Emits (·.codes code) ks

theorem emits_id : Emits id [] := fun e => ⟨[], by simp [unlines], rfl, .nil⟩

theorem Emits.comp (hf : Emits f ks) (hg : Emits g ls) : Emits (fun e => g (f e)) (ks ++ ls) := by
  intro e
  obtain ⟨us, hu, hulevel, hureads⟩ := hf e
  obtain ⟨vs, hv, hvlevel, hvreads⟩ := hg (f e)
  refine ⟨us ++ vs, ?_, hvlevel.trans hulevel, hureads.append hvreads⟩
  rw [hv, hu, unlines_append, List.append_assoc]

theorem Emits.indented (h : Emits f ks) : Emits (fun e => (f e.indent).dedent) ks := by
  intro e
  obtain ⟨ls, htext, hlevel, hreads⟩ := h e.indent
  refine ⟨ls, htext, ?_, hreads⟩
  change (f e.indent).level - 1 = e.level
  rw [hlevel]
  rfl

theorem toList_line (e : Emitter) (s : String) :
    (e.line s).text.toList =
      e.text.toList ++ unlines [List.replicate e.level '\t' ++ s.toList] := by
  simp [Emitter.line, Emitter.tabs, unlines]

theorem emits_line (h : Reads P s.toList ks) (hbreak : ∀ rest, P ('\n' :: rest))
    (hink : Inked s.toList) : Emits (·.line s) (ks ++ lineEnd (endsAfter false ks)) := by
  intro e
  have hreads : Reads P (List.replicate e.level '\t' ++ s.toList) ks := (reads_tabs _).followed h
  have hline : IsLine (List.replicate e.level '\t' ++ s.toList) :=
    ⟨hreads.oneLine, (hink.append _).trimmed⟩
  exact ⟨_, toList_line e s, rfl, .single hline (hreads.line hbreak)⟩

theorem emits_blank : Emits Emitter.blank [] :=
  fun e => ⟨[[]], by simp [Emitter.blank, unlines], rfl, .single isLine_nil readsLines_blank⟩

theorem writes_nil : Writes [] [] := by
  have h : (fun e : Emitter => e.codes []) = id := by
    funext e
    rw [Emitter.codes]
    rfl
  rw [Writes, h]
  exact emits_id

theorem codes_append (e : Emitter) (u v : List Code) : e.codes (u ++ v) = (e.codes u).codes v := by
  induction u generalizing e with
  | nil => rw [List.nil_append, Emitter.codes]
  | cons c u ih => rw [List.cons_append, Emitter.codes, Emitter.codes, ih]

theorem Writes.append (hu : Writes u ks) (hv : Writes v ls) : Writes (u ++ v) (ks ++ ls) := by
  simp only [Writes, codes_append]
  exact hu.comp hv

theorem writes_line (h : Reads P s.toList ks) (hbreak : ∀ rest, P ('\n' :: rest))
    (hink : Inked s.toList) : Writes [.line s] (ks ++ lineEnd (endsAfter false ks)) := by
  simp only [Writes, Emitter.codes, Emitter.code]
  exact emits_line h hbreak hink

theorem writes_spell (ps : List Piece) (htext : s.toList = spell ps) (h : isFluent ps)
    (hvalid : ∀ p ∈ ps, p.valid) :
    Writes [.line s] (pieceKinds ps ++ lineEnd (endsAfter false (pieceKinds ps))) := by
  refine writes_line (P := Piece.AtBreak) ?_ (fun rest => .inr ⟨rest, rfl⟩) ?_
  · rw [htext]
    exact reads_spell h hvalid
  · rw [htext]
    exact inked_spell h hvalid

theorem writes_blank : Writes [.blank] [] := by
  simp only [Writes, Emitter.codes, Emitter.code]
  exact emits_blank

theorem emits_of_writes_line (h : Writes [.line s] ks) : Emits (·.line s) ks := by
  simpa only [Writes, Emitter.codes, Emitter.code] using h

theorem writes_clause (hlabel : Writes [.line label] ks) (hbody : Writes body ls) :
    Writes [.clause label body] (ks ++ ls) := by
  simp only [Writes, Emitter.codes, Emitter.code]
  exact (emits_of_writes_line hlabel).comp hbody.indented

theorem emits_comment (hline : '\n' ∉ s.toList) (hink : Inked s.toList) :
    Emits (·.comment s) [] := by
  have htext : ("// " ++ s).toList = '/' :: '/' :: ([' '] ++ s.toList) := by simp
  have hread : Reads (Stops (· != '\n')) ("// " ++ s).toList [] := by
    rw [htext]
    exact reads_comment (by simpa using hline)
  refine emits_line hread (fun _ => stops_cons (by decide)) ?_
  rw [String.toList_append]
  exact hink.append _

theorem emits_brace : Emits (·.line "\x7d") [.punctuation .rbrace, .punctuation .semicolon] := by
  have hbrace := writes_spell (s := "\x7d") [.mark .rbrace] (by decide) rfl (by decide)
  exact emits_of_writes_line hbrace

theorem emits_block (hheader : Writes [.line (header ++ " \x7b")] ks) (hbody : Emits f ls) :
    Emits (·.block header f)
      (ks ++ ls ++ [TokenKind.punctuation .rbrace, .punctuation .semicolon]) :=
  ((emits_of_writes_line hheader).comp hbody.indented).comp emits_brace

theorem writes_block (hheader : Writes [.line (header ++ " \x7b")] ks) (hbody : Writes body ls) :
    Writes [.block header body]
      (ks ++ ls ++ [TokenKind.punctuation .rbrace, .punctuation .semicolon]) := by
  have hblock := emits_block hheader hbody
  simpa only [Writes, Emitter.codes, Emitter.code, Emitter.block] using hblock

theorem emits_foldl {step : α → Emitter → Emitter} {kinds : α → List TokenKind} {xs : List α}
    (h : ∀ x ∈ xs, Emits (step x) (kinds x)) :
    Emits (fun e => xs.foldl (fun e x => step x e) e) (xs.flatMap kinds) := by
  induction xs with
  | nil => exact emits_id
  | cons x xs ih =>
    exact (h x List.mem_cons_self).comp (ih fun y hy => h y (List.mem_cons_of_mem x hy))

theorem isText_of_emits (h : Emits f ks) (level : Nat) : IsText (f ⟨"", level⟩).text.toList ks := by
  obtain ⟨ls, htext, -, hreads⟩ := h ⟨"", level⟩
  exact ⟨ls, htext, hreads⟩

theorem lex_of_writes (h : Writes code ks) (level : Nat) :
    ∃ ts, lex ((Emitter.mk "" level).codes code).text = .ok ts ∧
      ts.map (·.node) = ks ++ [TokenKind.eof] :=
  lex_of_isText (isText_of_emits h level)

end GoEnum.Emit
