import GoEnum.Proofs.Parse.Balanced
import GoEnum.Proofs.Parse.Type
import GoEnum.Proofs.Syntax.Signature

namespace GoEnum.Parse

open Token Syntax

section

variable {item : Parser α} {F : List TokenKind → Prop} {closer : Punctuation} {ks : List TokenKind}
  {kss : List (List TokenKind)} {x : α} {xs : List α} {rest : List TokenKind}

structure ReadsItem (item : Parser α) (closer : Punctuation) (ks : List TokenKind) (x : α) :
    Prop where
  reads : ∀ rest, next rest = .punctuation .comma ∨ next rest = .punctuation closer →
    Yields item (ks ++ rest) fun x' ls => x' = x ∧ ls = rest
  begins : ∀ rest, next (ks ++ rest) ≠ .punctuation closer

theorem yields_commaList (h : List.Forall₂ (ReadsItem item closer) kss xs)
    (hcloser : closer ≠ .comma) (hn : kss.length < n) :
    Yields (commaList closer item out n) (separated kss ++ .punctuation closer :: rest)
      fun xs' ls => xs' = xs ∧ ls = .punctuation closer :: rest := by
  induction h generalizing n with
  | nil =>
    obtain _ | n := n
    · simp at hn
    refine (yields_isNext _).bind ?_
    rintro b ls ⟨rfl, rfl⟩
    rw [separated, List.nil_append, next_cons, beq_self_eq_true]
    exact yields_pure _ ⟨rfl, rfl⟩
  | @cons ks x kss xs hx h ih =>
    obtain _ | n := n
    · simp at hn
    cases h with
    | nil =>
      rw [separated]
      refine (yields_isNext _).bind ?_
      rintro b ls ⟨rfl, rfl⟩
      rw [beq_eq_false_iff_ne.2 (hx.begins _)]
      refine (hx.reads _ (.inr rfl)).bind ?_
      rintro x' ls ⟨rfl, rfl⟩
      refine (yields_refuse (by simpa using hcloser)).bind ?_
      rintro b ls ⟨rfl, rfl⟩
      exact yields_pure _ ⟨rfl, rfl⟩
    | cons =>
      have htail := ih (n := n) (by simpa using hn)
      simp only [separated, List.append_assoc, List.cons_append] at htail ⊢
      refine (yields_isNext _).bind ?_
      rintro b ls ⟨rfl, rfl⟩
      rw [beq_eq_false_iff_ne.2 (hx.begins _)]
      refine (hx.reads _ (.inl rfl)).bind ?_
      rintro x' ls ⟨rfl, rfl⟩
      refine (yields_accept (by simp)).bind ?_
      rintro b ls ⟨rfl, rfl⟩
      refine htail.bind ?_
      rintro xs' ls ⟨rfl, rfl⟩
      exact yields_pure _ ⟨rfl, rfl⟩

theorem length_le_separated (h : ks ∈ kss) : ks.length ≤ (separated kss).length := by
  induction kss with
  | nil => cases h
  | cons ls kss ih =>
    cases kss with
    | nil =>
      obtain rfl := List.mem_singleton.1 h
      exact Nat.le_refl _
    | cons ms kss =>
      rw [separated, List.length_append, List.length_cons]
      · obtain rfl | h := List.mem_cons.1 h
        · omega
        · have hle := ih h
          omega
      · simp

end

section

variable {t : TypeExpr} {ts : List TypeExpr} {s : Signature TypeExpr} {p : Param TypeExpr}
  {ps : List (Param TypeExpr)} {ks rest : List TokenKind} {kss : List (List TokenKind)}

/-- What follows a type goes on neither with a name nor with the results of a signature. -/
structure EndsType (rest : List TokenKind) : Prop where
  dot : next rest ≠ .punctuation .dot
  type : startsType (next rest) = false

theorem ne_of_startsType (h : startsType k = true) (h' : startsType l = false) : k ≠ l := by
  rintro rfl
  rw [h] at h'
  cases h'

theorem ne_nil_of_startsType (h : ∀ rest, startsType (next (ks ++ rest)) = true) : ks ≠ [] := by
  rintro rfl
  cases h []

theorem EndsType.ne (h : EndsType rest) (h' : startsType k = true) : next rest ≠ k :=
  (ne_of_startsType h' h.type).symm

theorem endsType_of_closer (h : next rest = .punctuation .comma ∨ next rest = .punctuation closer)
    (hcloser : closer.isCloser = true) : EndsType rest := by
  obtain h | h := h
  · exact ⟨by simp [h], by rw [h]; rfl⟩
  · cases closer <;> cases hcloser <;> exact ⟨by simp [h], by rw [h]; rfl⟩

theorem startsType_spells (hs : t.Spells ks) (rest : List TokenKind) :
    startsType (next (ks ++ rest)) = true := by
  cases hs with
  | name ht => cases ht <;> rfl
  | applied hbase => cases hbase <;> rfl
  | _ => rfl

theorem next_spells_ne (hs : t.Spells ks) (rest : List TokenKind) :
    next (ks ++ rest) ≠ .punctuation .lparen := by
  cases hs with
  | name ht => cases ht <;> simp [TypeExpr.nameKinds]
  | applied hbase => cases hbase <;> simp [TypeExpr.nameKinds]
  | _ => simp

theorem startsType_separated (hs : SpellsTypes ts kss) (hne : ts ≠ []) (rest : List TokenKind) :
    startsType (next (separated kss ++ rest)) = true := by
  cases hs with
  | nil => exact absurd rfl hne
  | cons hk hks =>
    cases hks with
    | nil => exact startsType_spells hk rest
    | cons =>
      rw [separated, List.append_assoc]
      · exact startsType_spells hk _
      · simp

theorem namesParam_spells (hs : t.Spells ks) (rest : List TokenKind) :
    namesParam (next (ks ++ rest)) ((ks ++ rest)[1]?.getD .eof) = true := by
  cases hs with
  | name ht => cases ht <;> rfl
  | applied hbase => cases hbase <;> rfl
  | _ => rfl

theorem not_namesParam_bracket (h : startsType k = true) :
    namesParam (.punctuation .lbracket) k = false := by
  cases k with
  | punctuation p => cases p <;> first | rfl | cases h
  | _ => first | rfl | cases h

theorem not_namesParam_spells (hs : t.Spells ks)
    (hrest : next rest = .punctuation .comma ∨ next rest = .punctuation .rparen) :
    ((next (ks ++ rest)).isIdent && namesParam ((ks ++ rest)[1]?.getD .eof)
      ((ks ++ rest)[2]?.getD .eof)) = false := by
  have hnext : rest[0]?.getD .eof = next rest := by rw [next, List.head?_eq_getElem?]
  cases hs with
  | name ht =>
    cases ht with
    | named =>
      simp only [TypeExpr.nameKinds, List.cons_append, List.nil_append, List.getElem?_cons_succ,
        hnext]
      obtain h | h := hrest <;> rw [h] <;> rfl
    | qualified => rfl
  | applied hbase hne hargs =>
    cases hbase with
    | named =>
      have hfirst := startsType_separated hargs hne (.punctuation .rbracket :: rest)
      have hget : ∀ ls : List TokenKind, ls[0]?.getD .eof = next ls := by
        intro ls
        rw [next, List.head?_eq_getElem?]
      simp only [TypeExpr.nameKinds, List.cons_append, List.nil_append, List.append_assoc,
        List.getElem?_cons_succ, List.getElem?_cons_zero, Option.getD_some, hget]
      rw [not_namesParam_bracket hfirst, Bool.and_false]
    | qualified => rfl
  | _ => rfl

def ReadsTypes (out : String) (n : Nat) : Prop :=
  ∀ t ks rest, TypeExpr.Spells t ks → EndsType rest → ks.length ≤ n →
    Yields (typeWithin out n) (ks ++ rest) fun t' ls => t' = t ∧ ls = rest

theorem readsItem_type {type : Parser TypeExpr}
    (hstarts : ∀ rest, startsType (next (ks ++ rest)) = true)
    (hread : ∀ rest, EndsType rest → Yields type (ks ++ rest) fun t' ls => t' = t ∧ ls = rest) :
    ReadsItem type .rbracket ks t :=
  ⟨fun rest hrest => hread rest (endsType_of_closer hrest rfl),
    fun rest => ne_of_startsType (hstarts rest) rfl⟩

theorem yields_types (hread : ReadsTypes out n) (hs : SpellsTypes ts kss)
    (hn : ∀ ks ∈ kss, ks.length ≤ n) :
    List.Forall₂ (ReadsItem (typeWithin out n) .rbracket) kss ts := by
  induction ts generalizing kss with
  | nil =>
    cases hs
    exact .nil
  | cons t ts ih =>
    cases hs with
    | cons hk hks =>
      obtain ⟨hlength, hn⟩ := List.forall_mem_cons.1 hn
      refine .cons (readsItem_type (startsType_spells hk) fun rest hrest => ?_) (ih hks hn)
      exact hread _ _ _ hk hrest hlength

theorem yields_applied {base : TypeExpr} (hbase : base.IsName)
    (hargs : Yields (commaList .rbracket (typeWithin out n) out n)
      (ks ++ .punctuation .rbracket :: rest)
      fun xs ls => xs = ts ∧ ls = .punctuation .rbracket :: rest) :
    Yields (typeWithin out (n + 1))
      (base.nameKinds ++ .punctuation .lbracket :: (ks ++ .punctuation .rbracket :: rest))
      fun t' ls => t' = .applied base ts ∧ ls = rest := by
  obtain ⟨name, hname⟩ := next_nameKinds hbase
    (.punctuation .lbracket :: (ks ++ .punctuation .rbracket :: rest))
  refine yields_peek.bind ?_
  rintro k ls ⟨rfl, rfl⟩
  rw [hname]
  refine yields_nameThen hbase (by simp) ((yields_accept (by simp)).bind ?_)
  rintro b ls ⟨rfl, rfl⟩
  refine hargs.bind ?_
  rintro xs ls ⟨rfl, rfl⟩
  refine (yields_expect (by simp) _).bind ?_
  rintro - ls rfl
  exact yields_pure _ ⟨rfl, rfl⟩

theorem yields_bracedBody (word : String) (h : Balanced ks) :
    Yields (bracedBody word) (.punctuation .lbrace :: (ks ++ .punctuation .rbrace :: rest))
      fun _ ls => ls = rest := by
  refine (yields_isNext _).bind ?_
  rintro b ls ⟨rfl, rfl⟩
  exact yields_skipBalanced rfl h

theorem yields_sliceOrArray {type : Parser TypeExpr} (h : Balanced ls)
    (hstart : next ls ∉ [.eof, .punctuation .rbracket, .punctuation .ellipsis])
    (htype : Yields type ks fun t' ms => t' = t ∧ ms = rest) :
    Yields (sliceOrArray type) (ls ++ .punctuation .rbracket :: ks)
      fun t' ms => t' = .array t ∧ ms = rest := by
  obtain _ | ⟨k, ls⟩ := ls
  · simp at hstart
  have hnext : next (k :: ls ++ .punctuation .rbracket :: ks) ∉
      [.eof, .punctuation .rbracket, .punctuation .ellipsis] := hstart
  simp only [List.mem_cons, List.not_mem_nil, or_false, not_or] at hnext
  refine (yields_refuse hnext.2.1).bind ?_
  rintro b ms ⟨rfl, rfl⟩
  refine (yields_refuse hnext.2.2).bind ?_
  rintro b ms ⟨rfl, rfl⟩
  have hitems : Items (fun k => k ≠ .punctuation .rbracket ∧ k ≠ .eof) (k :: ls) := by
    refine h.items.imp fun k hk => ⟨?_, hk.2⟩
    rintro rfl
    cases hk.1
  refine (yields_bounded fun out => yields_skipUntil rfl hitems ?_).bind ?_
  · simp only [List.length_append, List.length_cons]
    omega
  rintro - ms rfl
  refine (yields_expect (by simp) _).bind ?_
  rintro - ms rfl
  refine htype.bind ?_
  rintro t' ms ⟨rfl, rfl⟩
  exact yields_pure _ ⟨rfl, rfl⟩

theorem yields_paramEntry {type : Parser TypeExpr}
    (hnames : namesParam (next (ks ++ rest)) ((ks ++ rest)[1]?.getD .eof) = true)
    (hplain : ((next (ks ++ rest)).isIdent && namesParam ((ks ++ rest)[1]?.getD .eof)
      ((ks ++ rest)[2]?.getD .eof)) = false)
    (htype : Yields (do
      let variadic ← accept Punctuation.ellipsis
      return (⟨p.name, ← type, variadic⟩ : Param TypeExpr)) (ks ++ rest)
      fun p' ls => p' = p ∧ ls = rest) :
    Yields (paramEntry type) (p.nameKinds ++ ks ++ rest) fun p' ls => p' = p ∧ ls = rest := by
  obtain ⟨name, t, variadic⟩ := p
  rw [List.append_assoc]
  refine yields_peek.bind ?_
  rintro k ls ⟨rfl, rfl⟩
  refine (yields_peekAt 1).bind ?_
  rintro k ls ⟨rfl, rfl⟩
  refine (yields_peekAt 2).bind ?_
  rintro k ls ⟨rfl, rfl⟩
  cases name with
  | none =>
    rw [if_neg (by simpa [Param.nameKinds] using hplain)]
    exact htype
  | some name =>
    have hnext : (ks ++ rest)[0]?.getD .eof = next (ks ++ rest) := by
      rw [next, List.head?_eq_getElem?]
    simp only [Param.nameKinds, Option.elim_some, List.cons_append, List.nil_append,
      List.getElem?_cons_succ, hnext]
    rw [hnames]
    have hname : Yields (some <$> Spanned.node <$> identifier) (.ident name :: (ks ++ rest))
        fun x ls => x = some name ∧ ls = ks ++ rest :=
      Yields.map (Yields.map ((yields_identifier name).imp fun x ls hx =>
        ⟨congrArg some hx.1, hx.2⟩))
    refine hname.bind ?_
    rintro x ls ⟨rfl, rfl⟩
    exact htype

theorem readsItem_param (hread : ReadsTypes out n) (hs : p.type.Spells ks) (hn : ks.length ≤ n)
    (hvariadic : p.variadic = false) :
    ReadsItem (paramEntry (typeWithin out n)) .rparen (p.nameKinds ++ ks) p := by
  obtain ⟨name, t, variadic⟩ := p
  obtain rfl : variadic = false := hvariadic
  refine ⟨fun rest hrest => ?_, fun rest => ?_⟩
  · refine yields_paramEntry (namesParam_spells hs rest) (not_namesParam_spells hs hrest) ?_
    have hellipsis := ne_of_startsType (startsType_spells hs rest)
      (l := .punctuation .ellipsis) rfl
    refine (yields_refuse hellipsis).bind ?_
    rintro b ls ⟨rfl, rfl⟩
    refine (hread t ks rest hs (endsType_of_closer hrest rfl) hn).bind ?_
    rintro t' ls ⟨rfl, rfl⟩
    exact yields_pure _ ⟨rfl, rfl⟩
  · cases name with
    | none => exact ne_of_startsType (startsType_spells hs rest) rfl
    | some name => simp [Param.nameKinds]

theorem readsItem_variadic (hread : ReadsTypes out n) (hs : p.type.Spells ks) (hn : ks.length ≤ n)
    (hvariadic : p.variadic = true) :
    ReadsItem (paramEntry (typeWithin out n)) .rparen (p.nameKinds ++ .punctuation .ellipsis :: ks)
      p := by
  obtain ⟨name, t, variadic⟩ := p
  obtain rfl : variadic = true := hvariadic
  refine ⟨fun rest hrest => ?_, fun rest => ?_⟩
  · refine yields_paramEntry rfl rfl ?_
    refine (yields_accept (by simp)).bind ?_
    rintro b ls ⟨rfl, rfl⟩
    refine (hread t ks rest hs (endsType_of_closer hrest rfl) hn).bind ?_
    rintro t' ls ⟨rfl, rfl⟩
    exact yields_pure _ ⟨rfl, rfl⟩
  · cases name <;> simp [Param.nameKinds]

theorem readsItem_shared (hread : ReadsTypes out n) (hn : 1 ≤ n) (name : String) :
    ReadsItem (paramEntry (typeWithin out n)) .rparen [.ident name] ⟨none, .named name, false⟩ :=
  readsItem_param (p := ⟨none, .named name, false⟩) hread (.name .named) hn rfl

theorem reads_unnamed (hread : ReadsTypes out n) (hs : SpellsParams false ps kss)
    (hn : ∀ ks ∈ kss, ks.length ≤ n) :
    List.Forall₂ (ReadsItem (paramEntry (typeWithin out n)) .rparen) kss ps ∧
      ∀ p ∈ ps, p.name.isNone := by
  induction kss generalizing ps with
  | nil =>
    cases hs
    exact ⟨.nil, by simp⟩
  | cons ks kss ih =>
    obtain ⟨hlength, hentries⟩ := List.forall_mem_cons.1 hn
    cases hs with
    | cons hname hvariadic ht hps =>
      obtain ⟨hitems, hnames⟩ := ih hps hentries
      refine ⟨.cons (readsItem_param hread ht ?_ hvariadic) hitems, ?_⟩
      · rw [List.length_append] at hlength
        omega
      · exact List.forall_mem_cons.2 ⟨by simpa using hname, hnames⟩
    | variadic hname hvariadic ht =>
      refine ⟨.cons (readsItem_variadic hread ht ?_ hvariadic) .nil, ?_⟩
      · rw [List.length_append, List.length_cons] at hlength
        omega
      · exact List.forall_mem_singleton.2 (by simpa using hname)

theorem reads_named (hread : ReadsTypes out n) (hs : SpellsParams true ps kss)
    (hn : ∀ ks ∈ kss, ks.length ≤ n) :
    ∃ qs, List.Forall₂ (ReadsItem (paramEntry (typeWithin out n)) .rparen) kss qs ∧
      shareTypes? qs = some ps ∧ (qs = [] ∨ ∃ q ∈ qs, q.name.isSome) := by
  induction kss generalizing ps with
  | nil =>
    cases hs
    exact ⟨[], .nil, rfl, .inl rfl⟩
  | cons ks kss ih =>
    obtain ⟨hlength, hentries⟩ := List.forall_mem_cons.1 hn
    cases hs with
    | cons hname hvariadic ht hps =>
      obtain ⟨qs, hitems, hshare, -⟩ := ih hps hentries
      refine ⟨_, .cons (readsItem_param hread ht ?_ hvariadic) hitems, ?_,
        .inr ⟨_, List.mem_cons_self, hname⟩⟩
      · rw [List.length_append] at hlength
        omega
      · simp [shareTypes?, hshare, hname]
    | variadic hname hvariadic ht =>
      refine ⟨_, .cons (readsItem_variadic hread ht ?_ hvariadic) .nil, ?_,
        .inr ⟨_, List.mem_cons_self, hname⟩⟩
      · rw [List.length_append, List.length_cons] at hlength
        omega
      · simp [shareTypes?, hname]
    | shared hps =>
      obtain ⟨qs, hitems, hshare, hqs⟩ := ih hps hentries
      refine ⟨_, .cons (readsItem_shared hread hlength _) hitems, ?_, .inr ?_⟩
      · simp [shareTypes?, hshare]
      · obtain rfl | ⟨q, hq, hname⟩ := hqs
        · cases hshare
        · exact ⟨q, List.mem_cons_of_mem _ hq, hname⟩

theorem yields_parameterList {type : Parser TypeExpr} {qs : List (Param TypeExpr)}
    (hqs : List.Forall₂ (ReadsItem (paramEntry type) .rparen) kss qs)
    (hshare : (if qs.all (·.name.isNone) then some qs else shareTypes? qs) = some ps)
    (hn : kss.length < n) :
    Yields (parameters type out n) (parenthesized kss ++ rest)
      fun ps' ls => ps' = ps ∧ ls = rest := by
  have htokens : parenthesized kss ++ rest = .punctuation .lparen ::
      (separated kss ++ .punctuation .rparen :: rest) := by simp [parenthesized]
  rw [htokens]
  refine yields_currentSpan.bind ?_
  rintro start ls rfl
  refine (yields_expect (by simp) _).bind ?_
  rintro - ls rfl
  refine (yields_commaList hqs (by decide) hn).bind ?_
  rintro qs ls ⟨rfl, rfl⟩
  refine (yields_expect (by simp) _).bind ?_
  rintro - ls rfl
  split at hshare
  · rw [if_pos ‹_›]
    exact yields_pure _ ⟨Option.some.inj hshare, rfl⟩
  · rw [if_neg ‹_›, hshare]
    exact yields_pure _ ⟨rfl, rfl⟩

theorem exists_entries (hread : ReadsTypes out n) (hs : SpellsParams named ps kss)
    (hn : ∀ ks ∈ kss, ks.length ≤ n) :
    ∃ qs, List.Forall₂ (ReadsItem (paramEntry (typeWithin out n)) .rparen) kss qs ∧
      (if qs.all (·.name.isNone) then some qs else shareTypes? qs) = some ps := by
  cases named with
  | false =>
    obtain ⟨hitems, hnames⟩ := reads_unnamed hread hs hn
    exact ⟨ps, hitems, if_pos (List.all_eq_true.2 hnames)⟩
  | true =>
    obtain ⟨qs, hitems, hshare, hqs⟩ := reads_named hread hs hn
    refine ⟨qs, hitems, ?_⟩
    obtain rfl | ⟨q, hq, hname⟩ := hqs
    · exact hshare
    · rw [if_neg, hshare]
      intro hnone
      have hqnone := List.all_eq_true.1 hnone q hq
      simp_all

theorem yields_parameters (hread : ReadsTypes out n) (hs : SpellsParams named ps kss)
    (hn : (parenthesized kss).length ≤ n) :
    Yields (parameters (typeWithin out n) out n) (parenthesized kss ++ rest)
      fun ps' ls => ps' = ps ∧ ls = rest := by
  have hlength : (separated kss).length + 2 ≤ n := by
    simp only [parenthesized, List.length_cons, List.length_append, List.length_nil] at hn
    omega
  have hcount := length_separated kss
  have hentries : ∀ ks ∈ kss, ks.length ≤ n := by
    intro ks hks
    have hle := length_le_separated hks
    omega
  obtain ⟨qs, hitems, hshare⟩ := exists_entries hread hs hentries
  exact yields_parameterList hitems hshare (by omega)

theorem next_parenthesized (kss : List (List TokenKind)) (rest : List TokenKind) :
    next (parenthesized kss ++ rest) = .punctuation .lparen := rfl

theorem yields_signatureOver (hread : ReadsTypes out n) (hs : s.Spells ks) (hrest : EndsType rest)
    (hn : ks.length ≤ n) :
    Yields (signatureOver (typeWithin out n) out n) (ks ++ rest)
      fun s' ls => s' = s ∧ ls = rest := by
  cases hs with
  | @mk named ps kss rs ks hps hrs =>
    rw [List.length_append] at hn
    rw [List.append_assoc]
    refine (yields_parameters hread hps (by omega)).bind ?_
    rintro ps ls ⟨rfl, rfl⟩
    refine yields_peek.bind ?_
    rintro k ls ⟨rfl, rfl⟩
    cases hrs with
    | none =>
      rw [List.nil_append, if_neg (hrest.ne rfl), hrest.type]
      exact yields_pure _ ⟨rfl, rfl⟩
    | single ht =>
      rw [if_neg (next_spells_ne ht rest), startsType_spells ht rest]
      refine (hread _ _ rest ht hrest (by omega)).bind ?_
      rintro t ls ⟨rfl, rfl⟩
      exact yields_pure _ ⟨rfl, rfl⟩
    | list hrs =>
      rw [next_parenthesized, if_pos rfl]
      refine (yields_parameters hread hrs (by omega)).bind ?_
      rintro rs ls ⟨rfl, rfl⟩
      exact yields_pure _ ⟨rfl, rfl⟩

theorem exists_undirected (hs : t.Spells ks) :
    ∃ ls, t.Spells ls ∧ ls.length ≤ ks.length ∧ (∀ rest, next (ls ++ rest) ≠ .operator .arrow) ∧
      (ks = ls ∨ ks = .operator .arrow :: ls) := by
  cases hs with
  | receive ht => exact ⟨_, .chan ht, Nat.le_succ _, by simp, .inr rfl⟩
  | name ht =>
    refine ⟨_, .name ht, Nat.le_refl _, fun rest => ?_, .inl rfl⟩
    cases ht <;> simp [TypeExpr.nameKinds]
  | applied hbase hne hargs =>
    refine ⟨_, .applied hbase hne hargs, Nat.le_refl _, fun rest => ?_, .inl rfl⟩
    cases hbase <;> simp [TypeExpr.nameKinds]
  | pointer ht => exact ⟨_, .pointer ht, Nat.le_refl _, by simp, .inl rfl⟩
  | slice ht => exact ⟨_, .slice ht, Nat.le_refl _, by simp, .inl rfl⟩
  | array hls ht => exact ⟨_, .array hls ht, Nat.le_refl _, by simp, .inl rfl⟩
  | map hkey hvalue => exact ⟨_, .map hkey hvalue, Nat.le_refl _, by simp, .inl rfl⟩
  | chan ht => exact ⟨_, .chan ht, Nat.le_refl _, by simp, .inl rfl⟩
  | send ht => exact ⟨_, .send ht, Nat.le_refl _, by simp, .inl rfl⟩
  | func hs => exact ⟨_, .func hs, Nat.le_refl _, by simp, .inl rfl⟩
  | struct hks => exact ⟨_, .struct hks, Nat.le_refl _, by simp, .inl rfl⟩
  | interface hks => exact ⟨_, .interface hks, Nat.le_refl _, by simp, .inl rfl⟩

theorem yields_discard_accept (hk : k ≠ .eof) :
    Yields (discard (accept k)) (k :: ks) fun _ ls => ls = ks :=
  Yields.map ((yields_accept hk).imp fun _ _ h => h.2)

theorem yields_discard_refuse (hk : next ks ≠ k) :
    Yields (discard (accept k)) ks fun _ ls => ls = ks :=
  Yields.map ((yields_refuse hk).imp fun _ _ h => h.2)

section

variable {element : TypeExpr}

theorem yields_wrapped {type : Parser TypeExpr} (f : TypeExpr → TypeExpr)
    (h : Yields type ls fun t ms => t = element ∧ ms = rest) :
    Yields (do return f (← type)) ls fun t ms => t = f element ∧ ms = rest := by
  refine h.bind ?_
  rintro t ms ⟨rfl, rfl⟩
  exact yields_pure _ ⟨rfl, rfl⟩

theorem yields_form {form : TokenKind → Parser α} {p : Parser α}
    {R : α → List TokenKind → Prop} (hk : k ≠ .eof) (hform : form k = do advance; p)
    (h : Yields p ls R) : Yields (peek >>= form) (k :: ls) R := by
  refine yields_peek.bind ?_
  rintro k ms ⟨rfl, rfl⟩
  rw [hform]
  refine (yields_advance hk).bind ?_
  rintro - ms rfl
  exact h

theorem yields_pointer (h : Yields (typeWithin out n) ls fun t ms => t = element ∧ ms = rest) :
    Yields (typeWithin out (n + 1)) (.operator .star :: ls)
      fun t ms => t = .pointer element ∧ ms = rest :=
  yields_form (by simp) rfl (yields_wrapped .pointer h)

theorem yields_slice (h : Yields (typeWithin out n) ls fun t ms => t = element ∧ ms = rest) :
    Yields (typeWithin out (n + 1)) (.punctuation .lbracket :: .punctuation .rbracket :: ls)
      fun t ms => t = .slice element ∧ ms = rest := by
  refine yields_form (by simp) rfl ?_
  refine (yields_accept (by simp)).bind ?_
  rintro b ms ⟨rfl, rfl⟩
  exact yields_wrapped .slice h

theorem yields_array (hlength : Balanced ks)
    (hstart : next ks ∉ [.eof, .punctuation .rbracket, .punctuation .ellipsis])
    (h : Yields (typeWithin out n) ls fun t ms => t = element ∧ ms = rest) :
    Yields (typeWithin out (n + 1)) (.punctuation .lbracket :: (ks ++ .punctuation .rbracket :: ls))
      fun t ms => t = .array element ∧ ms = rest :=
  yields_form (by simp) rfl (yields_sliceOrArray hlength hstart h)

theorem yields_map {key value : TypeExpr}
    (hkey : Yields (typeWithin out n) (ks ++ .punctuation .rbracket :: ls)
      fun t ms => t = key ∧ ms = .punctuation .rbracket :: ls)
    (hvalue : Yields (typeWithin out n) ls fun t ms => t = value ∧ ms = rest) :
    Yields (typeWithin out (n + 1))
      (.keyword .map :: .punctuation .lbracket :: (ks ++ .punctuation .rbracket :: ls))
      fun t ms => t = .map key value ∧ ms = rest := by
  refine yields_form (by simp) rfl ?_
  refine (yields_expect (by simp) _).bind ?_
  rintro - ms rfl
  refine hkey.bind ?_
  rintro t ms ⟨rfl, rfl⟩
  refine (yields_expect (by simp) _).bind ?_
  rintro - ms rfl
  exact yields_wrapped (.map t) hvalue

theorem yields_chan (hnext : next ls ≠ .operator .arrow)
    (h : Yields (typeWithin out n) ls fun t ms => t = element ∧ ms = rest) :
    Yields (typeWithin out (n + 1)) (.keyword .chan :: ls)
      fun t ms => t = .chan element ∧ ms = rest := by
  refine yields_form (by simp) rfl ?_
  refine (yields_discard_refuse hnext).bind ?_
  rintro - ms rfl
  exact yields_wrapped .chan h

theorem yields_send (h : Yields (typeWithin out n) ls fun t ms => t = element ∧ ms = rest) :
    Yields (typeWithin out (n + 1)) (.keyword .chan :: .operator .arrow :: ls)
      fun t ms => t = .chan element ∧ ms = rest := by
  refine yields_form (by simp) rfl ?_
  refine (yields_discard_accept (by simp)).bind ?_
  rintro - ms rfl
  exact yields_wrapped .chan h

theorem yields_receive (h : Yields (typeWithin out n) ls fun t ms => t = element ∧ ms = rest) :
    Yields (typeWithin out (n + 1)) (.operator .arrow :: .keyword .chan :: ls)
      fun t ms => t = .chan element ∧ ms = rest := by
  refine yields_form (by simp) rfl ?_
  refine (yields_expect (by simp) _).bind ?_
  rintro - ms rfl
  exact yields_wrapped .chan h

theorem yields_braced {form : TokenKind → Parser TypeExpr} (hk : k ≠ .eof)
    (hform : form k = do advance; bracedBody word; return t) (h : Balanced ks) :
    Yields (peek >>= form) (k :: .punctuation .lbrace :: (ks ++ .punctuation .rbrace :: rest))
      fun t' ms => t' = t ∧ ms = rest := by
  refine yields_form hk hform ((yields_bracedBody _ h).bind ?_)
  rintro - ms rfl
  exact yields_pure _ ⟨rfl, rfl⟩

end

theorem ReadsTypes.succ (h : ReadsTypes out n) : ReadsTypes out (n + 1) := by
  intro t ks rest hs hrest hn
  cases hs with
  | name ht => exact yields_nameWithin ht (fun _ _ => hrest.dot) (hrest.ne rfl)
  | @applied args kss base hbase hne hargs =>
    have hcount := length_separated kss
    have hpos : 0 < base.nameKinds.length := by cases hbase <;> simp [TypeExpr.nameKinds]
    simp only [List.length_append, List.length_cons] at hn
    simp only [List.append_assoc, List.cons_append, List.nil_append]
    refine yields_applied hbase (yields_commaList (yields_types h hargs ?_) (by decide) ?_)
    · intro ks hks
      have hle := length_le_separated hks
      omega
    · omega
  | pointer ht => exact yields_pointer (h _ _ _ ht hrest (Nat.le_of_succ_le_succ hn))
  | slice ht =>
    simp only [List.length_cons] at hn
    exact yields_slice (h _ _ _ ht hrest (by omega))
  | @array us _ _ m hls ht =>
    simp only [List.length_cons, List.length_append] at hn
    simp only [List.append_assoc, List.cons_append]
    have hlength : Balanced (.int m :: us) := hls
    exact yields_array hlength (by simp) (h _ _ _ ht hrest (by omega))
  | map hkey hvalue =>
    simp only [List.length_cons, List.length_append] at hn
    simp only [List.append_assoc, List.cons_append]
    exact yields_map (h _ _ _ hkey ⟨by simp, rfl⟩ (by omega)) (h _ _ _ hvalue hrest (by omega))
  | chan ht =>
    simp only [List.length_cons] at hn
    obtain ⟨ks, hks, hlength, hnext, rfl | rfl⟩ := exists_undirected ht
    · exact yields_chan (hnext rest) (h _ _ _ hks hrest (by omega))
    · exact yields_send (h _ _ _ hks hrest (by omega))
  | send ht =>
    simp only [List.length_cons] at hn
    exact yields_send (h _ _ _ ht hrest (by omega))
  | receive ht =>
    simp only [List.length_cons] at hn
    exact yields_receive (h _ _ _ ht hrest (by omega))
  | func hs =>
    refine yields_form (by simp) rfl ?_
    refine (yields_signatureOver h hs hrest (Nat.le_of_succ_le_succ hn)).bind ?_
    rintro s ls ⟨rfl, rfl⟩
    exact yields_pure _ ⟨rfl, rfl⟩
  | struct hks =>
    simp only [List.append_assoc, List.cons_append, List.nil_append]
    exact yields_braced (by simp) rfl hks
  | interface hks =>
    simp only [List.append_assoc, List.cons_append, List.nil_append]
    exact yields_braced (by simp) rfl hks

theorem readsTypes (out : String) (n : Nat) : ReadsTypes out n := by
  induction n with
  | zero =>
    intro t ks rest hs _ hn
    have hne := ne_nil_of_startsType (startsType_spells hs)
    exact absurd (List.length_eq_zero_iff.1 (Nat.le_zero.1 hn)) hne
  | succ n ih => exact ih.succ

theorem yields_typeExpr (hs : t.Spells ks) (hrest : EndsType rest) :
    Yields typeExpr (ks ++ rest) fun t' ls => t' = t ∧ ls = rest := by
  refine yields_bounded fun out => readsTypes out _ _ _ _ hs hrest ?_
  rw [List.length_append, Nat.add_assoc]
  exact Nat.le_add_right _ _

theorem yields_signature (hs : s.Spells ks) (hrest : EndsType rest) :
    Yields signature (ks ++ rest) fun s' ls => s' = s ∧ ls = rest := by
  refine yields_bounded fun out => yields_signatureOver (readsTypes out _) hs hrest ?_
  rw [List.length_append, Nat.add_assoc]
  exact Nat.le_add_right _ _

end

end GoEnum.Parse
