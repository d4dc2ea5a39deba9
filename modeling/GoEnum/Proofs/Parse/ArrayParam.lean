import GoEnum.Parse.File
import GoEnum.Proofs.Parse.Signature

namespace GoEnum.Syntax

open Token

mutual

theorem Expr.Spells.balanced : {e : Expr} → {ks : List TokenKind} → e.Spells ks → e.TypeFree →
    Balanced ks
  | .literal _ v, _, .literal, _ => by cases v <;> rfl
  | _, _, .ident, _ => rfl
  | _, _, .selector h, .selector ht => (h.balanced ht).append rfl
  | _, _, .call h hargs, .call ht htargs =>
    (h.balanced ht).append ((hargs.balanced htargs).group rfl)
  | _, _, .unary h, .unary ht => h.balanced ht
  | _, _, .binary hl hr, .binary htl htr =>
    (hl.balanced htl).append (hr.balanced htr)
  | _, _, .paren h, .paren ht => (h.balanced ht).group rfl

theorem Expr.SpellsArgs.balanced : {es : List Expr} → {ks : List TokenKind} →
    Expr.SpellsArgs es ks → (∀ e ∈ es, e.TypeFree) → Balanced ks
  | _, _, .none, _ => balanced_nil
  | _, _, .last h, ht => h.balanced (ht _ List.mem_cons_self)
  | _, _, .comma h hs, ht => (h.balanced (ht _ List.mem_cons_self)).append
      (hs.balanced fun e he => ht e (List.mem_cons_of_mem _ he))

end

def noLength : List TokenKind := [.eof, .punctuation .rbracket, .punctuation .ellipsis]

theorem Expr.Spells.isLength : {e : Expr} → {ks : List TokenKind} → e.Spells ks → e.TypeFree →
    ks.head?.getD .eof ∉ noLength
  | .literal _ v, _, .literal, _ => by cases v <;> simp [noLength, Literal.kind]
  | _, _, .ident, _ => by simp [noLength]
  | _, _, .selector h, .selector ht => by
    rw [List.head?_append_of_ne_nil _ h.ne_nil]
    exact h.isLength ht
  | _, _, .call h _, .call ht _ => by
    rw [List.head?_append_of_ne_nil _ h.ne_nil]
    exact h.isLength ht
  | _, _, .unary _, _ => by simp [noLength]
  | _, _, .binary h _, .binary ht _ => by
    rw [List.head?_append_of_ne_nil _ h.ne_nil]
    exact h.isLength ht
  | _, _, .paren _, _ => by simp [noLength]

/-- What comes after a name inside of an expression. -/
inductive Expr.AfterName : TypeExpr → List TokenKind → Prop
  | end : AfterName t []
  | call : AfterName t (.punctuation .lparen :: ks)
  | operator : AfterName t (.operator op :: ks)
  | selector : AfterName (.qualified package name) (.punctuation .dot :: ks)

theorem Expr.AfterName.append (h : AfterName t ks) (hne : ks ≠ []) (ls : List TokenKind) :
    AfterName t (ks ++ ls) := by
  cases h with
  | «end» => exact absurd rfl hne
  | call => exact .call
  | operator => exact .operator
  | selector => exact .selector

def Expr.BeginsWithName (ks : List TokenKind) : Prop :=
  ∃ t ls, TypeExpr.IsName t ∧ AfterName t ls ∧ ks = t.nameKinds ++ ls

theorem Expr.BeginsWithName.append (h : BeginsWithName ks) (hls : ∀ t, AfterName t ls) :
    BeginsWithName (ks ++ ls) := by
  obtain ⟨t, ms, hname, hms, rfl⟩ := h
  refine ⟨t, ms ++ ls, hname, ?_, List.append_assoc _ _ _⟩
  by_cases hempty : ms = []
  · rw [hempty]
    exact hls t
  · exact hms.append hempty ls

theorem Expr.BeginsWithName.selector (h : BeginsWithName ks) (name : String) :
    BeginsWithName (ks ++ [.punctuation .dot, .ident name]) := by
  obtain ⟨t, ms, hname, hms, rfl⟩ := h
  by_cases hempty : ms = []
  · subst hempty
    cases hname with
    | named => exact ⟨_, [], .qualified, .end, rfl⟩
    | qualified => exact ⟨_, _, .qualified, .selector, rfl⟩
  · exact ⟨t, _, hname, hms.append hempty _, List.append_assoc _ _ _⟩

theorem Expr.Spells.beginsWithName : {e : Expr} → {ks : List TokenKind} → e.Spells ks →
    e.TypeFree → ks.head? = some (.ident first) → BeginsWithName ks
  | .literal _ v, _, .literal, _, hident => by cases v <;> cases hident
  | _, _, .ident, _, _ => ⟨_, [], .named, .end, rfl⟩
  | _, _, .selector h, .selector ht, hident => by
    rw [List.head?_append_of_ne_nil _ h.ne_nil] at hident
    exact (h.beginsWithName ht hident).selector _
  | _, _, .call h _, .call ht _, hident => by
    rw [List.head?_append_of_ne_nil _ h.ne_nil] at hident
    exact (h.beginsWithName ht hident).append fun _ => .call
  | _, _, .unary _, _, hident => by cases hident
  | _, _, .binary h _, .binary ht _, hident => by
    rw [List.head?_append_of_ne_nil _ h.ne_nil] at hident
    exact (h.beginsWithName ht hident).append fun _ => .operator
  | _, _, .paren _, _, hident => by cases hident

end GoEnum.Syntax

namespace GoEnum.Parse

open Token Syntax

section

variable {item : Parser α} {closer : Punctuation} {kss : List (List TokenKind)} {xs : List α}
  {rest : List TokenKind}

theorem allows_commaList (h : List.Forall₂ (ReadsItem item closer) kss xs)
    (hitem : Allows item rest fun _ ls =>
      next ls ≠ .punctuation .comma ∧ next ls ≠ .punctuation closer)
    (hrest : next rest ≠ .punctuation closer) :
    Allows (commaList closer item out n) (kss.flatMap (· ++ [.punctuation .comma]) ++ rest)
      fun _ ls => next ls ≠ .punctuation closer := by
  induction h generalizing n with
  | nil =>
    cases n with
    | zero => exact allows_unexpected _
    | succ n =>
      refine (yields_isNext _).allows.bind ?_
      rintro b ls ⟨rfl, rfl⟩
      rw [List.flatMap_nil, List.nil_append, beq_eq_false_iff_ne.2 hrest]
      refine hitem.bind ?_
      rintro x ls ⟨hcomma, hcloser⟩
      refine (yields_refuse hcomma).allows.bind ?_
      rintro b ms ⟨rfl, rfl⟩
      exact allows_pure _ hcloser
  | @cons ks x kss xs hx _ ih =>
    rw [List.flatMap_cons, List.append_assoc, List.append_assoc]
    cases n with
    | zero => exact allows_unexpected _
    | succ n =>
      refine (yields_isNext _).allows.bind ?_
      rintro b ls ⟨rfl, rfl⟩
      rw [beq_eq_false_iff_ne.2 (hx.begins _)]
      refine (hx.reads _ (.inl rfl)).allows.bind ?_
      rintro x ls ⟨rfl, rfl⟩
      refine (yields_accept (by simp)).allows.bind ?_
      rintro b ls ⟨rfl, rfl⟩
      refine (ih (n := n)).bind ?_
      intro xs ls hls
      exact allows_pure _ hls

end

section

variable {e : Expr} {t : TypeExpr} {ls rest : List TokenKind}

theorem next_afterName (h : Expr.AfterName t ls) (rest : List TokenKind) :
    (∀ name, t = .named name → next (ls ++ .punctuation .rbracket :: rest) ≠ .punctuation .dot) ∧
      next (ls ++ .punctuation .rbracket :: rest) ∉
        [.punctuation .comma, .punctuation .lbracket] := by
  cases h <;> simp

theorem rest_afterName (h : Expr.AfterName t ls)
    (hrest : ls ++ .punctuation .rbracket :: rest = .punctuation .rbracket :: ms) : ms = rest := by
  cases h <;> cases hrest
  rfl

theorem allows_typeArgument (h : Expr.BeginsWithName ls) :
    Allows (do
      let args ← commaList .rbracket (typeWithin out m) out n
      expect Punctuation.rbracket "']' after type arguments"
      return TypeExpr.applied base args) (ls ++ .punctuation .rbracket :: rest)
      fun _ ms => ms = rest := by
  obtain ⟨t, ls, hname, hls, rfl⟩ := h
  rw [List.append_assoc]
  obtain ⟨first, hfirst⟩ := next_nameKinds hname (ls ++ .punctuation .rbracket :: rest)
  obtain ⟨hdot, hnext⟩ := next_afterName hls rest
  have hargs : Allows (commaList .rbracket (typeWithin out m) out n)
      (t.nameKinds ++ (ls ++ .punctuation .rbracket :: rest)) fun _ ms =>
        next ms = .punctuation .rbracket → ms = ls ++ .punctuation .rbracket :: rest := by
    cases n with
    | zero => exact allows_unexpected _
    | succ n =>
      refine (yields_isNext _).allows.bind ?_
      rintro b ms ⟨rfl, rfl⟩
      rw [hfirst]
      have htype : Allows (typeWithin out m) (t.nameKinds ++ (ls ++ .punctuation .rbracket :: rest))
          fun t' ms => t' = t ∧ ms = ls ++ .punctuation .rbracket :: rest := by
        cases m with
        | zero => exact allows_unexpected _
        | succ m =>
          refine yields_peek.allows.bind ?_
          rintro k ms ⟨rfl, rfl⟩
          rw [hfirst]
          exact (yields_name hname hdot fun h => hnext (by simp [h])).allows
      refine htype.bind ?_
      rintro t' ms ⟨rfl, rfl⟩
      refine (yields_refuse fun h => hnext (by simp [h])).allows.bind ?_
      rintro b ms ⟨rfl, rfl⟩
      exact allows_pure _ fun _ => rfl
  refine hargs.bind ?_
  intro args ms hms
  refine (allows_expect (by simp) _).bind ?_
  intro _ us hus
  refine allows_pure _ ?_
  rw [hms (by rw [hus, next_cons])] at hus
  exact rest_afterName hls hus

theorem allows_arrayEntry (a : String) (h : Expr.BeginsWithName ls) :
    Allows (paramEntry (typeWithin out n))
      (.ident a :: .punctuation .lbracket :: (ls ++ .punctuation .rbracket :: rest))
      fun _ ms => ms = rest := by
  have htype : Allows (typeWithin out n)
      (.ident a :: .punctuation .lbracket :: (ls ++ .punctuation .rbracket :: rest))
      fun _ ms => ms = rest := by
    cases n with
    | zero => exact allows_unexpected _
    | succ n =>
      refine yields_peek.allows.bind ?_
      rintro k ms ⟨rfl, rfl⟩
      refine (yields_identifier a).allows.bind ?_
      rintro x ms ⟨rfl, rfl⟩
      refine (yields_isNext _).allows.bind ?_
      rintro b ms ⟨rfl, rfl⟩
      refine (yields_peekAt 1).allows.bind ?_
      rintro k ms ⟨rfl, rfl⟩
      refine (yields_accept (by simp)).allows.bind ?_
      rintro b ms ⟨rfl, rfl⟩
      exact allows_typeArgument h
  obtain ⟨t, ls, hname, -, rfl⟩ := h
  refine yields_peek.allows.bind ?_
  rintro k ms ⟨rfl, rfl⟩
  refine (yields_peekAt 1).allows.bind ?_
  rintro k ms ⟨rfl, rfl⟩
  refine (yields_peekAt 2).allows.bind ?_
  rintro k ms ⟨rfl, rfl⟩
  have hplain : namesParam (.punctuation .lbracket)
      ((t.nameKinds ++ ls ++ .punctuation .rbracket :: rest)[0]?.getD .eof) = false := by
    cases hname <;> rfl
  simp only [next_cons, List.getElem?_cons_succ, List.getElem?_cons_zero, Option.getD_some,
    hplain, Bool.and_false]
  refine (yields_refuse (by simp)).allows.bind ?_
  rintro b ms ⟨rfl, rfl⟩
  refine htype.bind ?_
  rintro t' ms rfl
  exact allows_pure _ rfl

theorem readsItem_array (he : e.TypeFree) (hs : e.Spells ls) (ht : t.Spells ts)
    (hn : ts.length ≤ n) : ReadsItem (paramEntry (typeWithin out (n + 1))) .rparen
      (.punctuation .lbracket :: (ls ++ .punctuation .rbracket :: ts)) ⟨none, .array t, false⟩ := by
  refine ⟨fun rest hrest => ?_, by simp⟩
  have htype : Yields (typeWithin out (n + 1))
      (.punctuation .lbracket :: (ls ++ .punctuation .rbracket :: (ts ++ rest)))
      fun t' ms => t' = .array t ∧ ms = rest :=
    yields_array (hs.balanced he) (hs.isLength he)
      (readsTypes out n _ _ _ ht (endsType_of_closer hrest rfl) hn)
  simp only [List.cons_append, List.append_assoc]
  refine yields_peek.bind ?_
  rintro k ms ⟨rfl, rfl⟩
  refine (yields_peekAt 1).bind ?_
  rintro k ms ⟨rfl, rfl⟩
  refine (yields_peekAt 2).bind ?_
  rintro k ms ⟨rfl, rfl⟩
  refine (yields_refuse (by simp)).bind ?_
  rintro b ms ⟨rfl, rfl⟩
  refine htype.bind ?_
  rintro t' ms ⟨rfl, rfl⟩
  exact yields_pure _ ⟨rfl, rfl⟩

theorem yields_unnamedArray (he : e.TypeFree) (hs : e.Spells ls) (ht : t.Spells ts)
    (hrest : EndsType rest) :
    Yields signature (.punctuation .lparen :: .punctuation .lbracket ::
        (ls ++ .punctuation .rbracket :: (ts ++ .punctuation .rparen :: rest)))
      fun s ms => s = ⟨[⟨none, .array t, false⟩], []⟩ ∧ ms = rest := by
  refine yields_bounded fun out => ?_
  generalize hn : List.length _ = n
  have hlength : ts.length ≤ n := by
    simp only [List.length_cons, List.length_append] at hn
    omega
  have hpos : 0 < n := by simp [← hn]
  have hparams : Yields (parameters (typeWithin out (n + 1)) out (n + 1)) (_ ++ rest) _ :=
    yields_parameterList (.cons (readsItem_array he hs ht hlength) .nil) rfl
      (Nat.succ_lt_succ hpos)
  simp only [parenthesized, separated, List.cons_append, List.append_assoc, List.nil_append]
    at hparams
  refine hparams.bind ?_
  rintro ps ms ⟨rfl, rfl⟩
  refine yields_peek.bind ?_
  rintro k ms ⟨rfl, rfl⟩
  rw [if_neg (hrest.ne rfl), hrest.type]
  exact yields_pure _ ⟨rfl, rfl⟩

theorem yields_literalArray (he : e.TypeFree) (hs : e.Spells ls) (ht : t.Spells ts)
    (hint : ls.head? = some (.int m)) (hrest : EndsType rest) (a : String) :
    Yields signature (.punctuation .lparen :: .ident a :: .punctuation .lbracket ::
        (ls ++ .punctuation .rbracket :: (ts ++ .punctuation .rparen :: rest)))
      fun s ms => s = ⟨[⟨some a, .array t, false⟩], []⟩ ∧ ms = rest := by
  have hbalanced := hs.balanced he
  obtain _ | ⟨k, ls⟩ := ls
  · cases hint
  obtain rfl : k = .int m := Option.some.inj hint
  have hlength : Balanced ls := hbalanced
  have hparams : SpellsParams true [⟨some a, .array t, false⟩] _ :=
    .cons rfl rfl (.array (n := m) hlength ht) .nil
  have hsignature := yields_signature (.mk hparams .none) hrest
  simpa [parenthesized, separated, Param.nameKinds] using hsignature

theorem length_le_flatMap {kss : List (List TokenKind)} (h : ks ∈ kss) :
    ks.length ≤ (kss.flatMap (· ++ [.punctuation .comma])).length := by
  have hsub := List.sublist_flatten_of_mem
    (List.mem_map_of_mem (f := (· ++ [TokenKind.punctuation .comma])) h)
  have hle := hsub.length_le
  rw [List.length_append] at hle
  exact Nat.le_of_add_right_le hle

theorem allows_namedArray (he : e.TypeFree) (hs : e.Spells ls) (ht : t.Spells ts)
    (hident : ls.head? = some (.ident x)) (hps : SpellsParams named ps kss) (a : String) :
    Allows signature (.punctuation .lparen :: (kss.flatMap (· ++ [.punctuation .comma]) ++
      .ident a :: .punctuation .lbracket :: (ls ++ .punctuation .rbracket :: (ts ++ rest))))
      fun _ _ => False := by
  refine allows_bounded fun out => ?_
  generalize hn : List.length _ + 1 = n
  have hentries : ∀ ks ∈ kss, ks.length ≤ n := by
    intro ks hks
    have hle := length_le_flatMap hks
    simp only [List.length_cons, List.length_append] at hn
    omega
  obtain ⟨qs, hqs, -⟩ := exists_entries (readsTypes out n) hps hentries
  have hstarts := startsType_spells ht rest
  have hentry : Allows (paramEntry (typeWithin out n))
      (.ident a :: .punctuation .lbracket :: (ls ++ .punctuation .rbracket :: (ts ++ rest)))
      fun _ ms => next ms ≠ .punctuation .comma ∧ next ms ≠ .punctuation .rparen := by
    refine (allows_arrayEntry a (hs.beginsWithName he hident)).imp ?_
    rintro p ms rfl
    exact ⟨ne_of_startsType hstarts rfl, ne_of_startsType hstarts rfl⟩
  refine Allows.bind (R := fun _ _ => False) ?_ fun _ _ h => h.elim
  refine yields_currentSpan.allows.bind ?_
  rintro start ms rfl
  refine (yields_expect (by simp) _).allows.bind ?_
  rintro - ms rfl
  refine (allows_commaList hqs hentry (by simp)).bind ?_
  intro entries ms hms
  refine (allows_expect (by simp) _).bind ?_
  intro _ us hus
  rw [hus] at hms
  exact absurd rfl hms

/-- A parameter list with an array in it is read if the array has no name, and if its length begins
with a number. Where the parameter has a name and the length begins with one, it is not, whatever
is in front of the parameter and behind it. -/
theorem array_params_read (he : e.TypeFree) (hs : e.Spells ls) (ht : t.Spells ts) (a : String) :
    (∀ rest, EndsType rest → Yields signature (.punctuation .lparen :: .punctuation .lbracket ::
        (ls ++ .punctuation .rbracket :: (ts ++ .punctuation .rparen :: rest)))
      fun s ms => s = ⟨[⟨none, .array t, false⟩], []⟩ ∧ ms = rest) ∧
    (∀ m, ls.head? = some (.int m) → ∀ rest, EndsType rest →
      Yields signature (.punctuation .lparen :: .ident a :: .punctuation .lbracket ::
        (ls ++ .punctuation .rbracket :: (ts ++ .punctuation .rparen :: rest)))
      fun s ms => s = ⟨[⟨some a, .array t, false⟩], []⟩ ∧ ms = rest) ∧
    ∀ x, ls.head? = some (.ident x) → ∀ named ps kss, SpellsParams named ps kss → ∀ rest c s c',
      c.kinds = .punctuation .lparen :: (kss.flatMap (· ++ [.punctuation .comma]) ++
        .ident a :: .punctuation .lbracket :: (ls ++ .punctuation .rbracket :: (ts ++ rest))) →
      signature c ≠ .ok s c' := by
  refine ⟨fun rest hrest => yields_unnamedArray he hs ht hrest,
    fun m hint rest hrest => yields_literalArray he hs ht hint hrest a, ?_⟩
  intro x hident named ps kss hps rest c s c' hc h
  exact allows_namedArray he hs ht hident hps a c s c' hc h

def arrayParam (length : List TokenKind) : List TokenKind :=
  .punctuation .lparen :: .ident "a" :: .punctuation .lbracket ::
    (length ++ [.punctuation .rbracket, .ident "int", .punctuation .rparen])

def arrayTokens (length : List TokenKind) : Cursor :=
  ⟨.point 0, (arrayParam length).map (⟨·, .point 0⟩)⟩

theorem array_params_read_sizes :
    (∃ s c, signature (arrayTokens [.int 4, .operator .plus, .ident "Size"]) = .ok s c ∧
      s = ⟨[⟨some "a", .array (.named "int"), false⟩], []⟩) ∧
    ∀ s c, signature (arrayTokens [.ident "Size", .operator .plus, .int 4]) ≠ .ok s c := by
  have hint : (TypeExpr.named "int").Spells [.ident "int"] := .name .named
  obtain ⟨-, hread, -⟩ := array_params_read (e := .binary (.point 0) .add
    (.literal (.point 0) (.int 4)) (.ident (.point 0) "Size"))
    (.binary .literal .ident) (.binary .literal .ident) hint "a"
  obtain ⟨-, -, hfails⟩ := array_params_read (e := .binary (.point 0) .add
    (.ident (.point 0) "Size") (.literal (.point 0) (.int 4)))
    (.binary .ident .literal) (.binary .ident .literal) hint "a"
  constructor
  · obtain ⟨s, c, hs, heq, -⟩ := hread 4 rfl [] ⟨by simp, rfl⟩ (arrayTokens
      [.int 4, .operator .plus, .ident "Size"]) rfl
    exact ⟨s, c, hs, heq⟩
  · intro s c
    exact hfails "Size" rfl true [] [] .nil [.punctuation .rparen] _ s c rfl

def arrayFile (length : List TokenKind) : List TokenKind :=
  [.keyword .package, .ident "p", .punctuation .semicolon, .keyword .func, .ident "f"] ++
    arrayParam length ++ [.punctuation .lbrace, .punctuation .rbrace, .punctuation .semicolon, .eof]

/-- A constant as the length of a named array fails the whole file, a number does not. -/
theorem named_array_rejected :
    parse ((arrayFile [.ident "Size"]).map (⟨·, .point 0⟩)) =
        .error [⟨.expected "')' after parameters" (.ident "int"), .point 0⟩] ∧
      ∃ file, parse ((arrayFile [.int 4]).map (⟨·, .point 0⟩)) = .ok file :=
  ⟨rfl, _, rfl⟩

end

end GoEnum.Parse
