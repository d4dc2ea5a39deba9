import GoEnum.Parse.Cursor

/-!
Runs of parsers. Where a parser gets to depends on the kinds of the tokens in front of it, not on
where these stand in a text.
-/

namespace GoEnum.Parse

open Token

def Cursor.kinds (c : Cursor) : List TokenKind := c.rest.map (·.node)

def next (ks : List TokenKind) : TokenKind := ks.head?.getD .eof

@[simp] theorem next_cons (k : TokenKind) (ks : List TokenKind) : next (k :: ks) = k := rfl

@[simp] theorem next_nil : next [] = .eof := rfl

theorem Cursor.kind_eq (c : Cursor) : c.kind = next c.kinds := by
  rcases c with ⟨prev, _ | ⟨t, ts⟩⟩ <;> rfl

theorem Cursor.kindAt_eq (c : Cursor) (n : Nat) : c.kindAt n = (c.kinds[n]?).getD .eof := by
  simp [Cursor.kindAt, Cursor.kinds]

theorem Cursor.length_rest (c : Cursor) : c.rest.length = c.kinds.length := by
  simp [Cursor.kinds]

theorem Cursor.kinds_advance (c : Cursor) :
    c.advance.kinds = if c.kind = .eof then c.kinds else c.kinds.tail := by
  rcases c with ⟨prev, _ | ⟨t, ts⟩⟩
  · rfl
  · simp only [Cursor.advance, Cursor.kinds, Cursor.kind, Cursor.head]
    by_cases h : t.node = .eof <;> simp [h]

theorem Cursor.kinds_of_kind (c : Cursor) (h : c.kind ≠ .eof) :
    c.kinds = c.kind :: c.advance.kinds := by
  rw [c.kinds_advance, if_neg h]
  rw [c.kind_eq] at h ⊢
  cases hks : c.kinds with
  | nil => simp [hks] at h
  | cons k ks => rfl

theorem Cursor.kinds_skipWhile (p : TokenKind → Bool) (prev : Span) (ts : List Token) :
    (Cursor.skipWhile p prev ts).kinds = (ts.map (·.node)).dropWhile p := by
  induction ts generalizing prev with
  | nil => rfl
  | cons t ts ih =>
    rw [Cursor.skipWhile, List.map_cons, List.dropWhile_cons]
    split
    · exact ih t.span
    · rfl

def dropSemicolons (ks : List TokenKind) : List TokenKind :=
  ks.dropWhile (· == .punctuation .semicolon)

theorem Cursor.kinds_skipSemicolons (c : Cursor) :
    c.skipSemicolons.kinds = dropSemicolons c.kinds :=
  kinds_skipWhile _ _ _

theorem dropSemicolons_eq_self (h : next ks ≠ .punctuation .semicolon) :
    dropSemicolons ks = ks := by
  cases ks with
  | nil => rfl
  | cons k ks => exact List.dropWhile_cons_of_neg (by simpa using h)

@[simp] theorem dropSemicolons_cons (ks : List TokenKind) :
    dropSemicolons (.punctuation .semicolon :: ks) = dropSemicolons ks :=
  List.dropWhile_cons_of_pos rfl

theorem get_bind_eq (f : Cursor → Parser β) (c : Cursor) : (get >>= f) c = f c c := rfl

theorem peek_bind_eq (f : TokenKind → Parser β) (c : Cursor) : (peek >>= f) c = f c.kind c := rfl

theorem currentSpan_bind_eq (f : Span → Parser β) (c : Cursor) :
    (currentSpan >>= f) c = f c.head.span c := rfl

theorem isNext_bind_eq (k : TokenKind) (f : Bool → Parser β) (c : Cursor) :
    (isNext k >>= f) c = f (c.kind == k) c := rfl

theorem atEnd_bind_eq (f : Bool → Parser β) (c : Cursor) :
    (atEnd >>= f) c = f (c.kind == .eof) c := rfl

theorem advance_bind_run (f : Unit → Parser β) (c : Cursor) :
    (advance >>= f) c = f () c.advance := rfl

theorem bind_ok {p : Parser α} {f : α → Parser β} :
    (p >>= f) c = .ok y c' ↔ ∃ x d, p c = .ok x d ∧ f x d = .ok y c' := by
  change EStateM.bind p f c = .ok y c' ↔ _
  unfold EStateM.bind
  cases p c with
  | error e d => simp
  | ok x d =>
    constructor
    · exact fun h => ⟨x, d, rfl, h⟩
    · rintro ⟨_, _, ⟨⟩, h⟩
      exact h

theorem pure_ok {x y : α} : (pure x : Parser α) c = .ok y c' ↔ x = y ∧ c = c' := by
  constructor
  · rintro ⟨⟩
    exact ⟨rfl, rfl⟩
  · rintro ⟨rfl, rfl⟩
    rfl

theorem peek_ok : peek c = .ok k c' ↔ c.kind = k ∧ c = c' := pure_ok

theorem unexpected_ne_ok (what : String) : (unexpected what : Parser α) c ≠ .ok x c' := by
  rintro ⟨⟩

theorem advance_ok : advance c = .ok u c' ↔ c.advance = c' := by
  constructor
  · rintro ⟨⟩
    rfl
  · rintro rfl
    rfl

theorem accept_run (k : TokenKind) (c : Cursor) :
    accept k c = if c.kind == k then .ok true c.advance else .ok false c := by
  change (if (c.kind == k) = true then (advance >>= fun _ => pure true : Parser Bool)
    else pure false) c = _
  split <;> rfl

theorem accept_bind_ok {f : Bool → Parser α} (hk : k ≠ .eof)
    (h : (accept k >>= f) c = .ok x c') :
    (∃ d, c.kinds = k :: d.kinds ∧ f true d = .ok x c') ∨ (c.kind ≠ k ∧ f false c = .ok x c') := by
  obtain ⟨b, d, hb, h⟩ := bind_ok.1 h
  rw [accept_run] at hb
  split at hb
  · rename_i heq
    obtain rfl := beq_iff_eq.1 heq
    cases hb
    exact .inl ⟨_, c.kinds_of_kind hk, h⟩
  · rename_i hne
    cases hb
    exact .inr ⟨by simpa using hne, h⟩

theorem expect_ok (hk : k ≠ .eof) (h : expect k what c = .ok u c') : c.kinds = k :: c'.kinds := by
  obtain ⟨d, hks, h⟩ | ⟨-, h⟩ := accept_bind_ok hk h
  · cases h
    exact hks
  · cases h

theorem identifier_ok (h : identifier c = .ok x c') : c.kinds = .ident x.node :: c'.kinds := by
  obtain ⟨k, d, hk, h⟩ := bind_ok.1 h
  obtain ⟨hkind, rfl⟩ := peek_ok.1 hk
  cases k with
  | ident name =>
    cases h
    have hks := c.kinds_of_kind (by simp [hkind])
    rwa [hkind] at hks
  | _ => cases h

theorem identifier_span (h : identifier c = .ok name d) : name.span = c.head.span := by
  obtain ⟨k, c', hk, h⟩ := bind_ok.1 h
  obtain ⟨-, rfl⟩ := peek_ok.1 hk
  cases k with
  | ident x =>
    cases h
    rfl
  | _ => cases h

/-- On tokens of the kinds `ks` the parser succeeds, and its result and the kinds that are left
satisfy `Q`. -/
def Yields (p : Parser α) (ks : List TokenKind) (Q : α → List TokenKind → Prop) : Prop :=
  ∀ c, c.kinds = ks → ∃ x c', p c = .ok x c' ∧ Q x c'.kinds

section

variable {p : Parser α} {f : α → Parser β} {ks rest : List TokenKind}
  {R : α → List TokenKind → Prop} {Q : β → List TokenKind → Prop}

theorem Yields.bind (hp : Yields p ks R) (hf : ∀ x ls, R x ls → Yields (f x) ls Q) :
    Yields (p >>= f) ks Q := by
  intro c hc
  obtain ⟨x, d, hx, hR⟩ := hp c hc
  obtain ⟨y, c', hy, hQ⟩ := hf x d.kinds hR d rfl
  exact ⟨y, c', bind_ok.2 ⟨x, d, hx, hy⟩, hQ⟩

theorem Yields.imp {S : α → List TokenKind → Prop} (hp : Yields p ks R)
    (h : ∀ x ls, R x ls → S x ls) : Yields p ks S := by
  intro c hc
  obtain ⟨x, d, hx, hR⟩ := hp c hc
  exact ⟨x, d, hx, h x d.kinds hR⟩

theorem yields_pure (x : α) (h : R x ks) : Yields (pure x) ks R :=
  fun c hc => ⟨x, c, rfl, hc ▸ h⟩

theorem Yields.map {g : α → β} (hp : Yields p ks fun x ls => Q (g x) ls) :
    Yields (g <$> p) ks Q := by
  rw [← bind_pure_comp]
  exact hp.bind fun x ls h => yields_pure _ h

theorem Yields.ite_bind {b : Bool} {q : Parser α} (h : Yields (if b then p else q) ks R)
    (hf : ∀ x ls, R x ls → Yields (f x) ls Q) :
    Yields (if b then p >>= f else q >>= f) ks Q := by
  cases b
  · exact h.bind hf
  · exact h.bind hf

theorem yields_peek : Yields peek ks fun k ls => k = next ks ∧ ls = ks :=
  fun c hc => ⟨_, c, rfl, by rw [c.kind_eq, hc], hc⟩

theorem yields_peekAt (n : Nat) :
    Yields (peekAt n) ks fun k ls => k = (ks[n]?).getD .eof ∧ ls = ks :=
  fun c hc => ⟨_, c, rfl, by rw [c.kindAt_eq, hc], hc⟩

theorem yields_isNext (k : TokenKind) :
    Yields (isNext k) ks fun b ls => b = (next ks == k) ∧ ls = ks :=
  fun c hc => ⟨_, c, rfl, by rw [c.kind_eq, hc], hc⟩

theorem yields_atEnd : Yields atEnd ks fun b ls => b = (next ks == .eof) ∧ ls = ks :=
  fun c hc => ⟨_, c, rfl, by rw [Cursor.atEnd, c.kind_eq, hc], hc⟩

theorem yields_currentSpan : Yields currentSpan ks fun _ ls => ls = ks :=
  fun c hc => ⟨_, c, rfl, hc⟩

theorem yields_previousSpan : Yields previousSpan ks fun _ ls => ls = ks :=
  fun c hc => ⟨_, c, rfl, hc⟩

theorem yields_advance (hk : k ≠ .eof) : Yields advance (k :: ks) fun _ ls => ls = ks := by
  intro c hc
  refine ⟨_, _, rfl, ?_⟩
  rw [c.kinds_advance, c.kind_eq, hc, next_cons, if_neg hk, List.tail_cons]

theorem yields_skipSemicolons : Yields skipSemicolons ks fun _ ls => ls = dropSemicolons ks :=
  fun c hc => ⟨_, _, rfl, by rw [c.kinds_skipSemicolons, hc]⟩

theorem yields_accept (hk : k ≠ .eof) :
    Yields (accept k) (k :: ks) fun b ls => b = true ∧ ls = ks := by
  intro c hc
  have hkind : c.kind = k := by rw [c.kind_eq, hc, next_cons]
  refine ⟨true, c.advance, ?_, rfl, ?_⟩
  · rw [accept_run, hkind, beq_self_eq_true, if_pos rfl]
  · rw [c.kinds_advance, hkind, if_neg hk, hc, List.tail_cons]

theorem yields_refuse (hk : next ks ≠ k) :
    Yields (accept k) ks fun b ls => b = false ∧ ls = ks := by
  intro c hc
  refine ⟨false, c, ?_, rfl, hc⟩
  rw [accept_run, if_neg]
  rwa [c.kind_eq, hc, beq_iff_eq]

theorem yields_expect (hk : k ≠ .eof) (what : String) :
    Yields (expect k what) (k :: ks) fun _ ls => ls = ks := by
  refine (yields_accept hk).bind ?_
  rintro b ls ⟨rfl, rfl⟩
  exact yields_pure _ rfl

theorem yields_identifier (name : String) :
    Yields identifier (.ident name :: ks) fun x ls => x.node = name ∧ ls = ks := by
  refine yields_peek.bind ?_
  rintro k ls ⟨rfl, rfl⟩
  refine yields_currentSpan.bind ?_
  rintro span ls rfl
  refine (yields_advance (by simp)).bind ?_
  rintro - ls rfl
  exact yields_pure _ ⟨rfl, rfl⟩

theorem yields_bounded {p : String → Nat → Parser α}
    (h : ∀ out, Yields (p out (ks.length + 1)) ks R) : Yields (bounded p) ks R := by
  intro c hc
  obtain ⟨x, d, hx, hR⟩ := h "nothing" c hc
  refine ⟨x, d, ?_, hR⟩
  change p "nothing" (c.rest.length + 1) c = _
  rwa [c.length_rest, hc]

end

/-- On tokens of the kinds `ks` the parser may fail; if it does not, its result and the kinds that
are left satisfy `Q`. -/
def Allows (p : Parser α) (ks : List TokenKind) (Q : α → List TokenKind → Prop) : Prop :=
  ∀ c x c', c.kinds = ks → p c = .ok x c' → Q x c'.kinds

section

variable {p : Parser α} {f : α → Parser β} {ks : List TokenKind}
  {R : α → List TokenKind → Prop} {Q : β → List TokenKind → Prop}

theorem Yields.allows (h : Yields p ks R) : Allows p ks R := by
  intro c x c' hc hx
  obtain ⟨y, d, hy, hR⟩ := h c hc
  rw [hx] at hy
  cases hy
  exact hR

theorem Allows.bind (hp : Allows p ks R) (hf : ∀ x ls, R x ls → Allows (f x) ls Q) :
    Allows (p >>= f) ks Q := by
  intro c y c' hc h
  obtain ⟨x, d, hx, hy⟩ := bind_ok.1 h
  exact hf x d.kinds (hp c x d hc hx) d y c' rfl hy

theorem Allows.imp {S : α → List TokenKind → Prop} (hp : Allows p ks R)
    (h : ∀ x ls, R x ls → S x ls) : Allows p ks S :=
  fun c x c' hc hx => h x c'.kinds (hp c x c' hc hx)

theorem allows_pure (x : α) (h : R x ks) : Allows (pure x) ks R := (yields_pure x h).allows

theorem allows_unexpected (what : String) : Allows (unexpected what) ks R := by
  rintro c x c' - ⟨⟩

theorem allows_expect (hk : k ≠ .eof) (what : String) :
    Allows (expect k what) ks fun _ ls => ks = k :: ls := by
  intro c x c' hc h
  rw [← hc]
  exact expect_ok hk h

theorem allows_bounded {p : String → Nat → Parser α}
    (h : ∀ out, Allows (p out (ks.length + 1)) ks R) : Allows (bounded p) ks R := by
  intro c x c' hc hx
  refine h "nothing" c x c' hc ?_
  rw [← hc, ← c.length_rest]
  exact hx

end

/-- Where the tokens of a text are `all`, the parser passes tokens only, and whatever it gives
satisfies `P`. -/
def Stays (all : List TokenKind) (p : Parser α) (P : α → Prop) : Prop :=
  ∀ c x c', c.kinds <:+ all → p c = .ok x c' → c'.kinds <:+ all ∧ P x

section

variable {all : List TokenKind} {p : Parser α} {f : α → Parser β} {P : α → Prop} {Q : β → Prop}

theorem Stays.bind (hp : Stays all p P) (hf : ∀ x, P x → Stays all (f x) Q) :
    Stays all (p >>= f) Q := by
  intro c y c' hc h
  obtain ⟨x, d, hx, hy⟩ := bind_ok.1 h
  obtain ⟨hd, hP⟩ := hp c x d hc hx
  exact hf x hP d y c' hd hy

theorem Stays.imp {R : α → Prop} (hp : Stays all p P) (h : ∀ x, P x → R x) : Stays all p R := by
  intro c x c' hc hx
  exact (hp c x c' hc hx).imp_right (h x)

theorem stays_pure {x : α} (h : P x) : Stays all (pure x) P := by
  intro c y c' hc hy
  obtain ⟨rfl, rfl⟩ := pure_ok.1 hy
  exact ⟨hc, h⟩

theorem Stays.map {g : α → β} (hp : Stays all p fun x => Q (g x)) : Stays all (g <$> p) Q := by
  rw [← bind_pure_comp]
  exact hp.bind fun x h => stays_pure h

theorem stays_fail (cause : SyntaxCause) (span : Span) : Stays all (fail cause span) P := by
  rintro c x c' hc ⟨⟩

theorem stays_unexpected (what : String) : Stays all (unexpected what) P := by
  rintro c x c' hc ⟨⟩

theorem stays_ite {cond : Prop} [Decidable cond] {q : Parser α} (hp : Stays all p P)
    (hq : Stays all q P) : Stays all (if cond then p else q) P := by
  split
  · exact hp
  · exact hq

theorem Stays.ite_bind {cond : Prop} [Decidable cond] {q : Parser α} (hp : Stays all p P)
    (hq : Stays all q P) (hf : ∀ x, P x → Stays all (f x) Q) :
    Stays all (if cond then p >>= f else q >>= f) Q :=
  stays_ite (hp.bind hf) (hq.bind hf)

theorem Stays.when {cond : Prop} [Decidable cond] {q : Parser β} (hp : Stays all p P)
    (hq : Stays all q Q) : Stays all (if cond then p >>= fun _ => q else q) Q :=
  stays_ite (hp.bind fun _ _ => hq) hq

theorem stays_check {cond : Prop} [Decidable cond] {stop : Parser α}
    (hstop : Stays all stop fun _ => False) (hf : ¬ cond → ∀ x, Stays all (f x) Q) (x : α) :
    Stays all (if cond then stop >>= f else f x) Q := by
  split
  · exact hstop.bind fun _ h => h.elim
  · exact hf ‹_› x

theorem stays_get : Stays all get fun c => c.kinds <:+ all := by
  rintro c x c' hc ⟨⟩
  exact ⟨hc, hc⟩

theorem stays_peek : Stays all peek fun k => k ≠ .eof → k ∈ all := by
  refine stays_get.bind fun c hc => stays_pure fun hk => ?_
  have hks := c.kinds_of_kind hk
  exact hc.subset (hks ▸ List.mem_cons_self)

theorem stays_peekAt (n : Nat) : Stays all (peekAt n) fun _ => True :=
  stays_get.bind fun _ _ => stays_pure trivial

theorem stays_isNext (k : TokenKind) : Stays all (isNext k) fun _ => True :=
  stays_peek.bind fun _ _ => stays_pure trivial

theorem stays_atEnd : Stays all atEnd fun _ => True :=
  stays_get.bind fun _ _ => stays_pure trivial

theorem stays_currentSpan : Stays all currentSpan fun _ => True :=
  stays_get.bind fun _ _ => stays_pure trivial

theorem stays_previousSpan : Stays all previousSpan fun _ => True :=
  stays_get.bind fun _ _ => stays_pure trivial

theorem stays_advance : Stays all advance fun _ => True := by
  rintro c x c' hc ⟨⟩
  refine ⟨?_, trivial⟩
  rw [c.kinds_advance]
  split
  · exact hc
  · exact (List.tail_suffix _).trans hc

theorem stays_skipSemicolons : Stays all skipSemicolons fun _ => True := by
  rintro c x c' hc ⟨⟩
  change c.skipSemicolons.kinds <:+ all ∧ True
  rw [c.kinds_skipSemicolons]
  exact ⟨(List.dropWhile_suffix _).trans hc, trivial⟩

theorem stays_accept (k : TokenKind) : Stays all (accept k) fun _ => True := by
  refine (stays_isNext k).bind fun b _ => ?_
  split
  · exact stays_advance.bind fun _ _ => stays_pure trivial
  · exact stays_pure trivial

theorem stays_expect (k : TokenKind) (what : String) : Stays all (expect k what) fun _ => True := by
  refine (stays_accept k).bind fun b _ => ?_
  split
  · exact stays_unexpected what
  · exact stays_pure trivial

theorem stays_identifier : Stays all identifier fun x => .ident x.node ∈ all := by
  intro c x c' hc hx
  have hks := identifier_ok hx
  rw [hks] at hc
  exact ⟨(List.suffix_cons _ _).trans hc, hc.subset List.mem_cons_self⟩

theorem stays_bounded {p : String → Nat → Parser α} (h : ∀ out n, Stays all (p out n) P) :
    Stays all (bounded p) P := by
  intro c x c' hc hx
  exact h "nothing" (c.rest.length + 1) c x c' hc hx

end

end GoEnum.Parse
