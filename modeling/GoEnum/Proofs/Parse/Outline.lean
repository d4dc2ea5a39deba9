import GoEnum.Proofs.Parse.Extent
import GoEnum.Proofs.Parse.OrderlyFile

namespace GoEnum.Parse

open Token Syntax Outline

/-- From a place where `I` holds, a run that succeeds gets on to a place where `Q` holds. -/
def Takes (size : Nat) (I : Cursor → Prop) (p : Parser α) (Q : α → Cursor → Prop) : Prop :=
  ∀ c x d, c.Sorted size → I c → p c = .ok x d → c.Reaches d ∧ Q x d

/-- The outlines lie between byte `a` and the last token passed. -/
structure Laid (a : Nat) (os : List Outline) (c : Cursor) : Prop where
  front : a ≤ c.front
  nested : Nested a c.prev.stop os

def Lays (size : Nat) (p : Parser α) (o : α → List Outline) : Prop :=
  ∀ a os, Takes size (Laid a os) p fun x => Laid a (os ++ o x)

section

variable {size : Nat} {I J : Cursor → Prop} {p : Parser α} {f : α → Parser β}
  {R : α → Cursor → Prop} {Q : β → Cursor → Prop} {o : α → List Outline}

theorem Takes.bind (hp : Takes size I p R) (hf : ∀ x, Takes size (R x) (f x) Q) :
    Takes size I (p >>= f) Q := by
  intro c y d hc hI h
  obtain ⟨x, c', hx, hy⟩ := bind_ok.1 h
  obtain ⟨hreaches, hR⟩ := hp c x c' hc hI hx
  obtain ⟨hreaches', hQ⟩ := hf x c' y d (hreaches.sorted hc) hR hy
  exact ⟨hreaches.trans hreaches', hQ⟩

theorem Takes.after {S : α → Cursor → Prop} (hp : Takes size I p R)
    (h : ∀ x c, c.Sorted size → R x c → S x c) : Takes size I p S := by
  intro c x d hc hI hx
  obtain ⟨hreaches, hR⟩ := hp c x d hc hI hx
  exact ⟨hreaches, h x d (hreaches.sorted hc) hR⟩

theorem Takes.before (hp : Takes size I p R) (h : ∀ c, c.Sorted size → J c → I c) :
    Takes size J p R :=
  fun c x d hc hJ hx => hp c x d hc (h c hc hJ) hx

theorem takes_pure {x : α} (h : ∀ c, c.Sorted size → I c → R x c) :
    Takes size I (pure x) R := by
  rintro c y d hc hI ⟨⟩
  exact ⟨.refl, h c hc hI⟩

theorem Takes.given {φ : Prop} (hp : φ → Takes size I p R) :
    Takes size (fun c => φ ∧ I c) p R :=
  fun c x d hc hI hx => hp hI.1 c x d hc hI.2 hx

theorem takes_give {x : α} {o : α → List Outline} (h : os = o x) :
    Takes size (Laid a os) (pure x) fun x => Laid a (o x) :=
  takes_pure fun _ _ hlaid => h ▸ hlaid

theorem takes_unexpected (what : String) : Takes size I (unexpected what) R := by
  rintro c x d - - ⟨⟩

theorem Takes.ite {cond : Prop} [Decidable cond] {q : Parser α} (hp : Takes size I p R)
    (hq : Takes size I q R) : Takes size I (if cond then p else q) R := by
  split
  · exact hp
  · exact hq

theorem Takes.ite_bind {cond : Prop} [Decidable cond] {q : Parser α} (hp : Takes size I p R)
    (hq : Takes size I q R) (hf : ∀ x, Takes size (R x) (f x) Q) :
    Takes size I (if cond then p >>= f else q >>= f) Q :=
  .ite (hp.bind hf) (hq.bind hf)

theorem Takes.when {cond : Prop} [Decidable cond] {q : Parser β}
    (hp : Takes size I p fun _ => I) (hq : Takes size I q Q) :
    Takes size I (if cond then p >>= fun _ => q else q) Q :=
  .ite (hp.bind fun _ => hq) hq

theorem Takes.peek {f : TokenKind → Parser β}
    (hf : ∀ k, Takes size (fun c => I c ∧ c.kind = k) (f k) Q) :
    Takes size I (peek >>= f) Q :=
  fun c y d hc hI h => hf c.kind c y d hc ⟨hI, rfl⟩ h

theorem Takes.currentSpan {f : Span → Parser β}
    (hf : ∀ s, Takes size (fun c => I c ∧ c.head.span = s) (f s) Q) :
    Takes size I (currentSpan >>= f) Q :=
  fun c y d hc hI h => hf c.head.span c y d hc ⟨hI, rfl⟩ h

theorem Takes.previousSpan {f : Span → Parser β}
    (hf : ∀ s, Takes size (fun c => I c ∧ c.prev = s) (f s) Q) :
    Takes size I (previousSpan >>= f) Q :=
  fun c y d hc hI h => hf c.prev c y d hc ⟨hI, rfl⟩ h

theorem Takes.bounded {p : String → Nat → Parser α} (hp : ∀ out n, Takes size I (p out n) R) :
    Takes size I (bounded p) R :=
  fun c x d hc hI h => hp "nothing" (c.rest.length + 1) c x d hc hI h

theorem Laid.reaches (h : Laid a os c) (hc : c.Sorted size) (hreaches : c.Reaches d) :
    Laid a os d :=
  ⟨Nat.le_trans h.front (hreaches.front_le hc),
    h.nested.mono (Nat.le_refl _) (hreaches.prev_le hc)⟩

theorem laid_nil (c : Cursor) : Laid c.front [] c := ⟨Nat.le_refl _, .nil⟩

theorem Proceeds.takes (hp : Proceeds p) (a : Nat) (os : List Outline) :
    Takes size (Laid a os) p fun _ => Laid a os := by
  intro c x d hc hlaid hx
  have hreaches := hp c x d hx
  exact ⟨hreaches, hlaid.reaches hc hreaches⟩

theorem Lays.of_fresh (h : ∀ a, Takes size (Laid a []) p fun x => Laid a (o x)) :
    Lays size p o := by
  intro a os c x d hc hlaid hx
  obtain ⟨hreaches, hfresh⟩ := h c.front c x d hc (laid_nil c) hx
  refine ⟨hreaches, Nat.le_trans hlaid.front (hreaches.front_le hc), ?_⟩
  exact hlaid.nested.append hfresh.nested hc.prev_le_front hlaid.front (hreaches.prev_le hc)

theorem Lays.fresh (h : Lays size p o) (a : Nat) :
    Takes size (Laid a []) p fun x => Laid a (o x) := h a []

theorem Lays.quiet (hp : Proceeds p) : Lays size p fun _ => [] :=
  .of_fresh fun a => hp.takes a []

theorem Lays.map {g : α → β} {o : β → List Outline} (hp : Lays size p fun x => o (g x)) :
    Lays size (g <$> p) o := by
  rw [← bind_pure_comp]
  exact fun a os => (hp a os).bind fun x => takes_pure fun c _ hlaid => hlaid

end

def Begins (p : Parser α) : Prop := ∀ c x d, p c = .ok x d → c.kind ≠ .punctuation .semicolon

section

variable {p : Parser α} {f : α → Parser β}

theorem Begins.bind (hp : Begins p) : Begins (p >>= f) := by
  intro c y d h
  obtain ⟨x, c', hx, -⟩ := bind_ok.1 h
  exact hp c x c' hx

theorem begins_identifier : Begins identifier := by
  intro c x d h hk
  rw [c.kind_eq, identifier_ok h, next_cons] at hk
  cases hk

theorem begins_commaSeparated (hp : Begins p) (n : Nat) : Begins (commaSeparated p out n) := by
  cases n with
  | zero => exact fun c x d h => absurd h (unexpected_ne_ok _)
  | succ n => exact hp.bind

theorem begins_typeExpr : Begins typeExpr := by
  intro c x d h hk
  change typeWithin "nothing" (c.rest.length + 1) c = .ok x d at h
  rw [typeWithin, peek_bind_eq, hk] at h
  cases h

theorem begins_primary (expr : Parser Expr) : Begins (primary expr) := by
  intro c x d h hk
  rw [primary, currentSpan_bind_eq, peek_bind_eq, hk] at h
  cases h

end

section

variable {size : Nat} {a : Nat} {os : List Outline} {s : Span} {k : TokenKind}

theorem merge_eq {t : Span} (hstart : s.start ≤ t.start) (hstop : s.stop ≤ t.stop) :
    s.merge t = ⟨s.start, t.stop⟩ := by
  rw [Span.merge, Nat.min_eq_left hstart, Nat.max_eq_right hstop]

theorem takes_advance (hend : k ≠ .eof) :
    Takes size (fun c => (Laid a os c ∧ c.head.span = s) ∧ c.kind = k) advance
      fun _ d => Laid a os d ∧ d.prev = s := by
  rintro c x d hc ⟨⟨hlaid, rfl⟩, rfl⟩ ⟨⟩
  refine ⟨reaches_advance c, hlaid.reaches hc (reaches_advance c), ?_⟩
  obtain ⟨prev, t, ts, rfl, hnode⟩ := Cursor.exists_cons hend
  rw [advance_cons hnode]
  rfl

theorem takes_operator (hsemicolon : k ≠ .punctuation .semicolon) (hend : k ≠ .eof) :
    Takes size (fun c => (Laid a [] c ∧ c.head.span = s) ∧ c.kind = k) advance
      fun _ d => (a ≤ s.start ∧ s.start < s.stop) ∧ Laid s.stop [] d := by
  rintro c x d hc ⟨⟨hlaid, rfl⟩, rfl⟩ ⟨⟩
  refine ⟨reaches_advance c, ?_⟩
  obtain ⟨prev, t, ts, rfl, hnode⟩ := Cursor.exists_cons hend
  rw [advance_cons hnode]
  exact ⟨⟨hlaid.front, hc.inked hsemicolon hnode⟩, hc.step.prev_le_front, .nil⟩

theorem Lays.node {f : Span → Parser α} (span : α → Span) (parts : α → List Outline)
    (hbegins : Begins (currentSpan >>= f)) (hshrinks : Shrinks (currentSpan >>= f))
    (hf : ∀ a s, Takes size (fun c => Laid a [] c ∧ c.head.span = s) (f s) fun x d =>
      Laid a (parts x) d ∧ span x = s.merge d.prev) :
    Lays size (currentSpan >>= f) fun x => [.node (span x) (parts x)] := by
  refine .of_fresh fun a c x d hc hlaid h => ?_
  obtain ⟨hreaches, hparts, hspan⟩ :=
    hf c.front c.head.span c x d hc ⟨laid_nil c, rfl⟩ h
  refine ⟨hreaches, Nat.le_trans hlaid.front (hreaches.front_le hc), ?_⟩
  obtain ⟨prev, t, ts, rfl, hend, hpassed⟩ := hreaches.exists_cons (hshrinks c x d h)
  have hne : t.span.start < t.span.stop := hc.inked (hbegins _ x d h) hend
  have hstart : t.span.start ≤ d.prev.start := hpassed.start_le hc.step
  have hstop : t.span.stop ≤ d.prev.stop := hpassed.prev_le hc.step
  have hmerge : span x = ⟨t.span.start, d.prev.stop⟩ := hspan.trans (merge_eq hstart hstop)
  rw [hmerge]
  exact .cons hlaid.front (Nat.lt_of_lt_of_le hne hstop) (Nat.le_refl _) hparts.nested .nil

theorem takes_close {mk : Span → α} {span : α → Span} {parts : α → List Outline}
    (hspan : ∀ t, span (mk t) = s.merge t) (hparts : ∀ t, parts (mk t) = os) :
    Takes size (Laid a os) (do return mk (← previousSpan)) fun x d =>
      Laid a (parts x) d ∧ span x = s.merge d.prev := by
  refine .previousSpan fun t => takes_pure fun c _ hlaid => ?_
  rw [hspan, hparts, ← hlaid.2]
  exact ⟨hlaid.1, rfl⟩

theorem lays_identifier : Lays size identifier fun x => [.of x] := by
  refine .of_fresh fun a c x d hc hlaid h => ?_
  have hreaches := (orderly_identifier opensHole_of_opensNone).anywhere c x d h
  refine ⟨hreaches, Nat.le_trans hlaid.front (hreaches.front_le hc), ?_⟩
  obtain ⟨prev, t, ts, rfl, hend, hpassed⟩ :=
    hreaches.exists_cons (shrinks_identifier _ x d h)
  have hspan : x.span = t.span := identifier_span h
  have hne : t.span.start < t.span.stop := hc.inked (begins_identifier _ x d h) hend
  rw [Outline.of, hspan]
  exact nested_leaf hlaid.front hne (hpassed.prev_le hc.step)

end

section

variable {size : Nat} {item : Parser α} {o : α → List Outline}

theorem lays_commaList (closer : Punctuation) (h : Lays size item o) (n : Nat) :
    Lays size (commaList closer item out n) fun xs => xs.flatMap o := by
  intro a os
  induction n generalizing os with
  | zero => exact takes_unexpected _
  | succ n ih =>
    refine ((proceeds_isNext _).takes a os).bind fun _ => .ite (takes_give (by simp)) ?_
    refine (h a os).bind fun x => ((proceeds_accept _).takes a _).bind fun _ => .ite ?_ ?_
    · exact (ih _).bind fun xs => takes_give (by simp)
    · exact takes_give (by simp)

theorem lays_commaSeparated (h : Lays size item o) (n : Nat) :
    Lays size (commaSeparated item out n) fun xs => xs.flatMap o := by
  intro a os
  induction n generalizing os with
  | zero => exact takes_unexpected _
  | succ n ih =>
    refine (h a os).bind fun x => ((proceeds_accept _).takes a _).bind fun _ => .ite ?_ ?_
    · exact (ih _).bind fun xs => takes_give (by simp)
    · exact takes_give (by simp)

theorem lays_groupLines (closing ending : String) {line : Nat → Parser α}
    (h : ∀ i, Lays size (line i) o) (n i : Nat) :
    Lays size (groupLines closing ending line out n i) fun xs => xs.flatMap o := by
  intro a os
  induction n generalizing os i with
  | zero => exact takes_unexpected _
  | succ n ih =>
    refine ((proceeds_accept _).takes a os).bind fun _ => .ite (takes_give (by simp)) ?_
    refine (proceeds_atEnd.takes a os).bind fun _ => .when (takes_unexpected _) ?_
    refine (h i a os).bind fun x => ?_
    refine ((orderly_endOfSpec opensHole_of_opensNone ending).anywhere.takes a _).bind fun _ => ?_
    refine (proceeds_skipSemicolons.takes a _).bind fun _ => ?_
    exact (ih _ _).bind fun xs => takes_give (by simp)

theorem lays_group (closing ending : String) {line : Nat → Parser α}
    (h : ∀ i, Lays size (line i) o) :
    Lays size (group closing ending line) fun g => g.2.flatMap o := by
  intro a os
  refine ((proceeds_accept _).takes a os).bind fun _ => .ite ?_ ?_
  · refine (proceeds_skipSemicolons.takes a os).bind fun _ => ?_
    exact (Takes.bounded fun _ n => lays_groupLines _ _ h n 0 a os).bind fun xs => takes_give rfl
  · exact (h 0 a os).bind fun x => takes_give (by simp)

end

section

variable {size : Nat} {expr : Parser Expr}

abbrev LaysExpr (size : Nat) (p : Parser Expr) : Prop := Lays size p fun e => [e.outline]

theorem lays_primary (hexpr : LaysExpr size expr) (horderly : OrderlyAnywhere opensNone expr) :
    LaysExpr size (primary expr) := by
  have hnode : Lays size (primary expr) fun e => [.node e.span e.outline.children] := by
    refine .node Expr.span (fun e => e.outline.children) (begins_primary expr)
      (passes_primary opensHole_of_opensNone horderly).anywhere fun a s => .peek fun k => ?_
    have hleaf : ∀ e : Expr, k ≠ .eof → e.span = s → e.outline.children = [] →
        Takes size (fun c => (Laid a [] c ∧ c.head.span = s) ∧ c.kind = k)
          (do advance; return e)
          fun e d => Laid a e.outline.children d ∧ e.span = s.merge d.prev := by
      intro e hend hspan hchildren
      refine (takes_advance hend).bind fun _ => takes_pure fun c _ hlaid => ?_
      rw [hchildren, hlaid.2, merge_eq (Nat.le_refl _) (Nat.le_refl _), hspan]
      exact ⟨hlaid.1, rfl⟩
    have htype : Takes size (fun c => (Laid a [] c ∧ c.head.span = s) ∧ c.kind = k) (do
        let type ← typeExpr
        return Expr.type (s.merge (← previousSpan)) type)
        fun e d => Laid a e.outline.children d ∧ e.span = s.merge d.prev :=
      ((passes_typeExpr opensHole_of_opensNone).orderly.anywhere.takes a []).before
        (fun _ _ h => h.1.1) |>.bind fun type => takes_close (fun _ => rfl) fun _ => rfl
    cases k with
    | int | float | imaginary | rune | string | ident =>
      exact hleaf _ (by simp) rfl rfl
    | operator | eof => exact takes_unexpected _
    | punctuation p =>
      cases p with
      | lparen =>
        refine ((takes_advance (by simp)).after fun _ _ _ h => h.1).bind fun _ => ?_
        refine (hexpr a []).bind fun inner => ((proceeds_expect _ _).takes a _).bind fun _ => ?_
        exact takes_close (fun _ => rfl) fun _ => rfl
      | lbracket => exact htype
      | _ => exact takes_unexpected _
    | keyword w =>
      cases w with
      | map | chan | func | struct | interface => exact htype
      | _ => exact takes_unexpected _
  simpa only [← Expr.outline_eq] using hnode

section

variable {a : Nat} {c : Cursor} {e left right : Expr} {os : List Outline}

theorem stop_le_of_nested (h : Nested a m (e.outline :: os)) : e.span.stop ≤ m := by
  rw [Expr.outline_eq] at h
  exact (Nested.cons_iff.1 h).2.2.1

theorem Proceeds.takes_past {p : Parser α} (hp : Proceeds p) (hshrinks : Shrinks p) (a : Nat)
    (e : Expr) (os : List Outline) :
    Takes size (Laid a (e.outline :: os)) p fun _ d =>
      Laid a (e.outline :: os) d ∧ e.span.stop ≤ d.prev.start := by
  intro c x d hc hlaid hx
  have hreaches := hp c x d hx
  refine ⟨hreaches, hlaid.reaches hc hreaches, ?_⟩
  obtain ⟨s, t, ts, rfl, -, hpassed⟩ := hreaches.exists_cons (hshrinks c x d hx)
  exact Nat.le_trans (stop_le_of_nested hlaid.nested)
    (Nat.le_trans hc.prev_le_front (hpassed.start_le hc.step))

theorem Laid.enclose (h : Laid a (e.outline :: os) c)
    (hprev : e.span.stop ≤ c.prev.start) :
    Laid a [.node (e.span.merge c.prev) (e.outline :: os)] c := by
  refine ⟨h.front, ?_⟩
  have hnested := h.nested
  rw [Expr.outline_eq] at hnested ⊢
  obtain ⟨-, hne, hstop, -, hos⟩ := Nested.cons_iff.1 hnested
  rw [merge_eq (Nat.le_trans (Nat.le_of_lt hne) hprev) hstop]
  exact hnested.enclose hstop hos (Nat.le_refl _)

theorem Laid.unary {s : Span} (h : Laid s.stop [e.outline] c) (hstart : a ≤ s.start)
    (hne : s.start < s.stop) : Laid a [.node (s.merge e.span) [e.outline]] c := by
  refine ⟨Nat.le_trans hstart (Nat.le_trans (Nat.le_of_lt hne) h.front), ?_⟩
  have hnested := h.nested
  rw [Expr.outline_eq] at hnested ⊢
  obtain ⟨hoperand, hne', hstop, hparts, -⟩ := Nested.cons_iff.1 hnested
  have hle : s.start ≤ e.span.start := Nat.le_trans (Nat.le_of_lt hne) hoperand
  rw [merge_eq hle (Nat.le_trans hoperand (Nat.le_of_lt hne'))]
  exact .cons hstart (Nat.lt_of_le_of_lt hle hne') hstop
    (.cons hle hne' (Nat.le_refl _) hparts .nil) .nil

theorem Laid.binary (h : Laid a [left.outline, right.outline] c) :
    Laid a [.node (left.span.merge right.span) [left.outline, right.outline]] c := by
  refine ⟨h.front, ?_⟩
  have hnested := h.nested
  rw [left.outline_eq, right.outline_eq] at hnested ⊢
  obtain ⟨-, hne, -, -, hright⟩ := Nested.cons_iff.1 hnested
  obtain ⟨hstart, hne', hstop, hparts, -⟩ := Nested.cons_iff.1 hright
  have hle : left.span.stop ≤ right.span.stop := Nat.le_trans hstart (Nat.le_of_lt hne')
  rw [merge_eq (Nat.le_trans (Nat.le_of_lt hne) hstart) hle]
  exact hnested.enclose hle (.cons hstart hne' (Nat.le_refl _) hparts .nil) hstop

end

theorem takes_postfixes (hexpr : LaysExpr size expr) (a n : Nat) (e : Expr) :
    Takes size (Laid a [e.outline]) (postfixes expr out n e) fun e' => Laid a [e'.outline] := by
  induction n generalizing e with
  | zero => exact takes_unexpected _
  | succ n ih =>
    refine ((proceeds_accept _).takes a _).bind fun _ => .ite ?_ ?_
    · have hname := (orderly_identifier (K := fun _ => True) opensHole_of_opensNone).anywhere
      refine (hname.takes_past shrinks_identifier a e []).bind fun name => ?_
      refine .previousSpan fun t => (ih _).before ?_
      rintro c hc ⟨⟨hlaid, hprev⟩, rfl⟩
      exact hlaid.enclose hprev
    · refine ((proceeds_accept _).takes a _).bind fun _ => .ite ?_ (takes_pure fun _ _ h => h)
      refine (lays_commaList _ hexpr n a [e.outline]).bind fun args => ?_
      refine ((proceeds_expect _ _).takes_past (shrinks_expect (by simp) _) a e _).bind fun _ => ?_
      refine .previousSpan fun t => (ih _).before ?_
      rintro c hc ⟨⟨hlaid, hprev⟩, rfl⟩
      have hargs := hlaid.enclose hprev
      rw [Expr.outline, Expr.outlines_eq, List.map_eq_flatMap]
      exact hargs

theorem takes_unaries {operand : Parser Expr} (hoperand : LaysExpr size operand) (a n : Nat) :
    Takes size (Laid a []) (unaries operand out n) fun e => Laid a [e.outline] := by
  induction n generalizing a with
  | zero => exact takes_unexpected _
  | succ n ih =>
    refine .currentSpan fun s => .peek fun k => ?_
    have hplain : Takes size (fun c => (Laid a [] c ∧ c.head.span = s) ∧ c.kind = k) operand
        fun e => Laid a [e.outline] := (hoperand.fresh a).before fun _ _ h => h.1.1
    split
    · dsimp only
      split
      · refine (takes_operator (by simp) (by simp)).bind fun _ => .given ?_
        rintro ⟨hstart, hne⟩
        refine (ih s.stop).bind fun e => takes_pure fun c _ hlaid => ?_
        exact hlaid.unary hstart hne
      · exact hplain
    · exact hplain

theorem takes_climb {operand : Nat → Parser Expr} {least : Nat}
    (hoperand : ∀ l, LaysExpr size (operand l)) (a n : Nat) (e : Expr) :
    Takes size (Laid a [e.outline]) (climb operand least out n e)
      fun e' => Laid a [e'.outline] := by
  induction n generalizing e with
  | zero => exact takes_unexpected _
  | succ n ih =>
    refine .peek fun k => .before ?_ fun _ _ h => h.1
    have hdone : Takes size (Laid a [e.outline]) (pure e) fun e' => Laid a [e'.outline] :=
      takes_pure fun _ _ h => h
    split
    · dsimp only
      split
      · refine .ite hdone ((proceeds_advance.takes a _).bind fun _ => ?_)
        refine (hoperand _ a _).bind fun right => (ih _).before fun c _ hlaid => ?_
        exact hlaid.binary
      · exact hdone
    · exact hdone

theorem lays_exprWithin (n least : Nat) : LaysExpr size (exprWithin out n least) := by
  induction n generalizing least with
  | zero => exact fun a os => takes_unexpected _
  | succ n ih =>
    have horderly : OrderlyAnywhere opensNone (exprWithin out n 1) :=
      orderly_exprWithin opensHole_of_opensNone n 1
    have hoperand : LaysExpr size (do
        postfixes (exprWithin out n 1) out n (← primary (exprWithin out n 1))) :=
      .of_fresh fun a => ((lays_primary (ih 1) horderly).fresh a).bind fun e =>
        takes_postfixes (ih 1) a n e
    exact .of_fresh fun a => (takes_unaries hoperand a (n + 1)).bind fun e => takes_climb ih a n e

theorem lays_expressionList :
    Lays size expressionList fun es => es.flatMap fun e => [e.outline] :=
  fun a os => .bounded fun _ n =>
    lays_commaSeparated (fun a os => .bounded fun _ n => lays_exprWithin n 1 a os) n a os

end

end GoEnum.Parse
