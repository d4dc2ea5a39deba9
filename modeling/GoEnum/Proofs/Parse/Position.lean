import GoEnum.Proofs.Parse.OrderlyFile

/-!
The parser as a machine over indexed tokens. It has no budgets, and gets stuck where it would look
at a token that is not there.
-/

namespace GoEnum.Parse

open Token Syntax

inductive Advances (tokens : List Token) : Nat → Nat → Prop
  | pass : tokens[i]? = some t → t.node ≠ .eof → i + 1 < tokens.length →
      Advances tokens i (i + 1)
  | stay : tokens[i]? = some t → t.node = .eof → Advances tokens i i

inductive SkipsWhile (tokens : List Token) (p : TokenKind → Bool) : Nat → Nat → Prop
  | stop : tokens[i]? = some t → p t.node = false → SkipsWhile tokens p i i
  | pass : tokens[i]? = some t → p t.node = true → i + 1 < tokens.length →
      SkipsWhile tokens p (i + 1) j → SkipsWhile tokens p i j

def isSemicolon (k : TokenKind) : Bool := k == .punctuation .semicolon

/-- Runs of parsers from one index to another. A look ahead is clamped to the last token, and there
is no run through an index past it. Where a bounded parser runs, it never gets to the end of its
bound: it runs alike whatever it would expect there. -/
inductive Runs (tokens : List Token) :
    {α : Type} → Parser α → Nat → Except SyntaxError α → Nat → Prop
  | pure (x : α) : Runs tokens (pure x) i (.ok x) i
  | fail (cause : SyntaxCause) (span : Span) :
      Runs tokens (fail cause span : Parser α) i (.error ⟨cause, span⟩) i
  | bind {p : Parser α} {f : α → Parser β} : Runs tokens p i (.ok x) j →
      Runs tokens (f x) j r k → Runs tokens (p >>= f) i r k
  | bindError {p : Parser α} {f : α → Parser β} : Runs tokens p i (.error e) j →
      Runs tokens (p >>= f) i (.error e) j
  | peek : tokens[i]? = some t → Runs tokens peek i (.ok t.node) i
  | currentSpan : tokens[i]? = some t → Runs tokens currentSpan i (.ok t.span) i
  | peekAt : tokens[min (i + n) (tokens.length - 1)]? = some t →
      Runs tokens (peekAt n) i (.ok t.node) i
  | previousSpan : tokens[i - 1]? = some t → Runs tokens previousSpan i (.ok t.span) i
  | advance : Advances tokens i j → Runs tokens advance i (.ok ()) j
  | skipSemicolons : SkipsWhile tokens isSemicolon i j →
      Runs tokens skipSemicolons i (.ok ()) j
  | bounded {p : String → Nat → Parser α} :
      (∀ out n, tokens.length - i < n → Runs tokens (p out n) i r j) →
      Runs tokens (bounded p) i r j

inductive Harvests (tokens : List Token) (more : TokenKind → Bool) (item : Parser α) :
    Nat → List α → List SyntaxError → Nat → Prop
  | stop : tokens[i]? = some t → more t.node = false → Harvests tokens more item i [] [] i
  | read : tokens[i]? = some t → more t.node = true → Runs tokens item i (.ok x) j →
      SkipsWhile tokens isSemicolon j k → Harvests tokens more item k xs es l →
      Harvests tokens more item i (x :: xs) es l
  | recover : tokens[i]? = some t → more t.node = true → Runs tokens item i (.error e) j →
      Advances tokens j k → SkipsWhile tokens (fun k => !Cursor.isRestart k) k l →
      SkipsWhile tokens isSemicolon l m → Harvests tokens more item m xs es n →
      Harvests tokens more item i xs (e :: es) n

inductive ParseRuns (tokens : List Token) : Except (List SyntaxError) File → Nat → Prop
  | noPackage : SkipsWhile tokens isSemicolon 0 i → Runs tokens packageClause i (.error e) j →
      ParseRuns tokens (.error [e]) j
  | file : SkipsWhile tokens isSemicolon 0 i → Runs tokens packageClause i (.ok package) j →
      SkipsWhile tokens isSemicolon j k →
      Harvests tokens (· == .keyword .import) importDecl k imports es l →
      Harvests tokens (· != .eof) declaration l decls es' m →
      ParseRuns tokens (match es ++ es' with
        | [] => .ok ⟨package, imports.flatten, decls⟩
        | errors => .error errors) m

section

variable {tokens : List Token}

structure Passed (tokens : List Token) (i j : Nat) : Prop where
  le : i ≤ j
  lt_length : i < tokens.length → j < tokens.length
  no_end : ∀ k t, i ≤ k → k < j → tokens[k]? = some t → t.node ≠ .eof

theorem passed_refl (tokens : List Token) (i : Nat) : Passed tokens i i :=
  ⟨Nat.le_refl i, id, fun _ _ hle hlt => absurd hlt (Nat.not_lt.2 hle)⟩

theorem Passed.trans (h : Passed tokens i j) (h' : Passed tokens j k) : Passed tokens i k := by
  refine ⟨Nat.le_trans h.le h'.le, h'.lt_length ∘ h.lt_length, fun l t hle hlt ht => ?_⟩
  obtain hj | hj := Nat.lt_or_ge l j
  · exact h.no_end l t hle hj ht
  · exact h'.no_end l t hj hlt ht

theorem passed_succ (ht : tokens[i]? = some t) (hend : t.node ≠ .eof)
    (hlength : i + 1 < tokens.length) : Passed tokens i (i + 1) := by
  refine ⟨Nat.le_succ i, fun _ => hlength, fun k u hle hlt hu => ?_⟩
  obtain rfl := Nat.le_antisymm hle (Nat.le_of_lt_succ hlt)
  cases ht.symm.trans hu
  exact hend

theorem Advances.passed (h : Advances tokens i j) : Passed tokens i j := by
  cases h with
  | pass ht hend hlength => exact passed_succ ht hend hlength
  | stay => exact passed_refl _ _

theorem SkipsWhile.passed (hp : p .eof = false) (h : SkipsWhile tokens p i j) :
    Passed tokens i j := by
  induction h with
  | stop => exact passed_refl _ _
  | pass ht hpass hlength _ ih =>
    refine (passed_succ ht (fun hend => ?_) hlength).trans ih
    rw [hend, hp] at hpass
    cases hpass

theorem Runs.passed {p : Parser α} (h : Runs tokens p i r j) : Passed tokens i j := by
  induction h with
  | pure => exact passed_refl _ _
  | fail => exact passed_refl _ _
  | bind _ _ ih ih' => exact ih.trans ih'
  | bindError _ ih => exact ih
  | peek => exact passed_refl _ _
  | currentSpan => exact passed_refl _ _
  | peekAt => exact passed_refl _ _
  | previousSpan => exact passed_refl _ _
  | advance h => exact h.passed
  | skipSemicolons h => exact h.passed rfl
  | bounded _ ih => exact ih "nothing" _ (Nat.lt_succ_self _)

theorem Harvests.passed {item : Parser α} (h : Harvests tokens more item i xs es j) :
    Passed tokens i j := by
  induction h with
  | stop => exact passed_refl _ _
  | read _ _ hitem hskip _ ih => exact (hitem.passed.trans (hskip.passed rfl)).trans ih
  | recover _ _ hitem hadvance hskip hskip' _ ih =>
    exact (((hitem.passed.trans hadvance.passed).trans (hskip.passed rfl)).trans
      (hskip'.passed rfl)).trans ih

theorem Harvests.stops {item : Parser α} (h : Harvests tokens more item i xs es j) :
    ∃ t, tokens[j]? = some t ∧ more t.node = false := by
  induction h with
  | stop ht hmore => exact ⟨_, ht, hmore⟩
  | read _ _ _ _ _ ih => exact ih
  | recover _ _ _ _ _ _ _ ih => exact ih

theorem ParseRuns.passed (h : ParseRuns tokens r j) : Passed tokens 0 j := by
  cases h with
  | noPackage hskip herror => exact (hskip.passed rfl).trans herror.passed
  | file hskip hpackage hskip' himports hdecls =>
    exact ((((hskip.passed rfl).trans hpackage.passed).trans (hskip'.passed rfl)).trans
      himports.passed).trans hdecls.passed

theorem ParseRuns.errors_ne_nil (h : ParseRuns tokens r j) (hr : r = .error errors) :
    errors ≠ [] := by
  cases h with
  | noPackage =>
    cases hr
    exact List.cons_ne_nil _ _
  | file =>
    split at hr
    · cases hr
    · rename_i hne
      cases hr
      exact hne

theorem ParseRuns.stops {f : File} (h : ParseRuns tokens r j) (hr : r = .ok f) :
    ∃ t, tokens[j]? = some t ∧ t.node = .eof := by
  cases h with
  | noPackage => cases hr
  | file _ _ _ _ hdecls =>
    obtain ⟨t, ht, hmore⟩ := hdecls.stops
    exact ⟨t, ht, by simpa using hmore⟩

def cursorAt (tokens : List Token) (i : Nat) : Cursor :=
  ⟨(tokens[i - 1]?.map (·.span)).getD (.point 0), tokens.drop i⟩

theorem cursorAt_zero (tokens : List Token) : cursorAt tokens 0 = Cursor.start tokens := by
  cases tokens <;> rfl

theorem head_cursorAt (ht : tokens[i]? = some t) : (cursorAt tokens i).head = t := by
  rw [Cursor.head, cursorAt, List.head?_drop, ht, Option.getD_some]

theorem kind_cursorAt (ht : tokens[i]? = some t) : (cursorAt tokens i).kind = t.node := by
  rw [Cursor.kind, head_cursorAt ht]

theorem prev_cursorAt (ht : tokens[i - 1]? = some t) : (cursorAt tokens i).prev = t.span := by
  rw [cursorAt, ht]
  rfl

theorem drop_eq_cons (ht : tokens[i]? = some t) : tokens.drop i = t :: tokens.drop (i + 1) := by
  obtain ⟨hi, rfl⟩ := List.getElem?_eq_some_iff.1 ht
  exact List.drop_eq_getElem_cons hi

theorem cursorAt_succ (ht : tokens[i]? = some t) :
    cursorAt tokens (i + 1) = ⟨t.span, tokens.drop (i + 1)⟩ := by
  rw [cursorAt, Nat.add_sub_cancel, ht]
  rfl

theorem Advances.cursorAt (h : Advances tokens i j) :
    (cursorAt tokens i).advance = cursorAt tokens j := by
  cases h with
  | pass ht hend _ =>
    rw [cursorAt_succ ht, Parse.cursorAt, drop_eq_cons ht]
    exact if_neg hend
  | stay ht hend =>
    rw [Parse.cursorAt, drop_eq_cons ht]
    exact if_pos hend

theorem SkipsWhile.cursorAt (h : SkipsWhile tokens p i j) :
    Cursor.skipWhile p (cursorAt tokens i).prev (tokens.drop i) = cursorAt tokens j := by
  induction h with
  | stop ht hp =>
    rw [drop_eq_cons ht, Cursor.skipWhile, hp, ← drop_eq_cons ht]
    rfl
  | pass ht hp _ _ ih =>
    rw [cursorAt_succ ht] at ih
    rw [drop_eq_cons ht, Cursor.skipWhile, if_pos hp]
    exact ih

theorem left_cursorAt (tokens : List Token) (i : Nat) :
    (cursorAt tokens i).left ≤ tokens.length - i := by
  have hlt := (cursorAt tokens i).left_lt_bound
  rw [cursorAt, List.length_drop] at hlt
  exact Nat.le_of_lt_succ hlt

theorem lt_of_left_lt (hpassed : Passed tokens i j)
    (h : (cursorAt tokens j).left < (cursorAt tokens i).left) : i < j := by
  refine Nat.lt_of_le_of_ne hpassed.le ?_
  rintro rfl
  exact Nat.lt_irrefl _ h

theorem lt_of_advances (hj : Passed tokens i j) (ht : tokens[i]? = some t) (hend : t.node ≠ .eof)
    (hk : Advances tokens j k) : i < k := by
  obtain hlt | rfl := Nat.lt_or_eq_of_le hj.le
  · exact Nat.lt_of_lt_of_le hlt hk.passed.le
  · cases hk with
    | pass => exact Nat.lt_succ_self i
    | stay hu hstay =>
      cases ht.symm.trans hu
      exact absurd hstay hend

def outcome (c : Cursor) : Except SyntaxError α → EStateM.Result SyntaxError Cursor α
  | .ok x => .ok x c
  | .error e => .error e c

theorem cursorAt_inj (h : cursorAt tokens i = cursorAt tokens j) (hi : i < tokens.length)
    (hj : j < tokens.length) : i = j := by
  have hlength := congrArg (·.rest.length) h
  simp only [cursorAt, List.length_drop] at hlength
  omega

theorem outcome_inj {r r' : Except SyntaxError α}
    (h : outcome (cursorAt tokens i) r = outcome (cursorAt tokens j) r') (hi : i < tokens.length)
    (hj : j < tokens.length) : r = r' ∧ i = j := by
  cases r with
  | ok x =>
    cases r' with
    | ok y =>
      injection h with hx hc
      exact ⟨congrArg _ hx, cursorAt_inj hc hi hj⟩
    | error e => cases h
  | error e =>
    cases r' with
    | ok y => cases h
    | error e' =>
      injection h with he hc
      exact ⟨congrArg _ he, cursorAt_inj hc hi hj⟩

variable (hlast : tokens.getLast?.map (·.node) = some .eof)

include hlast

theorem kindAt_cursorAt (ht : tokens[min (i + n) (tokens.length - 1)]? = some t) :
    (cursorAt tokens i).kindAt n = t.node := by
  rw [Cursor.kindAt, cursorAt, List.getElem?_drop]
  obtain hin | hin := Nat.lt_or_ge (i + n) tokens.length
  · rw [Nat.min_eq_left (by omega)] at ht
    rw [ht]
    rfl
  · rw [Nat.min_eq_right (by omega), ← List.getLast?_eq_getElem?] at ht
    rw [ht] at hlast
    rw [List.getElem?_eq_none hin]
    exact (Option.some.inj hlast).symm

theorem Runs.eq_outcome {p : Parser α} (h : Runs tokens p i r j) (hi : i < tokens.length) :
    p (cursorAt tokens i) = outcome (cursorAt tokens j) r := by
  induction h with
  | pure => rfl
  | fail => rfl
  | @bind _ _ _ _ _ _ _ p f h _ ih ih' =>
    change EStateM.bind p f _ = _
    rw [EStateM.bind, ih hi]
    exact ih' (h.passed.lt_length hi)
  | @bindError _ _ _ _ _ p f _ ih =>
    change EStateM.bind p f _ = _
    rw [EStateM.bind, ih hi]
    rfl
  | peek ht => exact congrArg (EStateM.Result.ok · _) (kind_cursorAt ht)
  | currentSpan ht => exact congrArg (EStateM.Result.ok ·.span _) (head_cursorAt ht)
  | peekAt ht => exact congrArg (EStateM.Result.ok · _) (kindAt_cursorAt hlast ht)
  | previousSpan ht => exact congrArg (EStateM.Result.ok · _) (prev_cursorAt ht)
  | advance h => exact congrArg (EStateM.Result.ok ()) h.cursorAt
  | skipSemicolons h => exact congrArg (EStateM.Result.ok ()) h.cursorAt
  | bounded _ ih => exact ih "nothing" _ (Nat.lt_succ_of_le (Nat.le_of_eq List.length_drop.symm)) hi

end

/-- From every index whose token satisfies `K`, the parser runs. -/
def Finishes (tokens : List Token) (K : TokenKind → Prop) (p : Parser α) : Prop :=
  ∀ i t, tokens[i]? = some t → K t.node → ∃ r j, Runs tokens p i r j

section

variable {tokens : List Token} {K : TokenKind → Prop} {p : Parser α}

theorem Passed.getElem? (h : Passed tokens i j) (ht : tokens[i]? = some t) :
    ∃ u, tokens[j]? = some u :=
  ⟨_, List.getElem?_eq_getElem (h.lt_length (List.getElem?_eq_some_iff.1 ht).1)⟩

theorem finishes_pure (x : α) : Finishes tokens K (pure x) := fun _ _ _ _ => ⟨_, _, .pure x⟩

theorem finishes_fail (cause : SyntaxCause) (span : Span) :
    Finishes tokens K (fail cause span : Parser α) := fun _ _ _ _ => ⟨_, _, .fail cause span⟩

theorem Finishes.bind {f : α → Parser β} (hp : Finishes tokens K p)
    (hf : ∀ x, Finishes tokens (fun _ => True) (f x)) : Finishes tokens K (p >>= f) := by
  intro i t ht hk
  obtain ⟨_ | x, j, hj⟩ := hp i t ht hk
  · exact ⟨_, _, .bindError hj⟩
  · obtain ⟨u, hu⟩ := hj.passed.getElem? ht
    obtain ⟨r, k, hr⟩ := hf x j u hu trivial
    exact ⟨r, k, .bind hj hr⟩

theorem Finishes.peek {f : TokenKind → Parser α}
    (h : ∀ k, K k → Finishes tokens (· = k) (f k)) : Finishes tokens K (peek >>= f) := by
  intro i t ht hk
  obtain ⟨r, j, hr⟩ := h t.node hk i t ht rfl
  exact ⟨r, j, .bind (.peek ht) hr⟩

theorem Finishes.peekAt {f : TokenKind → Parser α} (n : Nat)
    (h : ∀ k, Finishes tokens K (f k)) : Finishes tokens K (peekAt n >>= f) := by
  intro i t ht hk
  have hlength := (List.getElem?_eq_some_iff.1 ht).1
  have hclamped : min (i + n) (tokens.length - 1) < tokens.length := by omega
  obtain ⟨r, j, hr⟩ := h _ i t ht hk
  exact ⟨r, j, .bind (.peekAt (List.getElem?_eq_getElem hclamped)) hr⟩

theorem Finishes.currentSpan {f : Span → Parser α} (h : ∀ span, Finishes tokens K (f span)) :
    Finishes tokens K (currentSpan >>= f) := by
  intro i t ht hk
  obtain ⟨r, j, hr⟩ := h t.span i t ht hk
  exact ⟨r, j, .bind (.currentSpan ht) hr⟩

theorem finishes_previousSpan : Finishes tokens K previousSpan := by
  intro i t ht _
  have hi := (List.getElem?_eq_some_iff.1 ht).1
  have hprev : i - 1 < tokens.length := by omega
  exact ⟨_, _, .previousSpan (List.getElem?_eq_getElem hprev)⟩

theorem Finishes.here (h : Finishes tokens (fun _ => True) p) : Finishes tokens K p :=
  fun i t ht _ => h i t ht trivial

theorem Finishes.ite {c : Prop} [Decidable c] {q : Parser α} (hp : Finishes tokens K p)
    (hq : Finishes tokens K q) : Finishes tokens K (if c then p else q) := by
  split
  · exact hp
  · exact hq

theorem Finishes.when {c : Prop} [Decidable c] {q : Parser β} (hp : Finishes tokens K p)
    (hq : Finishes tokens (fun _ => True) q) :
    Finishes tokens K (if c then p >>= fun _ => q else q) :=
  .ite (hp.bind fun _ => hq) hq.here

theorem finishes_unexpected (what : String) :
    Finishes tokens K (unexpected what : Parser α) :=
  .peek fun _ _ => .currentSpan fun _ => finishes_fail _ _

theorem finishes_isNext (k : TokenKind) : Finishes tokens K (isNext k) :=
  .peek fun _ _ => finishes_pure _

theorem closeAll_succ (start : Span) (n : Nat) (top : Punctuation) (stack : List Punctuation) :
    closeAll start out (n + 1) (top :: stack) = (do
      let k ← peek
      let span ← currentSpan
      if k = .eof then fail (.unclosed top) start
      advance
      match k with
      | .punctuation p =>
        if p.isOpener then closeAll start out n (p :: top :: stack)
        else if p.isCloser then
          if top.closing? = some p then closeAll start out n stack else fail (.mismatched p) span
        else closeAll start out n (top :: stack)
      | _ => closeAll start out n (top :: stack)) := rfl

theorem finishes_atEnd : Finishes tokens K atEnd :=
  Finishes.peek (f := fun k => pure (k == .eof)) fun _ _ => finishes_pure _

variable (hlast : tokens.getLast?.map (·.node) = some .eof)

include hlast

theorem exists_advances (ht : tokens[i]? = some t) :
    ∃ j u, Advances tokens i j ∧ tokens[j]? = some u := by
  by_cases hend : t.node = .eof
  · exact ⟨i, t, .stay ht hend, ht⟩
  · have hi := (List.getElem?_eq_some_iff.1 ht).1
    have hnext : i + 1 < tokens.length := by
      refine Nat.lt_of_le_of_ne hi fun hlength => hend ?_
      rw [List.getLast?_eq_getElem?, ← hlength, Nat.add_sub_cancel, ht] at hlast
      exact Option.some.inj hlast
    exact ⟨i + 1, _, .pass ht hend hnext, List.getElem?_eq_getElem hnext⟩

theorem finishes_advance : Finishes tokens K advance := fun _ _ ht _ =>
  have ⟨_, _, hj, _⟩ := exists_advances hlast ht
  ⟨_, _, .advance hj⟩

theorem exists_skipsWhile {p : TokenKind → Bool} (hp : p .eof = false)
    (ht : tokens[i]? = some t) : ∃ j u, SkipsWhile tokens p i j ∧ tokens[j]? = some u := by
  generalize hn : tokens.length - i = n
  have hi := (List.getElem?_eq_some_iff.1 ht).1
  induction n generalizing i t with
  | zero => omega
  | succ n ih =>
    cases hpass : p t.node with
    | false => exact ⟨i, t, .stop ht hpass, ht⟩
    | true =>
      obtain ⟨_, v, hj, hv⟩ := exists_advances hlast ht
      cases hj with
      | pass _ _ hlength =>
        obtain ⟨j, u, hj, hu⟩ := ih hv (by omega) hlength
        exact ⟨j, u, .pass ht hpass hlength hj, hu⟩
      | stay hu hend =>
        cases ht.symm.trans hu
        rw [hend, hp] at hpass
        cases hpass

theorem finishes_skipSemicolons : Finishes tokens K skipSemicolons := fun _ _ ht _ =>
  have ⟨_, _, hj, _⟩ := exists_skipsWhile (p := isSemicolon) hlast rfl ht
  ⟨_, _, .skipSemicolons hj⟩

theorem Finishes.bounded {p : String → Nat → Parser α} (hsettles : Settles p)
    (h : ∀ out n, Finishes tokens K (p out n)) : Finishes tokens K (bounded p) := by
  intro i t ht hk
  have hi := (List.getElem?_eq_some_iff.1 ht).1
  obtain ⟨r, j, hr⟩ := h "nothing" (tokens.length - i + 1) i t ht hk
  refine ⟨r, j, .bounded fun out n hn => ?_⟩
  obtain ⟨r', j', hr'⟩ := h out n i t ht hk
  have hleft := left_cursorAt tokens i
  have hsame := hsettles "nothing" out (tokens.length - i + 1) n (cursorAt tokens i) (by omega)
  rw [hr.eq_outcome hlast hi, hr'.eq_outcome hlast hi] at hsame
  obtain ⟨rfl, rfl⟩ := outcome_inj hsame (hr.passed.lt_length hi) (hr'.passed.lt_length hi)
  exact hr'

theorem finishes_closeAll (start : Span) (n : Nat) (stack : List Punctuation) :
    Finishes tokens (fun _ => True) (closeAll start out n stack) := by
  induction n generalizing stack with
  | zero =>
    cases stack with
    | nil => exact finishes_pure _
    | cons top stack => exact finishes_unexpected _
  | succ n ih =>
    cases stack with
    | nil => exact finishes_pure _
    | cons top stack =>
      rw [closeAll_succ]
      refine .peek fun k _ => .currentSpan fun span => ?_
      refine .when (finishes_fail _ _) ((finishes_advance hlast).bind fun _ => ?_)
      split
      · exact .ite (ih _) (.ite (.ite (ih _) (finishes_fail _ _)) (ih _))
      · exact ih _

theorem finishes_skipBalanced : Finishes tokens K skipBalanced := by
  refine .peek fun k _ => ?_
  split
  · exact .currentSpan fun start => (finishes_advance hlast).bind fun _ =>
      .bounded hlast (settles_closeAll start _) fun _ n => finishes_closeAll hlast start n _
  · exact finishes_unexpected _

theorem finishes_skipItem : Finishes tokens (fun _ => True) skipItem := by
  refine .peek fun k _ => ?_
  split
  · exact .ite (finishes_skipBalanced hlast) (finishes_advance hlast)
  · exact finishes_advance hlast

theorem finishes_skipValues (n : Nat) : Finishes tokens (fun _ => True) (skipValues out n) := by
  induction n with
  | zero => exact finishes_unexpected _
  | succ n ih =>
    refine .peek fun k _ => .here ?_
    split
    · exact finishes_pure _
    · exact finishes_pure _
    · exact finishes_pure _
    · exact (finishes_skipItem hlast).bind fun _ => ih

theorem finishes_skipUntil (closer : Punctuation) (n : Nat) :
    Finishes tokens (fun _ => True) (skipUntil closer out n) := by
  induction n with
  | zero => exact finishes_unexpected _
  | succ n ih =>
    refine (finishes_isNext _).bind fun _ => .ite (finishes_pure _) ?_
    refine finishes_atEnd.bind fun _ => .when (finishes_unexpected _) ?_
    exact (finishes_skipItem hlast).bind fun _ => ih

theorem Orderly.finishes {p : Parser α} (h : Orderly opens K p) : Finishes tokens K p := by
  induction h with
  | pure => exact finishes_pure _
  | fail => exact finishes_fail _ _
  | bind _ _ ih ih' => exact ih.bind ih'
  | peek _ ih => exact .peek ih
  | peekOne _ _ ih => exact .peek fun k hk => .peekAt 1 fun k₁ => ih k k₁ hk
  | peekTwo _ _ _ ih =>
    exact .peek fun k hk => .peekAt 1 fun k₁ => .peekAt 2 fun k₂ => ih k k₁ k₂ hk
  | currentSpan _ ih => exact .currentSpan ih
  | previousSpan => exact finishes_previousSpan
  | advance => exact finishes_advance hlast
  | skipSemicolons => exact finishes_skipSemicolons hlast
  | bounded hsettles _ ih => exact .bounded hlast hsettles ih
  | skipBalanced => exact finishes_skipBalanced hlast
  | skipValues =>
    exact .bounded hlast settles_skipValues fun _ n => (finishes_skipValues hlast n).here
  | skipUntil =>
    exact .bounded hlast (settles_skipUntil _) fun _ n => (finishes_skipUntil hlast _ n).here

theorem exists_recovery (ht : tokens[i]? = some t) :
    ∃ j k l u, Advances tokens i j ∧ SkipsWhile tokens (fun k => !Cursor.isRestart k) j k ∧
      SkipsWhile tokens isSemicolon k l ∧ tokens[l]? = some u ∧
      (cursorAt tokens i).synchronize.skipSemicolons = cursorAt tokens l := by
  obtain ⟨j, u, hj, hu⟩ := exists_advances hlast ht
  obtain ⟨k, v, hk, hv⟩ := exists_skipsWhile (p := fun k => !Cursor.isRestart k) hlast rfl hu
  obtain ⟨l, w, hl, hw⟩ := exists_skipsWhile (p := isSemicolon) hlast rfl hv
  refine ⟨j, k, l, w, hj, hk, hl, hw, ?_⟩
  have hsync : (cursorAt tokens i).synchronize = cursorAt tokens k := by
    rw [Cursor.synchronize, hj.cursorAt]
    exact hk.cursorAt
  rw [hsync]
  exact hl.cursorAt

theorem exists_harvests {item : Parser α} (test : Cursor → Bool) (more : TokenKind → Bool)
    (hitem : Passes opens (fun _ => True) item) (hmore : more .eof = false)
    (htest : ∀ c, test c = more c.kind) (ht : tokens[i]? = some t) (hn : tokens.length - i ≤ n) :
    ∃ j, Harvests tokens more item i (harvest test item n (cursorAt tokens i)).items
        (harvest test item n (cursorAt tokens i)).errors j ∧
      (harvest test item n (cursorAt tokens i)).cursor = cursorAt tokens j := by
  have hi := (List.getElem?_eq_some_iff.1 ht).1
  induction n generalizing i t with
  | zero => omega
  | succ n ih =>
    rw [harvest, htest, kind_cursorAt ht]
    cases hgo : more t.node with
    | false => exact ⟨i, .stop ht hgo, rfl⟩
    | true =>
      obtain ⟨r, j, hj⟩ := hitem.orderly.finishes hlast i t ht trivial
      obtain ⟨u, hu⟩ := hj.passed.getElem? ht
      have hrun := hj.eq_outcome hlast hi
      rw [if_pos rfl, hrun]
      cases r with
      | ok x =>
        have hlt := lt_of_left_lt hj.passed (hitem.shrinks _ _ _ trivial hrun)
        obtain ⟨k, v, hk, hv⟩ := exists_skipsWhile (p := isSemicolon) hlast rfl hu
        have hle := (hk.passed rfl).le
        have hskip : (cursorAt tokens j).skipSemicolons = cursorAt tokens k := hk.cursorAt
        obtain ⟨m, hm, hcursor⟩ := ih hv (by omega) (List.getElem?_eq_some_iff.1 hv).1
        simp only [outcome, hskip]
        exact ⟨m, .read ht hgo hj hk hm, hcursor⟩
      | error e =>
        obtain ⟨k, l, m, v, hk, hl, hm, hv, hskip⟩ := exists_recovery hlast hu
        have hend : t.node ≠ .eof := by
          intro hend
          rw [hend, hmore] at hgo
          cases hgo
        have hlt := lt_of_advances hj.passed ht hend hk
        have hle := ((hl.passed rfl).trans (hm.passed rfl)).le
        obtain ⟨z, hz, hcursor⟩ := ih hv (by omega) (List.getElem?_eq_some_iff.1 hv).1
        simp only [outcome, hskip]
        exact ⟨z, .recover ht hgo hj hk hl hm hz, hcursor⟩

theorem exists_parseRuns : ∃ j, ParseRuns tokens (parse tokens) j := by
  have ho := opensHole_of_opensNone
  obtain ⟨last, hmem, -⟩ := Option.map_eq_some_iff.1 hlast
  have hpos : 0 < tokens.length := List.length_pos_of_mem (List.mem_of_getLast? hmem)
  have hsome : tokens.isEmpty = false := by
    rw [List.isEmpty_eq_false_iff]
    exact List.ne_nil_of_length_pos hpos
  obtain ⟨i, t, hi, ht⟩ := exists_skipsWhile (p := isSemicolon) hlast rfl
    (List.getElem?_eq_getElem hpos)
  have hstart : (Cursor.start tokens).skipSemicolons = cursorAt tokens i := by
    rw [← cursorAt_zero]
    exact hi.cursorAt
  obtain ⟨r, j, hj⟩ := (orderly_packageClause ho).finishes hlast i t ht trivial
  obtain ⟨u, hu⟩ := hj.passed.getElem? ht
  rw [parse, hsome, if_neg Bool.false_ne_true, hstart,
    hj.eq_outcome hlast (List.getElem?_eq_some_iff.1 ht).1]
  cases r with
  | error e => exact ⟨j, .noPackage hi hj⟩
  | ok package =>
    obtain ⟨k, v, hk, hv⟩ := exists_skipsWhile (p := isSemicolon) hlast rfl hu
    have hskip : (cursorAt tokens j).skipSemicolons = cursorAt tokens k := hk.cursorAt
    obtain ⟨l, himports, hcursor⟩ := exists_harvests (n := tokens.length) hlast
      (·.kind == .keyword .import) (· == .keyword .import) (passes_importDecl ho) rfl
      (fun _ => rfl) hv (Nat.sub_le _ _)
    obtain ⟨w, hw, -⟩ := himports.stops
    obtain ⟨m, hdecls, -⟩ := exists_harvests (n := tokens.length) hlast (!·.atEnd) (· != .eof)
      (passes_declaration ho rfl) rfl (fun _ => rfl) hw (Nat.sub_le _ _)
    simp only [outcome, hskip, hcursor]
    exact ⟨m, .file hi hj hk himports hdecls⟩

end

/-- The parser runs over all tokens that end in an end, well-formed or not. It stays where tokens
are, and if it reports no error then it stops at the first end. -/
theorem parse_runs (tokens : List Token) (hlast : tokens.getLast?.map (·.node) = some .eof) :
    ∃ j, ParseRuns tokens (parse tokens) j ∧ j < tokens.length ∧
      (∀ errors, parse tokens = .error errors → errors ≠ []) ∧
      ∀ file, parse tokens = .ok file → tokens[j]?.map (·.node) = some .eof ∧
        ∀ k < j, tokens[k]?.map (·.node) ≠ some .eof := by
  obtain ⟨last, hmem, -⟩ := Option.map_eq_some_iff.1 hlast
  have hpos : 0 < tokens.length := List.length_pos_of_mem (List.mem_of_getLast? hmem)
  obtain ⟨j, hj⟩ := exists_parseRuns hlast
  refine ⟨j, hj, hj.passed.lt_length hpos, fun errors => hj.errors_ne_nil, fun file hfile => ?_⟩
  obtain ⟨t, ht, hend⟩ := hj.stops hfile
  refine ⟨by rw [ht, Option.map_some, hend], fun k hk heof => ?_⟩
  obtain ⟨u, hu, hueof⟩ := Option.map_eq_some_iff.1 heof
  exact hj.passed.no_end k u (Nat.zero_le k) hk hu hueof

def unclosedTokens : List Token :=
  [.keyword .package, .ident "p", .punctuation .semicolon, .punctuation .rparen,
    .keyword .func, .ident "f", .punctuation .lparen, .punctuation .rparen, .punctuation .lbrace,
    .eof].map (⟨·, .point 0⟩)

theorem parse_runs_unclosed :
    parse unclosedTokens = .error [⟨.expected "declaration" (.punctuation .rparen), .point 0⟩,
        ⟨.unclosed .lbrace, .point 0⟩] ∧
      ∃ j, ParseRuns unclosedTokens (parse unclosedTokens) j ∧ j < 10 := by
  obtain ⟨j, hj, hlength, -⟩ := parse_runs unclosedTokens rfl
  exact ⟨rfl, j, hj, hlength⟩

end GoEnum.Parse
