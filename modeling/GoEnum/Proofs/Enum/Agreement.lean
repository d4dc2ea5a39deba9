import GoEnum.Proofs.Enum.Discovery
import GoEnum.Proofs.Enum.Reduction
import GoEnum.Proofs.Package.Agreement

namespace GoEnum.Enum

open Constant Package Syntax
open Token (Spanned)

def Member.withHint (m : Member) (hint : String) : Member := { m with receiverHint := hint }

namespace Members

def map (f : Member → Member) (ms : Members) : Members := ⟨ms.values.map f, ms.hasPlaceholder⟩

variable (f : Member → Member)

@[simp] theorem map_append (a b : Members) : (a.append b).map f = (a.map f).append (b.map f) := by
  simp [map, append]

@[simp] theorem empty_append (a : Members) : Members.empty.append a = a := by
  simp [append, empty]

end Members

def owner (s : Symbols) (type : String) (c : Const) : String :=
  (c.type.name?.map s.types.resolveAlias).getD type

def hintOf (s : Symbols) (type name : String) : String :=
  ((s.constant? name).bind fun c => s.receiverHint? (owner s type c)).getD ""

section

variable {s s' : Symbols} {type name : String} {m : Member} {g : Member → Member}

theorem receiverHint_of_resolve (h : resolve s type name = .ok m) :
    m.receiverHint = hintOf s type m.name := by
  obtain ⟨rfl, c, b, hc, -, -, -, -, hhint⟩ := resolve_ok h
  rw [hhint, hintOf, hc]
  rfl

theorem owner_of_agrees (hs : s.Agrees s') (type : String) (c : Const) :
    owner s type c = owner s' type c := by
  rw [owner, owner, funext hs.types.resolveAlias]

theorem resolve_of_agrees (hs : s.Agrees s') (h : resolve s type name = .ok m) :
    resolve s' type name = .ok (m.withHint (hintOf s' type name)) := by
  obtain ⟨hname, c, b, hc, hb, hkind, hliteral, htextual, -⟩ := resolve_ok h
  have hc' : s'.constant? name = some c := hs.constant? name ▸ hc
  have htextual' : s'.isStringer (owner s' type c) = m.isTextual := by
    rw [htextual, ← hs.isStringer, ← owner_of_agrees hs]
    rfl
  have hhint : (s'.receiverHint? (owner s' type c)).getD "" = hintOf s' type name := by
    rw [hintOf, hc']
    rfl
  unfold resolve
  simp only [hc', ← hs.basicOf?, hb, hkind]
  change Except.ok (Member.mk name m.kind c.value.literal (s'.isStringer (owner s' type c))
    ((s'.receiverHint? (owner s' type c)).getD "")) = _
  rw [htextual', hhint, ← hname, ← hliteral]
  rfl

/-- A change of members carries over from single constants to all that is collected. -/
def Carries (s s' : Symbols) (type : String) (g : Member → Member) : Prop :=
  ∀ name m, resolve s type name = .ok m → resolve s' type name = .ok (g m)

theorem carries_of_agrees (hs : s.Agrees s') (type : String) :
    Carries s s' type fun m => m.withHint (hintOf s' type m.name) := by
  intro name m h
  obtain ⟨rfl, -⟩ := resolve_ok h
  exact resolve_of_agrees hs h

theorem gather_map {f f' : α → Except GenerateError Members} {xs : List α}
    (hf : ∀ x ∈ xs, ∀ r, f x = .ok r → f' x = .ok (r.map g)) (h : gather f xs = .ok r) :
    gather f' xs = .ok (r.map g) := by
  induction xs generalizing r with
  | nil =>
    cases h
    rfl
  | cons x xs ih =>
    obtain ⟨hx, hxs⟩ := List.forall_mem_cons.1 hf
    obtain ⟨first, hfirst, h⟩ := bind_eq_ok.1 h
    obtain ⟨rest, hrest, h⟩ := bind_eq_ok.1 h
    cases h
    rw [gather, hx first hfirst, ih hxs hrest, Members.map_append]
    rfl

theorem Carries.membersOfNames (hg : Carries s s' type g) {names : List (Spanned String)}
    (h : membersOfNames s type names = .ok r) : membersOfNames s' type names = .ok (r.map g) := by
  induction names generalizing r with
  | nil =>
    cases h
    rfl
  | cons name names ih =>
    rw [Enum.membersOfNames] at h ⊢
    split at h
    · rename_i hblank
      obtain ⟨_, ⟨⟩, h⟩ := bind_eq_ok.1 h
      obtain ⟨rest, hrest, h⟩ := bind_eq_ok.1 h
      cases h
      rw [if_pos hblank, ih hrest, Members.map_append]
      rfl
    · rename_i hblank
      obtain ⟨m, hm, h⟩ := bind_eq_ok.1 h
      obtain ⟨_, ⟨⟩, h⟩ := bind_eq_ok.1 h
      obtain ⟨rest, hrest, h⟩ := bind_eq_ok.1 h
      cases h
      rw [if_neg hblank, hg name.node m hm, ih hrest, Members.map_append]
      rfl

theorem Carries.membersOfSpecs (hg : Carries s s' type g) {specs : List (Spanned ConstSpec)}
    (h : membersOfSpecs s type current specs = .ok r) :
    membersOfSpecs s' type current specs = .ok (r.map g) := by
  induction specs generalizing current r with
  | nil =>
    cases h
    rfl
  | cons spec specs ih =>
    rw [Enum.membersOfSpecs] at h ⊢
    dsimp only at h ⊢
    split at h
    · rename_i htype
      obtain ⟨first, hfirst, h⟩ := bind_eq_ok.1 h
      obtain ⟨rest, hrest, h⟩ := bind_eq_ok.1 h
      cases h
      rw [if_pos htype, hg.membersOfNames hfirst, ih hrest, Members.map_append]
      rfl
    · rename_i htype
      obtain ⟨_, ⟨⟩, h⟩ := bind_eq_ok.1 h
      obtain ⟨rest, hrest, h⟩ := bind_eq_ok.1 h
      cases h
      rw [if_neg htype, ih hrest, Members.map_append]
      rfl

theorem Carries.membersOfFile (hg : Carries s s' type g) {f : File}
    (h : membersOfFile s type f = .ok r) : membersOfFile s' type f = .ok (r.map g) :=
  gather_map (fun _ _ _ hr => hg.membersOfSpecs hr) h

theorem gather_perm {f : α → Except GenerateError Members} {xs ys : List α} (hperm : xs.Perm ys)
    (h : gather f xs = .ok r) : ∃ r', gather f ys = .ok r' ∧ r.values.Perm r'.values ∧
      r'.hasPlaceholder = r.hasPlaceholder := by
  induction hperm generalizing r with
  | nil => exact ⟨r, h, .refl _, rfl⟩
  | cons x _ ih =>
    obtain ⟨first, hfirst, h⟩ := bind_eq_ok.1 h
    obtain ⟨rest, hrest, h⟩ := bind_eq_ok.1 h
    cases h
    obtain ⟨r', hr', hvalues, hplaceholder⟩ := ih hrest
    refine ⟨first.append r', ?_, hvalues.append_left _, ?_⟩
    · rw [gather, hfirst, hr']
      rfl
    · simp [Members.append, hplaceholder]
  | swap x y xs =>
    obtain ⟨second, hsecond, h⟩ := bind_eq_ok.1 h
    obtain ⟨tail, htail, h⟩ := bind_eq_ok.1 h
    obtain ⟨first, hfirst, htail⟩ := bind_eq_ok.1 htail
    obtain ⟨rest, hrest, htail⟩ := bind_eq_ok.1 htail
    cases h
    cases htail
    refine ⟨first.append (second.append rest), ?_, ?_, ?_⟩
    · rw [gather, gather, hfirst, hsecond, hrest]
      rfl
    · have hswap : (second.values ++ first.values).Perm (first.values ++ second.values) :=
        List.perm_append_comm
      simpa [Members.append] using hswap.append_right rest.values
    · simp [Members.append, Bool.or_left_comm]
  | trans _ _ ih ih' =>
    obtain ⟨r', hr', hvalues, hplaceholder⟩ := ih h
    obtain ⟨r'', hr'', hvalues', hplaceholder'⟩ := ih' hr'
    exact ⟨r'', hr'', hvalues.trans hvalues', hplaceholder'.trans hplaceholder⟩

theorem gather_insert {f : α → Except GenerateError Members} {l₁ l₂ : List α}
    (hx : f x = .ok .empty) : gather f (l₁ ++ x :: l₂) = gather f (l₁ ++ l₂) := by
  induction l₁ with
  | nil =>
    rw [List.nil_append, List.nil_append, gather, hx]
    cases gather f l₂ <;> simp
  | cons y l₁ ih => rw [List.cons_append, List.cons_append, gather, gather, ih]

section

variable {p p' : Package}

theorem collect_of_perm (hg : Carries p.symbols p'.symbols type g) (hfiles : p.files.Perm p'.files)
    (h : collect p type = .ok r) : ∃ r', collect p' type = .ok r' ∧
      (r.values.map g).Perm r'.values ∧ r'.hasPlaceholder = r.hasPlaceholder :=
  gather_perm hfiles (gather_map (fun _ _ _ hr => hg.membersOfFile hr) h)

theorem collect_insert (hg : Carries p.symbols p'.symbols type g) {l₁ l₂ : List File}
    (hfiles : p.files = l₁ ++ l₂) (hfiles' : p'.files = l₁ ++ f :: l₂) (hf : constDecls f = [])
    (h : collect p type = .ok r) : collect p' type = .ok (r.map g) := by
  have hempty : membersOfFile p'.symbols type f = .ok .empty := by rw [membersOfFile, hf]; rfl
  rw [collect, hfiles', gather_insert hempty, ← hfiles]
  exact gather_map (fun _ _ _ hr => hg.membersOfFile hr) h

theorem carries_id (hs : s.Agrees s')
    (hhints : ∀ type, s.receiverHint? type = s'.receiverHint? type) (type : String) :
    Carries s s' type id := by
  intro name m h
  have hhint : hintOf s' type name = m.receiverHint := by
    rw [receiverHint_of_resolve h, (resolve_ok h).1, hintOf, hintOf, funext hs.constant?]
    simp only [owner_of_agrees hs, hhints]
  rw [resolve_of_agrees hs h, hhint]
  rfl

end

theorem distinctSorted_withHint (hint : String) (ms : List Member) :
    distinctSorted (ms.map (·.withHint hint)) = (distinctSorted ms).map (·.withHint hint) := by
  rw [distinctSorted, distinctSorted, distinctBy_map]
  exact (List.map_mergeSort (f := fun m : Member => m.withHint hint) fun _ _ _ _ => rfl).symm

theorem searchWithin_withHint (hint : String) (ms : List Member) (literal : String)
    (n lo hi : Nat) : searchWithin (ms.map (·.withHint hint)) literal n lo hi =
      searchWithin ms literal n lo hi := by
  induction n generalizing lo hi with
  | zero => rfl
  | succ n ih =>
    rw [searchWithin, searchWithin, List.getElem?_map]
    by_cases hlt : lo < hi
    · rw [if_pos hlt, if_pos hlt]
      cases ms[(lo + hi) / 2]? with
      | none => rfl
      | some m =>
        have hliteral : (m.withHint hint).literal = m.literal := rfl
        simp only [Option.map_some, hliteral, ih]
    · rw [if_neg hlt, if_neg hlt]

theorem search_withHint (hint : String) (ms : List Member) (literal : String) :
    search (ms.map (·.withHint hint)) literal = search ms literal := by
  rw [search, List.length_map, searchWithin_withHint, ← search]

def Reduced.withHint (r : Reduced) (type hint : String) : Reduced :=
  { r with
    values := r.values.map (·.withHint hint)
    receiver := if hint = "" then defaultReceiver type else hint
    default? := r.default?.map (·.withHint hint) }

theorem reduce_withHint (type hint : String) (ms : List Member) (policy : Policy) :
    reduce type (ms.map (·.withHint hint)) policy =
      (reduce type ms policy).map (·.withHint type hint) := by
  rw [reduce, reduce, distinctSorted_withHint]
  cases distinctSorted ms with
  | nil => rfl
  | cons least rest =>
    have hsearch := search_withHint hint (least :: rest) least.kind.zero
    have hat : ∀ i : Nat, ((least :: rest).map (·.withHint hint))[i]? =
        (least :: rest)[i]?.map fun m => m.withHint hint := fun i => List.getElem?_map
    have herase : ∀ i, ((least :: rest).map (·.withHint hint)).eraseIdx i =
        ((least :: rest).eraseIdx i).map (·.withHint hint) := fun i => List.eraseIdx_map ..
    rw [List.map_cons] at hsearch hat herase ⊢
    dsimp only [Member.withHint] at hsearch hat herase ⊢
    rw [hsearch]
    split
    · rfl
    · cases search (least :: rest) least.kind.zero with
      | none => rfl
      | some i =>
        simp only [Except.map, Reduced.withHint, Option.bind_some, hat, herase, Option.isNone_map,
          apply_ite (List.map fun m : Member => m.withHint hint)]
        rfl

/-- All that is collected for a type are constants of that type, which is no alias. -/
structure Proper (p : Package) (type : String) : Prop where
  notAlias : ∀ d ∈ p.symbols.types.find? type, d.isAlias = false
  typed : ∀ r, collect p type = .ok r → ∀ m ∈ r.values,
    ∃ c, p.symbols.constant? m.name = some c ∧ c.type = .typed type

namespace Proper

variable {p p' : Package} {dir : Disk.Path} {sources : List Source}

theorem hintOf (h : Proper p type) (hs : p.symbols.Agrees p'.symbols) (hr : collect p type = .ok r)
    (hm : m ∈ r.values) :
    hintOf p'.symbols type m.name = (p'.symbols.receiverHint? type).getD "" := by
  obtain ⟨c, hc, htype⟩ := h.typed r hr m hm
  have howner : owner p'.symbols type c = type := by
    rw [← owner_of_agrees hs, owner, htype]
    exact TypeTable.resolveAlias_eq_self h.notAlias
  rw [Enum.hintOf, ← hs.constant?, hc, Option.bind_some, howner]

theorem collect_insert (h : Proper p type) (hs : p.symbols.Agrees p'.symbols) {l₁ l₂ : List File}
    (hfiles : p.files = l₁ ++ l₂) (hfiles' : p'.files = l₁ ++ f :: l₂) (hf : constDecls f = [])
    (hr : collect p type = .ok r) : collect p' type =
      .ok (r.map (·.withHint ((p'.symbols.receiverHint? type).getD ""))) := by
  rw [Enum.collect_insert (carries_of_agrees hs type) hfiles hfiles' hf hr, Members.map,
    Members.map, List.map_congr_left fun m hm => by rw [h.hintOf hs hr hm]]

theorem receiver_eq (h : Proper p type) (hp : ofSources dir sources = .ok p)
    (hr : collect p type = .ok r) (hreduce : reduce type r.values policy = .ok reduced) :
    let hint := (p.symbols.receiverHint? type).getD ""
    reduced.receiver = if hint = "" then defaultReceiver type else hint := by
  obtain ⟨m, hm, hreceiver⟩ := exists_receiver_of_reduce hreduce
  obtain ⟨-, -, -, -, -, hresolve⟩ := exists_line_of_collect hp hr hm
  rw [hreceiver, receiverHint_of_resolve hresolve, h.hintOf (.refl _) hr hm]

end Proper

end

end GoEnum.Enum
