import GoEnum.Proofs.Enum.Reduction

namespace GoEnum.Enum

def least? (members : List Member) : Option Member := members.find? fun m => members.all m.le

def LacksText (policy : Policy) (least : Member) : Prop :=
  least.kind.isInteger ∧ policy.preferTextual ∧ least.isTextual = false

/-- What a reduced set is made of. The least member speaks for the whole type, and the zero member
is left out where it is there and unknown input becomes zero. -/
structure Selects (type : String) (members : List Member) (policy : Policy) (least : Member)
    (r : Reduced) : Prop where
  kind : r.kind = least.kind
  textual : r.isTextual = least.isTextual
  receiver : r.receiver =
    if least.receiverHint = "" then defaultReceiver type else least.receiverHint
  default : r.default? = members.find? (·.literal == r.kind.zero)
  errorOnUnknown : r.errorOnUnknown =
    (policy.errorOnUnknown || policy.hasPlaceholder || r.default?.isNone)
  increasing : r.values.Pairwise (·.literal < ·.literal)
  first : ∀ m ∈ r.values, members.find? (·.literal == m.literal) = some m
  literals : ∀ literal, (∃ m ∈ r.values, m.literal = literal) ↔
    (∃ m ∈ members, m.literal = literal) ∧ ¬(literal = r.kind.zero ∧ r.errorOnUnknown = false)

inductive Reduction (type : String) (members : List Member) (policy : Policy) :
    Except GenerateError Reduced → Prop
  | discovery : members = [] → Reduction type members policy (.error (.discovery type))
  | capability : least? members = some least → LacksText policy least →
      Reduction type members policy (.error (.capability type))
  | ok : least? members = some least → ¬LacksText policy least →
      Selects type members policy least r → Reduction type members policy (.ok r)

section

variable {type : String} {members : List Member} {policy : Policy} {least : Member}

theorem distinctSorted_eq_nil : distinctSorted members = [] ↔ members = [] := by
  constructor
  · intro h
    apply List.eq_nil_iff_forall_not_mem.2
    intro m hm
    obtain ⟨k, hk, -⟩ := exists_mem_distinctSorted hm
    rw [h] at hk
    cases hk
  · rintro rfl
    rw [distinctSorted, Package.distinctBy, List.mergeSort_nil]

theorem least?_of_distinctSorted (h : distinctSorted members = least :: rest) :
    least? members = some least := by
  have hsorted := pairwise_distinctSorted members
  rw [h, List.pairwise_cons] at hsorted
  have hleast : ∀ m ∈ members, least.literal ≤ m.literal := by
    intro m hm
    obtain ⟨k, hk, hliteral⟩ := exists_mem_distinctSorted hm
    rw [h] at hk
    rw [← hliteral]
    rcases List.mem_cons.1 hk with rfl | hk
    · exact String.le_refl _
    · exact Std.le_of_lt (hsorted.1 k hk)
  have hmem : least ∈ members := mem_of_mem_distinctSorted (h ▸ List.mem_cons_self)
  have hsame : ∀ m ∈ members, members.all m.le = (m.literal == least.literal) := by
    intro m hm
    rw [Bool.eq_iff_iff, List.all_eq_true, beq_iff_eq]
    constructor
    · intro hall
      exact String.le_antisymm (of_decide_eq_true (hall least hmem)) (hleast m hm)
    · intro hliteral k hk
      apply decide_eq_true
      rw [hliteral]
      exact hleast k hk
  rw [least?, List.find?_congr hsame, ← find?_distinctSorted, h]
  simp

theorem Reduces.literals {r : Reduced} (h : Reduces members policy r) (literal : String) :
    (∃ m ∈ r.values, m.literal = literal) ↔ (∃ m ∈ members, m.literal = literal) ∧
      ¬(literal = r.kind.zero ∧ r.errorOnUnknown = false) := by
  constructor
  · rintro ⟨m, hm, rfl⟩
    refine ⟨⟨m, h.mem_of_mem_values hm, rfl⟩, ?_⟩
    rintro ⟨hzero, hpolicy⟩
    exact h.literal_ne_zero hpolicy hm hzero
  · rintro ⟨⟨m, hm, rfl⟩, hnot⟩
    exact h.exists_mem_values hm fun hpolicy hzero => hnot ⟨hzero, hpolicy⟩

theorem Reduces.sublist {r : Reduced} (h : Reduces members policy r) :
    r.values.Sublist (distinctSorted members) := by
  rw [h.values]
  split
  · exact List.Sublist.refl _
  · exact List.filter_sublist

theorem Reduces.first {r : Reduced} (h : Reduces members policy r) :
    ∀ m ∈ r.values, members.find? (·.literal == m.literal) = some m := by
  intro m hm
  rw [← find?_distinctSorted]
  exact Package.find?_of_mem (nodup_distinctSorted members) (h.sublist.subset hm)

theorem reduce_cons (h : distinctSorted members = least :: rest) (type : String) (policy : Policy) :
    LacksText policy least ∧ reduce type members policy = .error (.capability type) ∨
      ¬LacksText policy least ∧ ∃ r, reduce type members policy = .ok r ∧ r.kind = least.kind ∧
        r.isTextual = least.isTextual ∧ r.receiver =
          if least.receiverHint = "" then defaultReceiver type else least.receiverHint := by
  rw [reduce, h]
  dsimp only
  split
  · rename_i hlacks
    exact .inl ⟨by simpa [LacksText, and_assoc] using hlacks, rfl⟩
  · rename_i hlacks
    exact .inr ⟨by simpa [LacksText, and_assoc] using hlacks, _, rfl, rfl, rfl, rfl⟩

theorem reduction_reduce (type : String) (members : List Member) (policy : Policy) :
    Reduction type members policy (reduce type members policy) := by
  cases h : distinctSorted members with
  | nil =>
    rw [reduce, h]
    exact .discovery (distinctSorted_eq_nil.1 h)
  | cons least rest =>
    have hleast := least?_of_distinctSorted h
    obtain ⟨hlacks, herror⟩ | ⟨hlacks, r, hok, hkind, htextual, hreceiver⟩ :=
      reduce_cons h type policy
    · rw [herror]
      exact .capability hleast hlacks
    · have hreduces := reduces_of_reduce hok
      rw [hok]
      exact .ok hleast hlacks {
        kind := hkind
        textual := htextual
        receiver := hreceiver
        default := by rw [hreduces.default, find?_distinctSorted]
        errorOnUnknown := hreduces.errorOnUnknown
        increasing := (pairwise_distinctSorted members).sublist hreduces.sublist
        first := hreduces.first
        literals := hreduces.literals }

theorem Selects.values_eq {r r' : Reduced} (h : Selects type members policy least r)
    (h' : Selects type members policy least r')
    (hliterals : ∀ m ∈ r.values, ∃ k ∈ r'.values, k.literal = m.literal)
    (hliterals' : ∀ m ∈ r'.values, ∃ k ∈ r.values, k.literal = m.literal) :
    r.values = r'.values := by
  have hsubset : ∀ {r r' : Reduced}, Selects type members policy least r →
      Selects type members policy least r' →
      (∀ m ∈ r.values, ∃ k ∈ r'.values, k.literal = m.literal) → r.values ⊆ r'.values := by
    intro r r' h h' hliterals m hm
    obtain ⟨k, hk, hliteral⟩ := hliterals m hm
    have hfirst := h'.first k hk
    rw [hliteral, h.first m hm] at hfirst
    rwa [Option.some.inj hfirst]
  have hnodup : ∀ {r : Reduced}, Selects type members policy least r → r.values.Nodup := by
    intro r h
    apply h.increasing.imp
    rintro a b hlt rfl
    exact String.lt_irrefl _ hlt
  apply List.Perm.eq_of_pairwise _ h.increasing h'.increasing
  · apply (List.perm_ext_iff_of_nodup (hnodup h) (hnodup h')).2
    exact fun m => ⟨fun hm => hsubset h h' hliterals hm, fun hm => hsubset h' h hliterals' hm⟩
  · intro a b _ _ hab hba
    exact absurd (String.lt_trans hab hba) (String.lt_irrefl _)

theorem Selects.unique {r r' : Reduced} (h : Selects type members policy least r)
    (h' : Selects type members policy least r') : r = r' := by
  have hkind : r.kind = r'.kind := h.kind.trans h'.kind.symm
  have hdefault : r.default? = r'.default? := by rw [h.default, h'.default, hkind]
  have hunknown : r.errorOnUnknown = r'.errorOnUnknown := by
    rw [h.errorOnUnknown, h'.errorOnUnknown, hdefault]
  have hliterals : ∀ literal, (∃ m ∈ r.values, m.literal = literal) ↔
      ∃ m ∈ r'.values, m.literal = literal := by
    intro literal
    rw [h.literals, h'.literals, hkind, hunknown]
  have hvalues := h.values_eq h' (fun m hm => (hliterals m.literal).1 ⟨m, hm, rfl⟩)
    fun m hm => (hliterals m.literal).2 ⟨m, hm, rfl⟩
  obtain ⟨values, kind, receiver, textual, default, unknown⟩ := r
  obtain ⟨values', kind', receiver', textual', default', unknown'⟩ := r'
  cases hvalues
  cases hkind
  cases hdefault
  cases hunknown
  cases h.textual.trans h'.textual.symm
  cases h.receiver.trans h'.receiver.symm
  rfl

theorem Reduction.unique {a b : Except GenerateError Reduced}
    (ha : Reduction type members policy a) (hb : Reduction type members policy b) : a = b := by
  cases ha with
  | discovery hnil =>
    subst hnil
    cases hb with
    | discovery => rfl
    | capability hleast => cases hleast
    | ok hleast => cases hleast
  | capability hleast hlacks =>
    cases hb with
    | discovery hnil =>
      subst hnil
      cases hleast
    | capability => rfl
    | ok hleast' hnot =>
      cases hleast.symm.trans hleast'
      exact absurd hlacks hnot
  | ok hleast hnot hselects =>
    cases hb with
    | discovery hnil =>
      subst hnil
      cases hleast
    | capability hleast' hlacks =>
      cases hleast.symm.trans hleast'
      exact absurd hlacks hnot
    | ok hleast' _ hselects' =>
      cases hleast.symm.trans hleast'
      rw [hselects.unique hselects']

/-- Members are reduced as the specification says: there is always a result, and it is the only
one that meets it. -/
theorem reduce_iff_reduction (type : String) (members : List Member) (policy : Policy)
    (result : Except GenerateError Reduced) :
    reduce type members policy = result ↔ Reduction type members policy result := by
  constructor
  · rintro rfl
    exact reduction_reduce type members policy
  · exact (reduction_reduce type members policy).unique

/-- All that a reduced set stands for: the members with a case, and the zero member if it has
none. -/
def Reduced.all (r : Reduced) : List Member :=
  r.values ++ (r.default?.filter fun zero => !r.values.any (·.same zero)).toList

theorem any_same {z : Member} {ms : List Member} :
    ms.any (·.same z) = true ↔ ∃ m ∈ ms, m.literal = z.literal := by
  simp [Member.same]

theorem Reduces.all_perm {r : Reduced} (h : Reduces members policy r) :
    r.all.Perm (distinctSorted members) := by
  have hnodup := nodup_distinctSorted members
  have hdefault := h.default
  cases hpolicy : r.errorOnUnknown with
  | true =>
    have hvalues : r.values = distinctSorted members := by rw [h.values, hpolicy, if_pos rfl]
    have hnone : (r.default?.filter fun zero => !r.values.any (·.same zero)) = none := by
      apply Option.filter_eq_none_iff.2
      intro z hz
      have hmem : z ∈ r.values := hvalues ▸ List.mem_of_find?_eq_some (hdefault.symm.trans hz)
      simpa using any_same.2 ⟨z, hmem, rfl⟩
    rw [Reduced.all, hnone, hvalues, Option.toList_none, List.append_nil]
  | false =>
    obtain ⟨z, -, hz, hzero⟩ := h.exists_default hpolicy
    have hvalues : r.values = (distinctSorted members).filter (·.literal != r.kind.zero) := by
      rw [h.values, hpolicy]
      rfl
    have hsome : (r.default?.filter fun zero => !r.values.any (·.same zero)) = some z := by
      apply Option.filter_eq_some_iff.2
      refine ⟨hz, ?_⟩
      rw [Bool.not_eq_true', ← Bool.not_eq_true, any_same]
      rintro ⟨m, hm, hliteral⟩
      exact h.literal_ne_zero hpolicy hm (hliteral.trans hzero)
    have hrest : (distinctSorted members).filter (·.literal == r.kind.zero) = [z] := by
      rw [Package.filter_eq_find? hnodup, ← hdefault, hz]
      rfl
    have hsplit := List.filter_append_perm (·.literal == r.kind.zero) (distinctSorted members)
    rw [Reduced.all, hsome, Option.toList_some, hvalues, ← hrest]
    exact List.perm_append_comm.trans hsplit

theorem distinctSorted_distinctSorted (members : List Member) :
    distinctSorted (distinctSorted members) = distinctSorted members := by
  have hnodup := Package.nodup_distinctBy Member.literal members
  have hperm : (distinctSorted members).Perm (Package.distinctBy Member.literal members) :=
    List.mergeSort_perm _ _
  rw [distinctSorted_of_perm hperm (nodup_distinctSorted members), distinctSorted,
    Package.distinctBy_eq_self hnodup]
  rfl

theorem reduce_distinctSorted (type : String) (members : List Member) (policy : Policy) :
    reduce type (distinctSorted members) policy = reduce type members policy := by
  rw [reduce, distinctSorted_distinctSorted, ← reduce]

/-- What is reduced stays as it is: to reduce all the members of a reduced set gives the set. -/
theorem reduce_idempotent {r : Reduced} (h : reduce type members policy = .ok r) :
    reduce type r.all policy = .ok r := by
  have hperm := (reduces_of_reduce h).all_perm
  have hnodup := (hperm.map (·.literal)).nodup_iff.2 (nodup_distinctSorted members)
  calc
    reduce type r.all policy = reduce type (distinctSorted members) policy :=
      reduce_of_perm hperm hnodup type policy
    _ = reduce type members policy := reduce_distinctSorted type members policy
    _ = .ok r := h

end

def counts : List Member :=
  [⟨"Two", .signed, "2", false, "c"⟩, ⟨"Zero", .signed, "0", false, "z"⟩,
    ⟨"Ten", .signed, "10", false, "c"⟩, ⟨"None", .signed, "0", false, "n"⟩]

def countSet : Reduced where
  values := [⟨"Ten", .signed, "10", false, "c"⟩, ⟨"Two", .signed, "2", false, "c"⟩]
  kind := .signed
  receiver := "z"
  isTextual := false
  default? := some ⟨"Zero", .signed, "0", false, "z"⟩
  errorOnUnknown := false

theorem reduce_idempotent_counts :
    reduce "Count" counts ⟨false, false, false⟩ = .ok countSet ∧
      countSet.all.map (·.name) = ["Ten", "Two", "Zero"] ∧
      reduce "Count" countSet.all ⟨false, false, false⟩ = .ok countSet := by
  have hsorted : distinctSorted counts =
      [⟨"Zero", .signed, "0", false, "z"⟩, ⟨"Ten", .signed, "10", false, "c"⟩,
        ⟨"Two", .signed, "2", false, "c"⟩] := by
    have hdistinct : Package.distinctBy Member.literal counts =
        [⟨"Two", .signed, "2", false, "c"⟩, ⟨"Zero", .signed, "0", false, "z"⟩,
          ⟨"Ten", .signed, "10", false, "c"⟩] := by decide
    rw [distinctSorted, hdistinct]
    simp [List.mergeSort, Member.le]
  have hreduce : reduce "Count" counts ⟨false, false, false⟩ = .ok countSet := by
    rw [reduce, hsorted]
    decide
  exact ⟨hreduce, by decide, reduce_idempotent hreduce⟩

end GoEnum.Enum
