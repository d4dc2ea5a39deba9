import GoEnum.Enum.Reduction
import GoEnum.Proofs.Package.Distinct
import Mathlib.Data.List.Basic

namespace GoEnum.Enum

theorem mem_of_mem_distinctSorted (h : m ∈ distinctSorted members) : m ∈ members :=
  Package.mem_of_mem_distinctBy ((List.mergeSort_perm _ _).mem_iff.1 h)

theorem exists_mem_distinctSorted (h : m ∈ members) :
    ∃ k ∈ distinctSorted members, k.literal = m.literal := by
  obtain ⟨k, hk, hliteral⟩ := Package.exists_mem_distinctBy Member.literal h
  exact ⟨k, (List.mergeSort_perm _ _).mem_iff.2 hk, hliteral⟩

theorem Member.le_trans (a b c : Member) (hab : a.le b) (hbc : b.le c) : a.le c :=
  decide_eq_true (String.le_trans (of_decide_eq_true hab) (of_decide_eq_true hbc))

theorem Member.le_total (a b : Member) : a.le b || b.le a := by
  simpa [Member.le] using String.le_total a.literal b.literal

theorem nodup_distinctSorted (members : List Member) :
    ((distinctSorted members).map (·.literal)).Nodup :=
  ((List.mergeSort_perm _ _).map _).nodup_iff.2 (Package.nodup_distinctBy Member.literal members)

theorem pairwise_distinctSorted (members : List Member) :
    (distinctSorted members).Pairwise (·.literal < ·.literal) := by
  have hle : (distinctSorted members).Pairwise fun a b => a.le b = true :=
    List.pairwise_mergeSort Member.le_trans Member.le_total _
  have hne := List.pairwise_map.1 (nodup_distinctSorted members)
  exact hle.imp₂ (fun a b hab hab' => Std.lt_of_le_of_ne (of_decide_eq_true hab) hab') hne

theorem find?_distinctSorted (members : List Member) (literal : String) :
    (distinctSorted members).find? (·.literal == literal) =
      members.find? (·.literal == literal) := by
  have hperm : (distinctSorted members).Perm (Package.distinctBy Member.literal members) :=
    List.mergeSort_perm _ _
  rw [Package.find?_eq_of_perm hperm (nodup_distinctSorted members)]
  exact Package.find?_distinctBy Member.literal members literal

theorem distinctSorted_of_perm {xs ys : List Member} (h : xs.Perm ys)
    (hnodup : (xs.map (·.literal)).Nodup) : distinctSorted xs = distinctSorted ys := by
  rw [distinctSorted, distinctSorted, Package.distinctBy_eq_self hnodup,
    Package.distinctBy_eq_self ((h.map _).nodup_iff.1 hnodup)]
  have hsorted : ∀ zs : List Member, (zs.mergeSort Member.le).Pairwise fun a b => a.le b = true :=
    List.pairwise_mergeSort Member.le_trans Member.le_total
  refine List.Perm.eq_of_pairwise ?_ (hsorted xs) (hsorted ys)
    ((List.mergeSort_perm xs _).trans (h.trans (List.mergeSort_perm ys _).symm))
  intro a b ha hb hab hba
  refine List.inj_on_of_nodup_map hnodup (List.mem_mergeSort.1 ha)
    (h.mem_iff.2 (List.mem_mergeSort.1 hb)) ?_
  exact String.le_antisymm (of_decide_eq_true hab) (of_decide_eq_true hba)

theorem reduce_of_perm {xs ys : List Member} (h : xs.Perm ys) (hnodup : (xs.map (·.literal)).Nodup)
    (type : String) (policy : Policy) : reduce type xs policy = reduce type ys policy := by
  rw [reduce, reduce, distinctSorted_of_perm h hnodup]

section

variable {members : List Member}

theorem exists_of_searchWithin (h : searchWithin members literal n lo hi = some i) :
    ∃ m, members[i]? = some m ∧ m.literal = literal := by
  induction n generalizing lo hi with
  | zero => cases h
  | succ n ih =>
    rw [searchWithin] at h
    split at h
    · cases h
    · rename_i m hm
      split at h
      · rename_i hliteral
        cases h
        split at hm
        · exact ⟨m, hm, hliteral⟩
        · cases hm
      · split at h
        · exact ih h
        · exact ih h

variable (hsorted : members.Pairwise (·.literal < ·.literal))

include hsorted

theorem index_le_of_literal_le {m k : Member} {i j : Nat} (hi : members[i]? = some m)
    (hj : members[j]? = some k) (hle : m.literal ≤ k.literal) : i ≤ j := by
  refine Nat.le_of_not_lt fun hlt => ?_
  obtain ⟨hilength, rfl⟩ := List.getElem?_eq_some_iff.1 hi
  obtain ⟨hjlength, rfl⟩ := List.getElem?_eq_some_iff.1 hj
  have hlt := List.pairwise_iff_getElem.1 hsorted j i hjlength hilength hlt
  exact absurd (Std.lt_of_lt_of_le hlt hle) (String.lt_irrefl _)

theorem searchWithin_eq_some (hat : members[i]? = some m) (hlo : lo ≤ i) (hhi : i < hi)
    (hlength : hi ≤ members.length) (hn : hi - lo ≤ n) :
    searchWithin members m.literal n lo hi = some i := by
  induction n generalizing lo hi with
  | zero => omega
  | succ n ih =>
    have hmid : (lo + hi) / 2 < members.length := by omega
    obtain ⟨k, hk⟩ : ∃ k, members[(lo + hi) / 2]? = some k := ⟨_, List.getElem?_eq_getElem hmid⟩
    rw [searchWithin, if_pos (Nat.lt_of_le_of_lt hlo hhi), hk]
    dsimp only
    split
    · rename_i hliteral
      exact congrArg some (Nat.le_antisymm
        (index_le_of_literal_le hsorted hk hat (hliteral ▸ String.le_refl _))
        (index_le_of_literal_le hsorted hat hk (hliteral ▸ String.le_refl _)))
    · rename_i hne
      have hmid : (lo + hi) / 2 ≠ i := by
        rintro rfl
        cases hat.symm.trans hk
        exact hne rfl
      split
      · rename_i hlt
        have hle := index_le_of_literal_le hsorted hk hat (Std.le_of_lt hlt)
        exact ih (by omega) hhi hlength (by omega)
      · rename_i hge
        have hle := index_le_of_literal_le hsorted hat hk (String.not_lt.1 hge)
        exact ih hlo (by omega) (by omega) (by omega)

theorem search_eq_some_iff :
    search members literal = some i ↔ ∃ m, members[i]? = some m ∧ m.literal = literal := by
  constructor
  · exact exists_of_searchWithin
  · rintro ⟨m, hat, rfl⟩
    obtain ⟨hlt, -⟩ := List.getElem?_eq_some_iff.1 hat
    exact searchWithin_eq_some hsorted hat (Nat.zero_le i) hlt (Nat.le_refl _) (Nat.le_refl _)

theorem nodup_literal : (members.map (·.literal)).Nodup := by
  refine List.pairwise_map.2 (hsorted.imp fun {a b} hlt heq => ?_)
  rw [heq] at hlt
  exact String.lt_irrefl _ hlt

theorem bind_search (literal : String) :
    (search members literal).bind (members[·]?) = members.find? (·.literal == literal) := by
  cases h : search members literal with
  | some i =>
    obtain ⟨m, hat, rfl⟩ := (search_eq_some_iff hsorted).1 h
    rw [Option.bind_some, hat]
    exact (Package.find?_of_mem (nodup_literal hsorted) (List.mem_of_getElem? hat)).symm
  | none =>
    refine (List.find?_eq_none.2 fun m hm => ?_).symm
    intro hliteral
    obtain ⟨i, hat⟩ := List.getElem?_of_mem hm
    cases h.symm.trans ((search_eq_some_iff hsorted).2 ⟨m, hat, by simpa using hliteral⟩)

theorem eraseIdx_of_search (h : search members literal = some i) :
    members.eraseIdx i = members.filter (·.literal != literal) := by
  obtain ⟨m, hat, rfl⟩ := (search_eq_some_iff hsorted).1 h
  exact (Package.filter_eq_eraseIdx (nodup_literal hsorted) hat).symm

end

structure Reduces (members : List Member) (policy : Policy) (r : Reduced) : Prop where
  least : ∃ m ∈ members, m.kind = r.kind ∧ m.isTextual = r.isTextual
  textual : r.kind.isInteger → policy.preferTextual → r.isTextual
  default : r.default? = (distinctSorted members).find? (·.literal == r.kind.zero)
  errorOnUnknown : r.errorOnUnknown =
    (policy.errorOnUnknown || policy.hasPlaceholder || r.default?.isNone)
  values : r.values = if r.errorOnUnknown then distinctSorted members
    else (distinctSorted members).filter (·.literal != r.kind.zero)

theorem reduces_of_reduce (h : reduce type members policy = .ok r) : Reduces members policy r := by
  unfold reduce at h
  split at h
  · cases h
  · rename_i least rest hsorted
    split at h
    · cases h
    · rename_i hcapable
      cases h
      have hincreasing := pairwise_distinctSorted members
      have hzero := bind_search hincreasing least.kind.zero
      have hleast : least ∈ distinctSorted members := hsorted ▸ List.mem_cons_self
      rw [← hsorted]
      refine ⟨⟨least, mem_of_mem_distinctSorted hleast, rfl, rfl⟩, ?_, hzero, rfl, ?_⟩
      · intro hkind hpreferred
        simpa [hkind, hpreferred] using hcapable
      · cases hindex : search (distinctSorted members) least.kind.zero with
        | none => simp
        | some i => rw [← eraseIdx_of_search hincreasing hindex]

theorem exists_receiver_of_reduce (h : reduce type members policy = .ok r) : ∃ m ∈ members,
    r.receiver = if m.receiverHint = "" then defaultReceiver type else m.receiverHint := by
  unfold reduce at h
  split at h
  · cases h
  · rename_i least rest hsorted
    split at h
    · cases h
    · cases h
      have hleast : least ∈ distinctSorted members := hsorted ▸ List.mem_cons_self
      exact ⟨least, mem_of_mem_distinctSorted hleast, rfl⟩

namespace Reduces

theorem mem_of_mem_values (h : Reduces members policy r) (hm : m ∈ r.values) : m ∈ members := by
  rw [h.values] at hm
  split at hm
  · exact mem_of_mem_distinctSorted hm
  · exact mem_of_mem_distinctSorted (List.mem_of_mem_filter hm)

theorem exists_mem_values (h : Reduces members policy r) (hm : m ∈ members)
    (hzero : r.errorOnUnknown = false → m.literal ≠ r.kind.zero) :
    ∃ k ∈ r.values, k.literal = m.literal := by
  obtain ⟨k, hk, hliteral⟩ := exists_mem_distinctSorted hm
  refine ⟨k, ?_, hliteral⟩
  rw [h.values]
  split
  · exact hk
  · rename_i hpolicy
    rw [← hliteral] at hzero
    exact List.mem_filter.2 ⟨hk, by simpa using hzero (by simpa using hpolicy)⟩

theorem literal_ne_zero (h : Reduces members policy r) (hpolicy : r.errorOnUnknown = false)
    (hm : m ∈ r.values) : m.literal ≠ r.kind.zero := by
  rw [h.values, hpolicy] at hm
  simpa using (List.mem_filter.1 hm).2

theorem exists_default (h : Reduces members policy r) (hpolicy : r.errorOnUnknown = false) :
    ∃ z ∈ members, r.default? = some z ∧ z.literal = r.kind.zero := by
  have hsome := h.errorOnUnknown
  rw [hpolicy, eq_comm, Bool.or_eq_false_iff] at hsome
  obtain ⟨z, hz⟩ := Option.isSome_iff_exists.1 (by simpa using hsome.2)
  have hfind := h.default ▸ hz
  exact ⟨z, mem_of_mem_distinctSorted (List.mem_of_find?_eq_some hfind), hz,
    by simpa using List.find?_some hfind⟩

end Reduces

end GoEnum.Enum
