import GoEnum.Package.TypeTable
import Mathlib.Data.List.Find
import Mathlib.Data.List.Nodup

namespace GoEnum.Package

variable [DecidableEq β] {key : α → β} {xs ys : List α}

theorem distinctBy_sublist (key : α → β) (xs : List α) : (distinctBy key xs).Sublist xs := by
  induction xs with
  | nil => exact .slnil
  | cons x xs ih => exact (List.filter_sublist.trans ih).cons_cons x

theorem mem_of_mem_distinctBy (h : x ∈ distinctBy key xs) : x ∈ xs :=
  (distinctBy_sublist key xs).subset h

theorem distinctBy_map (key : α → β) (f : γ → α) (xs : List γ) :
    distinctBy key (xs.map f) = (distinctBy (key ∘ f) xs).map f := by
  induction xs with
  | nil => rfl
  | cons x xs ih =>
    rw [List.map_cons, distinctBy, distinctBy, ih, List.map_cons, List.filter_map]
    rfl

theorem exists_mem_distinctBy (key : α → β) (h : x ∈ xs) :
    ∃ y ∈ distinctBy key xs, key y = key x := by
  induction xs with
  | nil => cases h
  | cons y xs ih =>
    by_cases hy : key y = key x
    · exact ⟨y, List.mem_cons_self, hy⟩
    · have hmem : x ∈ xs := by
        rcases List.mem_cons.1 h with rfl | h
        · exact absurd rfl hy
        · exact h
      obtain ⟨z, hz, hkey⟩ := ih hmem
      refine ⟨z, List.mem_cons_of_mem y (List.mem_filter.2 ⟨hz, ?_⟩), hkey⟩
      rw [hkey]
      simpa using Ne.symm hy

theorem nodup_distinctBy (key : α → β) (xs : List α) : ((distinctBy key xs).map key).Nodup := by
  induction xs with
  | nil => exact List.nodup_nil
  | cons x xs ih =>
    rw [distinctBy, List.map_cons, List.nodup_cons]
    refine ⟨fun hmem => ?_, ih.sublist (List.filter_sublist.map key)⟩
    obtain ⟨y, hy, hkey⟩ := List.mem_map.1 hmem
    have hne := (List.mem_filter.1 hy).2
    simp [hkey] at hne

theorem find?_distinctBy (key : α → β) (xs : List α) (k : β) :
    (distinctBy key xs).find? (fun x => key x == k) = xs.find? (fun x => key x == k) := by
  induction xs with
  | nil => rfl
  | cons x xs ih =>
    rw [distinctBy, List.find?_cons, List.find?_cons]
    cases hx : key x == k with
    | true => rfl
    | false =>
      rw [List.find?_filter, ← ih]
      apply List.find?_congr
      intro y _
      by_cases hy : key y = k
      · have hne : k ≠ key x := fun heq => by simp [heq] at hx
        simp [hy, hne]
      · simp [hy]

theorem rel_of_mem_distinctBy {r : α → α → Prop} (h : xs.Pairwise r) (hx : x ∈ distinctBy key xs)
    (hy : y ∈ xs) (hkey : key y = key x) : y = x ∨ r x y := by
  induction xs with
  | nil => cases hy
  | cons z xs ih =>
    rw [List.pairwise_cons] at h
    rcases List.mem_cons.1 hx with rfl | hx
    · exact (List.mem_cons.1 hy).imp_right (h.1 y)
    · obtain ⟨hx, hne⟩ := List.mem_filter.1 hx
      rcases List.mem_cons.1 hy with rfl | hy
      · simp [hkey] at hne
      · exact ih h.2 hx hy

theorem mem_distinctBy_of_rel {r : α → α → Prop} (hasymm : ∀ a b, r a b → ¬ r b a)
    (h : xs.Pairwise r) (hx : x ∈ xs) (hfirst : ∀ y ∈ xs, key y = key x → y = x ∨ r x y) :
    x ∈ distinctBy key xs := by
  obtain ⟨y, hy, hkey⟩ := exists_mem_distinctBy key hx
  rcases hfirst y (mem_of_mem_distinctBy hy) hkey with rfl | hxy
  · exact hy
  · rcases rel_of_mem_distinctBy h hy hx hkey.symm with rfl | hyx
    · exact hy
    · exact absurd hyx (hasymm _ _ hxy)

theorem distinctBy_eq_self (h : (xs.map key).Nodup) : distinctBy key xs = xs := by
  induction xs with
  | nil => rfl
  | cons x xs ih =>
    rw [List.map_cons, List.nodup_cons] at h
    rw [distinctBy, ih h.2, List.filter_eq_self.2 fun y hy => ?_]
    have hne : key y ≠ key x := fun heq => h.1 (heq ▸ List.mem_map_of_mem hy)
    simpa using hne

theorem find?_of_mem (hkeys : (xs.map key).Nodup) (hx : x ∈ xs) :
    xs.find? (fun y => key y == key x) = some x := by
  have hsome : (xs.find? fun y => key y == key x).isSome := List.find?_isSome.2 ⟨x, hx, by simp⟩
  obtain ⟨y, hy⟩ := Option.isSome_iff_exists.1 hsome
  have hkey : key y = key x := by simpa using List.find?_some hy
  rw [hy, List.inj_on_of_nodup_map hkeys (List.mem_of_find?_eq_some hy) hx hkey]

theorem filter_eq_find? (hkeys : (xs.map key).Nodup) (k : β) :
    xs.filter (fun x => key x == k) = (xs.find? fun x => key x == k).toList := by
  induction xs with
  | nil => rfl
  | cons x xs ih =>
    rw [List.map_cons, List.nodup_cons] at hkeys
    rw [List.filter_cons, List.find?_cons]
    cases hx : key x == k with
    | false => exact ih hkeys.2
    | true =>
      have hnone : xs.filter (fun y => key y == k) = [] := by
        apply List.filter_eq_nil_iff.2
        intro y hy hkey
        rw [beq_iff_eq] at hx hkey
        exact hkeys.1 (hx ▸ hkey ▸ List.mem_map_of_mem hy)
      rw [if_pos rfl, hnone]
      rfl

theorem find?_eq_of_perm (h : xs.Perm ys) (hkeys : (xs.map key).Nodup) (k : β) :
    xs.find? (fun x => key x == k) = ys.find? (fun x => key x == k) := by
  refine List.find?_eq_find?_of_perm h fun x hx y hy => ?_
  have hx : x ∈ xs ∧ key x = k := by simpa using hx
  have hy : y ∈ xs ∧ key y = k := by simpa using hy
  exact List.inj_on_of_nodup_map hkeys hx.1 hy.1 (hx.2.trans hy.2.symm)

theorem find?_distinctBy_of_perm (h : xs.Perm ys) (hkeys : (xs.map key).Nodup) (k : β) :
    (distinctBy key xs).find? (fun x => key x == k) =
      (distinctBy key ys).find? (fun x => key x == k) := by
  have hkeys' : (ys.map key).Nodup := (h.map key).nodup_iff.1 hkeys
  rw [distinctBy_eq_self hkeys, distinctBy_eq_self hkeys']
  exact find?_eq_of_perm h hkeys k

theorem filter_eq_eraseIdx (hnodup : (xs.map key).Nodup) (h : xs[i]? = some x) :
    xs.filter (fun y => key y != key x) = xs.eraseIdx i := by
  induction xs generalizing i with
  | nil => cases h
  | cons y xs ih =>
    rw [List.map_cons, List.nodup_cons] at hnodup
    cases i with
    | zero =>
      cases h
      have hall : ∀ z ∈ xs, key z != key x := by
        intro z hz
        exact bne_iff_ne.2 fun heq => hnodup.1 (heq ▸ List.mem_map_of_mem hz)
      rw [List.filter_cons_of_neg (by simp), List.filter_eq_self.2 hall, List.eraseIdx_cons_zero]
    | succ i =>
      rw [List.getElem?_cons_succ] at h
      have hy : key y ≠ key x := by
        intro heq
        exact hnodup.1 (heq ▸ List.mem_map_of_mem (List.mem_of_getElem? h))
      rw [List.filter_cons_of_pos (p := fun z => key z != key x) (bne_iff_ne.2 hy),
        ih hnodup.2 h, List.eraseIdx_cons_succ]

end GoEnum.Package
