import GoEnum.Disk.Path

namespace GoEnum.Disk

namespace Component

variable {a b c : Component}

theorem le_total (a b : Component) : (a.le b || b.le a) = true := by
  cases a <;> cases b <;> simp [Component.le, rank, String.le_total]

theorem le_trans (hab : a.le b = true) (hbc : b.le c = true) : a.le c = true := by
  cases a <;> cases b <;> cases c <;>
    first
      | exact decide_eq_true (String.le_trans (of_decide_eq_true hab) (of_decide_eq_true hbc))
      | simp_all [Component.le, rank]

theorem le_antisymm (hab : a.le b = true) (hba : b.le a = true) : a = b := by
  cases a <;> cases b <;>
    first
      | exact congrArg name (String.le_antisymm (of_decide_eq_true hab) (of_decide_eq_true hba))
      | simp_all [Component.le, rank]

end Component

namespace Path

theorem leComponents_total (as bs : List Component) :
    (leComponents as bs || leComponents bs as) = true := by
  induction as generalizing bs with
  | nil => rfl
  | cons a as ih =>
    cases bs with
    | nil => rfl
    | cons b bs =>
      by_cases hab : a = b
      · simpa [leComponents, hab] using ih bs
      · simpa [leComponents, hab, Ne.symm hab] using a.le_total b

theorem leComponents_trans {as bs cs : List Component} (hab : leComponents as bs = true)
    (hbc : leComponents bs cs = true) : leComponents as cs = true := by
  induction as generalizing bs cs with
  | nil => rfl
  | cons a as ih =>
    obtain _ | ⟨b, bs⟩ := bs
    · cases hab
    obtain _ | ⟨c, cs⟩ := cs
    · cases hbc
    rw [leComponents] at hab hbc ⊢
    by_cases h : a = b
    · subst h
      rw [if_pos rfl] at hab
      by_cases hac : a = c
      · rw [if_pos hac] at hbc ⊢
        exact ih hab hbc
      · rw [if_neg hac] at hbc ⊢
        exact hbc
    · rw [if_neg h] at hab
      split at hbc
      · rename_i hbc'
        subst hbc'
        rwa [if_neg h]
      · have hac : a ≠ c := fun hac => h (Component.le_antisymm hab (hac ▸ hbc))
        rw [if_neg hac]
        exact Component.le_trans hab hbc

theorem leComponents_antisymm {as bs : List Component} (hab : leComponents as bs = true)
    (hba : leComponents bs as = true) : as = bs := by
  induction as generalizing bs with
  | nil =>
    cases bs with
    | nil => rfl
    | cons b bs => cases hba
  | cons a as ih =>
    obtain _ | ⟨b, bs⟩ := bs
    · cases hab
    rw [leComponents] at hab hba
    by_cases h : a = b
    · rw [if_pos h] at hab
      rw [if_pos h.symm] at hba
      rw [h, ih hab hba]
    · rw [if_neg h] at hab
      rw [if_neg (Ne.symm h)] at hba
      exact absurd (Component.le_antisymm hab hba) h

theorem le_total (p q : Path) : (p.le q || q.le p) = true := leComponents_total _ _

theorem le_trans {p q r : Path} (hpq : p.le q = true) (hqr : q.le r = true) : p.le r = true :=
  leComponents_trans hpq hqr

theorem le_antisymm {p q : Path} (hpq : p.le q = true) (hqp : q.le p = true) :
    p.components = q.components := leComponents_antisymm hpq hqp

def Before (p q : Path) : Prop := p.le q = true ∧ p.components ≠ q.components

theorem Before.asymm {p q : Path} (h : p.Before q) : ¬ q.Before p :=
  fun h' => h.2 (le_antisymm h.1 h'.1)

end Path

end GoEnum.Disk
