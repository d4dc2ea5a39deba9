import GoEnum.Proofs.Constant.Unfolding
import Mathlib.Data.List.Chain
import Mathlib.Data.List.Nodup
import Mathlib.Data.List.Perm.Subperm

/-!
Evaluation with a memory against unfolding without one. A name that is met while it is being
evaluated closes a circle of names, each of which cannot be unfolded any deeper than the next.
-/

namespace GoEnum.Constant

open Syntax

def runFrom (x : Eval α) (m : Memo) : Except EvalError α × Memo := x.run.run m

theorem runFrom_bind (x : Eval α) (f : α → Eval β) (m : Memo) :
    runFrom (x >>= f) m =
      match runFrom x m with
      | (.ok a, m') => runFrom (f a) m'
      | (.error e, m') => (.error e, m') := by
  change (StateT.run (x.run >>= ExceptT.bindCont f) m) = _
  rw [StateT.run_bind]
  change (ExceptT.bindCont f (runFrom x m).1).run (runFrom x m).2 = _
  rcases runFrom x m with ⟨_ | a, m'⟩ <;> rfl

theorem runFrom_liftExcept (r : Except EvalError α) (m : Memo) :
    runFrom (liftExcept r) m = (r, m) := by
  cases r <;> rfl

theorem runFrom_evalName (s : Scope) (constant : String → Eval Const) (name : String) (m : Memo) :
    runFrom (evalName s constant name) m =
      match m.results.lookup name, s.find? name with
      | some r, _ => (r, m)
      | none, none => (.error (.undefined name), m)
      | none, some d =>
        if m.active.contains name then (.error (.cycle name), m)
        else
          let (r, m') := runFrom (evalDef s constant d) (m.enter name)
          (r, m'.leave name r) := by
  rw [evalName, runFrom_bind, show runFrom (get : Eval Memo) m = (.ok m, m) from rfl]
  dsimp only
  cases hr : m.results.lookup name with
  | some r => exact runFrom_liftExcept r m
  | none =>
    cases hd : s.find? name with
    | none => rfl
    | some d =>
      dsimp only
      split
      · rfl
      · rw [runFrom_bind, show runFrom (set (m.enter name) : Eval PUnit) m = (.ok (), m.enter name)
          from rfl]
        exact runFrom_liftExcept (runFrom (evalDef s constant d) (m.enter name)).1 _

abbrev Approximations := ReaderT Nat Unfolding

def unfolding (s : Scope) (name : String) : Approximations Const := fun n => unfoldWithin s n name

def Settles (u : Approximations Const) (r : Except EvalError Const) : Prop :=
  ∃ n, (u n).run = some r

/-- An outcome is that of the unfolding, or a cycle where the unfolding does not end. -/
def Meets (r : Except EvalError Const) (u : Approximations Const) : Prop :=
  Settles u r ∨ (∃ name, r = .error (.cycle name)) ∧ ∀ n, (u n).run = none

/-- While the inner name cannot be unfolded, the outer one cannot either, not even one level
deeper. -/
def Demands (s : Scope) (outer inner : String) : Prop :=
  ∀ n, (unfoldWithin s n inner).run = none → (unfoldWithin s (n + 1) outer).run = none

structure Memo.Sound (s : Scope) (m : Memo) : Prop where
  known : ∀ name r, m.results.lookup name = some r → Meets r (unfolding s name)
  defined : ∀ name ∈ m.active, s.defines name = true
  nodup : m.active.Nodup
  chain : m.active.IsChain fun inner outer => Demands s outer inner

theorem sound_empty (s : Scope) : Memo.empty.Sound s := by
  constructor <;> simp [Memo.empty]

theorem Memo.Sound.demands {m : Memo} (h : m.Sound s) (hm : m.active = top :: rest)
    (hn : name ∈ m.active) :
    ∃ k, ∀ n, (unfoldWithin s n top).run = none → (unfoldWithin s (n + k) name).run = none := by
  have hchain := h.chain
  rw [hm] at hchain hn
  clear hm
  induction rest generalizing top with
  | nil => 
    obtain rfl : name = top := by simpa using hn
    exact ⟨0, fun n h => h⟩
  | cons below rest ih =>
    obtain rfl | hn := List.mem_cons.1 hn
    · exact ⟨0, fun n h => h⟩
    · obtain ⟨hd, hchain⟩ := List.isChain_cons_cons.1 hchain
      obtain ⟨k, hk⟩ := ih hn hchain
      refine ⟨k + 1, fun n h => ?_⟩
      have := hk (n + 1) (hd n h)
      rwa [show n + (k + 1) = n + 1 + k by omega]

theorem endless_of_circle (hk : ∀ n, (unfoldWithin s n name).run = none →
    (unfoldWithin s (n + (k + 1)) name).run = none) : Endless s name := by
  have hmul : ∀ i, (unfoldWithin s (i * (k + 1)) name).run = none := by
    intro i
    induction i with
    | zero => simp [unfoldWithin]
    | succ i ih =>
      rw [Nat.succ_mul]
      exact hk _ ih
  intro n
  by_contra hn
  obtain ⟨r, hr⟩ := Option.ne_none_iff_exists'.1 hn
  have hle : n ≤ n * (k + 1) := Nat.le_mul_of_pos_right n (Nat.succ_pos k)
  have := unfoldWithin_refines_le s name hle r hr
  rw [hmul n] at this
  cases this

/-- From a sound memory an evaluation gives what its unfolding gives, provided that the name
entered last waits for the unfolding. The memory stays sound, and no name stays under evaluation
that was not before. -/
structure Tracks (s : Scope) (active : List String) (x : Eval Const) (u : Approximations Const) :
    Prop where
  refines : ∀ n, Refines (u n) (u (n + 1))
  run : ∀ m : Memo, m.Sound s → m.active = active →
    (∀ top ∈ active.head?, ∀ n, (u n).run = none → (unfoldWithin s (n + 1) top).run = none) →
    Meets (runFrom x m).1 u ∧ (runFrom x m).2.Sound s ∧ (runFrom x m).2.active = active

theorem refines_le {u : Approximations Const} (h : ∀ n, Refines (u n) (u (n + 1))) (hn : n ≤ k) :
    Refines (u n) (u k) := by
  induction hn with
  | refl => exact fun r h => h
  | step _ ih => exact fun r hr => h _ r (ih r hr)

theorem settled_unique {u : Approximations Const} (h : ∀ n, Refines (u n) (u (n + 1)))
    (hn : (u n).run = some r) (hk : (u k).run = some r') : r = r' := by
  have hn := refines_le h (Nat.le_max_left n k) r hn
  have hk := refines_le h (Nat.le_max_right n k) r' hk
  exact Option.some.inj (hn.symm.trans hk)

theorem Settles.bind {u : Approximations Const} {f : Const → Approximations Const}
    (hu : ∀ n, Refines (u n) (u (n + 1))) (hf : ∀ n, Refines (f c n) (f c (n + 1)))
    (h : Settles u (.ok c)) (hc : Settles (f c) r) : Settles (u >>= f) r := by
  obtain ⟨k, hk⟩ := h
  obtain ⟨n, hn⟩ := hc
  have hk := refines_le hu (Nat.le_max_left k n) _ hk
  have hn := refines_le hf (Nat.le_max_right k n) _ hn
  exact ⟨max k n, run_bind_eq_some.2 (.inl ⟨c, hk, hn⟩)⟩

theorem Settles.bind_error {u : Approximations Const} {f : Const → Approximations Const}
    (h : Settles u (.error err)) : Settles (u >>= f) (.error err) := by
  obtain ⟨n, hn⟩ := h
  exact ⟨n, run_bind_eq_some.2 (.inr ⟨err, hn, rfl⟩)⟩

theorem respects_tracks (s : Scope) (active : List String) : Respects (Tracks s active) where
  pure c := ⟨fun _ _ h => h, fun m hm ha _ => ⟨.inl ⟨0, rfl⟩, hm, ha⟩⟩
  throw e _ := ⟨fun _ _ h => h, fun m hm ha _ => ⟨.inl ⟨0, rfl⟩, hm, ha⟩⟩
  bind {x u f g} hx hf := by
    refine ⟨fun n => respects_refines.bind (hx.refines n) fun c => (hf c).refines n, ?_⟩
    intro m hm ha hwait
    obtain ⟨hmeets, hm', ha'⟩ := hx.run m hm ha fun top ht n hn =>
      hwait top ht n (run_bind_eq_none.2 (.inl hn))
    rw [runFrom_bind]
    rcases hrun : runFrom x m with ⟨e | c, m'⟩ <;> rw [hrun] at hmeets hm' ha' <;> dsimp only at *
    · refine ⟨?_, hm', ha'⟩
      obtain he | ⟨⟨name, he⟩, hn⟩ := hmeets
      · exact .inl he.bind_error
      · cases he
        exact .inr ⟨⟨name, rfl⟩, fun n => run_bind_eq_none.2 (.inl (hn n))⟩
    · obtain hsettles | ⟨⟨name, he⟩, -⟩ := hmeets
      swap
      · cases he
      obtain ⟨k, hk⟩ := hsettles
      have hnone : ∀ n, (g c n).run = none → ((u >>= g) n).run = none := by
        intro n hn
        cases hu : (u n).run with
        | none => exact run_bind_eq_none.2 (.inl hu)
        | some r =>
          obtain rfl := settled_unique hx.refines hu hk
          exact run_bind_eq_none.2 (.inr ⟨c, hu, hn⟩)
      obtain ⟨hmeets, hm', ha'⟩ := (hf c).run m' hm' ha' fun top ht n hn =>
        hwait top ht n (hnone n hn)
      refine ⟨?_, hm', ha'⟩
      obtain hc | ⟨hcycle, hn⟩ := hmeets
      · exact .inl (Settles.bind hx.refines (hf c).refines ⟨k, hk⟩ hc)
      · exact .inr ⟨hcycle, fun n => hnone n (hn n)⟩

theorem respects_at (n : Nat) :
    Respects fun (u : Approximations Const) (x : Unfolding Const) => u n = x where
  pure _ := rfl
  throw _ _ := rfl
  bind {u x f g} hx hf := by
    change (u n >>= fun c => f c n) = _
    rw [hx, funext hf]

theorem evalExpr_unfolding (s : Scope) (n : Nat) (iota : Nat) (e : Expr) :
    evalExpr s (unfolding s) iota e n = evalExpr s (unfoldWithin s n) iota e :=
  (respects_at n).evalExpr (fun _ => rfl) iota e

theorem evalDef_unfolding (s : Scope) (n : Nat) (d : ConstDef) :
    evalDef s (unfolding s) d n = evalDef s (unfoldWithin s n) d :=
  (respects_at n).evalDef (fun _ => rfl) d

theorem defines_iff (s : Scope) (name : String) :
    s.defines name = true ↔ name ∈ s.defs.map (·.name) := by
  simp [Scope.defines, Scope.find?]

namespace Memo.Sound

theorem length_le {m : Memo} (h : m.Sound s) : m.active.length ≤ s.defs.length := by
  have hsub : m.active ⊆ s.defs.map (·.name) := fun name hn =>
    (defines_iff s name).1 (h.defined name hn)
  simpa using (h.nodup.subperm hsub).length_le

theorem enter {m : Memo} (h : m.Sound s) (hd : s.defines name = true) (hn : name ∉ m.active)
    (hwait : ∀ top ∈ m.active.head?, Demands s top name) : (m.enter name).Sound s where
  known := h.known
  defined := by
    intro other ho
    obtain rfl | ho := List.mem_cons.1 ho
    · exact hd
    · exact h.defined other ho
  nodup := List.nodup_cons.2 ⟨hn, h.nodup⟩
  chain := List.isChain_cons.2 ⟨hwait, h.chain⟩

theorem leave {m : Memo} (h : m.Sound s) (hm : m.active = name :: rest)
    (hr : Meets r (unfolding s name)) : (m.leave name r).Sound s := by
  have hrest : (m.leave name r).active = rest := by simp [Memo.leave, hm]
  constructor
  · intro other r' hl
    rw [Memo.leave, List.lookup_cons] at hl
    split at hl
    · rename_i ho
      obtain rfl := eq_of_beq ho
      cases hl
      exact hr
    · exact h.known other r' hl
  · intro other ho
    rw [hrest] at ho
    exact h.defined other (hm ▸ List.mem_cons_of_mem name ho)
  · rw [hrest]
    exact (hm ▸ h.nodup).of_cons
  · rw [hrest]
    exact (hm ▸ h.chain).tail

theorem endless {m : Memo} (h : m.Sound s) (hn : name ∈ m.active)
    (hwait : ∀ top ∈ m.active.head?, Demands s top name) : Endless s name := by
  cases hm : m.active with
  | nil => simp [hm] at hn
  | cons top rest =>
    obtain ⟨k, hk⟩ := h.demands hm hn
    refine endless_of_circle (k := k) fun n hnone => ?_
    have := hk (n + 1) (hwait top (by simp [hm]) n hnone)
    rwa [show n + (k + 1) = n + 1 + k by omega]

end Memo.Sound

theorem unfolding_succ (hd : s.find? name = some d) (n : Nat) :
    unfolding s name (n + 1) = evalDef s (unfolding s) d n := by
  rw [evalDef_unfolding, unfolding, unfoldWithin]
  simp only [hd]

theorem Settles.of_evalDef (hd : s.find? name = some d)
    (h : Settles (evalDef s (unfolding s) d) r) : Settles (unfolding s name) r := by
  obtain ⟨n, hn⟩ := h
  exact ⟨n + 1, by rw [unfolding_succ hd, hn]⟩

theorem endless_of_evalDef (hd : s.find? name = some d)
    (h : ∀ n, (evalDef s (unfolding s) d n).run = none) : Endless s name := by
  intro n
  cases n with
  | zero => rfl
  | succ n =>
    change (unfolding s name (n + 1)).run = none
    rw [unfolding_succ hd, h n]

theorem Meets.of_evalDef (hd : s.find? name = some d)
    (h : Meets r (evalDef s (unfolding s) d)) : Meets r (unfolding s name) := by
  obtain h | ⟨hcycle, hn⟩ := h
  · exact .inl (h.of_evalDef hd)
  · exact .inr ⟨hcycle, endless_of_evalDef hd hn⟩

/-- Evaluation to a depth that leaves room for all names keeps to the unfolding. -/
theorem tracks_evalWithin (s : Scope) (deeper : String → Eval Const) (n : Nat)
    (active : List String) (hn : s.defs.length < n + active.length) (name : String) :
    Tracks s active (evalWithin s deeper n name) (unfolding s name) := by
  induction n generalizing active name with
  | zero =>
    refine ⟨fun n => unfoldWithin_refines s n name, fun m hm ha hwait => ?_⟩
    subst ha
    have := hm.length_le
    omega
  | succ n ih =>
    refine ⟨fun n => unfoldWithin_refines s n name, fun m hm ha hwait => ?_⟩
    rw [evalWithin, runFrom_evalName]
    subst ha
    cases hr : m.results.lookup name with
    | some r => exact ⟨hm.known name r hr, hm, rfl⟩
    | none =>
      cases hd : s.find? name with
      | none => exact ⟨.inl ⟨1, by simp [unfolding, unfoldWithin, hd]⟩, hm, rfl⟩
      | some d =>
        dsimp only
        split
        · rename_i hmem
          have hend := hm.endless (by simpa using hmem) hwait
          exact ⟨.inr ⟨⟨name, rfl⟩, hend⟩, hm, rfl⟩
        · rename_i hmem
          have hdef : s.defines name = true := by simp [Scope.defines, hd]
          have hm' := hm.enter hdef (by simpa using hmem) hwait
          have hroom : s.defs.length < n + (name :: m.active).length := by
            rw [List.length_cons]
            omega
          have htracks := (respects_tracks s (name :: m.active)).evalDef (s := s) (ih _ hroom) d
          obtain ⟨hmeets, hsound, hact⟩ := htracks.run (m.enter name) hm' rfl (by
            intro top ht k hk
            obtain rfl : name = top := by simpa using ht
            rw [unfoldWithin]
            simpa only [hd, ← evalDef_unfolding] using hk)
          have hmeets := hmeets.of_evalDef hd
          exact ⟨hmeets, hsound.leave hact hmeets, by simp [Memo.leave, hact]⟩

def Agree (active : List String) (x y : Eval Const) : Prop :=
  ∀ m : Memo, m.active = active → runFrom x m = runFrom y m ∧ (runFrom x m).2.active = active

theorem respects_agree (active : List String) : Respects (Agree active) where
  pure _ _ ha := ⟨rfl, ha⟩
  throw _ _ _ ha := ⟨rfl, ha⟩
  bind {x y f g} hx hf m ha := by
    obtain ⟨heq, hact⟩ := hx m ha
    rw [runFrom_bind, runFrom_bind, ← heq]
    rcases hrun : runFrom x m with ⟨e | c, m'⟩ <;> rw [hrun] at hact
    · exact ⟨rfl, hact⟩
    · exact hf c m' hact

/-- Where the depth leaves room for all names, evaluation never gets to the end of it. -/
theorem agree_evalWithin (s : Scope) (deeper deeper' : String → Eval Const) (n k : Nat)
    (active : List String) (hnodup : active.Nodup) (hdef : active ⊆ s.defs.map (·.name))
    (hn : s.defs.length < n + active.length) (hk : s.defs.length < k + active.length)
    (name : String) :
    Agree active (evalWithin s deeper n name) (evalWithin s deeper' k name) := by
  have hlen : active.length ≤ s.defs.length := by
    simpa using (hnodup.subperm hdef).length_le
  induction n generalizing k active name with
  | zero => omega
  | succ n ih =>
    cases k with
    | zero => omega
    | succ k =>
      intro m ha
      rw [evalWithin, evalWithin, runFrom_evalName, runFrom_evalName]
      cases hr : m.results.lookup name with
      | some r => exact ⟨rfl, ha⟩
      | none =>
        cases hd : s.find? name with
        | none => exact ⟨rfl, ha⟩
        | some d =>
          dsimp only
          split
          · exact ⟨rfl, ha⟩
          · rename_i hmem
            have hname : name ∈ s.defs.map (·.name) :=
              (defines_iff s name).1 (by simp [Scope.defines, hd])
            have hnodup' : (name :: active).Nodup :=
              List.nodup_cons.2 ⟨by simpa [ha] using hmem, hnodup⟩
            have hdef' : name :: active ⊆ s.defs.map (·.name) :=
              List.cons_subset.2 ⟨hname, hdef⟩
            have hlen' : (name :: active).length ≤ s.defs.length := by
              simpa using (hnodup'.subperm hdef').length_le
            have hagree := (respects_agree (name :: active)).evalDef (s := s)
              (fun other => ih k (name :: active) hnodup' hdef' (by rw [List.length_cons]; omega)
                (by rw [List.length_cons]; omega) other hlen') d
            obtain ⟨heq, hact⟩ := hagree (m.enter name) (by rw [Memo.enter, ha])
            rw [← heq]
            exact ⟨rfl, by simp [Memo.leave, hact]⟩

def Scope.memoAfter (s : Scope) (names : List String) : Memo :=
  ((names.mapM s.eval).run Memo.empty).2

theorem eval_spec (hm : m.Sound s) (ha : m.active = []) (name : String) :
    Meets (runFrom (s.constant name) m).1 (unfolding s name) ∧
      (runFrom (s.constant name) m).2.Sound s ∧ (runFrom (s.constant name) m).2.active = [] :=
  (tracks_evalWithin s _ _ [] (by simp) name).run m hm ha (by simp)

theorem mapM_eval_spec (hm : m.Sound s) (ha : m.active = []) (names : List String) :
    List.Forall₂ (fun name r => Meets r (unfolding s name)) names
        ((names.mapM s.eval).run m).1 ∧
      ((names.mapM s.eval).run m).2.Sound s ∧ ((names.mapM s.eval).run m).2.active = [] := by
  induction names generalizing m with
  | nil => exact ⟨.nil, hm, ha⟩
  | cons name names ih =>
    obtain ⟨hr, hm', ha'⟩ := eval_spec hm ha name
    obtain ⟨hrs, hm'', ha''⟩ := ih hm' ha'
    rw [List.mapM_cons]
    exact ⟨.cons hr hrs, hm'', ha''⟩

theorem evalExpr_spec (h : (runFrom (evalExpr s s.constant iota e) (s.memoAfter names)).1 = r)
    (hr : Acyclic r) : ∃ n, (evalExpr s (unfoldWithin s n) iota e).run = some r := by
  obtain ⟨-, hm, ha⟩ := mapM_eval_spec (sound_empty s) rfl names
  have htracks := (respects_tracks s []).evalExpr (s := s) (f := s.constant) (g := unfolding s)
    (fun name => tracks_evalWithin s _ _ [] (by simp) name) iota e
  obtain ⟨n, hn⟩ | ⟨⟨name, hcycle⟩, -⟩ := (htracks.run _ hm ha (by simp)).1
  · refine ⟨n, ?_⟩
    rw [← evalExpr_unfolding]
    exact hn.trans (congrArg some h)
  · exact absurd (h.symm.trans hcycle) (hr name)

theorem Meets.unfoldsTo (h : Meets r (unfolding s name)) (hn : ¬ Endless s name) :
    UnfoldsTo s name r := by
  obtain hr | ⟨-, hend⟩ := h
  · exact hr
  · exact absurd hend hn

theorem Meets.cycle_iff (h : Meets r (unfolding s name)) :
    (∃ other, r = .error (.cycle other)) ↔ Endless s name := by
  constructor
  · rintro ⟨other, rfl⟩
    obtain hr | ⟨-, hend⟩ := h
    · exact absurd rfl (UnfoldsTo.acyclic hr other)
    · exact hend
  · intro hend
    obtain hr | ⟨hcycle, -⟩ := h
    · exact absurd hend (UnfoldsTo.not_endless hr)
    · exact hcycle

def SameOutcome (r r' : Except EvalError Const) : Prop :=
  r = r' ∨ (∃ name, r = .error (.cycle name)) ∧ ∃ name, r' = .error (.cycle name)

theorem Meets.sameOutcome (h : Meets r (unfolding s name)) (h' : Meets r' (unfolding s name)) :
    SameOutcome r r' := by
  by_cases hend : Endless s name
  · exact .inr ⟨h.cycle_iff.2 hend, h'.cycle_iff.2 hend⟩
  · obtain ⟨n, hn⟩ := h.unfoldsTo hend
    obtain ⟨k, hk⟩ := h'.unfoldsTo hend
    exact .inl (settled_unique (fun n => unfoldWithin_refines s n name) hn hk)

end GoEnum.Constant
