import GoEnum.Disk.FileSystem

namespace GoEnum.Disk

inductive Entry
  | file (bytes : ByteArray)
  | directory

/-- How the states of a file system are seen: where a path leads to, and what stands at a place. -/
structure View (σ π : Type) where
  leads : σ → Path → π → Prop
  stands? : σ → π → Option Entry

structure View.Replaced (v : View σ π) (place : π) (text : String) (before after : σ) : Prop where
  stored : v.stands? after place = some (.file text.toUTF8)
  frame : ∀ q, q ≠ place → v.stands? after q = v.stands? before q

def Still (x : StateM σ α) : Prop := ∀ s, (x.run s).2 = s

structure FileSystem.Atomic (fs : FileSystem (StateM σ)) (v : View σ π) : Prop where
  still_isDirectory : ∀ p, Still (fs.isDirectory p)
  still_isFile : ∀ p, Still (fs.isFile p)
  still_entries : ∀ p, Still (fs.entries p)
  still_read : ∀ p, Still (fs.read p)
  write_error : ∀ {p text e before after},
    (fs.write p text).run before = (.error e, after) → after = before
  write_ok : ∀ {p text before after}, (fs.write p text).run before = (.ok (), after) →
    ∃ place, v.leads before p place ∧ v.Replaced place text before after ∧
      (fs.read p).run after = (.ok text.toUTF8, after)

section

variable {x : StateM σ α} {f : α → StateM σ β}

theorem still_pure (a : α) : Still (pure a : StateM σ α) := fun _ => rfl

theorem Still.bind (hx : Still x) (hf : ∀ a, Still (f a)) : Still (x >>= f) := by
  intro s
  change ((f (x.run s).1).run (x.run s).2).2 = s
  rw [hf, hx]

theorem FileSystem.Atomic.still_readText {fs : FileSystem (StateM σ)} {v : View σ π}
    (h : fs.Atomic v) (p : Path) : Still (fs.readText p) := by
  apply (h.still_read p).bind
  intro result
  cases result with
  | error e => exact still_pure _
  | ok bytes =>
    dsimp only
    cases String.fromUTF8? bytes with
    | none => exact still_pure _
    | some s => exact still_pure _

end

/-- An action that leaves every state as it is, and whose results are of one kind. -/
def Looks (x : ExceptT ε (StateM σ) α) (P : α → Prop) : Prop :=
  ∀ s, (x.run.run s).2 = s ∧ ∀ a, (x.run.run s).1 = .ok a → P a

section

variable {x : ExceptT ε (StateM σ) α} {f : α → ExceptT ε (StateM σ) β} {P : α → Prop}
  {Q : β → Prop}

theorem looks_pure {a : α} (h : P a) : Looks (pure a : ExceptT ε (StateM σ) α) P := by
  intro s
  refine ⟨rfl, fun b hb => ?_⟩
  cases hb
  exact h

theorem looks_throw (e : ε) : Looks (throw e : ExceptT ε (StateM σ) α) P := by
  intro s
  refine ⟨rfl, fun b hb => ?_⟩
  cases hb

theorem Still.looks {y : StateM σ α} (h : Still y) :
    Looks (liftM y : ExceptT ε (StateM σ) α) fun _ => True :=
  fun s => ⟨h s, fun _ _ => trivial⟩

theorem run_bind_of_ok (h : x.run.run s = (.ok a, t)) :
    (x >>= f).run.run s = (f a).run.run t := by
  change (ExceptT.bindCont f (x.run.run s).1).run (x.run.run s).2 = _
  rw [h]
  rfl

theorem run_bind_of_error (h : x.run.run s = (.error e, t)) :
    (x >>= f).run.run s = (.error e, t) := by
  change (ExceptT.bindCont f (x.run.run s).1).run (x.run.run s).2 = _
  rw [h]
  rfl

theorem run_mk (result : Except ε α) (s : σ) :
    (ExceptT.mk (pure result) : ExceptT ε (StateM σ) α).run.run s = (result, s) := rfl

theorem run_lift {y : StateM σ α} (h : y.run s = (a, t)) :
    (liftM y : ExceptT ε (StateM σ) α).run.run s = (.ok a, t) := by
  change ((.ok (y.run s).1, (y.run s).2) : Except ε α × σ) = _
  rw [h]

theorem run_adapt {g : ε → ε'} (h : x.run.run s = (result, t)) :
    (ExceptT.adapt g x).run.run s = (result.mapError g, t) := by
  change (((x.run.run s).1.mapError g, (x.run.run s).2) : Except ε' α × σ) = _
  rw [h]

theorem Looks.bind (hx : Looks x P) (hf : ∀ a, P a → Looks (f a) Q) : Looks (x >>= f) Q := by
  intro s
  obtain ⟨hstate, hresult⟩ := hx s
  cases hrun : x.run.run s with
  | mk result t =>
    rw [hrun] at hstate hresult
    cases hstate
    cases result with
    | error e =>
      rw [run_bind_of_error hrun]
      exact ⟨rfl, fun b hb => by cases hb⟩
    | ok a =>
      rw [run_bind_of_ok hrun]
      exact hf a (hresult a rfl) t

theorem looks_mapM (h : ∀ a, Looks (f a) fun _ => True) (as : List α) :
    Looks (as.mapM f) fun _ => True := by
  induction as with
  | nil => exact looks_pure trivial
  | cons a as ih =>
    rw [List.mapM_cons]
    exact (h a).bind fun _ _ => ih.bind fun _ _ => looks_pure trivial

theorem looks_filterM {f : α → ExceptT ε (StateM σ) Bool} (h : ∀ a, Looks (f a) fun _ => True)
    (as : List α) : Looks (as.filterM f) fun _ => True := by
  have hloop : ∀ kept, Looks (as.filterAuxM f kept) fun _ => True := by
    induction as with
    | nil => exact fun kept => looks_pure trivial
    | cons a as ih => exact fun kept => (h a).bind fun _ _ => ih _
  exact (hloop []).bind fun _ _ => looks_pure trivial

end

end GoEnum.Disk
