import GoEnum.Package.Load
import GoEnum.Proofs.Disk.FileSystem

namespace GoEnum.Package

open Build Disk

section

variable {fs : FileSystem (StateM σ)} {v : View σ π}

theorem looks_orFail {x : StateM σ (Except FileError α)} (h : Still x) (path : Path) :
    Looks (orFail path x) fun _ => True := by
  apply h.looks.bind
  intro result _
  cases result with
  | error e => exact looks_throw _
  | ok a => exact looks_pure trivial

theorem looks_listFiles (h : fs.Atomic v) (dir : Path) :
    Looks (listFiles fs dir) fun _ => True := by
  apply (looks_orFail (h.still_entries dir) dir).bind
  intro names _
  apply (looks_filterM (fun p => (h.still_isFile p).looks) _).bind
  intro files _
  exact looks_pure trivial

theorem looks_readFor (h : fs.Atomic v) (target : Target) (path : Path) :
    Looks (readFor fs target path) fun _ => True := by
  apply (looks_orFail (h.still_readText path) path).bind
  intro text _
  cases target.includes (path.fileName?.getD "") text with
  | error e => exact looks_throw _
  | ok included => exact looks_pure trivial

theorem looks_readChosen (h : fs.Atomic v) (path : Path) :
    Looks (readChosen fs path) fun _ => True := by
  have hread : Looks (do return (⟨path, ← orFail path (fs.readText path)⟩ : Source))
      fun _ => True :=
    (looks_orFail (h.still_readText path) path).bind fun _ _ => looks_pure trivial
  unfold readChosen
  split
  · exact (looks_throw (P := fun _ => True) _).bind fun _ _ => hread
  · exact hread

theorem looks_load (h : fs.Atomic v) (origin : Origin) (tags : List String) :
    Looks (load fs origin tags) fun p => ∃ sources, ofSources origin.dir sources = .ok p := by
  cases origin
  case' directory dir =>
    apply (looks_listFiles h dir).bind
    intro paths _
    apply (looks_mapM (looks_readFor h (.host tags)) paths).bind
    intro read _
    apply (looks_pure (P := fun _ => True) trivial).bind
  case' files paths => apply (looks_mapM (looks_readChosen h) paths).bind
  all_goals
    intro sources _
    dsimp only
    split
    · rename_i p hsources
      exact looks_pure ⟨sources, hsources⟩
    · exact looks_throw _

end

end GoEnum.Package
