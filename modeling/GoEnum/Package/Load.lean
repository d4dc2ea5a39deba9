import GoEnum.Package.Basic

namespace GoEnum.Package

open Build Disk

inductive Origin
  | directory (dir : Path)
  | files (paths : List Path)
  deriving DecidableEq, Repr

def Origin.dir : Origin → Path
  | .directory dir => dir
  | .files paths =>
    let parent := (paths.head?.bind Path.parent?).filter (·.text != "")
    parent.getD ⟨"."⟩

def isPackageFile (name : String) : Bool :=
  let cs := name.toList
  ".go".toList.isSuffixOf cs && !"_test.go".toList.isSuffixOf cs &&
    cs.head? != some '_' && cs.head? != some '.'

variable {m : Type → Type} [Monad m]

abbrev Loading (m : Type → Type) := ExceptT LoadError m

def orFail (path : Path) (x : m (Except FileError α)) : Loading m α := do
  match ← x with
  | .ok a => return a
  | .error e => throw (.io path e)

def listFiles (fs : FileSystem m) (dir : Path) : Loading m (List Path) := do
  let names ← orFail dir (fs.entries dir)
  let paths := (names.filter isPackageFile).map fun name => dir.append ⟨name⟩
  let files ← paths.filterM fun p => fs.isFile p
  return files.mergeSort Path.le

def readFor (fs : FileSystem m) (target : Target) (path : Path) : Loading m (Option Source) := do
  let text ← orFail path (fs.readText path)
  match target.includes (path.fileName?.getD "") text with
  | .ok included => return if included then some ⟨path, text⟩ else none
  | .error e => throw (.constraint path e)

def readChosen (fs : FileSystem m) (path : Path) : Loading m Source := do
  if path.extension? != some "go" then throw (.notGoFile path)
  return ⟨path, ← orFail path (fs.readText path)⟩

/-- The package at an origin. Tags choose among the files of a directory only. -/
def load (fs : FileSystem m) (origin : Origin) (tags : List String) : Loading m Package := do
  let sources ← match origin with
    | .directory dir => do
      let read ← (← listFiles fs dir).mapM (readFor fs (.host tags))
      pure (read.filterMap id)
    | .files paths => paths.mapM (readChosen fs)
  match ofSources origin.dir sources with
  | .ok p => return p
  | .error e => throw e

end GoEnum.Package
