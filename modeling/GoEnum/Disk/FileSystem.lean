import GoEnum.Disk.Path

namespace GoEnum.Disk

inductive FileError
  | notFound
  | notDirectory
  | isDirectory
  | nameTooLong
  | nulInName
  | notUtf8
  | other (text : String)
  deriving DecidableEq, Repr

def FileError.message : FileError → String
  | .notFound => "No such file or directory (os error 2)"
  | .notDirectory => "Not a directory (os error 20)"
  | .isDirectory => "Is a directory (os error 21)"
  | .nameTooLong => "File name too long (os error 36)"
  | .nulInName => "file name contained an unexpected NUL byte"
  | .notUtf8 => "stream did not contain valid UTF-8"
  | .other text => text

structure FileSystem (m : Type → Type) where
  isDirectory : Path → m Bool
  isFile : Path → m Bool
  entries : Path → m (Except FileError (List String))
  read : Path → m (Except FileError ByteArray)
  write : Path → String → m (Except FileError Unit)

def FileSystem.readText [Monad m] (fs : FileSystem m) (p : Path) : m (Except FileError String) := do
  match ← fs.read p with
  | .error e => return .error e
  | .ok bytes =>
    match String.fromUTF8? bytes with
    | some s => return .ok s
    | none => return .error .notUtf8

end GoEnum.Disk
