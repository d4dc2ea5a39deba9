import GoEnum.Command.Outcome

namespace GoEnum

open Disk

/-- What went wrong, by its kind and its number, which some calls give with a minus sign. -/
def fileErrorOf : IO.Error → FileError
  | .noFileOrDirectory .. => .notFound
  | .inappropriateType _ code text =>
    if code = 20 || code = -20 then .notDirectory
    else if code = 21 || code = -21 then .isDirectory
    else .other text
  | .invalidArgument _ code text =>
    if code = 36 || code = -36 then .nameTooLong else .other text
  | e => .other (toString e)

def caught (x : IO α) : IO (Except FileError α) := do
  try
    return .ok (← x)
  catch e => return .error (fileErrorOf e)

def orFalse (x : IO Bool) : IO Bool := do
  try x
  catch _ => return false

def machine : FileSystem IO where
  isDirectory p := orFalse do (← IO.FS.realPath p.text).isDir
  isFile p := orFalse do return (← (← IO.FS.realPath p.text).metadata).type == .file
  entries p := caught do
    return ((← (← IO.FS.realPath p.text).readDir).map (·.fileName)).toList
  read p := caught (IO.FS.readBinFile p.text)
  write p text := caught (IO.FS.writeFile p.text text)

def main (parse : List String → Except Command.Stop Command.Options) (args : List String) :
    IO UInt32 := do
  let outcome ← Command.run parse machine args
  IO.print outcome.output
  IO.eprint outcome.errors
  return UInt32.ofNat outcome.exitCode

end GoEnum
