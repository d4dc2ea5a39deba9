import GoEnum.Layout.Writer
import GoEnum.Package.Basic

namespace GoEnum.Layout

structure FormatError where
  report : String
  deriving DecidableEq, Repr

namespace FormatError

def message (e : FormatError) : String := "generated code is not valid Go:\n" ++ e.report

def code : String := "enumgen::format"

end FormatError

def generatedFile : String := "<generated>"

def format (source : String) : Except FormatError String :=
  match Parse.parseSource source with
  | .ok _ => .ok (String.ofList (layout source.toList))
  | .error ds => .error ⟨Package.reportAll generatedFile source ds⟩

def isFormatted (source : String) : Except FormatError Bool := do
  return (← format source) == source

end GoEnum.Layout
