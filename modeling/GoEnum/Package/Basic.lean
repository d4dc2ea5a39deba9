import GoEnum.Build.Target
import GoEnum.Diagnostic
import GoEnum.Disk.FileSystem
import GoEnum.Package.Symbols
import GoEnum.Parse.File

namespace GoEnum

open Build Disk Syntax

namespace Package

structure Source where
  path : Path
  text : String
  deriving DecidableEq, Repr

structure ParsedSource where
  source : Source
  file : File

end Package

structure Package where
  name : String
  dir : Path
  sources : List Package.ParsedSource
  symbols : Package.Symbols

namespace Package

inductive LoadError
  | io (path : Path) (cause : FileError)
  | syntactic (path : Path) (report : String)
  | multiplePackages (dir : Path) (names : List String)
  | noGoFiles (dir : Path)
  | constraint (path : Path) (cause : ConstraintError)
  | notGoFile (path : Path)
  deriving DecidableEq, Repr

namespace LoadError

def message : LoadError → String
  | .io path cause => s!"error reading '{path.text}': {cause.message}"
  | .syntactic _ report => report
  | .multiplePackages dir names =>
    "expected one package in " ++ dir.text ++ ", found " ++ ", ".intercalate names
  | .noGoFiles dir => s!"no buildable Go source files in {dir.text}"
  | .constraint path cause => s!"{path.text}: {cause.message}"
  | .notGoFile path => s!"{path.text} is not a .go file"

def code : LoadError → String
  | .io .. => "enumgen::load::io"
  | .syntactic .. => "enumgen::load::syntax"
  | .multiplePackages .. => "enumgen::load::multiple_packages"
  | .noGoFiles .. => "enumgen::load::no_files"
  | .constraint .. => "enumgen::load::constraint"
  | .notGoFile .. => "enumgen::load::not_go_file"

def help? : LoadError → Option String
  | .noGoFiles _ =>
    some "check the directory, and the --tags passed for files behind //go:build lines"
  | _ => none

end LoadError

def reportAll (file source : String) (ds : List Diagnostic) : String :=
  let text := String.join (ds.map fun d => d.report file source ++ "\n")
  String.ofList (Text.trimRight text.toList)

def parseOne (s : Source) : Except LoadError ParsedSource :=
  match Parse.parseSource s.text with
  | .ok file => .ok ⟨s, file⟩
  | .error ds => .error (.syntactic s.path (reportAll s.path.text s.text ds))

def isTestPackage (name : String) : Bool := "_test".toList.isSuffixOf name.toList

/-- The package that the sources make up, read in the order of their paths. -/
def ofSources (dir : Path) (sources : List Source) : Except LoadError Package := do
  let sorted := sources.mergeSort fun a b => a.path.le b.path
  let parsed := (← sorted.mapM parseOne).filter fun s => !isTestPackage s.file.package.node
  let files := parsed.map (·.file)
  match (files.map (·.package.node)).mergeSort.eraseDups with
  | [] => throw (.noGoFiles dir)
  | [name] => return ⟨name, dir, parsed, .ofFiles files⟩
  | names => throw (.multiplePackages dir names)

def files (p : Package) : List File := p.sources.map (·.file)

end Package

end GoEnum
