import GoEnum.Emit.Output
import GoEnum.Layout.Format
import GoEnum.Package.Load

/-!
What a run has to do: types to generate methods for, where their package comes from, and where the
methods go. A run that fails leaves all files as they are.
-/

namespace GoEnum.Command

open Disk Emit Enum Layout Package

inductive Flag
  | errorOnUnknown
  | json
  | sql
  | stringer
  | debug
  deriving DecidableEq, Repr

structure Options where
  types : List String
  output : Option Path
  tags : List String
  patterns : List Path
  flags : List Flag
  deriving DecidableEq, Repr

def Options.has (o : Options) (f : Flag) : Bool := f ∈ o.flags

structure Request where
  types : List String
  origin : Origin
  tags : List String
  output : Option Path
  config : Config
  args : List String
  deriving DecidableEq, Repr

/-- The output that was asked for, or else a file beside the package, named for the first type. -/
def Request.outputPath (r : Request) : Path :=
  r.output.getD (r.origin.dir.append ⟨Text.lower ((r.types.head?.getD "") ++ ".gen.go")⟩)

inductive Failure
  | noTypes
  | tagsWithFiles
  | loading (e : LoadError)
  | generating (type : String) (e : GenerateError)
  | formatting (e : FormatError)
  | writing (path : Path) (e : FileError)
  deriving DecidableEq, Repr

def Failure.message : Failure → String
  | .noTypes => "Error: no types specified"
  | .tagsWithFiles => "Error: --tags applies only to directories, not individual files"
  | .loading e => s!"error parsing package: {e.message}"
  | .generating type e => s!"error generating enum code for type {type}: {e.message}"
  | .formatting e => s!"error formatting code: {e.message}"
  | .writing path e => s!"failed to write output file {path.text}: {e.message}"

def Options.families (o : Options) : Families :=
  if o.has .json then .marshal else if o.has .sql then .storage else .both

def Options.config (o : Options) : Config :=
  ⟨o.families, o.has .errorOnUnknown, o.has .stringer, o.has .debug⟩

def isBlankText (s : String) : Bool := (Text.trim s.toList).isEmpty

section

variable {m : Type → Type} [Monad m]

/-- A single directory is a package; everything else is a list of files, without tags. -/
def originOf (fs : FileSystem m) (patterns : List Path) (tags : List String) :
    ExceptT Failure m Origin := do
  let files : ExceptT Failure m Origin :=
    if tags.isEmpty then return .files patterns else throw .tagsWithFiles
  match patterns with
  | [] => return .directory ⟨"."⟩
  | [p] => if ← fs.isDirectory p then return .directory p else files
  | _ => files

def requestOf (fs : FileSystem m) (o : Options) (args : List String) :
    ExceptT Failure m Request := do
  if o.types.any isBlankText then throw .noTypes
  let tags := o.tags.filter (!·.isEmpty)
  let origin ← originOf fs o.patterns tags
  return ⟨o.types, origin, tags, o.output, o.config, args⟩

def generateAll (config : Config) (p : Package) :
    Output → List String → Except Failure Output
  | out, [] => .ok out
  | out, type :: types => do
    let next ← (out.generate config p type).mapError (.generating type)
    generateAll config p next types

def Request.render (r : Request) (p : Package) : Except Failure String := do
  let out ← generateAll r.config p .empty r.types
  (format (out.finish p r.args)).mapError .formatting

def Request.run (fs : FileSystem m) (r : Request) : ExceptT Failure m Unit := do
  let p ← ExceptT.adapt .loading (load fs r.origin r.tags)
  let text ← ExceptT.mk (pure (r.render p))
  match ← fs.write r.outputPath text with
  | .ok () => return ()
  | .error e => throw (.writing r.outputPath e)

def execute (fs : FileSystem m) (o : Options) (args : List String) : ExceptT Failure m Unit := do
  (← requestOf fs o args).run fs

end

end GoEnum.Command
