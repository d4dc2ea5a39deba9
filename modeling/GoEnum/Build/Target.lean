import GoEnum.Build.Constraint
import GoEnum.Text.Blank

/-!
Which files take part in a build for a platform: by the platform names at the end of the file's
name, and by the constraint in its header.
-/

namespace GoEnum.Build

open Text

def knownSystems : List String :=
  ["aix", "android", "darwin", "dragonfly", "freebsd", "hurd", "illumos", "ios", "js", "linux",
    "nacl", "netbsd", "openbsd", "plan9", "solaris", "wasip1", "windows", "zos"]

def knownArchitectures : List String :=
  ["386", "amd64", "amd64p32", "arm", "armbe", "arm64", "arm64be", "loong64", "mips", "mipsle",
    "mips64", "mips64le", "mips64p32", "mips64p32le", "ppc", "ppc64", "ppc64le", "riscv",
    "riscv64", "s390", "s390x", "sparc", "sparc64", "wasm"]

def unixSystems : List String :=
  ["aix", "android", "darwin", "dragonfly", "freebsd", "hurd", "illumos", "ios", "linux", "netbsd",
    "openbsd", "solaris"]

structure Target where
  tags : List String
  system : String
  architecture : String
  deriving DecidableEq, Repr

namespace Target

def of (tags : List String) (system architecture : String) : Target :=
  ⟨tags.filter (· != ""), system, architecture⟩

def host (tags : List String) : Target := of tags "linux" "amd64"

/-- Some systems also count as another one, and every release tag is set. -/
def satisfies (t : Target) (tag : String) : Bool :=
  t.tags.contains tag || tag == t.system || tag == t.architecture || tag == "gc" ||
    "go1.".toList.isPrefixOf tag.toList ||
    match tag with
    | "unix" => unixSystems.contains t.system
    | "linux" => t.system == "android"
    | "darwin" => t.system == "ios"
    | "solaris" => t.system == "illumos"
    | _ => false

def nameParts (fileName : List Char) : List String :=
  let stem := (before? ".go".toList fileName).getD fileName
  let stem := (before? "_test".toList stem).getD stem
  (stem.splitOn '_').map String.ofList

/-- A name that ends in a system, an architecture, or the one and then the other after an
underscore is for these alone. -/
def matchesFileName (t : Target) (fileName : String) : Bool :=
  match (nameParts fileName.toList).reverse with
  | last :: system :: rest =>
    if !rest.isEmpty && knownSystems.contains system && knownArchitectures.contains last then
      t.satisfies system && t.satisfies last
    else if knownSystems.contains last || knownArchitectures.contains last then t.satisfies last
    else true
  | _ => true

end Target

/-- The first constraint among the lines of a header, where only blank lines and comments precede
it. `inComment` tells whether a block comment is still open. -/
def constraintIn (inComment : Bool) : List (List Char) → Except ConstraintError (Option Constraint)
  | [] => .ok none
  | l :: ls =>
    let line := trim l
    let closes := occursIn "*/".toList line
    if inComment then constraintIn (!closes) ls
    else if line.isEmpty then constraintIn false ls
    else match after? "//go:build".toList line with
      | some [] => some <$> Constraint.parse []
      | some (c :: cs) =>
        if isBlank c then some <$> Constraint.parse (c :: cs) else constraintIn false ls
      | none =>
        if "//".toList.isPrefixOf line then constraintIn false ls
        else if "/*".toList.isPrefixOf line then constraintIn (!closes) ls
        else .ok none

def findConstraint (source : String) : Except ConstraintError (Option Constraint) :=
  constraintIn false (lines source.toList)

def Target.includes (t : Target) (fileName source : String) : Except ConstraintError Bool :=
  if t.matchesFileName fileName then do
    match ← findConstraint source with
    | some c => return c.eval t.satisfies
    | none => return true
  else .ok false

end GoEnum.Build
