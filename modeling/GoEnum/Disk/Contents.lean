import GoEnum.Disk.FileSystem

namespace GoEnum.Disk

abbrev Place := List String

/-- Files and directories. What leads to one of them is a directory too. -/
structure Contents where
  files : List (Place × ByteArray)
  dirs : List Place

namespace Contents

def file? (d : Contents) (p : Place) : Option ByteArray := d.files.lookup p

def hasDirectory (d : Contents) (p : Place) : Bool :=
  p.isEmpty || d.dirs.any p.isPrefixOf ||
    d.files.any fun (q, _) => p.isPrefixOf q && p.length < q.length

inductive Node
  | file (place : Place)
  | dir (place : Place)
  deriving DecidableEq, Repr

def maxNameBytes : Nat := 255

def maxPathBytes : Nat := 4095

def walk (d : Contents) (dir : Place) : List Component → Except FileError Node
  | [] => .ok (.dir dir)
  | .root :: _ => .error .notFound
  | .here :: cs => d.walk dir cs
  | .parent :: cs => if dir.isEmpty then .error .notFound else d.walk dir.dropLast cs
  | .name s :: cs =>
    let next := dir ++ [s]
    if maxNameBytes < s.utf8ByteSize then .error .nameTooLong
    else if (d.file? next).isSome then
      if cs.isEmpty then .ok (.file next) else .error .notDirectory
    else if d.hasDirectory next then d.walk next cs
    else .error .notFound

def wantsDirectory (p : Path) : Bool := ((p.split.parts.getLast?).map Path.isVoid).getD false

def checkText (p : Path) : Except FileError Unit :=
  if p.text.toList.contains '\x00' then .error .nulInName
  else if p.text.isEmpty then .error .notFound
  else if maxPathBytes < p.text.utf8ByteSize then .error .nameTooLong
  else .ok ()

def node (d : Contents) (p : Path) : Except FileError Node := do
  checkText p
  match ← d.walk [] p.components with
  | .file place => if wantsDirectory p then .error .notDirectory else .ok (.file place)
  | .dir place => .ok (.dir place)

def isDirectory (d : Contents) (p : Path) : Bool :=
  match d.node p with
  | .ok (.dir _) => true
  | _ => false

def isFile (d : Contents) (p : Path) : Bool :=
  match d.node p with
  | .ok (.file _) => true
  | _ => false

def namesUnder (d : Contents) (place : Place) : List String :=
  ((d.files.map (·.1) ++ d.dirs).filterMap fun q =>
    if place.isPrefixOf q then q[place.length]? else none).eraseDups

def entries (d : Contents) (p : Path) : Except FileError (List String) :=
  match d.node p with
  | .ok (.dir place) => .ok (d.namesUnder place)
  | .ok (.file _) => .error .notDirectory
  | .error e => .error e

def read (d : Contents) (p : Path) : Except FileError ByteArray :=
  match d.node p with
  | .ok (.file place) => match d.file? place with
    | some bytes => .ok bytes
    | none => .error .notFound
  | .ok (.dir _) => .error .isDirectory
  | .error e => .error e

def store (d : Contents) (place : Place) (bytes : ByteArray) : Contents :=
  { d with files := (place, bytes) :: d.files.filter (·.1 != place) }

def endsInDot (p : Path) : Bool := (p.split.parts.filter (!·.isEmpty)).getLast? == some ['.']

def target (d : Contents) (p : Path) : Except FileError Place := do
  checkText p
  match d.node p with
  | .ok (.file place) => .ok place
  | .ok (.dir _) => .error .isDirectory
  | .error e =>
    match p.components.getLast?, d.walk [] p.components.dropLast with
    | some (.name s), .ok (.dir place) =>
      if endsInDot p then .error e
      else if wantsDirectory p then .error .isDirectory
      else if e = .notFound then .ok (place ++ [s])
      else .error e
    | _, _ => .error e

def write (d : Contents) (p : Path) (text : String) : Except FileError Contents :=
  (d.target p).map fun place => d.store place text.toUTF8

def fileSystem : FileSystem (StateM Contents) where
  isDirectory p := return (← get).isDirectory p
  isFile p := return (← get).isFile p
  entries p := return (← get).entries p
  read p := return (← get).read p
  write p text := do
    match (← get).write p text with
    | .ok d =>
      set d
      return .ok ()
    | .error e => return .error e

end Contents

end GoEnum.Disk
