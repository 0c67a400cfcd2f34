import RepoAtlas.FileSystem.Tree
import RepoAtlas.Path

/-!
# File systems

A tree of files with the root directory at the top (`FileSystem`). A path is
followed part by part, through the links on the way (`FileSystem.follow`); no
more than forty of them lead to one file. Relative paths are read from the root
directory.

* `FileSystem.resolve`: the place that a path leads to, given by the names on
  the way to it;
* `FileSystem.read`, `FileSystem.write`: the content of a file;
* `FileSystem.isListed`: whether a directory tells its entries. One that does not
  is passed through all the same.
-/

namespace RepoAtlas

/-- Why a path leads nowhere, or not to a file. -/
inductive PathFault where
  | notFound
  | notDirectory
  | isDirectory
  | nameTooLong
  | tooManyLinks
  /-- A directory does not tell its entries. -/
  | denied
  deriving DecidableEq, Repr

/-- What a message says of a fault. -/
def PathFault.message : PathFault → String
  | .notFound => "No such file or directory (os error 2)"
  | .notDirectory => "Not a directory (os error 20)"
  | .isDirectory => "Is a directory (os error 21)"
  | .nameTooLong => "File name too long (os error 36)"
  | .tooManyLinks => "Too many levels of symbolic links (os error 40)"
  | .denied => "Permission denied (os error 13)"

/-- A place in a file system: the names on the way to it. -/
abbrev Place := List Bytes

/-- A file system. -/
structure FileSystem where
  /-- The entries of the root directory. -/
  entries : Entries := .nil
  /-- The places of the directories that do not tell their entries. -/
  unlisted : List Place := []
  deriving Inhabited

namespace FileSystem

/-- The number of links that may be followed on the way to a file. -/
def linkLimit : Nat := 40

/-- The number of bytes that a name may have. -/
def nameLimit : Nat := 255

/-- The node at a place. -/
def nodeAt? (fs : FileSystem) (place : Place) : Option Node := fs.entries.nodeAt? place

/-- The file system with a node at a place. -/
def setAt (fs : FileSystem) (place : Place) (node : Node) : FileSystem :=
  { fs with entries := fs.entries.setAt node place }

/-- The file system without what is at a place. -/
def eraseAt (fs : FileSystem) (place : Place) : FileSystem :=
  { fs with entries := fs.entries.eraseAt place }

/-- The parts of a path to follow. A slash or a dot at the end asks for a
    directory. -/
def stepsOf (path : Bytes) : List Path.Part :=
  if (Path.segments path).getLast?.any (fun s => (Path.part? s).isNone) then
    Path.parts path ++ [.here]
  else Path.parts path

/-- Follows the parts of a path from a place. `through` follows what remains of a
    path behind a link; if `new` is set, the last name may be of nothing yet. -/
def followWith (fs : FileSystem) (new : Bool)
    (through : Place → List Path.Part → Except PathFault Place) :
    Place → List Path.Part → Except PathFault Place
  | place, [] => .ok place
  | _, .root :: rest => fs.followWith new through [] rest
  | place, .here :: rest => fs.followWith new through place rest
  | place, .up :: rest => fs.followWith new through place.dropLast rest
  | place, .name s :: rest =>
    match fs.nodeAt? (place ++ [s]) with
    | some (.directory _) => fs.followWith new through (place ++ [s]) rest
    | some (.file _) => if rest.isEmpty then .ok (place ++ [s]) else .error .notDirectory
    | some (.link target) => through place (stepsOf target ++ rest)
    | none =>
      if nameLimit < s.length then .error .nameTooLong
      else if !new then .error .notFound
      else
        match rest with
        | [] => .ok (place ++ [s])
        | [.here] => .error .isDirectory
        | _ => .error .notFound

/-- Follows the parts of a path from a place, through so many links at most. -/
def follow (fs : FileSystem) (new : Bool) :
    (links : Nat) → Place → List Path.Part → Except PathFault Place
  | 0 => fs.followWith new fun _ _ => .error .tooManyLinks
  | links + 1 => fs.followWith new (fs.follow new links)

/-- The place of what a path leads to. -/
def resolve (fs : FileSystem) (path : Bytes) : Except PathFault Place :=
  if path.isEmpty then .error .notFound else fs.follow false linkLimit [] (stepsOf path)

/-- The place where a path leads, which may be of nothing yet. -/
def resolveNew (fs : FileSystem) (path : Bytes) : Except PathFault Place :=
  if path.isEmpty then .error .notFound else fs.follow true linkLimit [] (stepsOf path)

/-- The place of a directory, with all links on the way to it resolved, as the
    parts of a path. -/
def resolveParts (fs : FileSystem) (parts : List Path.Part) : Option (List Path.Part) :=
  if parts.isEmpty then none
  else
    match fs.follow false linkLimit [] parts with
    | .ok place => some (.root :: place.map .name)
    | .error _ => none

/-- The node that a path leads to. -/
def find (fs : FileSystem) (path : Bytes) : Except PathFault Node := do
  match fs.nodeAt? (← fs.resolve path) with
  | some node => return node
  | none => throw .notFound

/-- Whether a path leads to anything. -/
def exists? (fs : FileSystem) (path : Bytes) : Bool :=
  match fs.find path with
  | .ok _ => true
  | .error _ => false

/-- Whether a path leads to a directory. -/
def isDirectory (fs : FileSystem) (path : Bytes) : Bool :=
  match fs.find path with
  | .ok (.directory _) => true
  | _ => false

/-- Whether the directory that a path leads to tells its entries. -/
def isListed (fs : FileSystem) (path : Bytes) : Bool :=
  match fs.resolve path with
  | .ok place => place ∉ fs.unlisted
  | .error _ => false

/-- The content of the file that a path leads to. -/
def readContent (fs : FileSystem) (path : Bytes) : Except PathFault Content := do
  match ← fs.find path with
  | .file content => return content
  | _ => throw .isDirectory

/-- The bytes of the file that a path leads to. -/
def read (fs : FileSystem) (path : Bytes) : Except PathFault Bytes :=
  (fs.readContent path).map (·.toBytes)

/-- Puts content into the file that a path leads to, which need not exist. -/
def writeContent (fs : FileSystem) (path : Bytes) (content : Content) :
    Except PathFault FileSystem := do
  let place ← fs.resolveNew path
  match fs.nodeAt? place with
  | some (.directory _) => throw .isDirectory
  | _ => return fs.setAt place (.file content)

/-- Puts bytes into the file that a path leads to, which need not exist. -/
def write (fs : FileSystem) (path : Bytes) (bytes : Bytes) : Except PathFault FileSystem :=
  fs.writeContent path (.bytes bytes)

/-- Puts a text into the file that a path leads to, which need not exist. -/
def writeText (fs : FileSystem) (path : Bytes) (text : String) : Except PathFault FileSystem :=
  fs.write path (Utf8.encode text)

/-- Follows the parts of a path from a place, and makes the directories that
    are missing. -/
def makeFrom (fs : FileSystem) : Place → List Path.Part → Except PathFault FileSystem
  | _, [] => .ok fs
  | place, .name s :: rest =>
    match fs.follow true linkLimit place [.name s] with
    | .error e => .error e
    | .ok next =>
      match fs.nodeAt? next with
      | some (.directory _) => fs.makeFrom next rest
      | some _ => .error .notDirectory
      | none => (fs.setAt next (.directory .nil)).makeFrom next rest
  | _, .root :: rest => fs.makeFrom [] rest
  | place, .here :: rest => fs.makeFrom place rest
  | place, .up :: rest => fs.makeFrom place.dropLast rest

/-- Makes a directory, and those above it that are missing. -/
def makeDirectory (fs : FileSystem) (path : Bytes) : Except PathFault FileSystem :=
  fs.makeFrom [] (Path.parts path)

/-- The place of a name, with the links on the way to it resolved, but not the
    name itself. -/
def placeOfName (fs : FileSystem) (path : Bytes) : Except PathFault Place := do
  match Path.fileName? path with
  | some name =>
    return (← fs.follow false linkLimit [] (Path.parts path).dropLast) ++ [name]
  | none => throw .isDirectory

/-- Removes a file, a link, or a directory with all that is below it. -/
def remove (fs : FileSystem) (path : Bytes) : Except PathFault FileSystem := do
  let place ← fs.placeOfName path
  if (fs.nodeAt? place).isNone then throw .notFound else return fs.eraseAt place

/-- Makes a link. -/
def makeLink (fs : FileSystem) (path target : Bytes) : Except PathFault FileSystem := do
  return fs.setAt (← fs.placeOfName path) (.link target)

end FileSystem

end RepoAtlas
