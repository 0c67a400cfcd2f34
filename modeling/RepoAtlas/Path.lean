import RepoAtlas.Bytes.Utf8

/-!
# Paths

A path is bytes; its parts are the names between slashes (`Path.parts`). Empty
names and single dots count for nothing, except a dot at the front of a relative
path. Names and paths need not be the bytes of a text: what is shown of them is
their text with a mark for each fault (`Path.text`), and two names may be shown
alike.

* `Path.fileName?`: the last part, if it is a name;
* `Path.join`: a path read from another.
-/

namespace RepoAtlas.Path

/-- A part of a path. -/
inductive Part where
  /-- The slash at the front of an absolute path. -/
  | root
  /-- The dot at the front of a relative path. -/
  | here
  /-- Two dots: the directory above. -/
  | up
  | name (s : Bytes)
  deriving DecidableEq, Repr

/-- The byte of a slash. -/
def slash : UInt8 := 0x2F

/-- The byte of a dot. -/
def dot : UInt8 := 0x2E

/-- The bytes between the slashes of a path. -/
def segments : Bytes → List Bytes
  | [] => [[]]
  | b :: rest =>
    if b = slash then [] :: segments rest
    else
      match segments rest with
      | [] => [[b]]
      | s :: others => (b :: s) :: others

/-- Whether the path begins with a slash. -/
def isAbsolute (path : Bytes) : Bool := path.head? == some slash

/-- The part that the bytes between slashes stand for. -/
def part? (segment : Bytes) : Option Part :=
  if segment = [] || segment = [dot] then none
  else if segment = [dot, dot] then some .up
  else some (.name segment)

/-- The parts of a path. -/
def parts (path : Bytes) : List Part :=
  let rest := (segments path).filterMap part?
  if isAbsolute path then .root :: rest
  else if (segments path).head? == some [dot] then .here :: rest
  else rest

/-- The name that the path ends with. -/
def fileName? (path : Bytes) : Option Bytes :=
  match (parts path).getLast? with
  | some (.name s) => some s
  | _ => none

/-- The second path, read from the first if it is relative. -/
def join (base rest : Bytes) : Bytes :=
  if isAbsolute rest then rest
  else if base.isEmpty || base.getLast? == some slash then base ++ rest
  else base ++ slash :: rest

/-- The path of a list of names read from the root. -/
def ofNames (names : List Bytes) : Bytes := slash :: [slash].intercalate names

/-- What is shown of a name or a path: its text, with U+FFFD for each fault. -/
def text (path : Bytes) : String := Utf8.decodeLossy path

end RepoAtlas.Path
