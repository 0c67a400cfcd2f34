import RepoAtlas.Language.Analysis
import RepoAtlas.Path

/-!
# Records

One record for each file and each directory of a repository (`Record`). What was
never looked at is absent, and what was looked at and found empty is present and
empty. A record has its name and its path as they are shown: two files whose paths
are no texts may have the same path on record.

A record is filled from an analysis of the source (`Record.fill`), or from what
an earlier run remembered (`Record.restore`), which knows neither types nor
constants.
-/

namespace RepoAtlas

/-- Whether a record is of a file or of a directory. -/
inductive Kind where
  | directory
  | file
  deriving DecidableEq, Repr, Inhabited

/-- What is known of a file or directory. -/
structure Record where
  name : String
  path : String
  /-- The number of directories between the root and it. -/
  depth : Nat
  kind : Kind
  language : Option String := none
  contentHash : Option String := none
  types : Option (List TypeOutline) := none
  functions : Option (List String) := none
  constants : Option (List String) := none
  imports : Option (List String) := none
  description : Option String := none
  /-- A note for those who edit the file. -/
  consideration : Option String := none
  /-- The hash of the content that a describer was asked about. -/
  describedHash : Option String := none
  deriving DecidableEq, Repr, Inhabited

/-- What is remembered of a file, under its path. Nothing is absent here; what
    is unknown is empty. -/
structure Entry where
  path : String := ""
  hash : String := ""
  description : String := ""
  consideration : String := ""
  imports : List String := []
  functions : List String := []
  describedHash : String := ""
  deriving DecidableEq, Repr, Inhabited

namespace Record

/-- The record of a directory. -/
def directory (path : Bytes) (depth : Nat) : Record where
  name := ((Path.fileName? path).map Path.text).getD ""
  path := Path.text path
  depth := depth
  kind := .directory

/-- The record of a file. -/
def file (path : Bytes) (depth : Nat) (language : Option String) : Record where
  name := ((Path.fileName? path).map Path.text).getD ""
  path := Path.text path
  depth := depth
  kind := .file
  language := language

/-- Whether the record is of a file. -/
def isFile (r : Record) : Bool := r.kind = .file

/-- Whether the record is of a directory. -/
def isDirectory (r : Record) : Bool := r.kind = .directory

/-- The types; none if they are unknown. -/
def knownTypes (r : Record) : List TypeOutline := r.types.getD []

/-- The functions; none if they are unknown. -/
def knownFunctions (r : Record) : List String := r.functions.getD []

/-- The constants; none if they are unknown. -/
def knownConstants (r : Record) : List String := r.constants.getD []

/-- The imports; none if they are unknown. -/
def knownImports (r : Record) : List String := r.imports.getD []

/-- The record with what an analysis of its source tells. -/
def fill (r : Record) (a : Language.Analysis) : Record :=
  { r with
    types := some a.outline.types
    functions := some a.outline.functions
    constants := some a.outline.constants
    imports := some a.imports
    description := some a.doc }

/-- The text, unless it is empty. -/
def filled? (s : String) : Option String := if s.isEmpty then none else some s

/-- The record with what an entry remembers. -/
def restore (r : Record) (e : Entry) : Record :=
  { r with
    description := some e.description
    consideration := filled? e.consideration
    describedHash := filled? e.describedHash
    imports := some e.imports
    functions := some e.functions }

/-- The hash of the content, unless it is empty. -/
def hash? (r : Record) : Option String := r.contentHash.bind filled?

end Record

namespace Entry

/-- The entry that remembers a record, if the hash of its content is known. -/
def ofRecord? (r : Record) : Option Entry :=
  r.hash?.map fun hash => {
    path := r.path
    hash := hash
    description := r.description.getD ""
    consideration := r.consideration.getD ""
    imports := r.imports.getD []
    functions := r.functions.getD []
    describedHash := r.describedHash.getD "" }

/-- Whether the entry was made from content of the given hash. No content has
    the empty hash. -/
def isFreshFor (e : Entry) (hash : String) : Bool := !hash.isEmpty && e.hash = hash

end Entry

end RepoAtlas
