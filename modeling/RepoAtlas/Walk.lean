import RepoAtlas.Bytes.Sha256
import RepoAtlas.Cache
import RepoAtlas.Walk.Survey

/-!
# Walks

A walk turns what is below a root into records (`Walk.run`). The content of a
file is analyzed unless the cache has an entry that was made from the same
content, and the entry of a new analysis is written into the cache. A cache that
fails is as good as an empty one.

* `Walk.visit`: the record of one file or directory;
* `Walk.collect`: the records of all that is below a place;
* `Walk.Stats`: what a walk came to.
-/

namespace RepoAtlas.Walk

/-- What a walk came to. -/
structure Stats where
  directories : Nat := 0
  files : Nat := 0
  /-- Files read for an analysis. -/
  sourcesRead : Nat := 0
  cacheHits : Nat := 0
  extractions : Nat := 0
  parseFailures : Nat := 0
  unreadable : Nat := 0
  cacheWrites : Nat := 0
  cacheWriteFailures : Nat := 0
  deriving DecidableEq, Repr

/-- Why a root cannot be walked. -/
inductive RootError where
  /-- The path leads nowhere. -/
  | unresolved (path : Bytes) (fault : PathFault)
  | notDirectory (path : Bytes)
  /-- The directory does not tell its entries. -/
  | unlisted (path : Bytes) (fault : PathFault)
  deriving DecidableEq, Repr

/-- What a message says of an error. -/
def RootError.message : RootError → String
  | .unresolved path fault => s!"Invalid root path: {Path.text path}: {fault.message}"
  | .notDirectory path => s!"Invalid root path: {Path.text path} is not a directory"
  | .unlisted path fault => s!"Invalid root path: {Path.text path}: {fault.message}"

/-- The cache and the counts on a walk. -/
structure State where
  cache : Database
  stats : Stats := {}
  deriving DecidableEq, Repr

/-- The entry of the cache for content at a path, if it has one. -/
def remembered? (cache : Database) (path hash : String) : Option Entry :=
  match Cache.lookup cache path with
  | .ok (some e) => if e.isFreshFor hash then some e else none
  | _ => none

/-- Writes the entry of a record into the cache, if it has one. -/
def remember (s : State) (r : Record) : State :=
  match Entry.ofRecord? r with
  | none => s
  | some e =>
    match Cache.insert s.cache e with
    | .ok cache =>
      { s with cache, stats := { s.stats with cacheWrites := s.stats.cacheWrites + 1 } }
    | .error _ =>
      { s with stats := { s.stats with cacheWriteFailures := s.stats.cacheWriteFailures + 1 } }

/-- The analysis of content by the method of its language. Without a method, and
    where the method fails, it is empty; the number of failures goes with it. -/
def analyze (method : Option Language.Method) (content : Bytes) : Language.Analysis × Nat :=
  match method with
  | none => (.empty, 0)
  | some m =>
    match m.analyze (Utf8.decodeLossy content) with
    | .ok a => (a, 0)
    | .error _ => (.empty, 1)

/-- Fills the record of a file of a known language from its content. -/
def fill (s : State) (method : Option Language.Method) (content : Bytes) (r : Record) :
    State × Record :=
  let hash := Sha256.hash content
  let r := { r with contentHash := some hash }
  match remembered? s.cache r.path hash with
  | some e =>
    ({ s with stats := { s.stats with cacheHits := s.stats.cacheHits + 1 } }, r.restore e)
  | none =>
    let (analysis, failures) := analyze method content
    let r := r.fill analysis
    let stats := { s.stats with
      extractions := s.stats.extractions + 1
      parseFailures := s.stats.parseFailures + failures }
    (remember { s with stats } r, r)

/-- The record of a file. -/
def visitFile (fs : FileSystem) (s : State) (path : Bytes) (depth : Nat) : State × Record :=
  let language := Language.ofPath? path
  let r := Record.file path depth language
  match language with
  | none => (s, r)
  | some name =>
    let method := Language.method? name
    match fs.read path with
    | .error _ => ({ s with stats := { s.stats with unreadable := s.stats.unreadable + 1 } }, r)
    | .ok content =>
      let sources := if method.isSome then 1 else 0
      let stats := { s.stats with sourcesRead := s.stats.sourcesRead + sources }
      fill { s with stats } method content r

/-- The record of something seen. A directory that does not tell its entries is
    counted among what cannot be read. -/
def visit (fs : FileSystem) (s : State) (seen : Sight) : State × Record :=
  match seen.kind with
  | .directory =>
    let stats := { s.stats with
      directories := s.stats.directories + 1
      unreadable := s.stats.unreadable + if fs.isListed seen.path then 0 else 1 }
    ({ s with stats }, .directory seen.path seen.depth)
  | .file =>
    visitFile fs { s with stats := { s.stats with files := s.stats.files + 1 } }
      seen.path seen.depth

/-- The records of all that is seen, one after the other. -/
def visitAll (fs : FileSystem) : State → List Sight → State × List Record
  | s, [] => (s, [])
  | s, seen :: rest =>
    let (s, r) := visit fs s seen
    let (s, records) := visitAll fs s rest
    (s, r :: records)

/-- The result of a walk. -/
structure Result where
  records : List Record
  stats : Stats
  cache : Database
  deriving DecidableEq, Repr

/-- Walks the directory at a place, which tells its entries. The artifacts are files
    that no record is made of. -/
def collect (fs : FileSystem) (cache : Database) (artifacts : List Bytes) (place : Place) :
    Result :=
  let (s, records) := visitAll fs { cache } (survey fs artifacts place)
  ⟨records, s.stats, s.cache⟩

/-- The place of a directory that tells its entries. -/
def rootPlace (fs : FileSystem) (path : Bytes) : Except RootError Place :=
  match fs.resolve path with
  | .error e => .error (.unresolved path e)
  | .ok place =>
    let root := Path.ofNames place
    match fs.nodeAt? place with
    | some (.directory _) =>
      if fs.isListed root then .ok place else .error (.unlisted root .denied)
    | _ => .error (.notDirectory root)

/-- Walks the directory that a path leads to. -/
def run (fs : FileSystem) (cache : Database) (artifacts : List Bytes) (path : Bytes) :
    Except RootError Result :=
  (rootPlace fs path).map (collect fs cache artifacts)

end RepoAtlas.Walk
