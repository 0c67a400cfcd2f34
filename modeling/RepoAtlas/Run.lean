import RepoAtlas.Describe.Chat
import RepoAtlas.Describe.Round
import RepoAtlas.Snapshot
import RepoAtlas.TreeMap
import RepoAtlas.Walk

/-!
# Runs

A run maps a repository (`Run.perform`): it opens the cache, walks the root,
saves a snapshot of the records, asks a describer about them if there is one,
and saves the map. The cache is a file with two more beside it while a run has
it open (`openCache`, `closeCache`). Opening it also settles its journal, a file
beside it that another program may have left behind (`settleJournal`).

A run fails if the root is no directory or the cache cannot be opened, and, with
the cache open, if the root does not tell its entries. Where the snapshot or the
map cannot be saved, it goes on without.

* `validateRoot`: the root that a path leads to;
* `Run.perform`: the run;
* `Run.withEndpoint`: the run that asks a chat endpoint, if it has a key.
-/

namespace RepoAtlas

/-- Why a run fails. -/
inductive RunError where
  | unresolvedRoot (path : Bytes) (fault : PathFault)
  | notDirectory (path : Bytes)
  | cache (path : Bytes) (error : DatabaseError)
  /-- The root cannot be walked. -/
  | walk (error : Walk.RootError)
  deriving DecidableEq, Repr

/-- What a message says of an error. -/
def RunError.message : RunError → String
  | .unresolvedRoot path fault => s!"Invalid root path: {Path.text path}: {fault.message}"
  | .notDirectory path => s!"Invalid root path: {Path.text path} is not a valid directory"
  | .cache path error =>
    s!"Cache error: cannot open {Path.text path}: Database error: {error.message}"
  | .walk error => error.message

/-- The root that a path leads to. -/
def validateRoot (fs : FileSystem) (path : Bytes) : Except RunError Place :=
  match fs.resolve path with
  | .error e => .error (.unresolvedRoot path e)
  | .ok place =>
    match fs.nodeAt? place with
    | some (.directory _) => .ok place
    | _ => .error (.notDirectory path)

/-! ### The cache as a file -/

/-- The database that a file holds. An empty file holds an empty one. -/
def databaseOf : Content → Except DatabaseError Database
  | .database db => .ok db
  | .bytes [] => .ok {}
  | .bytes _ => .error .notDatabase

/-- The file that the path of a cache leads to, and what it holds. A file that is
    not there yet is an empty one. -/
def cacheFile (fs : FileSystem) (path : Bytes) : Except DatabaseError (Place × Content) :=
  match fs.resolveNew path with
  | .error _ => .error (.cannotOpen (Path.text path))
  | .ok place =>
    match fs.nodeAt? place with
    | none => .ok (place, .bytes [])
    | some (.file content) => .ok (place, content)
    | some _ => .error (.cannotOpen (Path.text path))

/-- What the name of the journal adds to that of the cache. -/
def journalEnding : Bytes := Utf8.encode "-journal"

/-- What the names of the files add that stand beside an open cache. -/
def sideEndings : List Bytes := [Utf8.encode "-wal", Utf8.encode "-shm"]

/-- The place of a file beside the one at a place. -/
def besides (place : Place) (ending : Bytes) : Place :=
  match place.getLast? with
  | some name => place.dropLast ++ [name ++ ending]
  | none => place

/-- Whether a file may be put at a place: its name is not too long, and nothing but
    a file is there. -/
def takesFile (fs : FileSystem) (place : Place) : Bool :=
  place.getLast?.all (·.length ≤ FileSystem.nameLimit) &&
    match fs.nodeAt? place with
    | none | some (.file _) => true
    | some _ => false

/-- Whether a link leads to something other than an empty file. -/
def leadsOn (fs : FileSystem) (place : Place) : Bool :=
  match fs.find (Path.ofNames place) with
  | .ok (.file content) => content.toBytes ≠ []
  | .ok _ => true
  | .error _ => false

/-- Settles the journal of a cache, which another program may have left at a place.
    To make a new cache, a journal is put there and removed. Beside one that is
    there already, a journal counts if it begins with a byte other than zero: what
    was left undone is undone and the journal is removed. Of the cache itself
    nothing is undone; that takes the journal of a program that wrote to it. -/
def settleJournal (fs : FileSystem) (place : Place) (isNew : Bool) :
    Except DatabaseError FileSystem :=
  match fs.nodeAt? place with
  | none => if isNew && !takesFile fs place then .error .blocked else .ok fs
  | some (.file content) =>
    if isNew || content.toBytes.head?.any (· ≠ 0) then .ok (fs.eraseAt place) else .ok fs
  | some (.directory _) => .error (if isNew then .blocked else .unreadable)
  | some (.link _) =>
    if leadsOn fs place ≠ isNew then .error .blocked
    else .ok (if isNew then fs.eraseAt place else fs)

/-- The file system without the file at a place. A directory stays. -/
def clearBeside (fs : FileSystem) (place : Place) : FileSystem :=
  match fs.nodeAt? place with
  | some (.directory _) => fs
  | _ => fs.eraseAt place

/-- Puts the cache into its file, and removes the two beside it. -/
def closeCache (fs : FileSystem) (place : Place) (db : Database) : FileSystem :=
  sideEndings.foldl (fun fs e => clearBeside fs (besides place e))
    (fs.setAt place (.file (.database db)))

/-- Puts the two files beside the cache at a place and brings it up to date. If that
    fails the cache is closed again. -/
def upgradeCache (fs : FileSystem) (place : Place) (db : Database) :
    FileSystem × Except DatabaseError (Place × Database) :=
  let fs := fs.setAt place (.file (.database db))
  if sideEndings.all fun e => takesFile fs (besides place e) then
    let fs := sideEndings.foldl (fun fs e => fs.setAt (besides place e) (.file (.bytes []))) fs
    match Migration.run db with
    | (db, some e) => (closeCache fs place db, .error e)
    | (db, none) => (fs.setAt place (.file (.database db)), .ok (place, db))
  else (fs, .error .blocked)

/-- Opens the cache that a path leads to. -/
def openCache (fs : FileSystem) (path : Bytes) :
    FileSystem × Except DatabaseError (Place × Database) :=
  match cacheFile fs path with
  | .error e => (fs, .error e)
  | .ok (place, content) =>
    let fs := fs.setAt place (.file content)
    match settleJournal fs (besides place journalEnding) (content = .bytes []) with
    | .error e => (fs, .error e)
    | .ok fs =>
      match databaseOf content with
      | .error e => (fs, .error e)
      | .ok db => upgradeCache fs place db

/-! ### The run -/

/-- What a run comes to. -/
structure Run where
  root : Bytes
  records : List Record
  walk : Walk.Stats
  /-- What the describer's round came to, if there was one. -/
  round : Option RoundStats
  snapshotPath : Bytes
  mapPath : Bytes
  deriving DecidableEq, Repr

namespace Run

/-- What is there after a run. -/
structure Outcome (σ : Type) where
  fs : FileSystem
  result : Except RunError Run
  attempts : List Attempt
  describer : σ

/-- The file system with a text in a file, or as it was, if the text cannot be
    written there. -/
def save (fs : FileSystem) (path : Bytes) (text : String) : FileSystem :=
  match fs.writeText path text with
  | .ok fs => fs
  | .error _ => fs

/-- The records with what a describer tells about them, and the cache that
    remembers it. Without a describer they stay as they are. -/
def describe {σ : Type} (d : Option (Describer σ)) (c : Config) (records : List Record)
    (cache : Database) (state : σ) : Option (Round.Result σ × Option RoundStats) :=
  match d with
  | none =>
    some (⟨records, [], [], {}, cache, state⟩, none)
  | some d => (Round.run d c.model c.policy records cache state).map fun r => (r, some r.stats)

/-- A run from its walk on, with the cache open. `file` is the place of the cache. -/
def mapWalk {σ : Type} (fs : FileSystem) (c : Config) (root file : Place) (walk : Walk.Result)
    (d : Option (Describer σ)) (state : σ) : Option (Outcome σ) :=
  let path := Path.ofNames root
  let fs := save fs (c.snapshotPath path) (Snapshot.text walk.records)
  (describe d c walk.records walk.cache state).map fun (round, stats) =>
    let fs := save fs (c.mapPath path) (treeMap round.records (repositoryName path))
    { fs := closeCache fs file round.cache
      result := .ok {
        root := path
        records := round.records
        walk := walk.stats
        round := stats
        snapshotPath := c.snapshotPath path
        mapPath := c.mapPath path }
      attempts := round.attempts
      describer := round.describer }

/-- A run over a root, with the cache open. -/
def mapRoot {σ : Type} (fs : FileSystem) (c : Config) (root file : Place) (cache : Database)
    (d : Option (Describer σ)) (state : σ) : Option (Outcome σ) :=
  let path := Path.ofNames root
  match Walk.run fs cache (c.artifacts path) path with
  | .error e => some ⟨closeCache fs file cache, .error (.walk e), [], state⟩
  | .ok walk => mapWalk fs c root file walk d state

/-- A run over the directory that a path leads to. There is no outcome if a wait
    for the describer overflows. -/
def perform {σ : Type} (fs : FileSystem) (path : Bytes) (c : Config)
    (d : Option (Describer σ)) (state : σ) : Option (Outcome σ) :=
  match validateRoot fs path with
  | .error e => some ⟨fs, .error e, [], state⟩
  | .ok root =>
    let cachePath := c.cachePath (Path.ofNames root)
    match openCache fs cachePath with
    | (fs, .error e) => some ⟨fs, .error (.cache cachePath e), [], state⟩
    | (fs, .ok (file, cache)) => mapRoot fs c root file cache d state

/-- A run that asks the configured endpoint, if it is told to and has a key. -/
def withEndpoint {σ : Type} (send : Chat.Transport σ) (fs : FileSystem) (path : Bytes)
    (c : Config) (state : σ) : Option (Outcome σ) :=
  perform fs path c
    (if c.enrichmentEnabled then some (Chat.describer send (.ofConfig c)) else none) state

end Run

end RepoAtlas
