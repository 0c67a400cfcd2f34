import RepoAtlas.Database.Migration
import RepoAtlas.Json.Reader
import RepoAtlas.Json.Writer
import RepoAtlas.Record

/-!
# The cache

Entries kept in a database, one under each path. Lists are stored as JSON
arrays of strings; what is no such array is read as the empty list.

* `Cache.lookup`, `Cache.insert`, `Cache.size`: the operations;
* `Cache.encodeList`, `Cache.decodeList`: lists as texts.
-/

namespace RepoAtlas.Cache

open Json

/-- A list as text. -/
def encodeList (l : List String) : String := (Value.strings l).compact

/-- The list that a text stands for. -/
def decodeList (s : String) : List String :=
  if Text.isBlankText s then []
  else
    match (Reader.list Reader.string).run s with
    | .ok l => l
    | .error _ => []

/-- The table of the cache. -/
def table (db : Database) : Except DatabaseError Table :=
  match db.cache with
  | some t => .ok t
  | none => .error (.noTable "cache")

/-- The text of a cell; empty if it holds nothing. -/
def textOf (index : Nat) (column : String) : Cell → Except DatabaseError String
  | .null => .ok ""
  | .text s => .ok s
  | .blob _ => .error (.notText index column)

/-- The entry of a path. -/
def lookup (db : Database) (path : String) : Except DatabaseError (Option Entry) := do
  let t ← table db
  match t.find? path with
  | none => return none
  | some row =>
    let field (index : Nat) (column : String) := textOf index column (t.cell row column)
    let hash ← field 0 "hash"
    let description ← field 1 "description"
    let consideration ← field 2 "enrichment"
    let imports ← field 3 "imports"
    let functions ← field 4 "functions"
    let describedHash ← field 5 "enriched_hash"
    return some {
      path, hash, description, consideration, describedHash
      imports := decodeList imports
      functions := decodeList functions }

/-- The database with an entry, which replaces the one of the same path. -/
def insert (db : Database) (e : Entry) : Except DatabaseError Database := do
  let t ← table db
  if !db.writable then .error .writeRefused
  else
    return { db with cache := some (t.insert e.path [
      ("path", .text e.path), ("hash", .text e.hash), ("description", .text e.description),
      ("enrichment", .text e.consideration), ("imports", .text (encodeList e.imports)),
      ("functions", .text (encodeList e.functions)), ("enriched_hash", .text e.describedHash)]) }

/-- The number of entries. -/
def size (db : Database) : Except DatabaseError Nat := do return (← table db).rows.length

/-- An empty cache. -/
def empty : Database := (Migration.run {}).1

/-- An empty cache that refuses every write. -/
def sealed : Database := { empty with writable := false }

/-- A cache without its table. -/
def lost : Database := { empty with cache := none }

end RepoAtlas.Cache
