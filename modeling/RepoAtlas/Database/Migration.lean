import RepoAtlas.Database

/-!
# Migrations

A database that an older release wrote is brought up to date step by step
(`Migration.run`). A step looks at the columns that are there and issues the
statements that are still needed; it only ever adds. The recorded version tells
which steps may be left out, and the last steps add whatever is still missing.

* `Migration.statements`: what a run does to a database, in order;
* `Migration.run`: the database after all of them, or after those before the
  first that fails.

A run that is stopped between two statements leaves the database after some of
the first of its statements.
-/

namespace RepoAtlas.Migration

/-- The columns of the cache. -/
def columns : List String :=
  ["path", "hash", "description", "enrichment", "imports", "functions", "enriched_hash"]

/-- The column that held the considerations in older releases. -/
def olderColumn : String := "developer_consideration"

/-- The number that a version is recorded as: a sign may stand in front, and it
    fits 32 bits. -/
def versionOf? (text : String) : Option Nat :=
  let digits := match text.toList with
    | '+' :: rest => rest
    | cs => cs
  if digits.isEmpty || !digits.all Char.isDigit then none
  else
    let n := digits.foldl (fun n c => n * 10 + (c.toNat - 48)) 0
    if n < Nat.pow 2 32 then some n else none

/-- The version of the columns; zero if none is recorded. -/
def version (db : Database) : Nat :=
  ((db.info.bind fun m => if m.hasValues then m.version else none).bind versionOf?).getD 0

/-- Decides what to do from what is there. -/
abbrev Step := Database → List Statement

/-- Adds a column, unless it is there. -/
def ensureColumn (name : String) : Step := fun db =>
  if db.hasColumn "cache" name then [] else [.addColumn name]

/-- Adds the column of the considerations, unless it is there, and fills it from
    the older one. -/
def addConsiderations : Step := fun db =>
  if db.hasColumn "cache" "enrichment" then []
  else
    .addColumn "enrichment" ::
      if db.hasColumn "cache" olderColumn then [.copyColumn olderColumn "enrichment"] else []

/-- The steps from a version on. -/
def steps (version : Nat) : List Step :=
  (if version < 1 then [fun _ => [.createCache], fun _ => [.recordVersion 1]] else []) ++
  (if version < 2 then [addConsiderations, fun _ => [.recordVersion 2]] else []) ++
  (if version < 3 then [ensureColumn "enriched_hash", fun _ => [.recordVersion 3]] else []) ++
  columns.map ensureColumn

/-- Carries statements out, up to the first that fails. -/
def perform (db : Database) : List Statement → Database × Option DatabaseError
  | [] => (db, none)
  | s :: rest =>
    match db.apply s with
    | .ok next => perform next rest
    | .error e => (db, some e)

/-- The statements that steps issue, each step on the database as the statements
    before leave it. -/
def issue : List Step → Database → List Statement
  | [], _ => []
  | step :: rest, db =>
    step db ++
      match perform db (step db) with
      | (next, none) => issue rest next
      | (_, some _) => []

/-- The database with the table of the version. -/
def withInfo (db : Database) : Database := (perform db [.createInfo]).1

/-- What a run does to a database. -/
def statements (db : Database) : List Statement :=
  .createInfo :: issue (steps (version (withInfo db))) (withInfo db)

/-- The database after a run, and the error that ended it. -/
def run (db : Database) : Database × Option DatabaseError := perform db (statements db)

end RepoAtlas.Migration
