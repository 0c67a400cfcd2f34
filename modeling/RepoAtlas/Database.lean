import RepoAtlas.Path

/-!
# The database of the cache

A table of texts with named columns, and beside it a table that may record the
version of the first one's columns (`Database`). What is done to it is a
`Statement`; each is carried out whole or not at all.

Names of columns that differ in case alone are the same name to a statement that
adds one, but not to a look-up.
-/

namespace RepoAtlas

/-- What is stored in one column of a row. -/
inductive Cell where
  | null
  | text (s : String)
  | blob (bytes : List UInt8)
  deriving DecidableEq, Repr, Inhabited

/-- Why a database refuses a request. -/
inductive DatabaseError where
  | noTable (name : String)
  | duplicateColumn (name : String)
  | noColumn (table column : String)
  /-- Bytes are stored where text is expected: the position and name of the
      column asked for. -/
  | notText (index : Nat) (column : String)
  | writeRefused
  | notDatabase
  | cannotOpen (path : String)
  /-- A file of the database cannot be made beside it. -/
  | blocked
  /-- A file beside the database cannot be read. -/
  | unreadable
  deriving DecidableEq, Repr

/-- What a message says of an error. -/
def DatabaseError.message : DatabaseError → String
  | noTable name => s!"no such table: {name}"
  | duplicateColumn name => s!"duplicate column name: {name}"
  | noColumn table column => s!"table {table} has no column named {column}"
  | notText index column => s!"Invalid column type Blob at index: {index}, name: {column}"
  | writeRefused => "no writes"
  | notDatabase => "file is not a database"
  | cannotOpen path => s!"unable to open database file: {path}"
  | blocked => "unable to open database file"
  | unreadable => "disk I/O error"

/-- A table. Each row has a cell for each column; rows are in the order in which
    they were added. -/
structure Table where
  columns : List String
  /-- Whether no two rows have the same text in the column `path`. -/
  keyed : Bool
  rows : List (List Cell)
  deriving DecidableEq, Repr

namespace Table

/-- The cell of a row in a column. A column that the row lacks holds nothing. -/
def cell (t : Table) (row : List Cell) (column : String) : Cell :=
  match t.columns.idxOf? column with
  | some i => row.getD i .null
  | none => .null

/-- The row with a column set to a cell. -/
def setCell (t : Table) (row : List Cell) (column : String) (c : Cell) : List Cell :=
  match t.columns.idxOf? column with
  | some i => row.set i c
  | none => row

/-- The table with one more column, in which no row has anything. -/
def addColumn (t : Table) (column : String) : Table :=
  { t with columns := t.columns ++ [column], rows := t.rows.map (· ++ [.null]) }

/-- The first row with the text in the column `path`. -/
def find? (t : Table) (path : String) : Option (List Cell) :=
  t.rows.find? fun row => t.cell row "path" = .text path

/-- Adds a row with the given cells. In a keyed table, it replaces the row of
    the same path. -/
def insert (t : Table) (path : String) (cells : List (String × Cell)) : Table :=
  let row := t.columns.map fun column => (cells.lookup column).getD .null
  let others := if t.keyed then t.rows.filter fun r => t.cell r "path" ≠ .text path else t.rows
  { t with rows := others ++ [row] }

end Table

/-- The table of the version. -/
structure Meta where
  /-- Whether it has a column for values at all. -/
  hasValues : Bool
  version : Option String
  deriving DecidableEq, Repr

/-- A database. -/
structure Database where
  info : Option Meta := none
  cache : Option Table := none
  /-- Whether rows may be added to the cache. -/
  writable : Bool := true
  deriving DecidableEq, Repr, Inhabited

/-- What is done to a database at once. -/
inductive Statement where
  /-- Creates the table of the version, unless there is one. -/
  | createInfo
  /-- Creates the table of the cache, unless there is one. -/
  | createCache
  | addColumn (name : String)
  /-- Copies a column into another in the rows that have nothing there. -/
  | copyColumn (source target : String)
  | recordVersion (n : Nat)
  deriving DecidableEq, Repr

namespace Database

/-- The columns of a new table of the cache. -/
def firstColumns : List String := ["path", "hash", "description", "imports", "functions"]

/-- The name in small letters. -/
def foldCase (s : String) : String := String.ofList (s.toList.map Char.toLower)

/-- The columns of a table; none if there is no such table. -/
def columnsOf (db : Database) (table : String) : List String :=
  if table = "cache" then (db.cache.map (·.columns)).getD []
  else if table = "meta" then
    (db.info.map fun m => if m.hasValues then ["key", "value"] else ["key"]).getD []
  else []

/-- Whether a table has a column of exactly this name. -/
def hasColumn (db : Database) (table column : String) : Bool :=
  (db.columnsOf (foldCase table)).contains column

/-- The database after a statement. -/
def apply (db : Database) : Statement → Except DatabaseError Database
  | .createInfo => .ok (if db.info.isSome then db else { db with info := some ⟨true, none⟩ })
  | .createCache =>
    .ok (if db.cache.isSome then db else { db with cache := some ⟨firstColumns, true, []⟩ })
  | .addColumn name =>
    match db.cache with
    | none => .error (.noTable "cache")
    | some t =>
      if t.columns.any fun c => foldCase c = foldCase name then .error (.duplicateColumn name)
      else .ok { db with cache := some (t.addColumn name) }
  | .copyColumn source target =>
    match db.cache with
    | none => .error (.noTable "cache")
    | some t =>
      let copied (row : List Cell) : List Cell :=
        if t.cell row target = .null then t.setCell row target (t.cell row source) else row
      .ok { db with cache := some { t with rows := t.rows.map copied } }
  | .recordVersion n =>
    match db.info with
    | none => .error (.noTable "meta")
    | some m =>
      if m.hasValues then .ok { db with info := some { m with version := some (toString n) } }
      else .error (.noColumn "meta" "value")

end Database

end RepoAtlas
