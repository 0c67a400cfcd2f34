import RepoAtlas.FileSystem
import RepoAtlas.Json.Reader
import RepoAtlas.Json.Writer
import RepoAtlas.Record

/-!
# Snapshots

The records of a repository as a JSON text (`Snapshot.text`), and back
(`Snapshot.records`). A field that is absent is left out, except the language,
which is null then. A text may have its fields in any order, and fields of other
names, which are skipped. A snapshot is loaded from a file (`Snapshot.load`).
-/

namespace RepoAtlas.Snapshot

open Json

/-! ### Writing -/

/-- The field, unless the value is absent. -/
def field? {α : Type} (name : String) (value : α → Value) (a : Option α) :
    List (String × Value) :=
  (a.map fun a => (name, value a)).toList

/-- The name of a kind. -/
def kindName : Kind → String
  | .directory => "directory"
  | .file => "file"

/-- The value of a type with its members. -/
def typeValue (t : TypeOutline) : Value :=
  .object [("name", .string t.name), ("members", .strings t.members)]

/-- The fields of a record, without those that are absent. The language is among
    them in any case. -/
def fieldsOf (r : Record) : List (String × Value) :=
  [ ("name", .string r.name), ("path", .string r.path), ("depth", .number (toString r.depth)),
    ("kind", .string (kindName r.kind)),
    ("language", (r.language.map Value.string).getD .null)] ++
  field? "content_hash" .string r.contentHash ++
  field? "declared_types" (fun ts => .array (ts.map typeValue)) r.types ++
  field? "functions" .strings r.functions ++
  field? "constants" .strings r.constants ++
  field? "imports" .strings r.imports ++
  field? "description" .string r.description ++
  field? "enrichment" .string r.consideration ++
  field? "enriched_hash" .string r.describedHash

/-- The value of a record. -/
def recordValue (r : Record) : Value := .object (fieldsOf r)

/-- The text of a snapshot. -/
def text (records : List Record) : String := (Value.array (records.map recordValue)).pretty

/-! ### Reading -/

/-- A kind by its name. -/
def kindOfName (rest : List Char) (name : String) : Except Fault Kind :=
  if name = "directory" then .ok .directory
  else if name = "file" then .ok .file
  else .error (.behind (.unknownVariant name "`directory` or `file`") rest)

/-- A kind: its name, or an object with the name as its key and null. -/
def kind : Reader Kind := fun cs =>
  match skipSpace cs with
  | [] => .error (.behind .valueMissing [])
  | '"' :: rest => do
    let (name, rest) ← stringBody rest
    return (← kindOfName rest name, rest)
  | '{' :: rest => do
    let (name, rest) ←
      match skipSpace rest with
      | [] => .error (.behind .valueMissing [])
      | '"' :: rest => stringBody rest
      | rest => .error (unexpected "variant identifier" rest)
    let k ← kindOfName rest name
    let rest ← colon rest
    let rest ←
      match skipSpace rest with
      | [] => .error (.behind .valueMissing [])
      | 'n' :: rest => word "ull".toList rest
      | rest => .error (unexpected "unit" rest)
    match skipSpace rest with
    | '}' :: rest => return (k, rest)
    | [] => .error (.behind .objectUnclosed [])
    | rest => .error (.behind .valueExpected rest)
  | rest => .error (.atNext .valueExpected rest)

/-- A value in the making, with the names of the fields it has. -/
structure Draft (α : Type) where
  value : α
  seen : List String

/-- Reads a field and puts it into the draft. -/
def Draft.put {α β : Type} (d : Draft α) (name : String) (set : α → β → α) (value : Reader β) :
    Reader (Draft α) := fun cs => do
  let (b, rest) ← value cs
  return (⟨set d.value b, name :: d.seen⟩, rest)

/-- The fields of a type. -/
def typeFields : Reader.Fields (Draft TypeOutline) where
  type := "DeclaredType"
  names := ["name", "members"]
  blank := ⟨⟨"", []⟩, []⟩
  has d name := d.seen.contains name
  required name := name = "name"
  read name d :=
    if name = "name" then d.put name (fun t s => { t with name := s }) .string
    else d.put name (fun t l => { t with members := l }) (.list .string)

/-- A type with its members. -/
def typeOutline : Reader TypeOutline := fun cs => do
  let (d, rest) ← Reader.record typeFields cs
  return (d.value, rest)

/-- The fields of a record. -/
def recordFields : Reader.Fields (Draft Record) where
  type := "FileRecord"
  names := [
    "name", "path", "depth", "kind", "language", "content_hash", "declared_types", "functions",
    "constants", "imports", "description", "enrichment", "enriched_hash"]
  blank := ⟨{ name := "", path := "", depth := 0, kind := .file }, []⟩
  has d name := d.seen.contains name
  required name := ["name", "path", "depth", "kind"].contains name
  read name d :=
    let strings : Reader (Option (List String)) := .optional (.list .string)
    if name = "name" then d.put name (fun r s => { r with name := s }) .string
    else if name = "path" then d.put name (fun r s => { r with path := s }) .string
    else if name = "depth" then d.put name (fun r n => { r with depth := n }) .natural
    else if name = "kind" then d.put name (fun r k => { r with kind := k }) kind
    else if name = "language" then
      d.put name (fun r s => { r with language := s }) (.optional .string)
    else if name = "content_hash" then
      d.put name (fun r s => { r with contentHash := s }) (.optional .string)
    else if name = "declared_types" then
      d.put name (fun r l => { r with types := l }) (.optional (.list typeOutline))
    else if name = "functions" then d.put name (fun r l => { r with functions := l }) strings
    else if name = "constants" then d.put name (fun r l => { r with constants := l }) strings
    else if name = "imports" then d.put name (fun r l => { r with imports := l }) strings
    else if name = "description" then
      d.put name (fun r s => { r with description := s }) (.optional .string)
    else if name = "enrichment" then
      d.put name (fun r s => { r with consideration := s }) (.optional .string)
    else d.put name (fun r s => { r with describedHash := s }) (.optional .string)

/-- A record. -/
def record : Reader Record := fun cs => do
  let (d, rest) ← Reader.record recordFields cs
  return (d.value, rest)

/-- The records of a snapshot. -/
def records (text : String) : Except Json.Error (List Record) := (Reader.list record).run text

/-! ### Files -/

/-- Why no snapshot can be loaded. -/
inductive LoadError where
  | unread (fault : PathFault)
  | notText
  | malformed (error : Json.Error)
  deriving DecidableEq, Repr

/-- What a message says of an error. -/
def LoadError.message : LoadError → String
  | .unread fault => "IO error: " ++ fault.message
  | .notText => "IO error: stream did not contain valid UTF-8"
  | .malformed e => "Serialization error: " ++ e.message

/-- The records of the snapshot in the file that a path leads to. -/
def load (fs : FileSystem) (path : Bytes) : Except LoadError (List Record) :=
  match fs.read path with
  | .error fault => .error (.unread fault)
  | .ok bytes =>
    match Utf8.decode? bytes with
    | none => .error .notText
    | some text => (records text).mapError .malformed

end RepoAtlas.Snapshot
