import RepoAtlas.Bytes.Utf8
import RepoAtlas.Database

/-!
# File trees

Files, links and directories (`Node`). A directory holds its entries in some
order, no two of them of one name (`Entries`). A name is bytes, and need not be
that of a text.

* `Entries.find?`, `Entries.set`, `Entries.erase`: one entry of a directory;
* `Entries.nodeAt?`, `Entries.setAt`, `Entries.eraseAt`: what names lead to, one
  after the other. Links are not followed here.
-/

namespace RepoAtlas

/-- What a file holds: bytes, or a database. -/
inductive Content where
  | bytes (content : Bytes)
  | database (db : Database)
  deriving DecidableEq, Repr

mutual

/-- What a name in a directory stands for. -/
inductive Node where
  | file (content : Content)
  /-- A link, with the path it leads to. -/
  | link (target : Bytes)
  | directory (entries : Entries)

/-- The entries of a directory. -/
inductive Entries where
  | nil
  | cons (name : Bytes) (node : Node) (rest : Entries)

end

instance : Inhabited Entries := ⟨.nil⟩

instance : Inhabited Node := ⟨.directory .nil⟩

/-- The bytes that a file of a database begins with. Its other bytes are not
    spelled out. -/
def Database.signature : Bytes := Utf8.encode "SQLite format 3\x00"

/-- The bytes of a file. -/
def Content.toBytes : Content → Bytes
  | .bytes b => b
  | .database _ => Database.signature

namespace Entries

/-- The node of a name. -/
def find? : Entries → Bytes → Option Node
  | .nil, _ => none
  | .cons n node rest, name => if n = name then some node else rest.find? name

/-- The entries with a node under a name, in place of the one that is there. -/
def set : Entries → Bytes → Node → Entries
  | .nil, name, node => .cons name node .nil
  | .cons n old rest, name, node =>
    if n = name then .cons n node rest else .cons n old (rest.set name node)

/-- The entries without a name. -/
def erase : Entries → Bytes → Entries
  | .nil, _ => .nil
  | .cons n node rest, name => if n = name then rest else .cons n node (rest.erase name)

/-- The names of the entries. -/
def names : Entries → List Bytes
  | .nil => []
  | .cons n _ rest => n :: rest.names

/-- What names lead to. -/
def nodeAt? (entries : Entries) : List Bytes → Option Node
  | [] => some (.directory entries)
  | name :: rest =>
    match entries.find? name, rest with
    | some node, [] => some node
    | some (.directory below), _ :: _ => below.nodeAt? rest
    | _, _ => none

/-- The entries with a node where names lead. Nothing is set below what is no
    directory. -/
def setAt (entries : Entries) (node : Node) : List Bytes → Entries
  | [] => entries
  | [name] => entries.set name node
  | name :: rest =>
    match entries.find? name with
    | some (.directory below) => entries.set name (.directory (below.setAt node rest))
    | _ => entries

/-- The entries without what names lead to. -/
def eraseAt (entries : Entries) : List Bytes → Entries
  | [] => entries
  | [name] => entries.erase name
  | name :: rest =>
    match entries.find? name with
    | some (.directory below) => entries.set name (.directory (below.eraseAt rest))
    | _ => entries

end Entries

end RepoAtlas
