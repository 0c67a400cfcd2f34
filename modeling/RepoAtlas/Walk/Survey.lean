import RepoAtlas.FileSystem
import RepoAtlas.Ignore.Builtin
import RepoAtlas.Record

/-!
# Surveys

What a walk of a directory comes to see, and in which order (`survey`): first the
files of the directory by name, then its subdirectories by name, each followed
by what is below it. What the rules ignore is not seen, nor is anything below
it. A link to a directory is not seen either; any other link counts as a file.

The rules of a directory's own rule file are added when the directory is visited,
and stay from then on: they speak of nothing that is not below that directory.
In which order a directory holds its entries makes no difference.
-/

namespace RepoAtlas.Walk

open Ignore

/-- Something seen on a walk. -/
structure Sight where
  path : Bytes
  /-- The number of directories between the root and it. -/
  depth : Nat
  kind : Kind
  deriving DecidableEq, Repr

/-- An entry of a directory that is seen. -/
structure Seen where
  name : Bytes
  kind : Kind
  /-- What is seen of it, and the rules after that, by the rules before. -/
  visit : List Scope → List Sight × List Scope

/-- The name of a rule file. -/
def ruleFile : Bytes := Utf8.encode ".gitignore"

/-- The scope of the rule file of a directory, if it has one. -/
def scopeOf? (fs : FileSystem) (directory : Bytes) : Option Scope :=
  match fs.readContent (Path.join directory ruleFile) with
  | .ok content => some ⟨directory, rulesOfFile content.toBytes⟩
  | .error _ => none

/-- The kind that an entry is seen as. A link to a directory is not seen. -/
def seenAs? (fs : FileSystem) (path : Bytes) : Node → Option Kind
  | .file _ => some .file
  | .directory _ => some .directory
  | .link _ => if fs.isDirectory path then none else some .file

/-- The entries of one kind, by name. -/
def byName (kind : Kind) (seen : List Seen) : List Seen :=
  (seen.filter (·.kind = kind)).mergeSort fun a b => a.name ≤ b.name

/-- What is seen of entries, one after the other. -/
def visitSeen : List Seen → List Scope → List Sight × List Scope
  | [], scopes => ([], scopes)
  | x :: rest, scopes =>
    let (sights, scopes) := x.visit scopes
    let (others, scopes) := visitSeen rest scopes
    (sights ++ others, scopes)

/-- What is seen of the entries of a directory: the files, then the
    directories. -/
def arrange (seen : List Seen) (scopes : List Scope) : List Sight × List Scope :=
  visitSeen (byName .file seen ++ byName .directory seen) scopes

mutual

/-- What is seen below a node, and the rules after that. In a directory that does
    not tell its entries nothing is seen. -/
def below (fs : FileSystem) (scopes : List Scope) (path : Bytes) (depth : Nat) :
    Node → List Sight × List Scope
  | .directory entries =>
    let scopes := scopes ++ (scopeOf? fs path).toList
    if fs.isListed path then arrange (entriesSeen fs scopes path depth entries) scopes
    else ([], scopes)
  | _ => ([], scopes)

/-- The entries of a directory that are seen, by the rules when it is visited. -/
def entriesSeen (fs : FileSystem) (scopes : List Scope) (directory : Bytes) (depth : Nat) :
    Entries → List Seen
  | .nil => []
  | .cons name node rest =>
    let path := Path.join directory name
    let others := entriesSeen fs scopes directory depth rest
    match seenAs? fs path node with
    | none => others
    | some kind =>
      if isIgnored scopes path (kind = .directory) then others
      else
        let visit (scopes : List Scope) : List Sight × List Scope :=
          let (sights, scopes) := below fs scopes path (depth + 1) node
          (⟨path, depth, kind⟩ :: sights, scopes)
        ⟨name, kind, visit⟩ :: others

end

/-- What is seen below a root. -/
def survey (fs : FileSystem) (artifacts : List Bytes) (place : Place) : List Sight :=
  let root := Path.ofNames place
  match fs.nodeAt? place with
  | some node => (below fs [builtin fs.resolveParts root artifacts] root 0 node).1
  | none => []

end RepoAtlas.Walk
