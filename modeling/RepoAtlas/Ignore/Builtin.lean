import RepoAtlas.Config
import RepoAtlas.Ignore.Scope

/-!
# Rules that always hold

What no map lists: the data of version control, and the files that a run writes
itself (`ruleTexts`). For each of those files there is a rule with its path as it is
shown, in which no character is to be read as a mark of a glob (`escape`).

* `builtin`: the scope of these rules.
-/

namespace RepoAtlas.Ignore

/-- The rules that hold below every root. -/
def fixedRules : List String := [
  ".git/",
  ".repo_map_structure.json",
  ".repo-map-cache.db",
  ".repo-map-cache.db-wal",
  ".repo-map-cache.db-shm",
  "*.pkl"]

/-- The characters that are written behind a backslash. -/
def marks : List Char := ['*', '?', '[', ']', '\\', '!', '#']

/-- The text with a backslash before each mark. -/
def escapeChars : List Char → List Char
  | [] => []
  | c :: rest => if c ∈ marks then '\\' :: c :: escapeChars rest else c :: escapeChars rest

/-- The text with a backslash before each mark. -/
def escape (s : String) : String := String.ofList (escapeChars s.toList)

/-- The names of parts that are names alone. -/
def names? : List Path.Part → Option (List Bytes)
  | [] => some []
  | .name s :: rest => (names? rest).map (s :: ·)
  | _ :: _ => none

/-- The parts of a path behind those of the root. -/
def partsBelow? (root path : List Path.Part) : Option (List Path.Part) := root.isPrefixOf? path

/-- The names that lead from the root to a file. `resolve` gives the parts of a
    directory that exists, links resolved; one that does not exist is taken as
    it is written. -/
def namesBelow? (resolve : List Path.Part → Option (List Path.Part)) (root path : Bytes) :
    Option (List Bytes) := do
  let name ← Path.fileName? path
  let below ←
    match resolve (Path.parts path).dropLast with
    | some parent => (partsBelow? (Path.parts root) parent).map (· ++ [.name name])
    | none => partsBelow? (Path.parts root) (Path.parts path)
  let names ← names? below
  if names.isEmpty then none else some names

/-- The rule for a file below the root. -/
def fileRule (names : List Bytes) : String :=
  "/" ++ "/".intercalate (names.map fun name => escape (Path.text name))

/-- The texts of the rules that hold below a root, for the files that a run
    writes. -/
def ruleTexts (resolve : List Path.Part → Option (List Path.Part)) (root : Bytes)
    (artifacts : List Bytes) : List String :=
  fixedRules ++ ("/" ++ escape (repositoryName root) ++ "_repo_map.md") ::
    artifacts.filterMap fun path => (namesBelow? resolve root path).map fileRule

/-- The scope of the rules that hold below a root. -/
def builtin (resolve : List Path.Part → Option (List Path.Part)) (root : Bytes)
    (artifacts : List Bytes) : Scope :=
  ⟨root, rulesOf (ruleTexts resolve root artifacts)⟩

end RepoAtlas.Ignore
