import RepoAtlas.Record

/-!
# The map of a repository

The records drawn as a tree between two fences (`treeMap`): one line for each
record, indented by its depth, and under a file one line for each thing known of
it. Only the last record has the closing branch.
-/

namespace RepoAtlas.TreeMap

/-- One column of the indentation. -/
def pipe : String := "│   "

/-- One column of the indentation below the last record. -/
def gap : String := "    "

/-- The branch to a line. -/
def branch : String := "├── "

/-- The branch to the last record. -/
def lastBranch : String := "└── "

/-- The line under the tree. -/
def footer : String := "└────────────── "

/-- The columns in front of a record of a depth. -/
def columns (depth : Nat) : String := String.join (List.replicate depth pipe)

/-- Names in quotes and brackets. -/
def quotedList (names : List String) : String :=
  "[" ++ ", ".intercalate (names.map fun n => "'" ++ n ++ "'") ++ "]"

/-- What is known of a file, line by line. -/
def details (r : Record) : List String :=
  ((r.description.bind Record.filled?).map ("Description: " ++ ·)).toList ++
  ((r.consideration.bind Record.filled?).map fun c =>
    "Developer Consideration: \"" ++ c ++ "\"").toList ++
  (if r.knownImports.isEmpty then [] else ["Imports: " ++ quotedList r.knownImports]) ++
  (if r.knownFunctions.isEmpty then [] else ["Functions: " ++ quotedList r.knownFunctions])

/-- The line of a record and the lines of its details. -/
def recordLines (r : Record) (last : Bool) : List String :=
  let front := columns r.depth
  let connector := if last then lastBranch else branch
  match r.kind with
  | .directory => [front ++ connector ++ r.name ++ "/"]
  | .file =>
    (front ++ connector ++ r.name ++ " (" ++ r.language.getD "None" ++ ")") ::
      (details r).map fun d => front ++ (if last then gap else pipe) ++ branch ++ d

/-- The lines of the records. -/
def treeLines : List Record → List String
  | [] => []
  | [r] => recordLines r true
  | r :: rest => recordLines r false ++ treeLines rest

/-- The lines of the map. A text within may hold line breaks of its own. -/
def lines (records : List Record) (repository : String) : List String :=
  ["# Repository Map", "", "```markdown", "/ (" ++ repository ++ ")"] ++
    treeLines records ++ [footer, "```"]

end TreeMap

/-- The map of a repository. -/
def treeMap (records : List Record) (repository : String) : String :=
  String.join ((TreeMap.lines records repository).map (· ++ "\n"))

end RepoAtlas
