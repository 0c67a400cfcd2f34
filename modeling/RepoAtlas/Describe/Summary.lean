import RepoAtlas.Record

/-!
# What a describer is told

The summary of a file (`Summary`), and the request made of it (`Summary.prompt`):
a line for each thing that is known.
-/

namespace RepoAtlas

/-- What a describer is told of a file. -/
structure Summary where
  name : String := ""
  language : String := ""
  imports : List String := []
  functions : List String := []
  types : List String := []
  constants : List String := []
  deriving DecidableEq, Repr, Inhabited

namespace Summary

/-- The summary of a record. -/
def ofRecord (r : Record) : Summary where
  name := r.name
  language := r.language.getD ""
  imports := r.knownImports
  functions := r.knownFunctions
  types := r.knownTypes.map (·.name)
  constants := r.knownConstants

/-- What is asked of every describer. -/
def task : String :=
  "You summarize source files for a repository map. Answer in exactly two lines:\n" ++
  "Description: <one sentence describing the file's purpose>\n" ++
  "Developer Consideration: \"<one short, concrete note for developers editing this file>\""

/-- The line of a list, unless it is empty. -/
def listLine (label : String) (items : List String) : String :=
  if items.isEmpty then "" else label ++ ": " ++ ", ".intercalate items ++ "\n"

/-- What a describer is asked of a file. -/
def prompt (s : Summary) : String :=
  "File: " ++ s.name ++ "\n" ++
  (if s.language.isEmpty then "" else "Language: " ++ s.language ++ "\n") ++
  listLine "Imports" s.imports ++ listLine "Functions" s.functions ++
  listLine "Types" s.types ++ listLine "Constants" s.constants

end Summary

end RepoAtlas
