import RepoAtlas.Language.Scanned
import RepoAtlas.Language.Suffix
import RepoAtlas.Python.Extract

/-!
# Analysis of a source

What a language tells about a source: its outline, its documentation and its
imports (`Analysis`). Python is parsed; the other languages are read line by
line. Reading line by line always succeeds; a Python source with a syntax fault
has no outline.
-/

namespace RepoAtlas.Language

/-- How the sources of a language are read. -/
inductive Method where
  | parsed
  | scanned (g : Scan.LineGrammar)

/-- The languages whose sources are read. -/
def methods : List (String × Method) := [
  ("C#", .scanned csharp), ("C++", .scanned slashComments), ("Go", .scanned slashComments),
  ("Java", .scanned java), ("JavaScript", .scanned javascript), ("PHP", .scanned php),
  ("Python", .parsed), ("Ruby", .scanned hashComments), ("TypeScript", .scanned javascript)]

/-- How the sources of a language are read, if they are. -/
def method? (language : String) : Option Method := methods.lookup language

/-- What is told about a source. -/
structure Analysis where
  outline : Outline
  doc : String
  imports : List String
  deriving DecidableEq, Repr

/-- Nothing told. -/
def Analysis.empty : Analysis := ⟨.empty, "", []⟩

namespace Method

/-- The outline of a source. -/
def outline (m : Method) (source : String) : Except Python.SyntaxFault Outline :=
  match m with
  | .parsed => (Python.parse source).map Python.outline
  | .scanned g => .ok (g.outline source.toList)

/-- The documentation of a source; empty if it has a syntax fault. -/
def doc (m : Method) (source : String) : String :=
  match m with
  | .parsed =>
    match Python.parse source with
    | .ok root => (Python.moduleDoc? root).getD ""
    | .error _ => ""
  | .scanned g => g.doc source.toList

/-- The imports of a source; none if it has a syntax fault. -/
def imports (m : Method) (source : String) : List String :=
  match m with
  | .parsed =>
    match Python.parse source with
    | .ok root => Python.imports root
    | .error _ => []
  | .scanned g => g.imports source.toList

/-- All that is told about a source. -/
def analyze (m : Method) (source : String) : Except Python.SyntaxFault Analysis :=
  match m with
  | .parsed =>
    (Python.parse source).map fun root =>
      ⟨Python.outline root, (Python.moduleDoc? root).getD "", Python.imports root⟩
  | .scanned g => .ok ⟨g.outline source.toList, g.doc source.toList, g.imports source.toList⟩

end Method

end RepoAtlas.Language
