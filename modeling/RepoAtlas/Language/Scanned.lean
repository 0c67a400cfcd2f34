import RepoAtlas.Scan.LineGrammar

/-!
# Languages read line by line

The line grammars of the languages that have one. In the languages with
visibility marks, a method and a free function look the same. In JavaScript, any
name before a parenthesis inside a class counts as a method, so the calls in the
bodies of methods are counted too.
-/

namespace RepoAtlas.Language

open Scan Scan.Piece

/-- A class declaration. -/
def classRule : Pattern := [text "class", blanks, name]

/-- A method with its visibility and its type. -/
def visibleMethodRule : Pattern := [
  .oneOf ["public".toList, "protected".toList, "private".toList],
  blanks, word, blanks, name, someBlanks, text "("]

/-- The rules of Java. -/
def java : LineGrammar where
  type := some classRule
  member := some visibleMethodRule
  function := some visibleMethodRule
  constant := some [
    text "public", blanks, text "static", blanks, text "final", blanks, word, blanks, name,
    someBlanks, text "="]
  imported := some [text "import", blanks, path ['.'], text ";"]
  comments := .slashes

/-- The rules of C#. -/
def csharp : LineGrammar where
  type := some classRule
  member := some visibleMethodRule
  function := some visibleMethodRule
  constant := some [
    text "public", blanks, text "const", blanks, word, blanks, name, someBlanks, text "="]
  imported := some [text "using", blanks, path ['.'], text ";"]
  comments := .slashes

/-- The rules of JavaScript and TypeScript. -/
def javascript : LineGrammar where
  type := some classRule
  member := some [name, someBlanks, text "("]
  function := some [text "function", blanks, name, someBlanks, text "("]
  constant := some [text "const", blanks, name, someBlanks, text "="]
  imported := some [
    text "import", blanks, .run onLine 0 true false, blanks, text "from", blanks,
    .oneOf [['\''], ['"']], path ['.', '/'], .oneOf [['\''], ['"']], text ";"]
  comments := .slashes

/-- The rules of C++ and Go: comments alone. -/
def slashComments : LineGrammar := { LineGrammar.empty with comments := .slashes }

/-- The rules of PHP: comments and imports. -/
def php : LineGrammar :=
  { slashComments with imported := some [text "use", blanks, path ['\\'], text ";"] }

/-- The rules of Ruby: comments alone. -/
def hashComments : LineGrammar := { LineGrammar.empty with comments := .hash }

end RepoAtlas.Language
