import RepoAtlas.Python.Grammar
import RepoAtlas.Python.Lexer

/-!
# The syntax tree of a Python source

A source has a tree, or a fault on some line (`parse`).
-/

namespace RepoAtlas.Python

/-- Python as a language. What the layout says leaves no trace in its trees. -/
def language : Syntax.Language Token Rule Role where
  rules := rules
  number := Rule.ctorIdx
  isInlined := inlinedRules.contains
  isHidden := hiddenRules.contains
  start := .module
  isSilent t := t == .newline || t == .indent || t == .dedent

/-- The engine of the language. -/
def engine : Syntax.Engine Token Rule Role := .ofLanguage language

/-- The tree of a source, with a fault in it where the source leaves the
    grammar. -/
def tree (source : String) : Node :=
  let cursor := Cursor.ofSource source
  -- Tokens without text stand only between others.
  engine.parse (scanner engine.tables.tokens.toList) (4 * cursor.rest.length + 64) cursor

/-- A source that cannot be read, with the line of its first fault, counted from
    one. -/
structure SyntaxFault where
  line : Nat
  deriving DecidableEq, Repr

/-- The line, counted from one, of the first fault of a tree; line one if the
    tree has none. -/
def faultLine (root : Node) : Nat :=
  ((root.firstFault?.bind (·.line?)).getD 0) + 1

/-- The tree of a source, if it follows the grammar throughout. -/
def parse (source : String) : Except SyntaxFault Node :=
  let root := tree source
  if root.hasFault then .error ⟨faultLine root⟩ else .ok root

end RepoAtlas.Python
