import RepoAtlas.Outline
import RepoAtlas.Scan.Comment

/-!
# Line grammars

The outline of a source is read line by line, without a full parse: a rule is a
pattern that finds a name on a line (`LineGrammar`).

A line that declares a type opens it and says nothing else. On any other line, a
member of the open type is found, or a function where no type is open, and a
constant anywhere (`LineGrammar.step`). Nothing closes a type but the next one.
-/

namespace RepoAtlas.Scan

/-- The rules of a language, each of which it may do without. -/
structure LineGrammar where
  type : Option Pattern
  member : Option Pattern
  function : Option Pattern
  constant : Option Pattern
  imported : Option Pattern
  comments : CommentStyle

/-- Where in a source a line stands: in a type, or in none. -/
inductive Scope where
  | top
  | inType (name : String)
  deriving DecidableEq, Repr

/-- What a line says. -/
inductive Event where
  | type (name : String)
  | member (owner name : String)
  | function (name : String)
  | constant (name : String)
  deriving DecidableEq, Repr

namespace LineGrammar

/-- No rules at all. -/
def empty : LineGrammar := ⟨none, none, none, none, none, .ignored⟩

/-- The name that a rule finds on a line. -/
def found? (rule : Option Pattern) (line : List Char) : Option String :=
  rule.bind (·.name? line)

/-- The scope after a line, and what the line says. -/
def step (g : LineGrammar) (scope : Scope) (line : List Char) : Scope × List Event :=
  match found? g.type line with
  | some name => (.inType name, [.type name])
  | none =>
    let inner : Option Event :=
      match scope with
      | .inType owner => (found? g.member line).map (.member owner)
      | .top => (found? g.function line).map .function
    (scope, inner.toList ++ ((found? g.constant line).map Event.constant).toList)

end LineGrammar

/-- The outline with what an event adds. -/
def Event.enter (o : Outline) : Event → Outline
  | .type name => o.openType name
  | .member owner name => o.addMember owner name
  | .function name => o.addFunction name
  | .constant name => o.addConstant name

namespace LineGrammar

/-- Reads the lines on from a scope. -/
def scanFrom (g : LineGrammar) : Scope → Outline → List (List Char) → Outline
  | _, o, [] => o
  | scope, o, line :: lines =>
    let (next, events) := g.step scope line
    scanFrom g next (events.foldl Event.enter o) lines

/-- The outline of lines, from outside any type. -/
def scan (g : LineGrammar) (lines : List (List Char)) : Outline := g.scanFrom .top .empty lines

/-- The outline of a source. Without a rule for types, functions or constants
    there is none to read. -/
def outline (g : LineGrammar) (source : List Char) : Outline :=
  if g.type.isNone && g.function.isNone && g.constant.isNone then .empty
  else g.scan (Text.fileLines source)

/-- The imports of a source: one for each line on which one is found. -/
def imports (g : LineGrammar) (source : List Char) : List String :=
  (Text.fileLines source).filterMap (found? g.imported)

/-- The documentation of a source. -/
def doc (g : LineGrammar) (source : List Char) : String :=
  String.ofList (g.comments.doc source)

end LineGrammar

end RepoAtlas.Scan
