import RepoAtlas.Scan.Pattern

/-!
# Replies of a describer

A reply is free text in which two markers are looked for, each for itself
(`Reply.ofText`): the description runs to the end of its line, and the
consideration is the first text in quotes behind its marker.
-/

namespace RepoAtlas

open Scan

/-- What a reply tells. Either part may be missing. -/
structure Reply where
  description : Option String
  consideration : Option String
  deriving DecidableEq, Repr, Inhabited

namespace Reply

/-- The description and its marker. -/
def descriptionPattern : Pattern :=
  [.text "Description:", .someBlanks, .run Piece.onLine 0 false true]

/-- The consideration, in quotes, and its marker. -/
def considerationPattern : Pattern := [
  .text "Developer Consideration:", .someBlanks, .text "\"", .run Piece.onLine 0 true true,
  .text "\""]

/-- What the first match in a text keeps, without the blanks around it. -/
def found? (p : Pattern) (text : String) : Option String :=
  (p.find? text.toList).map fun m => String.ofList (Text.trimBoth m.kept)

/-- What a reply tells. -/
def ofText (text : String) : Reply :=
  ⟨found? descriptionPattern text, found? considerationPattern text⟩

/-- Whether a reply tells nothing. -/
def isEmpty (r : Reply) : Bool := r.description.isNone && r.consideration.isNone

end Reply

end RepoAtlas
