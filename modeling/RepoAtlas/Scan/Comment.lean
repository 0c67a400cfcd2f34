import RepoAtlas.Scan.Pattern
import RepoAtlas.Text.Lines

/-!
# Documentation from comments

The documentation of a source is the text of its comments, joined by blanks. A
comment begins on a line of its own; blanks before and behind its marker may
reach over line breaks.

* `CommentStyle.doc`: the documentation of a source in a style.
-/

namespace RepoAtlas.Scan

/-- How comments are written. -/
inductive CommentStyle where
  /-- Comments are not read. -/
  | ignored
  /-- From `//` to the end of the line, or from `/**` to the next `*/`. -/
  | slashes
  /-- From `#` to the end of the line, but not after `#!`. -/
  | hash
  deriving DecidableEq, Repr

namespace CommentStyle

/-- The marker of a comment that ends with its line, and the comment. -/
def toLineEnd (marker : String) : Pattern :=
  [.someBlanks, .text marker, .someBlanks, .run Piece.onLine 0 false true]

/-- A comment between two markers on one line. -/
def enclosed : Pattern :=
  [.someBlanks, .text "/**", .someBlanks, .run Piece.onLine 0 true true, .someBlanks, .text "*/"]

/-- The patterns of a comment, the first of which that fits counts. -/
def patterns : CommentStyle → List Pattern
  | .ignored => []
  | .slashes => [toLineEnd "//", enclosed]
  | .hash => [toLineEnd "#"]

/-- Whether the text of a comment is documentation. -/
def keeps (style : CommentStyle) (text : List Char) : Bool :=
  match style with
  | .hash => text.head? != some '!'
  | _ => true

/-- The comments in the text, in order, none of which overlaps another. A
    comment begins at the start of a line only; `atStart` says whether the text
    begins one. The fuel is the length of the text. -/
def commentsFrom (ps : List Pattern) : Nat → Bool → List Char → List (List Char)
  | 0, _, _ => []
  | fuel + 1, atStart, cs =>
    match if atStart then ps.findSome? (·.matchHere? cs) else none with
    | some m =>
      -- A comment is not empty: it has its marker.
      m.kept :: commentsFrom ps fuel false m.rest
    | none =>
      match cs with
      | [] => []
      | c :: rest => commentsFrom ps fuel (c == '\n') rest

/-- The documentation of a source: the comments that say something, without the
    blanks around them. -/
def doc (style : CommentStyle) (source : List Char) : List Char :=
  let comments := (commentsFrom style.patterns (source.length + 1) true source).map Text.trimBoth
  Text.joinWith [' '] (comments.filter fun c => !c.isEmpty && style.keeps c)

end CommentStyle

end RepoAtlas.Scan
