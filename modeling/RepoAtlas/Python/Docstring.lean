import RepoAtlas.Bytes.Utf8
import RepoAtlas.Python.Rule
import RepoAtlas.Text.Blank
import RepoAtlas.Text.Lines

/-!
# Docstrings

The documentation of a module is a string that stands alone as its first
statement, if it is neither formatted nor a string of bytes (`moduleDoc?`).

The text is laid out anew (`cleanDoc`): tabs become blanks, the first line loses
its indent and the others the indent they have in common, and blank lines at
either end are dropped.
-/

namespace RepoAtlas.Python

/-! ### Layout of the text -/

/-- The distance between tab stops. -/
def tabSize : Nat := 8

/-- The characters with each tab widened up to the next stop, from the given
    column on. -/
def expandTabsFrom : Nat → List Char → List Char
  | _, [] => []
  | column, c :: rest =>
    if c = '\t' then
      let width := tabSize - column % tabSize
      List.replicate width ' ' ++ expandTabsFrom (column + width) rest
    else if c = '\n' ∨ c = '\r' then c :: expandTabsFrom 0 rest
    else c :: expandTabsFrom (column + 1) rest

/-- The characters with each tab widened up to the next stop. -/
def expandTabs (cs : List Char) : List Char := expandTabsFrom 0 cs

/-- The size of the indent of a line. -/
def indentSize (line : List Char) : Nat := Utf8.size line - Utf8.size (Text.trimLeft line)

/-- The smallest indent of those lines that are not blank; zero if all are. -/
def margin (lines : List (List Char)) : Nat :=
  (((lines.filter fun l => !Text.allBlank l).map indentSize).min?).getD 0

/-- The lines without the blank ones at the end. -/
def dropBlankEnd (lines : List (List Char)) : List (List Char) :=
  (lines.reverse.dropWhile Text.allBlank).reverse

/-- The lines of a docstring, laid out anew. -/
def cleanLines : List (List Char) → List (List Char)
  | [] => []
  | first :: others =>
    let width := margin others
    let lines := Text.trimLeft first :: others.map fun l => Text.trimRight (l.drop width)
    (dropBlankEnd lines).dropWhile Text.allBlank

/-- The text of a docstring, laid out anew. -/
def cleanDoc (doc : String) : String :=
  let lines := Text.splitAtBreaks (expandTabs doc.toList)
  String.ofList (Text.joinWith ['\n'] (cleanLines lines))

/-! ### The literal -/

/-- Whether the characters begin and end with the quote, without overlap. -/
def isQuotedBy (quote cs : List Char) : Bool :=
  2 * quote.length ≤ cs.length && quote.isPrefixOf cs && quote.isSuffixOf cs

/-- The quotes of a string, the longer ones first. -/
def quotes : List (List Char) := [['"', '"', '"'], ['\'', '\'', '\''], ['"'], ['\'']]

/-- The inside of a string literal. There is none if the prefix makes it a
    formatted string or one of bytes. -/
def literalBody? (literal : List Char) : Option (List Char) :=
  let isQuote (c : Char) : Bool := c == '"' || c == '\''
  let head := literal.takeWhile fun c => !isQuote c
  let rest := literal.dropWhile fun c => !isQuote c
  if rest.isEmpty || head.any ['f', 'F', 'b', 'B'].contains then none
  else
    (quotes.find? fun q => isQuotedBy q rest).map fun q =>
      (rest.drop q.length).take (rest.length - 2 * q.length)

/-! ### The module -/

/-- Whether the node is one that a reader of the tree sees: a rule, a name or a
    value, not a keyword or a sign. -/
def isNamed : Node → Bool
  | .leaf (.word _) .. => false
  | .leaf (.sign _) .. => false
  | _ => true

/-- The documentation of a module. -/
def moduleDoc? (root : Node) : Option String :=
  match root.children.filter isNamed with
  | .branch .expressionStatement _ parts :: _ =>
    match parts.filter isNamed with
    | [literal@(.branch .string ..)] =>
      match literalBody? literal.text.toList with
      | none => none
      | some body =>
        let doc := cleanDoc (String.ofList body)
        if doc.isEmpty then none else some doc
    | _ => none
  | _ => none

end RepoAtlas.Python
