/-!
# Lines

Two ways of taking a text apart into lines. At its line breaks
(`splitAtBreaks`): there is one line more than there are breaks. As the lines of
a file (`fileLines`): a break ends a line, so nothing follows a last break, and
a carriage return before a break belongs to it.
-/

namespace RepoAtlas.Text

/-- The characters between line breaks. -/
def splitAtBreaks : List Char → List (List Char)
  | [] => [[]]
  | c :: rest =>
    if c = '\n' then [] :: splitAtBreaks rest
    else
      match splitAtBreaks rest with
      | [] => [[c]]
      | line :: lines => (c :: line) :: lines

/-- The characters of all parts, with a separator between. -/
def joinWith (separator : List Char) : List (List Char) → List Char
  | [] => []
  | [part] => part
  | part :: rest => part ++ separator ++ joinWith separator rest

/-- The line without a carriage return at its end. -/
def dropReturn (line : List Char) : List Char :=
  if line.getLast? = some '\r' then line.dropLast else line

/-- The pieces that end a line of a file: all but the last, which no break
    ends. -/
def fileLinesOf : List (List Char) → List (List Char)
  | [] => []
  | [last] => if last.isEmpty then [] else [last]
  | line :: rest => dropReturn line :: fileLinesOf rest

/-- The lines of a file. -/
def fileLines (cs : List Char) : List (List Char) := fileLinesOf (splitAtBreaks cs)

/-- The lines of a file. -/
def lines (s : String) : List String := (fileLines s.toList).map String.ofList

end RepoAtlas.Text
