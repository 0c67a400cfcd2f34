import RepoAtlas.Text.Ranges

/-!
# Blank characters

The characters with the property *White_Space*, and what is built from them:
trimming at either end of a text, and the test for a text of blanks alone.
-/

namespace RepoAtlas.Text

/-- The ranges of *White_Space*. -/
def blankRanges : Ranges := [
  (0x9, 0xD), (0x20, 0x20), (0x85, 0x85), (0xA0, 0xA0), (0x1680, 0x1680), (0x2000, 0x200A),
  (0x2028, 0x2029), (0x202F, 0x202F), (0x205F, 0x205F), (0x3000, 0x3000)]

/-- Whether the character is blank. -/
def isBlank (c : Char) : Bool :=
  blankRanges.contains c.toNat

/-- The characters without the blanks they begin with. -/
def trimLeft (cs : List Char) : List Char :=
  cs.dropWhile isBlank

/-- The characters without the blanks they end with. -/
def trimRight : List Char → List Char
  | [] => []
  | c :: rest =>
    match trimRight rest with
    | [] => if isBlank c then [] else [c]
    | kept => c :: kept

/-- The characters without the blanks at either end. -/
def trimBoth (cs : List Char) : List Char :=
  trimRight (trimLeft cs)

/-- The text without the blanks at either end. -/
def trim (s : String) : String :=
  String.ofList (trimBoth s.toList)

/-- Whether the characters are blanks alone. -/
def allBlank (cs : List Char) : Bool :=
  cs.all isBlank

/-- Whether the text holds nothing but blanks. -/
def isBlankText (s : String) : Bool :=
  allBlank s.toList

end RepoAtlas.Text
