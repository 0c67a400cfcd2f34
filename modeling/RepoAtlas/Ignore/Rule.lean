import RepoAtlas.Ignore.Glob.Reading
import RepoAtlas.Text.Blank

/-!
# Rules

One line of a rule file is one rule (`Rule.ofLine?`), or none: a comment, a blank
line, or a line whose glob cannot be read.

* A rule of a name speaks of that name in every directory; one with a slash in
  front or within speaks of one path, read from the directory of the rules.
* A slash at the end makes it speak of directories alone.
* A mark `!` at the front takes back what an earlier rule ignored.

Of several rules that speak of a path, the last decides (`verdict?`).
-/

namespace RepoAtlas.Ignore

/-- What is decided about a path. -/
inductive Verdict where
  | ignored
  | kept
  deriving DecidableEq, Repr

/-- A rule. -/
structure Rule where
  glob : Glob
  verdict : Verdict
  /-- Whether it speaks of directories alone. -/
  directoriesOnly : Bool

namespace Rule

/-- The parts of a line that are not of its glob. -/
structure Line where
  verdict : Verdict := .ignored
  /-- Whether a slash stands in front. -/
  anchored : Bool := false
  directoriesOnly : Bool := false
  glob : List Char
  deriving DecidableEq, Repr

/-- The line without the blanks it ends with; a blank behind a backslash stays,
    and all before it. -/
def withoutBlanks (cs : List Char) : List Char :=
  if ['\\', ' '].isSuffixOf cs then cs else Text.trimRight cs

/-- Takes the marks off the front. Behind a backslash they are no marks. -/
def takeFront : List Char → Line
  | '\\' :: '!' :: rest => { glob := '!' :: rest }
  | '\\' :: '#' :: rest => { glob := '#' :: rest }
  | '!' :: '/' :: rest => { verdict := .kept, anchored := true, glob := rest }
  | '!' :: rest => { verdict := .kept, glob := rest }
  | '/' :: rest => { anchored := true, glob := rest }
  | rest => { glob := rest }

/-- Takes the slash off the end, and a backslash before it. -/
def takeEnd (l : Line) : Line :=
  if l.glob.getLast? = some '/' then
    let rest := l.glob.dropLast
    { l with
      directoriesOnly := true
      glob := if rest.getLast? = some '\\' then rest.dropLast else rest }
  else l

/-- The text of the glob. A name is looked for in every directory; a double star
    at the end speaks of what is in a directory, not of the directory. -/
def globText (l : Line) : List Char :=
  let everywhere := !l.anchored && !l.glob.contains '/' && l.glob != ['*', '*']
  let text := if everywhere then '*' :: '*' :: '/' :: l.glob else l.glob
  if ['/', '*', '*'].isSuffixOf text then text ++ ['/', '*'] else text

/-- The rule of a line. -/
def ofLine? (line : List Char) : Option Rule :=
  if line.head? = some '#' then none
  else
    let cs := withoutBlanks line
    if cs.isEmpty then none
    else
      let l := takeEnd (takeFront cs)
      (Glob.ofText? (globText l)).map fun glob => ⟨glob, l.verdict, l.directoriesOnly⟩

/-- Whether the rule speaks of a path, read from the directory of the rule. -/
def covers (r : Rule) (path : Bytes) (isDirectory : Bool) : Bool :=
  (!r.directoriesOnly || isDirectory) && r.glob.matches path

end Rule

/-- The rules of lines. -/
def rulesOf (lines : List String) : List Rule := lines.filterMap fun l => Rule.ofLine? l.toList

/-- The verdict of the last rule that speaks of a path. -/
def verdict? (rules : List Rule) (path : Bytes) (isDirectory : Bool) : Option Verdict :=
  (rules.reverse.find? (·.covers path isDirectory)).map (·.verdict)

/-! ### Rule files -/

/-- The bytes between line breaks. A carriage return before a line break belongs to
    the break. -/
def bytesBetweenBreaks : Bytes → List Bytes
  | [] => [[]]
  | b :: rest =>
    if b = 0x0A then [] :: bytesBetweenBreaks rest
    else if b = 0x0D && rest.head? = some 0x0A then bytesBetweenBreaks rest
    else
      match bytesBetweenBreaks rest with
      | [] => [[b]]
      | line :: lines => (b :: line) :: lines

/-- The texts up to the first that is none. -/
def readable : List Bytes → List String
  | [] => []
  | line :: rest =>
    match Utf8.decode? line with
    | some s => s :: readable rest
    | none => []

/-- The lines of a rule file, up to the first that is no text. Byte order marks
    before the first line do not count. -/
def fileLines (content : Bytes) : List String :=
  match readable (bytesBetweenBreaks content) with
  | [] => []
  | first :: rest => String.ofList (first.toList.dropWhile (· = '\uFEFF')) :: rest

/-- The rules of a rule file. -/
def rulesOfFile (content : Bytes) : List Rule := rulesOf (fileLines content)

end RepoAtlas.Ignore
