import RepoAtlas.Bytes.Utf8
import RepoAtlas.Text.Blank
import RepoAtlas.Text.Case

/-!
# The dialogue before a run

Whoever starts a run is told what it will do and asked whether to go on
(`Dialogue.run`). An empty line means yes, and the end of the input means no. A
line that says neither is answered, and the question asked again.
-/

namespace RepoAtlas.Dialogue

/-- What is said first. -/
def disclaimer : String :=
  "repo-map: A tool to generate a structured summary of a software repository.\n" ++
  "This tool uses the .gitignore files in the target directory to decide which files " ++
  "to leave out of the map.\n"

/-- The question. -/
def question : String := "Do you want to proceed? [y/n]: "

/-- What is said to a line that says neither yes nor no. -/
def complaint : String := "Invalid input. Please enter 'y' or 'n'.\n"

/-- How the dialogue ends. -/
inductive Verdict where
  | accepted
  | declined
  /-- A line is no text. -/
  | notText
  deriving DecidableEq, Repr

/-- The lines of an input, without their breaks. What follows the last break is
    a line as well, unless it is empty. -/
def linesOf : Bytes → List Bytes
  | [] => []
  | b :: rest =>
    if b = 10 then [] :: linesOf rest
    else
      match linesOf rest with
      | [] => [[b]]
      | line :: lines => (b :: line) :: lines

/-- What a line says, if it says anything. -/
def verdict? (line : Bytes) : Option Verdict :=
  match Utf8.decode? line with
  | none => some .notText
  | some text =>
    let answer := Text.lowerAscii (Text.trim text)
    if ["", "y", "yes"].contains answer then some .accepted
    else if ["n", "no"].contains answer then some .declined
    else none

/-- What is said, and how it ends. -/
structure Result where
  output : String
  verdict : Verdict
  deriving DecidableEq, Repr

/-- Asks until a line says something. -/
def askOver : List Bytes → Result
  | [] => ⟨question, .declined⟩
  | line :: lines =>
    match verdict? line with
    | some v => ⟨question, v⟩
    | none =>
      let later := askOver lines
      ⟨question ++ complaint ++ later.output, later.verdict⟩

/-- The dialogue over an input. -/
def run (input : Bytes) : Result :=
  let asked := askOver (linesOf input)
  ⟨disclaimer ++ asked.output, asked.verdict⟩

end RepoAtlas.Dialogue
