import RepoAtlas.Text.Blank
import RepoAtlas.Text.Word

/-!
# Patterns

What a rule looks for in a text: pieces one after the other, one of which is
kept (`Pattern`). A run of characters takes as many as it can, or as few, but
gives way where the pieces after it would otherwise not fit; a choice of words
prefers the words named first.

* `Pattern.matchHere?`: the match at the front of a text;
* `Pattern.find?`: the match that begins earliest.
-/

namespace RepoAtlas.Scan

/-- A piece of a pattern. -/
inductive Piece where
  /-- One of several words. -/
  | oneOf (words : List (List Char))
  /-- A run of at least `least` characters of a class, as long as possible, or
      as short as possible if `short`. It is kept if `kept`. -/
  | run (of : Char → Bool) (least : Nat) (short : Bool) (kept : Bool)

/-- Pieces one after the other. -/
abbrev Pattern := List Piece

/-- A match: the text kept, and what follows the match. -/
structure Match where
  kept : List Char
  rest : List Char
  deriving DecidableEq, Repr

/-- The text behind the word, if it begins with it. -/
def dropWord? : List Char → List Char → Option (List Char)
  | [], cs => some cs
  | _ :: _, [] => none
  | w :: word, c :: cs => if w = c then dropWord? word cs else none

/-- Tries what follows a run behind each way to end the run, the longest first,
    or the shortest first. `least` more characters must be taken; `taken` holds
    those taken so far, the last first. -/
def tryRun {α : Type} (of : Char → Bool) (short : Bool)
    (next : List Char → List Char → Option α) :
    Nat → List Char → List Char → Option α
  | least, taken, [] => if least = 0 then next taken [] else none
  | 0, taken, c :: cs =>
    if of c then
      if short then next taken (c :: cs) <|> tryRun of short next 0 (c :: taken) cs
      else tryRun of short next 0 (c :: taken) cs <|> next taken (c :: cs)
    else next taken (c :: cs)
  | least + 1, taken, c :: cs =>
    if of c then tryRun of short next least (c :: taken) cs else none

namespace Pattern

/-- The match at the front of the text; `kept` is what was kept so far. -/
def matchFrom? : Pattern → List Char → List Char → Option Match
  | [], kept, cs => some ⟨kept, cs⟩
  | .oneOf words :: pieces, kept, cs =>
    words.findSome? fun w => (dropWord? w cs).bind (matchFrom? pieces kept)
  | .run of least short keeps :: pieces, kept, cs =>
    tryRun of short
      (fun taken rest => matchFrom? pieces (if keeps then taken.reverse else kept) rest)
      least [] cs

/-- The match at the front of the text. -/
def matchHere? (p : Pattern) (cs : List Char) : Option Match := p.matchFrom? [] cs

/-- The match that begins earliest. -/
def find? (p : Pattern) : List Char → Option Match
  | [] => p.matchHere? []
  | c :: cs => p.matchHere? (c :: cs) <|> find? p cs

/-- What the earliest match in a line keeps. -/
def name? (p : Pattern) (line : List Char) : Option String :=
  (p.find? line).map fun m => String.ofList m.kept

end Pattern

/-! ### Pieces by name -/

namespace Piece

/-- A fixed text. -/
def text (s : String) : Piece := .oneOf [s.toList]

/-- Blanks, at least one. -/
def blanks : Piece := .run Text.isBlank 1 false false

/-- Blanks, perhaps none. -/
def someBlanks : Piece := .run Text.isBlank 0 false false

/-- A word. -/
def word : Piece := .run Text.isWord 1 false false

/-- A word, which is kept. -/
def name : Piece := .run Text.isWord 1 false true

/-- A path: words with the given marks among them, which is kept. -/
def path (marks : List Char) : Piece :=
  .run (fun c => Text.isWord c || marks.contains c) 1 false true

/-- Any character but a line break. -/
def onLine (c : Char) : Bool := c != '\n'

end Piece

end RepoAtlas.Scan
