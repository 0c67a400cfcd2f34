import RepoAtlas.Python.Layout
import RepoAtlas.Syntax.Parse

/-!
# Reading the tokens of Python

The scanner of the language: at each place the layout is asked first, then
blanks, comments and continued lines are passed over, and then the longest token
of those expected is taken. A word is a keyword where that keyword is expected,
and a name elsewhere.
-/

namespace RepoAtlas.Python

/-- A place in a source: what follows, how many characters and how many lines
    precede it, and the layout there. -/
structure Cursor where
  rest : List Char
  offset : Nat
  line : Nat
  layout : Layout

namespace Cursor

/-- The place at which a source begins, behind a byte order mark. -/
def ofSource (source : String) : Cursor :=
  match source.toList with
  | '\uFEFF' :: rest => ⟨rest, 1, 0, .start⟩
  | cs => ⟨cs, 0, 0, .start⟩

/-- The number of line breaks among the characters. -/
def breaks (cs : List Char) : Nat := cs.count '\n'

/-- The place `n` characters on. -/
def forward (c : Cursor) (n : Nat) : Cursor :=
  { c with
    rest := c.rest.drop n
    offset := c.offset + n
    line := c.line + breaks (c.rest.take n) }

end Cursor

/-- Blanks between tokens: the ASCII blanks, and the invisible marks U+FEFF,
    U+2060 and U+200B. -/
def isGapChar (c : Char) : Bool :=
  [' ', '\t', '\r', '\n', '\x0b', '\x0c', '\uFEFF', '\u2060', '\u200B'].contains c

/-- The length of the continued line that a backslash at the front begins. -/
def continuationLength : List Char → Nat
  | '\\' :: '\r' :: '\n' :: _ => 3
  | '\\' :: '\n' :: _ => 2
  | '\\' :: '\x00' :: _ => 2
  | _ => 0

/-- The longer of two tokens; of two as long, the one found first. -/
def longer : Token × Nat → Token × Nat → Token × Nat
  | (t, n), (u, m) => if n < m then (u, m) else (t, n)

/-- How much of the text the token takes at the front, by its spelling. -/
def spelledLength (cs : List Char) : Token → Nat
  | .sign s => if s.toList.isPrefixOf cs then s.length else 0
  | .integer => integerLength cs
  | .float => floatLength cs
  | .conversion =>
    match cs with
    | '!' :: c :: _ => if 'a' ≤ c && c ≤ 'z' then 2 else 0
    | _ => 0
  | _ => 0

/-- The word at the front as one of the expected tokens. -/
def wordToken? (expected : List Token) (cs : List Char) : Option (Token × Nat) :=
  match nameLength cs with
  | 0 => none
  | n =>
    let w := String.ofList (cs.take n)
    if expected.contains (.word w) then some (.word w, n)
    else if expected.contains .identifier then some (.identifier, n)
    else none

/-- The token at the front, of those expected, with its length. -/
def spelled? (expected : List Token) (cs : List Char) : Option (Token × Nat) :=
  let best := expected.foldl (fun best t => longer best (t, spelledLength cs t))
    ((wordToken? expected cs).getD (.identifier, 0))
  if best.2 == 0 then none else some best

/-- The token that begins right at the front, before any blank: an escape in a
    string, or the text of a format. There is none where any token may stand. -/
def immediate? (expected : List Token) (cs : List Char) : Option (Token × Nat) :=
  let escape := if expected.contains .escape then escapeLength cs else 0
  let backslash := if expected.contains .backslash && cs.head? == some '\\' then 1 else 0
  let text :=
    if expected.contains .formatText then
      (cs.takeWhile fun c => c != '{' && c != '}' && c != '\n').length
    else 0
  if expectsAny expected then none
  else if escape != 0 then some (.escape, escape)
  else if backslash != 0 then some (.backslash, 1)
  else if text != 0 then some (.formatText, text)
  else none

/-- The lexeme of a token behind a gap. The gap holds what was passed over
    before, and what the token skips. -/
def lexemeAt (before : String) (c : Cursor) (skipped length : Nat) (token : Token)
    (layout : Layout) : Syntax.Lexeme Token × Cursor :=
  let place := c.forward skipped
  (⟨some token, place.line, before ++ String.ofList (c.rest.take skipped),
      String.ofList (place.rest.take length)⟩,
    { place.forward length with layout })

/-- What is looked for at a place: what the layout may find, what may be spelled
    out, and whether the text may end. -/
structure Sought where
  layout : List Token
  spelled : List Token
  atEnd : Bool

/-- Whether the token is a keyword. -/
def Token.isKeyword : Token → Bool
  | .word _ => true
  | _ => false

/-- Whether an expression is expected and no marked argument: behind an opening
    bracket of a list or a tuple, an operator or a keyword. -/
def expectsExpression (expected : List Token) : Bool :=
  expected.contains (.sign "~") && !expected.contains (.sign "**")

/-- What is looked for where none of the expected tokens stands: any token that
    is no keyword, and the end of the text in place of an expression. -/
def Sought.others (tokens expected : List Token) : Sought :=
  ⟨expected, tokens.filter fun t => !t.isKeyword || expected.contains t,
    expectsExpression expected⟩

/-- The next token behind comments and continued lines; `before` is what was
    passed over so far. -/
def nextFrom (sought : Sought) :
    Nat → String → Cursor → Option (Syntax.Lexeme Token × Cursor)
  | 0, _, _ => none
  | fuel + 1, before, c =>
    match c.layout.next? sought.layout c.rest with
    | some found => some (lexemeAt before c found.skipped found.length found.token found.layout)
    | none =>
      match immediate? sought.layout c.rest with
      | some (token, n) => some (lexemeAt before c 0 n token c.layout)
      | none =>
        let blanks := (c.rest.takeWhile isGapChar).length
        let place := c.forward blanks
        let passed := before ++ String.ofList (c.rest.take blanks)
        match place.rest with
        | [] => if sought.atEnd then some (⟨none, place.line, passed, ""⟩, place) else none
        | '#' :: _ =>
          let n := (place.rest.takeWhile (· != '\n')).length
          nextFrom sought fuel (passed ++ String.ofList (place.rest.take n)) (place.forward n)
        | rest =>
          match continuationLength rest with
          | 0 => (spelled? sought.spelled rest).map fun (token, n) =>
              lexemeAt before c blanks n token c.layout
          | n => nextFrom sought fuel (passed ++ String.ofList (rest.take n)) (place.forward n)

/-- The next token of those looked for. -/
def next? (sought : Sought) (c : Cursor) : Option (Syntax.Lexeme Token × Cursor) :=
  nextFrom sought (c.rest.length + 1) "" c

/-- The place behind the character that stands next, with its line. Blanks and
    comments before it are passed over. -/
def behindNext? : Nat → Cursor → Option (Nat × Cursor)
  | 0, _ => none
  | fuel + 1, c =>
    let place := c.forward (c.rest.takeWhile isGapChar).length
    match place.rest with
    | [] => none
    | '#' :: _ => behindNext? fuel (place.forward (place.rest.takeWhile (· != '\n')).length)
    | _ => some (place.line, place.forward 1)

/-- The scanner of Python, for the tokens of its grammar. -/
def scanner (tokens : List Token) : Syntax.Scanner Token Cursor where
  next? expected atEnd := next? ⟨expected, expected, atEnd⟩
  other? expected := next? (.others tokens expected)
  any? := next? ⟨tokens, tokens, true⟩
  stray? c := behindNext? (c.rest.length + 1) c
  same c d := c.offset == d.offset && c.layout == d.layout

end RepoAtlas.Python
