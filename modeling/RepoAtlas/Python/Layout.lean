import RepoAtlas.Python.Token

/-!
# Layout and strings of Python

The tokens that depend on more than the characters at hand: the end of a logical
line, the indents and dedents, which depend on the indents still open, and the
parts of strings, which depend on the quotes still open (`Layout`).

`Layout.next?` is tried before any other token. A line break ends a logical line
only where that is expected; elsewhere it is a blank. A dedent that nothing
expects is still reported, except between brackets, so that a block cannot run
on past its indent.
-/

namespace RepoAtlas.Python

/-- An open string: its quote, whether the quote is tripled, and what the prefix
    says. -/
structure Quote where
  mark : Char
  isTripled : Bool
  isFormat : Bool
  isRaw : Bool
  isBytes : Bool
  deriving DecidableEq

/-- The indents and the strings open at a place, the innermost first, and
    whether the string opened last is a formatted one. -/
structure Layout where
  indents : List Nat
  quotes : List Quote
  inFormat : Bool
  deriving DecidableEq

/-- Nothing open. -/
def Layout.start : Layout := ⟨[], [], false⟩

/-- The indent of the innermost block. -/
def Layout.indent (l : Layout) : Nat := l.indents.headD 0

/-- A token, the number of characters skipped before it and the number it
    takes, and the layout after it. -/
structure Found where
  token : Token
  skipped : Nat
  length : Nat
  layout : Layout

/-! ### Inside a string -/

/-- What stands at the front of the inside of a string. -/
inductive Piece where
  /-- Content of a positive length. -/
  | content (length : Nat)
  /-- The end of the string, perhaps with a last escape of a raw string. -/
  | close (length : Nat)
  /-- Something else, or nothing that may stand there. -/
  | other
  deriving DecidableEq

/-- The piece that ends at a quote after `n` characters. Inside a tripled quote,
    one or two quotes are content. -/
def Quote.atMark (q : Quote) (n : Nat) (hasContent : Bool) (afterMark : List Char) : Piece :=
  if q.isTripled then
    match afterMark with
    | c :: d :: _ =>
      if c == q.mark then
        if d == q.mark then if hasContent then .content n else .close (n + 3)
        else .content (n + 2)
      else .content (n + 1)
    | [c] => if c == q.mark then .content (n + 2) else .content (n + 1)
    | [] => .content (n + 1)
  else if hasContent then .content n
  else .close (n + 1)

/-- What a backslash in a raw string keeps from being read: a quote or another
    backslash, and then a line break. -/
def Quote.rawLength (q : Quote) (cs : List Char) : Nat :=
  let first := if cs.head?.any fun c => c == q.mark || c == '\\' then 1 else 0
  match cs.drop first with
  | '\r' :: '\n' :: _ => first + 2
  | '\r' :: _ => first + 1
  | '\n' :: _ => first + 1
  | _ => first

/-- The piece at the front, after `n` characters of it. In a string of bytes,
    `\N`, `\u` and `\U` are content together with the character after them. The
    content of a string that is not tripled may begin with a line break but has
    none after its first character. -/
def Quote.piece (q : Quote) (n : Nat) (hasContent : Bool) : List Char → Piece
  | [] => .other
  | c :: rest =>
    let stop : Piece := if hasContent then .content n else .other
    if c == '\x00' then .other
    else if q.isFormat && (c == '{' || c == '}') then stop
    else if c == '\\' then
      if q.isRaw then
        let k := q.rawLength rest
        q.piece (n + 1 + k) hasContent (rest.drop k)
      else if q.isBytes && rest.head?.any ['N', 'u', 'U'].contains then
        q.piece (n + 3) true (rest.drop 2)
      else stop
    else if c == q.mark then q.atMark n hasContent rest
    else if c == '\n' && hasContent && !q.isTripled then .other
    else q.piece (n + 1) true rest
termination_by cs => cs.length
decreasing_by all_goals simp only [List.length_drop, List.length_cons]; omega

/-- The token at the front of the inside of the innermost string. -/
def Layout.insideString? (l : Layout) (q : Quote) (outer : List Quote) (cs : List Char) :
    Option Found :=
  match cs with
  | c :: rest =>
    if q.isFormat && (c == '{' || c == '}') then
      if rest.head? == some c then some ⟨.doubledBrace, 0, 2, l⟩ else none
    else
      match q.piece 0 false cs with
      | .content n => some ⟨.stringContent, 0, n, l⟩
      | .close n => some ⟨.stringEnd, 0, n, { l with quotes := outer, inFormat := false }⟩
      | .other => none
  | [] => none

/-! ### Between tokens -/

/-- Blanks, comments and line breaks passed over: how many characters, whether
    a line ended among them, the indent of what follows, and the indent of the
    first comment on a line of its own. -/
structure Gap where
  length : Nat
  breaks : Bool
  indent : Nat
  comment : Option Nat

/-- Passes over the gap at the front. `comments` says whether comments belong to
    it; one behind a token does not, and then there is no gap. -/
def Gap.read (comments : Bool) (inComment : Bool) (g : Gap) : List Char → Option Gap
  | [] => some { g with breaks := true, indent := 0 }
  | c :: rest =>
    let passed : Gap := { g with length := g.length + 1 }
    if inComment then
      if c == '\n' || c == '\x00' then Gap.read comments false { passed with indent := 0 } rest
      else Gap.read comments true passed rest
    else if c == '\n' then Gap.read comments false { passed with breaks := true, indent := 0 } rest
    else if c == ' ' then Gap.read comments false { passed with indent := g.indent + 1 } rest
    else if c == '\r' || c == '\x0c' then Gap.read comments false { passed with indent := 0 } rest
    else if c == '\t' then Gap.read comments false { passed with indent := g.indent + 8 } rest
    else if c == '#' && comments then
      if g.breaks then
        Gap.read comments true { passed with comment := g.comment <|> some g.indent } rest
      else none
    else if c == '\\' then
      match rest with
      | '\r' :: '\n' :: rest' =>
        Gap.read comments false { passed with length := g.length + 3 } rest'
      | ['\r'] => Gap.read comments false { passed with length := g.length + 2 } []
      | '\n' :: rest' => Gap.read comments false { passed with length := g.length + 2 } rest'
      | [] => Gap.read comments false passed []
      | _ => none
    else some g

/-- The string that begins at the front: the length of its prefix and opening
    quote, and its quote. The prefix is made of letters that say how the string
    is read. -/
def Quote.open? (q : Quote) (n : Nat) : List Char → Option (Nat × Quote)
  | [] => none
  | c :: rest =>
    if c == 'f' || c == 'F' then Quote.open? { q with isFormat := true } (n + 1) rest
    else if c == 'r' || c == 'R' then Quote.open? { q with isRaw := true } (n + 1) rest
    else if c == 'b' || c == 'B' then Quote.open? { q with isBytes := true } (n + 1) rest
    else if c == 'u' || c == 'U' then Quote.open? q (n + 1) rest
    else if c == '`' then some (n + 1, { q with mark := c })
    else if c == '\'' || c == '"' then
      if rest.head? == some c && rest.tail.head? == some c then
        some (n + 3, { q with mark := c, isTripled := true })
      else some (n + 1, { q with mark := c })
    else none

/-- Whether any token may stand at a place, because nothing is known of what
    precedes it: inside a string, no indent is expected. -/
def expectsAny (expected : List Token) : Bool :=
  expected.contains .stringContent && expected.contains .indent

/-- The token of the layout at the front, of those expected. Where any token may
    stand, no string is read on and no line is ended. -/
def Layout.next? (l : Layout) (expected : List Token) (cs : List Char) : Option Found :=
  let expects (t : Token) : Bool := expected.contains t
  let inside : Option (Option Found) :=
    match l.quotes with
    | q :: outer =>
      if expects .stringContent && !expectsAny expected then some (l.insideString? q outer cs)
      else none
    | [] => none
  match inside with
  | some found => found
  | none =>
    let comments :=
      expects .indent || expects .dedent || expects .newline || expects (.word "except")
    match Gap.read comments false ⟨0, false, 0, none⟩ cs with
    | none => none
    | some gap =>
      let rest := cs.drop gap.length
      let bracketed := expects (.sign "\x7d") || expects (.sign ")") || expects (.sign "]")
      let quoteNext := rest.head?.any ['"', '\'', '`'].contains
      if gap.breaks && expects .indent && l.indent < gap.indent then
        some ⟨.indent, 0, 0, { l with indents := gap.indent :: l.indents }⟩
      else if gap.breaks && gap.indent < l.indent && !l.inFormat &&
          (expects .dedent ||
            !expects .newline && !(expects .stringStart && quoteNext) && !bracketed) &&
          gap.comment.all (· < l.indent) then
        some ⟨.dedent, 0, 0, { l with indents := l.indents.tail }⟩
      else if gap.breaks && expects .newline && !expectsAny expected then
        some ⟨.newline, 0, 0, l⟩
      else if gap.comment.isNone && expects .stringStart then
        match Quote.open? ⟨'"', false, false, false, false⟩ 0 rest with
        | some (n, q) =>
          let layout := { l with quotes := q :: l.quotes, inFormat := q.isFormat }
          some ⟨.stringStart, gap.length, n, layout⟩
        | none => none
      else none

end RepoAtlas.Python
