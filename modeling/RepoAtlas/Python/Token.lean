import RepoAtlas.Text.Word

/-!
# Tokens of Python

The tokens, and the lengths of those that a rule of spelling describes: names,
numbers, and what a backslash begins inside a string. Every length is that of
the longest prefix that fits; zero means that none does.
-/

namespace RepoAtlas.Python

/-- A token of Python. -/
inductive Token where
  /-- A keyword, which elsewhere may be a name. -/
  | word (s : String)
  /-- An operator, a bracket or another mark. -/
  | sign (s : String)
  | identifier
  | integer
  | float
  /-- The end of a logical line. -/
  | newline
  | indent
  | dedent
  /-- The prefix and the opening quote of a string. -/
  | stringStart
  | stringContent
  | stringEnd
  /-- A doubled brace in a formatted string. -/
  | doubledBrace
  | escape
  /-- A backslash in a string that begins no escape. -/
  | backslash
  /-- An exclamation mark and a letter after a formatted expression. -/
  | conversion
  | formatText
  deriving DecidableEq, Repr

/-- The length of the name at the front. -/
def nameLength : List Char → Nat
  | [] => 0
  | c :: rest =>
    if Text.isIdentifierStart c then 1 + (rest.takeWhile Text.isIdentifierPart).length else 0

/-- The token spelled by the text: a keyword if it is spelled like a name. -/
def Token.ofText (s : String) : Token :=
  let startsName := s.toList.head?.any fun c => c.isAlpha || c == '_'
  if startsName && s.toList.all fun c => c.isAlphanum || c == '_' then .word s else .sign s

/-! ### Numbers -/

/-- The length of a run of digits, in which an underscore may follow each digit;
    `afterDigit` says whether the last character was one. -/
def digitsFrom (afterDigit : Bool) : List Char → Nat
  | [] => 0
  | c :: rest =>
    if c.isDigit then 1 + digitsFrom true rest
    else if c == '_' && afterDigit then 1 + digitsFrom false rest
    else 0

/-- The length of the run of digits at the front. -/
def digitsLength (cs : List Char) : Nat := digitsFrom false cs

/-- The length of a run of digits of a base, in which a single underscore may
    stand before each digit. -/
def basedLength (isDigit : Char → Bool) : List Char → Nat
  | [] => 0
  | [c] => if isDigit c then 1 else 0
  | c :: d :: rest =>
    if isDigit c then 1 + basedLength isDigit (d :: rest)
    else if c == '_' && isDigit d then 2 + basedLength isDigit rest
    else 0

/-- Whether the character is a digit of base sixteen. -/
def isHexDigit (c : Char) : Bool :=
  c.isDigit || ('a' ≤ c && c ≤ 'f') || ('A' ≤ c && c ≤ 'F')

/-- The length of the letter at the front, if it is one of those given. -/
def oneOf (letters : List Char) (cs : List Char) : Nat :=
  if cs.head?.any letters.contains then 1 else 0

/-- The length of digits of a base with an optional `l` after them; zero
    without any digit. -/
def longLength (isDigit : Char → Bool) (cs : List Char) : Nat :=
  match basedLength isDigit cs with
  | 0 => 0
  | n => n + oneOf ['l', 'L'] (cs.drop n)

/-- The length of the number after a leading zero and the letter of its base. -/
def afterBase : List Char → Nat
  | b :: rest =>
    if b == 'x' || b == 'X' then longLength isHexDigit rest
    else if b == 'o' || b == 'O' then longLength (fun c => '0' ≤ c && c ≤ '7') rest
    else if b == 'b' || b == 'B' then longLength (fun c => c == '0' || c == '1') rest
    else 0
  | [] => 0

/-- The length of the integer at the front: in base sixteen, eight or two, or in
    base ten, perhaps marked as long or imaginary. -/
def integerLength (cs : List Char) : Nat :=
  let decimal :=
    match digitsLength cs with
    | 0 => 0
    | n => n + oneOf ['l', 'L', 'j', 'J'] (cs.drop n)
  match cs with
  | '0' :: rest =>
    match afterBase rest with
    | 0 => decimal
    | n => n + 2
  | _ => decimal

/-- The length of the exponent at the front. -/
def exponentLength (cs : List Char) : Nat :=
  match oneOf ['e', 'E'] cs with
  | 0 => 0
  | _ =>
    let signed := 1 + oneOf ['+', '-'] (cs.drop 1)
    match digitsLength (cs.drop signed) with
    | 0 => 0
    | n => signed + n

/-- The length of the number with a point or an exponent at the front. -/
def floatLength (cs : List Char) : Nat :=
  let whole := digitsLength cs
  let rest := cs.drop whole
  let mantissa :=
    match rest with
    | '.' :: tail =>
      let fraction := digitsLength tail
      if whole == 0 && fraction == 0 then 0 else whole + 1 + fraction
    | _ => 0
  if mantissa == 0 then
    let exponent := exponentLength rest
    if whole == 0 || exponent == 0 then 0
    else whole + exponent + oneOf ['j', 'J'] (cs.drop (whole + exponent))
  else
    let length := mantissa + exponentLength (cs.drop mantissa)
    length + oneOf ['j', 'J'] (cs.drop length)

/-! ### Escapes -/

/-- Whether the first `n` characters are there and all satisfy the test. -/
def startsWithMany (n : Nat) (test : Char → Bool) (cs : List Char) : Bool :=
  (cs.take n).length == n && (cs.take n).all test

/-- The length of the escape that a backslash at the front begins. -/
def escapeLength : List Char → Nat
  | '\\' :: 'u' :: rest => if startsWithMany 4 isHexDigit rest then 6 else 0
  | '\\' :: 'U' :: rest => if startsWithMany 8 isHexDigit rest then 10 else 0
  | '\\' :: 'x' :: rest => if startsWithMany 2 isHexDigit rest then 4 else 0
  | '\\' :: 'N' :: '{' :: rest =>
    let name := (rest.takeWhile (· != '}')).length
    if name == 0 || (rest.drop name).isEmpty then 0 else name + 4
  | '\\' :: '\r' :: '\n' :: _ => 3
  | '\\' :: '\n' :: _ => 2
  | '\\' :: c :: rest =>
    if c.isDigit then 1 + min 3 ((c :: rest).takeWhile Char.isDigit).length
    else if ['\'', '"', 'a', 'b', 'f', 'r', 'n', 't', 'v', '\\'].contains c then 2
    else 0
  | _ => 0

end RepoAtlas.Python
