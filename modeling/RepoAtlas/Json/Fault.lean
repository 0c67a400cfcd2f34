import RepoAtlas.Json.Binary

/-!
# Faults in JSON texts

Why a text is not read (`Cause`), and where: by the text that was left
(`Fault`), from which the line and the column follow (`Fault.position`). Columns
count bytes.
-/

namespace RepoAtlas.Json

/-- A number as it is read. -/
inductive Number where
  | natural (n : Nat)
  | negative (n : Nat)
  /-- A number with a fraction or an exponent, which is below zero or not. -/
  | fraction (below : Bool) (value : Binary)
  deriving DecidableEq, Repr

/-- A value that stands where another kind of value is expected. -/
inductive Found where
  | null
  | boolean (b : Bool)
  | number (n : Number)
  | string (s : String)
  | array
  | object
  deriving DecidableEq, Repr

/-- Why a text is not read. -/
inductive Cause where
  | arrayUnclosed
  | objectUnclosed
  | stringUnclosed
  | valueMissing
  | colonExpected
  | arrayContinues
  | objectContinues
  | wordExpected
  | valueExpected
  | badEscape
  | badNumber
  | numberTooLarge
  | controlCharacter
  | keyNotString
  | loneSurrogate
  | surrogateUnfinished
  | commaAtEnd
  | textAfterEnd
  | tooDeep
  | wrongType (found : Found) (expected : String)
  | negativeValue (n : Nat) (expected : String)
  | tooShort (length : Nat) (expected : String)
  | missingField (name : String)
  | duplicateField (name : String)
  | unknownVariant (name : String) (known : String)
  | noVariant (type : String)
  deriving DecidableEq, Repr

/-- A character of a quoted text in a message. -/
def quotedChar (c : Char) : String :=
  if c = '"' then "\\\"" else if c = '\\' then "\\\\"
  else if c = '\n' then "\\n" else if c = '\r' then "\\r" else if c = '\t' then "\\t"
  else if c.toNat = 0 then "\\0"
  else if c.toNat < 32 || c.toNat = 127 then
    "\\u\x7b" ++ String.ofList (Nat.toDigits 16 c.toNat) ++ "\x7d"
  else String.singleton c

/-- A text in quotes, as messages give it. Control characters below U+0080 are
    escaped. -/
def quotedText (s : String) : String := "\"" ++ String.join (s.toList.map quotedChar) ++ "\""

/-- How a message names a number. -/
def Number.name : Number → String
  | .natural n => s!"integer `{n}`"
  | .negative n => s!"integer `-{n}`"
  | .fraction below value =>
    "floating point `" ++ (if below then "-" else "") ++ value.text ++ "`"

/-- How a message names a value. -/
def Found.name : Found → String
  | .null => "null"
  | .boolean b => if b then "boolean `true`" else "boolean `false`"
  | .number n => n.name
  | .string s => "string " ++ quotedText s
  | .array => "sequence"
  | .object => "map"

namespace Cause

/-- What a message says of a cause. -/
def message : Cause → String
  | arrayUnclosed => "EOF while parsing a list"
  | objectUnclosed => "EOF while parsing an object"
  | stringUnclosed => "EOF while parsing a string"
  | valueMissing => "EOF while parsing a value"
  | colonExpected => "expected `:`"
  | arrayContinues => "expected `,` or `]`"
  | objectContinues => "expected `,` or `\x7d`"
  | wordExpected => "expected ident"
  | valueExpected => "expected value"
  | badEscape => "invalid escape"
  | badNumber => "invalid number"
  | numberTooLarge => "number out of range"
  | controlCharacter => "control character (\\u0000-\\u001F) found while parsing a string"
  | keyNotString => "key must be a string"
  | loneSurrogate => "lone leading surrogate in hex escape"
  | surrogateUnfinished => "unexpected end of hex escape"
  | commaAtEnd => "trailing comma"
  | textAfterEnd => "trailing characters"
  | tooDeep => "recursion limit exceeded"
  | wrongType found expected => "invalid type: " ++ found.name ++ ", expected " ++ expected
  | negativeValue n expected => s!"invalid value: integer `-{n}`, expected {expected}"
  | tooShort length expected => s!"invalid length {length}, expected {expected}"
  | missingField name => s!"missing field `{name}`"
  | duplicateField name => s!"duplicate field `{name}`"
  | unknownVariant name known => s!"unknown variant `{name}`, expected {known}"
  | noVariant type => s!"data did not match any variant of untagged enum {type}"

end Cause

/-- Why a text is not read, the text left at that place, and the number of bytes
    beyond it that the place lies. -/
structure Fault where
  cause : Cause
  rest : List Char
  beyond : Nat
  deriving DecidableEq, Repr

/-- A fault at the next byte. -/
def Fault.atNext (cause : Cause) (rest : List Char) : Fault := ⟨cause, rest, 1⟩

/-- A fault behind the last byte read. -/
def Fault.behind (cause : Cause) (rest : List Char) : Fault := ⟨cause, rest, 0⟩

/-- A place in a text. -/
structure Position where
  line : Nat
  column : Nat
  deriving DecidableEq, Repr

/-- The place behind a character. -/
def Position.after (p : Position) (c : Char) : Position :=
  if c = '\n' then ⟨p.line + 1, 0⟩ else ⟨p.line, p.column + c.utf8Size⟩

/-- The place so many bytes on; no further than the end of the text. -/
def Position.ahead (p : Position) : Nat → List Char → Position
  | 0, _ => p
  | _, [] => p
  | n + 1, c :: rest =>
    if c = '\n' then ahead ⟨p.line + 1, 0⟩ n rest
    else if n + 1 ≤ c.utf8Size then ⟨p.line, p.column + (n + 1)⟩
    else ahead ⟨p.line, p.column + c.utf8Size⟩ (n + 1 - c.utf8Size) rest
termination_by n => n
decreasing_by
  · omega
  · have := c.utf8Size_pos; omega

/-- The place of a fault in the text that was read. -/
def Fault.position (f : Fault) (text : List Char) : Position :=
  let read := text.take (text.length - f.rest.length)
  (read.foldl Position.after ⟨1, 0⟩).ahead f.beyond f.rest

/-- A fault with its place. -/
structure Error where
  cause : Cause
  position : Position
  deriving DecidableEq, Repr

/-- What a message says of an error. -/
def Error.message (e : Error) : String :=
  s!"{e.cause.message} at line {e.position.line} column {e.position.column}"

end RepoAtlas.Json
