/-!
# Writing JSON texts

A value is written on one line (`Value.compact`), or with a line for each item
and field, indented by two blanks (`Value.pretty`). In strings only quotes,
backslashes and control characters are escaped.
-/

namespace RepoAtlas.Json

/-- A value to be written. -/
inductive Value where
  | null
  | number (text : String)
  | string (s : String)
  | array (items : List Value)
  | object (fields : List (String × Value))

/-- A hexadecimal digit in small letters. -/
def hexLetter (n : Nat) : Char := if n < 10 then Char.ofNat (48 + n) else Char.ofNat (87 + n)

/-- A character of a string. -/
def writtenChar (c : Char) : List Char :=
  if c = '"' then ['\\', '"']
  else if c = '\\' then ['\\', '\\']
  else if 32 ≤ c.toNat then [c]
  else if c = '\x08' then ['\\', 'b']
  else if c = '\x0c' then ['\\', 'f']
  else if c = '\n' then ['\\', 'n']
  else if c = '\r' then ['\\', 'r']
  else if c = '\t' then ['\\', 't']
  else ['\\', 'u', '0', '0', hexLetter (c.toNat / 16), hexLetter (c.toNat % 16)]

/-- A string in quotes. -/
def written (s : String) : List Char := '"' :: s.toList.flatMap writtenChar ++ ['"']

namespace Value

mutual

/-- The value on one line. -/
def compactChars : Value → List Char
  | .null => "null".toList
  | .number text => text.toList
  | .string s => written s
  | .array items => '[' :: compactItems items ++ [']']
  | .object fields => '{' :: compactFields fields ++ ['}']

/-- The items of an array on one line. -/
def compactItems : List Value → List Char
  | [] => []
  | [v] => v.compactChars
  | v :: rest => v.compactChars ++ ',' :: compactItems rest

/-- The fields of an object on one line. -/
def compactFields : List (String × Value) → List Char
  | [] => []
  | [(name, v)] => written name ++ ':' :: v.compactChars
  | (name, v) :: rest => written name ++ ':' :: v.compactChars ++ ',' :: compactFields rest

end

/-- A line break and the blanks of a depth. -/
def lineAt (depth : Nat) : List Char := '\n' :: List.replicate (2 * depth) ' '

mutual

/-- The value with a line for each item and field. -/
def prettyChars (depth : Nat) : Value → List Char
  | .null => "null".toList
  | .number text => text.toList
  | .string s => written s
  | .array [] => ['[', ']']
  | .array (v :: rest) =>
    '[' :: lineAt (depth + 1) ++ prettyItems (depth + 1) (v :: rest) ++ lineAt depth ++ [']']
  | .object [] => ['{', '}']
  | .object (f :: rest) =>
    '{' :: lineAt (depth + 1) ++ prettyFields (depth + 1) (f :: rest) ++ lineAt depth ++ ['}']

/-- The items of an array, a line for each. -/
def prettyItems (depth : Nat) : List Value → List Char
  | [] => []
  | [v] => v.prettyChars depth
  | v :: rest => v.prettyChars depth ++ ',' :: lineAt depth ++ prettyItems depth rest

/-- The fields of an object, a line for each. -/
def prettyFields (depth : Nat) : List (String × Value) → List Char
  | [] => []
  | [(name, v)] => written name ++ ':' :: ' ' :: v.prettyChars depth
  | (name, v) :: rest =>
    written name ++ ':' :: ' ' :: v.prettyChars depth ++ ',' :: lineAt depth ++
      prettyFields depth rest

end

/-- The value on one line. -/
def compact (v : Value) : String := String.ofList v.compactChars

/-- The value with a line for each item and field. -/
def pretty (v : Value) : String := String.ofList (v.prettyChars 0)

/-- An array of strings. -/
def strings (l : List String) : Value := .array (l.map .string)

end Value

end RepoAtlas.Json
