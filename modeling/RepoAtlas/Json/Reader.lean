import RepoAtlas.Bytes.Utf8
import RepoAtlas.Json.Fault

/-!
# Reading JSON texts

Values are read from the front of a text into the type they are expected to have
(`Reader`), without a tree in between: what is not expected is skipped, and the
first thing that does not fit is the fault.

* `Reader.string`, `Reader.natural`: single values;
* `Reader.optional`, `Reader.list`: values of values;
* `Reader.record`: an object, field by field, or its fields as an array;
* `Reader.run`: a whole text.
-/

namespace RepoAtlas.Json

/-- Reads a value from the front of a text, and gives the rest. -/
abbrev Reader (α : Type) := List Char → Except Fault (α × List Char)

/-- A character that stands between values. -/
def isSpace (c : Char) : Bool := c == ' ' || c == '\n' || c == '\t' || c == '\r'

/-- The text without the space in front. -/
def skipSpace (cs : List Char) : List Char := cs.dropWhile isSpace

/-! ### Words -/

/-- The text behind the rest of a word. -/
def word : List Char → List Char → Except Fault (List Char)
  | [], cs => .ok cs
  | _ :: _, [] => .error (.behind .valueMissing [])
  | w :: ws, c :: cs =>
    if w = c then word ws cs else .error (.atNext .wordExpected (c :: cs))

/-! ### Strings -/

/-- The value of a hexadecimal digit. -/
def hexValue? (c : Char) : Option Nat :=
  if '0' ≤ c ∧ c ≤ '9' then some (c.toNat - 48)
  else if 'a' ≤ c ∧ c ≤ 'f' then some (c.toNat - 87)
  else if 'A' ≤ c ∧ c ≤ 'F' then some (c.toNat - 55)
  else none

/-- The four hexadecimal digits of an escape. -/
def hexEscape : Reader Nat
  | a :: b :: c :: d :: rest =>
    match hexValue? a, hexValue? b, hexValue? c, hexValue? d with
    | some w, some x, some y, some z => .ok (((w * 16 + x) * 16 + y) * 16 + z, rest)
    | _, _, _, _ => .error ⟨.badEscape, a :: b :: c :: d :: rest, 4⟩
  | cs =>
    -- Three characters may still be four bytes.
    if 4 ≤ Utf8.size cs then .error ⟨.badEscape, cs, 4⟩ else .error (.behind .stringUnclosed [])

/-- Whether the unit is the second half of a character beyond 16 bits. -/
def isLowHalf (n : Nat) : Bool := 0xDC00 ≤ n && n ≤ 0xDFFF

/-- Whether the unit is the first half of a character beyond 16 bits. -/
def isHighHalf (n : Nat) : Bool := 0xD800 ≤ n && n ≤ 0xDBFF

/-- The character of an escape by its number, behind the letter. A character
    beyond 16 bits takes two escapes. -/
def numberedEscape (cs : List Char) : Except Fault (Char × List Char) := do
  let (n, rest) ← hexEscape cs
  if isLowHalf n then .error (.behind .loneSurrogate rest)
  else if !isHighHalf n then return (Char.ofNat n, rest)
  else
    match rest with
    | [] => .error (.behind .stringUnclosed [])
    | c :: rest₂ =>
      -- The place of this fault lies behind the byte that should be a mark.
      if c ≠ '\\' then .error (.atNext .surrogateUnfinished (c :: rest₂))
      else
        match rest₂ with
        | [] => .error (.behind .stringUnclosed [])
        | u :: rest₃ =>
          if u ≠ 'u' then .error (.atNext .surrogateUnfinished (u :: rest₃))
          else
            let (m, rest₄) ← hexEscape rest₃
            if isLowHalf m then
              return (Char.ofNat ((n - 0xD800) * 1024 + (m - 0xDC00) + 0x10000), rest₄)
            else .error (.behind .loneSurrogate rest₄)

/-- The character that a letter behind a mark stands for. -/
def escaped? (c : Char) : Option Char :=
  if c = '"' || c = '\\' || c = '/' then some c
  else if c = 'b' then some '\x08'
  else if c = 'f' then some '\x0c'
  else if c = 'n' then some '\n'
  else if c = 'r' then some '\r'
  else if c = 't' then some '\t'
  else none

/-- The character of an escape, behind its mark. -/
def escape : Reader Char
  | [] => .error (.behind .stringUnclosed [])
  | c :: rest =>
    if c = 'u' then numberedEscape rest
    else
      match escaped? c with
      | some e => .ok (e, rest)
      | none => .error (.atNext .badEscape (c :: rest))

/-- Skips an escape, behind its mark. The halves of a character need not
    match. -/
def skipEscape : List Char → Except Fault (List Char)
  | [] => .error (.behind .stringUnclosed [])
  | c :: rest =>
    if c = 'u' then (hexEscape rest).map (·.2)
    else if (escaped? c).isSome then .ok rest
    else .error (.atNext .badEscape (c :: rest))

/-- The rest of a string behind its opening quote. The fuel is the length of the
    text. -/
def stringRest : Nat → Reader (List Char)
  | 0, cs => .error (.behind .stringUnclosed cs)
  | _, [] => .error (.behind .stringUnclosed [])
  | fuel + 1, c :: rest =>
    if c = '"' then .ok ([], rest)
    else if c = '\\' then do
      let (e, rest) ← escape rest
      let (s, rest) ← stringRest fuel rest
      return (e :: s, rest)
    else if c.toNat < 32 then .error (.atNext .controlCharacter (c :: rest))
    else do
      let (s, rest) ← stringRest fuel rest
      return (c :: s, rest)

/-- A string behind its opening quote. -/
def stringBody (cs : List Char) : Except Fault (String × List Char) := do
  let (s, rest) ← stringRest (cs.length + 1) cs
  return (String.ofList s, rest)

/-- Skips the rest of a string behind its opening quote. The fuel is the length
    of the text. -/
def skipStringRest : Nat → List Char → Except Fault (List Char)
  | 0, cs => .error (.behind .stringUnclosed cs)
  | _, [] => .error (.behind .stringUnclosed [])
  | fuel + 1, c :: rest =>
    if c = '"' then .ok rest
    else if c = '\\' then do skipStringRest fuel (← skipEscape rest)
    else if c.toNat < 32 then .error (.behind .controlCharacter (c :: rest))
    else skipStringRest fuel rest

/-- Skips a string behind its opening quote. -/
def skipString (cs : List Char) : Except Fault (List Char) := skipStringRest (cs.length + 1) cs

/-! ### Numbers -/

/-- The value of a decimal digit. -/
def digit? (c : Char) : Option Nat :=
  if '0' ≤ c ∧ c ≤ '9' then some (c.toNat - 48) else none

/-- Whether a digit comes next. -/
def digitNext (cs : List Char) : Bool := (cs.head?.bind digit?).isSome

/-- The text behind the digits in front. -/
def skipDigits (cs : List Char) : List Char := cs.dropWhile fun c => (digit? c).isSome

/-- The largest number of 64 bits. -/
def word64 : Nat := Nat.pow 2 64 - 1

/-- Takes digits into a number as long as it stays within 64 bits; also the
    number of digits taken. -/
def digitsInto : Nat → Nat → List Char → Nat × Nat × List Char
  | n, count, [] => (n, count, [])
  | n, count, c :: rest =>
    match digit? c with
    | none => (n, count, c :: rest)
    | some d =>
      if word64 < n * 10 + d then (n, count, c :: rest)
      else digitsInto (n * 10 + d) (count + 1) rest

/-- The number `n * 10 ^ exponent`: the number nearest to `n`, multiplied or
    divided by the number nearest to the power of ten. -/
def scaled? (n : Nat) (exponent : Int) : Option Binary :=
  match Binary.ofRatio? n 1 with
  | none => none
  | some b =>
    if n = 0 then some .zero
    else if 308 < exponent then none
    else if 0 ≤ exponent then
      (Binary.ofRatio? (Nat.pow 10 exponent.toNat) 1).bind b.mul?
    else
      -- A power of ten that is itself too large is divided by in steps.
      let steps := (((-exponent).toNat - 1) / 308).min 3
      let huge := (Binary.ofRatio? (Nat.pow 10 308) 1).getD .zero
      let reduced := steps.repeat (·.div huge) b
      let left := (-exponent).toNat - 308 * steps
      if 308 < left then some .zero
      else some (reduced.div ((Binary.ofRatio? (Nat.pow 10 left) 1).getD .zero))

/-- A number with an exponent or a fraction; a fault if it is too large. -/
def fraction (below : Bool) (n : Nat) (exponent : Int) : Reader Number := fun cs =>
  match scaled? n exponent with
  | some b => .ok (.fraction below b, cs)
  | none => .error (.behind .numberTooLarge cs)

/-- The exponent behind its letter, and the number with it. -/
def exponentPart (below : Bool) (n : Nat) (exponent : Int) : Reader Number := fun cs => do
  let (down, cs) :=
    match cs with
    | '+' :: rest => (false, rest)
    | '-' :: rest => (true, rest)
    | _ => (false, cs)
  match cs with
  | [] => .error (.behind .valueMissing [])
  | c :: rest =>
    if (digit? c).isNone then .error (.atNext .badNumber (c :: rest))
    else
      let ds := (c :: rest).takeWhile fun c => (digit? c).isSome
      let size := ds.foldl (fun k c => k * 10 + (digit? c).getD 0) 0
      let left := skipDigits (c :: rest)
      if size < Nat.pow 2 31 then
        fraction below n (if down then exponent - size else exponent + size) left
      else if n ≠ 0 && !down then
        -- The fault lies behind the digit that is one too many.
        let fitting := (ds.foldl (fun (k, count) c =>
          let k' := k * 10 + (digit? c).getD 0
          if k' < Nat.pow 2 31 then (k', count + 1) else (Nat.pow 2 31, count)) (0, 0)).2
        .error (.behind .numberTooLarge ((c :: rest).drop (fitting + 1)))
      else .ok (.fraction below .zero, left)

/-- The digits behind the point, and the number with them. -/
def fractionPart (below : Bool) (n : Nat) (exponent : Int) : Reader Number := fun cs => do
  let (n, count, rest) := digitsInto n 0 cs
  if count = 0 && !digitNext cs then
    match cs with
    | [] => .error (.behind .valueMissing [])
    | _ => .error (.atNext .badNumber cs)
  else
    let rest := skipDigits rest
    match rest with
    | c :: left =>
      if c = 'e' || c = 'E' then exponentPart below n (exponent - count) left
      else fraction below n (exponent - count) rest
    | [] => fraction below n (exponent - count) []

/-- A number behind its sign. -/
def number (below : Bool) : Reader Number
  | [] => .error (.behind .valueMissing [])
  | c :: rest =>
    match digit? c with
    | none => .error (.atNext .badNumber (c :: rest))
    | some d =>
      if d = 0 && digitNext rest then .error (.atNext .badNumber rest)
      else
        let (n, _, left) := digitsInto d 0 rest
        let more := (left.takeWhile fun c => (digit? c).isSome).length
        match left.drop more with
        | '.' :: r => fractionPart below n more r
        | 'e' :: r => exponentPart below n more r
        | 'E' :: r => exponentPart below n more r
        | r =>
          if more ≠ 0 then fraction below n more r
          else if !below then .ok (.natural n, r)
          else if n = 0 || Nat.pow 2 63 < n then fraction true n 0 r
          else .ok (.negative n, r)

/-- Skips the exponent of a number behind its letter. -/
def skipExponent (cs : List Char) : Except Fault (List Char) :=
  let cs := match cs with
    | '+' :: rest => rest
    | '-' :: rest => rest
    | _ => cs
  match cs with
  | [] => .error (.behind .badNumber [])
  | c :: rest =>
    if (digit? c).isSome then .ok (skipDigits rest) else .error (.atNext .badNumber (c :: rest))

/-- Skips a number behind its sign. -/
def skipNumber : List Char → Except Fault (List Char)
  | [] => .error (.behind .badNumber [])
  | c :: rest =>
    match digit? c with
    | none => .error (.atNext .badNumber (c :: rest))
    | some d =>
      if d = 0 && digitNext rest then .error (.atNext .badNumber rest)
      else
        match skipDigits rest with
        | '.' :: r =>
          if !digitNext r then .error (.atNext .badNumber r)
          else
            match skipDigits r with
            | 'e' :: r => skipExponent r
            | 'E' :: r => skipExponent r
            | r => .ok r
        | 'e' :: r => skipExponent r
        | 'E' :: r => skipExponent r
        | r => .ok r

/-! ### Values that are not expected -/

/-- The fault of a value that is not the one expected. The space in front is
    skipped already, and the text is not at its end. -/
def unexpected (expected : String) (cs : List Char) : Fault :=
  let fault (found : Found) (rest : List Char) : Fault := .behind (.wrongType found expected) rest
  let through (found : Found) (r : Except Fault (List Char)) : Fault :=
    match r with
    | .ok rest => fault found rest
    | .error f => f
  match cs with
  | 'n' :: rest => through .null (word "ull".toList rest)
  | 't' :: rest => through (.boolean true) (word "rue".toList rest)
  | 'f' :: rest => through (.boolean false) (word "alse".toList rest)
  | '-' :: rest =>
    match number true rest with
    | .ok (n, rest) => fault (.number n) rest
    | .error f => f
  | '"' :: rest =>
    match stringBody rest with
    | .ok (s, rest) => fault (.string s) rest
    | .error f => f
  | '[' :: _ => fault .array cs
  | '{' :: _ => fault .object cs
  | _ =>
    if digitNext cs then
      match number false cs with
      | .ok (n, rest) => fault (.number n) rest
      | .error f => f
    else .atNext .valueExpected cs

/-- A bracket that is open around a skipped value. -/
inductive Bracket where
  | array
  | object
  deriving DecidableEq, Repr

/-- Skips the key of a field and its colon. -/
def skipKey (cs : List Char) : Except Fault (List Char) :=
  match skipSpace cs with
  | '"' :: rest => do
    let rest ← skipString rest
    match skipSpace rest with
    | ':' :: rest => .ok rest
    | [] => .error (.behind .objectUnclosed [])
    | rest => .error (.atNext .colonExpected rest)
  | [] => .error (.behind .objectUnclosed [])
  | rest => .error (.atNext .keyNotString rest)

mutual

/-- Skips a value inside open brackets, and then what closes them. -/
def skipValueIn : Nat → List Bracket → List Char → Except Fault (List Char)
  | 0, _, cs => .error (.behind .valueMissing cs)
  | fuel + 1, brackets, cs =>
    match skipSpace cs with
    | [] => .error (.behind .valueMissing [])
    | 'n' :: rest => do skipAfter fuel true brackets (← word "ull".toList rest)
    | 't' :: rest => do skipAfter fuel true brackets (← word "rue".toList rest)
    | 'f' :: rest => do skipAfter fuel true brackets (← word "alse".toList rest)
    | '-' :: rest => do skipAfter fuel true brackets (← skipNumber rest)
    | '"' :: rest => do skipAfter fuel true brackets (← skipString rest)
    | '[' :: rest => skipAfter fuel false (.array :: brackets) rest
    | '{' :: rest => skipAfter fuel false (.object :: brackets) rest
    | c :: rest =>
      if digitNext (c :: rest) then do skipAfter fuel true brackets (← skipNumber (c :: rest))
      else .error (.atNext .valueExpected (c :: rest))

/-- Skips what stands behind a value, or behind an opening bracket if `behind`
    is false. -/
def skipAfter : Nat → Bool → List Bracket → List Char → Except Fault (List Char)
  | 0, _, _, cs => .error (.behind .valueMissing cs)
  | _, _, [], cs => .ok cs
  | fuel + 1, behind, bracket :: brackets, cs =>
    match skipSpace cs, bracket with
    | [], .array => .error (.behind .arrayUnclosed [])
    | [], .object => .error (.behind .objectUnclosed [])
    | ']' :: rest, .array => skipAfter fuel true brackets rest
    | '}' :: rest, .object => skipAfter fuel true brackets rest
    | c :: rest, _ =>
      if behind && c ≠ ',' then
        match bracket with
        | .array => .error (.atNext .arrayContinues (c :: rest))
        | .object => .error (.atNext .objectContinues (c :: rest))
      else
        let next := if behind then rest else c :: rest
        match bracket with
        | .array => skipValueIn fuel (bracket :: brackets) next
        | .object => do skipValueIn fuel (bracket :: brackets) (← skipKey next)

end

/-- Skips a value of any kind. -/
def skipValue (cs : List Char) : Except Fault (List Char) :=
  skipValueIn (2 * cs.length + 2) [] cs

/-! ### Arrays and objects -/

/-- The text at the next item of an array, or none at its end. -/
def nextItem (first : Bool) (cs : List Char) : Except Fault (Option (List Char)) :=
  match skipSpace cs with
  | [] => .error (.behind .arrayUnclosed [])
  | ']' :: _ => .ok none
  | c :: rest =>
    if first then .ok (some (c :: rest))
    else if c = ',' then
      match skipSpace rest with
      | [] => .error (.behind .valueMissing [])
      | ']' :: rest => .error (.atNext .commaAtEnd (']' :: rest))
      | rest => .ok (some rest)
    else .error (.atNext .arrayContinues (c :: rest))

/-- The text behind the end of an array. -/
def endArray (cs : List Char) : Except Fault (List Char) :=
  match skipSpace cs with
  | [] => .error (.behind .arrayUnclosed [])
  | ']' :: rest => .ok rest
  | ',' :: rest =>
    match skipSpace rest with
    | ']' :: rest => .error (.atNext .commaAtEnd (']' :: rest))
    | rest => .error (.atNext .textAfterEnd rest)
  | rest => .error (.atNext .textAfterEnd rest)

/-- The key of the next field of an object and the text behind it, or none at
    its end. -/
def nextKey (first : Bool) (cs : List Char) : Except Fault (Option (String × List Char)) :=
  let key (cs : List Char) : Except Fault (Option (String × List Char)) :=
    match cs with
    | [] => .error (.behind .valueMissing [])
    | '"' :: rest => (stringBody rest).map some
    | '}' :: rest => .error (.atNext .commaAtEnd ('}' :: rest))
    | rest => .error (.atNext .keyNotString rest)
  match skipSpace cs with
  | [] => .error (.behind .objectUnclosed [])
  | '}' :: _ => .ok none
  | c :: rest =>
    if first then key (c :: rest)
    else if c = ',' then key (skipSpace rest)
    else .error (.atNext .objectContinues (c :: rest))

/-- The text behind the colon of a field. -/
def colon (cs : List Char) : Except Fault (List Char) :=
  match skipSpace cs with
  | [] => .error (.behind .objectUnclosed [])
  | ':' :: rest => .ok rest
  | rest => .error (.atNext .colonExpected rest)

/-- Where a fault of a whole object lies: behind its end, if that comes next. -/
def pastObject (cs : List Char) : List Char :=
  match skipSpace cs with
  | '}' :: rest => rest
  | rest => rest

/-- Where a fault of a whole array lies: behind its end, if that comes next. -/
def pastArray (cs : List Char) : List Char :=
  match skipSpace cs with
  | ']' :: rest => rest
  | rest => rest

namespace Reader

/-- A string. -/
def string : Reader String := fun cs =>
  match skipSpace cs with
  | [] => .error (.behind .valueMissing [])
  | '"' :: rest => stringBody rest
  | rest => .error (unexpected "a string" rest)

/-- A natural number of 64 bits. -/
def natural : Reader Nat := fun cs =>
  let expected := "usize"
  let taken (below : Bool) (rest : List Char) : Except Fault (Nat × List Char) := do
    match ← number below rest with
    | (.natural n, rest) => .ok (n, rest)
    | (.negative n, rest) => .error (.behind (.negativeValue n expected) rest)
    | (n, rest) => .error (.behind (.wrongType (.number n) expected) rest)
  match skipSpace cs with
  | [] => .error (.behind .valueMissing [])
  | '-' :: rest => taken true rest
  | rest => if digitNext rest then taken false rest else .error (unexpected expected rest)

/-- Null, or a value. -/
def optional {α : Type} (value : Reader α) : Reader (Option α) := fun cs =>
  match skipSpace cs with
  | 'n' :: rest => do return (none, ← word "ull".toList rest)
  | rest => do
    let (a, rest) ← value rest
    return (some a, rest)

/-- The items of an array from one on. The fuel is the length of the text. -/
def items {α : Type} (item : Reader α) : Nat → Bool → Reader (List α)
  | 0, _, cs => .error (.behind .arrayUnclosed cs)
  | fuel + 1, first, cs => do
    match ← nextItem first cs with
    | none => return ([], cs)
    | some cs =>
      let (a, cs) ← item cs
      let (as, cs) ← items item fuel false cs
      return (a :: as, cs)

/-- An array of values of one type. -/
def list {α : Type} (item : Reader α) : Reader (List α) := fun cs =>
  match skipSpace cs with
  | [] => .error (.behind .valueMissing [])
  | '[' :: rest => do
    let (as, rest) ← items item (rest.length + 1) true rest
    return (as, ← endArray rest)
  | rest => .error (unexpected "a sequence" rest)

/-- How the fields of an object are read into a draft of it. -/
structure Fields (δ : Type) where
  /-- The name of the type in messages. -/
  type : String
  /-- The names of the fields in order. -/
  names : List String
  /-- The draft before the first field. -/
  blank : δ
  /-- Whether the draft has a field already. -/
  has : δ → String → Bool
  /-- Reads a field into the draft. -/
  read : String → δ → Reader δ
  /-- Whether an object must have the field. -/
  required : String → Bool

/-- Reads the fields of an object into a draft, from one on; fields of other
    names are skipped. The fuel is the length of the text. -/
def namedFields {δ : Type} (f : Fields δ) : Nat → Bool → δ → Reader δ
  | 0, _, _, cs => .error (.behind .objectUnclosed cs)
  | fuel + 1, first, draft, cs => do
    match ← nextKey first cs with
    | none => return (draft, cs)
    | some (key, cs) =>
      if f.names.contains key then
        if f.has draft key then .error (.behind (.duplicateField key) (pastObject cs))
        else
          let (draft, cs) ← f.read key draft (← colon cs)
          namedFields f fuel false draft cs
      else namedFields f fuel false draft (← skipValue (← colon cs))

/-- Reads the fields, in order, from the items of an array. Fields that may be
    missing may be so at the end. -/
def orderedFields {δ : Type} (f : Fields δ) : List String → Nat → δ → Reader δ
  | [], _, draft, cs => .ok (draft, cs)
  | name :: names, index, draft, cs => do
    match ← nextItem (index == 0) cs with
    | none =>
      if f.required name then
        let expected := s!"struct {f.type} with {f.names.length} elements"
        .error (.behind (.tooShort index expected) (pastArray cs))
      else orderedFields f names (index + 1) draft cs
    | some cs =>
      let (draft, cs) ← f.read name draft cs
      orderedFields f names (index + 1) draft cs

/-- The draft of an object, in which no required field is missing. -/
def record {δ : Type} (f : Fields δ) : Reader δ := fun cs =>
  match skipSpace cs with
  | [] => .error (.behind .valueMissing [])
  | '{' :: rest => do
    let (draft, rest) ← namedFields f (rest.length + 1) true f.blank rest
    match f.names.find? fun name => f.required name && !f.has draft name with
    | some name => .error (.behind (.missingField name) (pastObject rest))
    | none =>
      match skipSpace rest with
      | '}' :: rest => return (draft, rest)
      | rest => .error (.atNext .textAfterEnd rest)
  | '[' :: rest => do
    let (draft, rest) ← orderedFields f f.names 0 f.blank rest
    return (draft, ← endArray rest)
  | rest => .error (unexpected s!"struct {f.type}" rest)

/-- The value of a whole text. -/
def run {α : Type} (value : Reader α) (text : String) : Except Error α :=
  let cs := text.toList
  let result : Except Fault α := do
    let (a, rest) ← value cs
    match skipSpace rest with
    | [] => return a
    | rest => .error (.atNext .textAfterEnd rest)
  result.mapError fun fault => ⟨fault.cause, fault.position cs⟩

end Reader

end RepoAtlas.Json
