import RepoAtlas.Describe.Describer
import RepoAtlas.Json.Reader
import RepoAtlas.Text.Blank

/-!
# Completions

The response of a chat endpoint is a JSON text whose first choice holds the
answer, as one text or as several parts (`Completion.answer`). The parts that
say something are joined, a line for each. An answer that says nothing is none.
-/

namespace RepoAtlas

open Json

/-- A response to a request. -/
structure Response where
  status : Status
  body : Bytes
  deriving DecidableEq, Repr

namespace Completion

/-- A value of any kind, as the content of a message may be. -/
inductive Content where
  | null
  | boolean (b : Bool)
  | number (n : Number)
  | string (s : String)
  | array (items : List Content)
  | object (fields : List (String × Content))

mutual

/-- Reads a value of any kind, in no more than `depth` brackets. -/
def contentIn : Nat → Nat → Reader Content
  | 0, _, cs => .error (.behind .valueMissing cs)
  | fuel + 1, depth, cs =>
    match skipSpace cs with
    | [] => .error (.behind .valueMissing [])
    | 'n' :: rest => do return (.null, ← word "ull".toList rest)
    | 't' :: rest => do return (.boolean true, ← word "rue".toList rest)
    | 'f' :: rest => do return (.boolean false, ← word "alse".toList rest)
    | '-' :: rest => do
      let (n, rest) ← number true rest
      return (.number n, rest)
    | '"' :: rest => do
      let (s, rest) ← stringBody rest
      return (.string s, rest)
    | '[' :: rest =>
      if depth = 0 then .error (.atNext .tooDeep ('[' :: rest))
      else do
        let (items, rest) ← itemsIn fuel (depth - 1) true rest
        return (.array items, ← endArray rest)
    | '{' :: rest =>
      if depth = 0 then .error (.atNext .tooDeep ('{' :: rest))
      else do
        let (fields, rest) ← fieldsIn fuel (depth - 1) true rest
        match skipSpace rest with
        | '}' :: rest => return (.object fields, rest)
        | rest => .error (.atNext .textAfterEnd rest)
    | c :: rest =>
      if digitNext (c :: rest) then do
        let (n, rest) ← number false (c :: rest)
        return (.number n, rest)
      else .error (.atNext .valueExpected (c :: rest))

/-- Reads the items of an array from one on. -/
def itemsIn : Nat → Nat → Bool → Reader (List Content)
  | 0, _, _, cs => .error (.behind .arrayUnclosed cs)
  | fuel + 1, depth, first, cs => do
    match ← nextItem first cs with
    | none => return ([], cs)
    | some cs =>
      let (item, cs) ← contentIn fuel depth cs
      let (items, cs) ← itemsIn fuel depth false cs
      return (item :: items, cs)

/-- Reads the fields of an object from one on. -/
def fieldsIn : Nat → Nat → Bool → Reader (List (String × Content))
  | 0, _, _, cs => .error (.behind .objectUnclosed cs)
  | fuel + 1, depth, first, cs => do
    match ← nextKey first cs with
    | none => return ([], cs)
    | some (key, cs) =>
      let (value, cs) ← contentIn fuel depth (← colon cs)
      let (fields, cs) ← fieldsIn fuel depth false cs
      return ((key, value) :: fields, cs)

end

/-- The number of brackets that a text may be nested in; a message stands in
    four of them. -/
def deepest : Nat := 127

/-- What a part of a message says, if it is a part. -/
def partText? : Content → Option (Option String)
  | .object fields =>
    match fields.filter (·.1 = "text") with
    | [] => some none
    | [(_, .null)] => some none
    | [(_, .string s)] => some (some s)
    | _ => none
  | .array [] => some none
  | .array [.null] => some none
  | .array [.string s] => some (some s)
  | _ => none

/-- The texts of a message: one, or one for each part that has any. -/
inductive Message where
  | text (s : String)
  | parts (texts : List (Option String))
  deriving DecidableEq, Repr

/-- The message that a value stands for. -/
def message? : Content → Option Message
  | .string s => some (.text s)
  | .array items => (items.mapM partText?).map .parts
  | _ => none

/-- Reads the content of a message. -/
def content : Reader Message := fun cs => do
  let (value, rest) ← contentIn (2 * cs.length + 2) (deepest - 4) cs
  match message? value with
  | some m => return (m, rest)
  | none => .error (.behind (.noVariant "ChatContent") (pastObject rest))

/-- The fields of an object with one field of interest. -/
def oneField {α : Type} (type name : String) (must : Bool) (value : Reader α) :
    Reader.Fields (Option α) where
  type := type
  names := [name]
  blank := none
  has d _ := d.isSome
  required _ := must
  read _ _ := fun cs => do
    let (a, rest) ← value cs
    return (some a, rest)

/-- Reads the message of a choice. -/
def choice : Reader (Option (Option Message)) :=
  .record (oneField "ChatChoice" "message" true
    (.record (oneField "ChatMessageResponse" "content" true content)))

/-- Reads the choices of a response. -/
def choices : Reader (Option (List (Option (Option Message)))) :=
  .record (oneField "ChatCompletionsResponse" "choices" false (.list choice))

/-- What a message says, without the blanks around it. -/
def Message.said : Message → String
  | .text s => Text.trim s
  | .parts texts =>
    "\n".intercalate (((texts.filterMap id).map Text.trim).filter fun s => !s.isEmpty)

/-- The answer in the body of a response. -/
def ofBody (body : String) : Answer :=
  match choices.run body with
  | .error e => .error (.notJson e body)
  | .ok found =>
    match (found.getD []).head? with
    | none => .error .noChoice
    | some message =>
      match message.join with
      | none => .error .noContent
      | some m => if m.said.isEmpty then .error .noContent else .ok m.said

/-- The text of a body, without a mark of its byte order. -/
def bodyText (body : Bytes) : String :=
  let text := Utf8.decodeLossy body
  match text.toList with
  | c :: rest => if c.toNat = 0xFEFF then String.ofList rest else text
  | [] => text

/-- The answer in a response. -/
def answer (r : Response) : Answer :=
  if r.status.isSuccess then ofBody (bodyText r.body)
  else .error (.refused r.status (bodyText r.body))

end Completion

end RepoAtlas
