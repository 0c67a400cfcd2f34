import RepoAtlas.Config

/-!
# The command line

The options of a run are read from the words behind the program's name
(`CommandLine.parse`). A value may stand in the word of its option, behind an
equals sign, or be the next word; it is looked at when the next option or the
end is reached. Behind a word of two dashes every word is a path.
-/

namespace RepoAtlas.CommandLine

/-- What the command line asks for. -/
structure Options where
  repository : String
  yes : Bool := false
  model : String := ({} : Config).model
  endpoint : String := ({} : Config).endpoint
  noEnrich : Bool := false
  cache : Option String := none
  attempts : Nat := 3
  deriving DecidableEq, Repr

/-- The configuration that options and a key come to. -/
def Options.config (o : Options) (key : Option String) : Config :=
  { ({} : Config) with
    cacheFile := (o.cache.map Utf8.encode).getD ({} : Config).cacheFile
    model := o.model
    endpoint := o.endpoint
    key := key
    policy := { attempts := o.attempts }
    enrich := !o.noEnrich }

/-- What a word may set. -/
inductive Argument where
  | repository
  | yes
  | model
  | endpoint
  | noEnrich
  | cache
  | attempts
  | help
  | version
  deriving DecidableEq, Repr

namespace Argument

/-- Whether it has a value. -/
def hasValue : Argument → Bool
  | repository | model | endpoint | cache | attempts => true
  | yes | noEnrich | help | version => false

/-- How messages name it. -/
def name : Argument → String
  | repository => "<REPOSITORY_PATH>"
  | yes => "--yes"
  | model => "--model <MODEL>"
  | endpoint => "--endpoint <ENDPOINT>"
  | noEnrich => "--no-enrich"
  | cache => "--cache <CACHE>"
  | attempts => "--max-attempts <MAX_ATTEMPTS>"
  | help => "--help"
  | version => "--version"

/-- The option of a long name. -/
def ofLong? (s : String) : Option Argument :=
  [("yes", yes), ("model", model), ("endpoint", endpoint), ("no-enrich", noEnrich),
    ("cache", cache), ("max-attempts", attempts), ("help", help), ("version", version)].lookup s

/-- The option of a letter. -/
def ofShort? (c : Char) : Option Argument :=
  [('y', yes), ('h', help), ('V', version)].lookup c

end Argument

/-- Why a text is no number of attempts. -/
inductive BadNumber where
  | empty
  | notDigits
  | tooLarge
  | tooSmall
  | outOfRange (n : Int)
  deriving DecidableEq, Repr

/-- What a message says of a text that is no number of attempts. -/
def BadNumber.message : BadNumber → String
  | empty => "cannot parse integer from empty string"
  | notDigits => "invalid digit found in string"
  | tooLarge => "number too large to fit in target type"
  | tooSmall => "number too small to fit in target type"
  | outOfRange n => s!"{n} is not in 0..=4294967295"

/-- Why the words give no options. -/
inductive UsageError where
  | helpAsked
  | versionAsked
  | unknown (word : String)
  | repeated (a : Argument)
  | valueMissing (a : Argument)
  | valueNotTaken (a : Argument) (value : String)
  | badValue (a : Argument) (value : String) (reason : BadNumber)
  | repositoryMissing
  deriving DecidableEq, Repr

/-- The first line that is written for an error. -/
def UsageError.message : UsageError → String
  | helpAsked => "Generate a structured summary of a software repository"
  | versionAsked => "repo-map 0.1.0"
  | unknown word => s!"error: unexpected argument '{word}' found"
  | repeated a => s!"error: the argument '{a.name}' cannot be used multiple times"
  | valueMissing a => s!"error: a value is required for '{a.name}' but none was supplied"
  | valueNotTaken a value =>
    s!"error: unexpected value '{value}' for '{a.name}' found; no more were expected"
  | badValue a value reason =>
    s!"error: invalid value '{value}' for '{a.name}': {reason.message}"
  | repositoryMissing => "error: the following required arguments were not provided:"

/-- The number of attempts that a text says. -/
def attemptsOf (value : String) : Except BadNumber Nat :=
  let number (negative : Bool) (digits : List Char) : Except BadNumber Nat :=
    if digits.isEmpty || !digits.all Char.isDigit then .error .notDigits
    else
      let n : Nat := digits.foldl (fun n c => n * 10 + (c.toNat - 48)) 0
      if negative then
        if Nat.pow 2 63 < n then .error .tooSmall
        else if n = 0 then .ok 0
        else .error (.outOfRange (-(n : Int)))
      else if Nat.pow 2 63 ≤ n then .error .tooLarge
      else if Nat.pow 2 32 ≤ n then .error (.outOfRange n)
      else .ok n
  match value.toList with
  | [] => .error .empty
  | '+' :: digits => number false digits
  | '-' :: digits => number true digits
  | digits => number false digits

/-- What is known between two words. -/
structure State where
  options : Options := { repository := "" }
  seen : List Argument := []
  /-- An argument that is not taken over yet, with its value, if it has one. -/
  pending : Option (Argument × Option String) := none
  /-- Whether only paths follow. -/
  pathsOnly : Bool := false

namespace State

/-- Takes over an argument with its value. -/
def set (s : State) (a : Argument) (value : Option String) : Except UsageError State :=
  if a = .help then .error .helpAsked
  else if a = .version then .error .versionAsked
  else if a.hasValue && value.isNone then .error (.valueMissing a)
  else if s.seen.contains a then .error (.repeated a)
  else
    let v := value.getD ""
    let put (o : Options) : Except UsageError State :=
      .ok { s with options := o, seen := a :: s.seen }
    match a with
    | .repository =>
      if v.isEmpty then .error (.valueMissing a) else put { s.options with repository := v }
    | .model => put { s.options with model := v }
    | .endpoint => put { s.options with endpoint := v }
    | .cache =>
      if v.isEmpty then .error (.valueMissing a) else put { s.options with cache := some v }
    | .attempts =>
      match attemptsOf v with
      | .ok n => put { s.options with attempts := n }
      | .error e => .error (.badValue a v e)
    | .yes => put { s.options with yes := true }
    | .noEnrich => put { s.options with noEnrich := true }
    | .help | .version => .ok s

/-- Takes over the argument that is pending. -/
def settle (s : State) : Except UsageError State :=
  match s.pending with
  | none => .ok s
  | some (a, value) => { s with pending := none }.set a value

/-- Takes over what is pending, and then an argument. -/
def take (s : State) (a : Argument) (value : Option String) : Except UsageError State := do
  (← s.settle).set a value

/-- Reads a path. -/
def path (s : State) (word : String) : Except UsageError State :=
  if s.seen.contains .repository || (s.pending.map (·.1)) = some .repository then
    .error (.unknown word)
  else do return { ← s.settle with pending := some (.repository, some word) }

/-- Reads the letters of a word behind its dash. -/
def letters (s : State) : List Char → Except UsageError State
  | [] => .ok s
  | c :: rest =>
    match Argument.ofShort? c with
    | none => .error (.unknown ("-" ++ String.singleton c))
    | some a => do (← s.take a none).letters rest

/-- Reads a word behind its two dashes. -/
def long (s : State) (word : List Char) : Except UsageError State :=
  let name := String.ofList (word.takeWhile (· ≠ '='))
  let value := match word.dropWhile (· ≠ '=') with
    | _ :: v => some (String.ofList v)
    | [] => none
  match Argument.ofLong? name with
  | none => .error (.unknown ("--" ++ name))
  | some a =>
    if a.hasValue then
      match value with
      | some v => s.take a (some v)
      | none => do return { ← s.settle with pending := some (a, none) }
    else
      match value with
      | some v => .error (.valueNotTaken a v)
      | none => s.take a none

/-- Reads a word that is no option: the value that is pending, or a path. -/
def plain (s : State) (word : String) : Except UsageError State :=
  match s.pending with
  | some (a, none) =>
    if s.pathsOnly then s.path word else .ok { s with pending := some (a, some word) }
  | _ => s.path word

/-- Reads a word. -/
def word (s : State) (word : String) : Except UsageError State :=
  if s.pathsOnly then s.plain word
  else
    match word.toList with
    | ['-', '-'] => .ok { s with pathsOnly := true }
    | '-' :: '-' :: rest => s.long rest
    | '-' :: c :: rest => s.letters (c :: rest)
    | _ => s.plain word

end State

/-- The options that the words give. -/
def parse (words : List String) : Except UsageError Options := do
  let s ← words.foldlM State.word {}
  let s ← s.settle
  if s.seen.contains .repository then return s.options else .error .repositoryMissing

end RepoAtlas.CommandLine
