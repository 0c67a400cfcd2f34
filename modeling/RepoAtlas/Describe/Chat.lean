import RepoAtlas.Config
import RepoAtlas.Describe.Completion
import RepoAtlas.Json.Writer
import RepoAtlas.Web.Url

/-!
# Asking a chat endpoint

A describer that sends each question to a chat endpoint (`Chat.describer`). The
way to the endpoint is given as a function from requests to responses, so all
but the sending itself is decided here.

* `Chat.endpointUrl`: the address that an endpoint stands for;
* `Chat.complete`: one request and the answer to it.
-/

namespace RepoAtlas.Chat

open Json

/-- Where to ask, with which key, and how long to wait for an answer. -/
structure Settings where
  endpoint : String
  key : Option String
  timeout : Duration
  deriving DecidableEq, Repr

/-- The settings of a configuration. -/
def Settings.ofConfig (c : Config) : Settings := ⟨c.endpoint, c.key, c.timeout⟩

/-- A message of a chat. -/
structure Message where
  role : String
  content : String
  deriving DecidableEq, Repr

/-- A request to an endpoint. -/
structure Request where
  url : Web.Url
  authorization : Option String
  body : String
  deriving DecidableEq, Repr

/-- Why there is no response. -/
inductive SendError where
  | timedOut
  | failed
  deriving DecidableEq, Repr

/-- Sends a request in a state. -/
abbrev Transport (σ : Type) := σ → Request → Except SendError Response × σ

/-- The path of the completions. -/
def completionsPath : String := "/chat/completions"

/-- The characters without the slashes they end with. -/
def dropSlashes (cs : List Char) : List Char := (cs.reverse.dropWhile (· == '/')).reverse

/-- Whether the characters end with a text. -/
def endsWith (cs : List Char) (text : String) : Bool := text.toList.isSuffixOf cs

/-- The address that an endpoint stands for: blanks around it and slashes at its
    end count for nothing, and what is missing of the path is added. -/
def endpointUrl (endpoint : String) : String :=
  let cs := dropSlashes (Text.trimBoth endpoint.toList)
  let base := String.ofList cs
  if endsWith cs completionsPath then base
  else if endsWith cs "/v1" then base ++ completionsPath
  else base ++ "/v1" ++ completionsPath

/-- Whether a key can stand in a header. -/
def isHeaderText (key : String) : Bool :=
  key.toList.all fun c => c = '\t' || (32 ≤ c.toNat && c.toNat ≠ 127)

/-- The body of a request. -/
def body (model : String) (messages : List Message) : String :=
  (Value.object [
    ("model", .string model),
    ("messages", .array (messages.map fun m =>
      .object [("role", .string m.role), ("content", .string m.content)])),
    ("temperature", .number "0.0")]).compact

/-- The request with messages to a model. A key that cannot be sent is noticed
    before an address that nothing can be sent to, but after one that is none. -/
def request (s : Settings) (model : String) (messages : List Message) :
    Except DescribeError Request :=
  match Web.Url.ofText? (endpointUrl s.endpoint) with
  | none => .error (.unusable model none)
  | some url =>
    if !url.hasHost then .error (.unusable model (some url.text))
    else if !(s.key.all isHeaderText) then .error (.unusable model none)
    else if url.scheme ≠ "http" && url.scheme ≠ "https" then
      .error (.unusable model (some url.text))
    else .ok ⟨url, s.key.map ("Bearer " ++ ·), body model messages⟩

/-- Sends messages to a model, and takes the answer from the response. -/
def complete {σ : Type} (send : Transport σ) (s : Settings) (model : String)
    (messages : List Message) (state : σ) : Answer × σ :=
  match request s model messages with
  | .error e => (.error e, state)
  | .ok r =>
    match send state r with
    | (.ok response, state) => (Completion.answer response, state)
    | (.error .timedOut, state) => (.error (.timedOut s.timeout model), state)
    | (.error .failed, state) => (.error (.unreachable model r.url.text), state)

/-- The messages of a question. -/
def messages (summary : Summary) : List Message :=
  [⟨"system", Summary.task⟩, ⟨"user", summary.prompt⟩]

/-- The describer that asks an endpoint. -/
def describer {σ : Type} (send : Transport σ) (s : Settings) : Describer σ := fun state q =>
  complete send s q.model (messages q.summary) state

end RepoAtlas.Chat
