import RepoAtlas.Bytes.Utf8
import RepoAtlas.Describe.Summary
import RepoAtlas.Duration
import RepoAtlas.Json.Fault

/-!
# Describers

Who answers a question about a file, with a state of its own (`Describer`), and
what may go wrong with an answer (`DescribeError`).
-/

namespace RepoAtlas

/-- What is asked of a describer: about a file, of a model. -/
structure Question where
  summary : Summary
  model : String
  deriving DecidableEq, Repr

/-- The status of a response by its number. -/
structure Status where
  code : Nat
  deriving DecidableEq, Repr

/-- Why there is no answer. -/
inductive DescribeError where
  /-- The address or the key is of no use for a request. -/
  | unusable (model : String) (address : Option String)
  | unreachable (model address : String)
  | timedOut (limit : Duration) (model : String)
  | refused (status : Status) (body : String)
  | notJson (error : Json.Error) (body : String)
  | noChoice
  | noContent
  /-- Another reason, given as text. -/
  | stated (reason : String)
  /-- An error of another part of a program, with all that its message says. -/
  | other (message : String)
  deriving DecidableEq, Repr

/-- The reasons that go with the numbers of responses. -/
def Status.reasons : List (Nat × String) := [
  (100, "Continue"), (101, "Switching Protocols"), (102, "Processing"), (103, "Early Hints"),
  (200, "OK"), (201, "Created"), (202, "Accepted"), (203, "Non Authoritative Information"),
  (204, "No Content"), (205, "Reset Content"), (206, "Partial Content"), (207, "Multi-Status"),
  (208, "Already Reported"), (226, "IM Used"), (300, "Multiple Choices"),
  (301, "Moved Permanently"), (302, "Found"), (303, "See Other"), (304, "Not Modified"),
  (305, "Use Proxy"), (307, "Temporary Redirect"), (308, "Permanent Redirect"),
  (400, "Bad Request"), (401, "Unauthorized"), (402, "Payment Required"), (403, "Forbidden"),
  (404, "Not Found"), (405, "Method Not Allowed"), (406, "Not Acceptable"),
  (407, "Proxy Authentication Required"), (408, "Request Timeout"), (409, "Conflict"),
  (410, "Gone"), (411, "Length Required"), (412, "Precondition Failed"),
  (413, "Payload Too Large"), (414, "URI Too Long"), (415, "Unsupported Media Type"),
  (416, "Range Not Satisfiable"), (417, "Expectation Failed"), (418, "I'm a teapot"),
  (421, "Misdirected Request"), (422, "Unprocessable Entity"), (423, "Locked"),
  (424, "Failed Dependency"), (425, "Too Early"), (426, "Upgrade Required"),
  (428, "Precondition Required"), (429, "Too Many Requests"),
  (431, "Request Header Fields Too Large"), (451, "Unavailable For Legal Reasons"),
  (500, "Internal Server Error"), (501, "Not Implemented"), (502, "Bad Gateway"),
  (503, "Service Unavailable"), (504, "Gateway Timeout"), (505, "HTTP Version Not Supported"),
  (506, "Variant Also Negotiates"), (507, "Insufficient Storage"), (508, "Loop Detected"),
  (510, "Not Extended"), (511, "Network Authentication Required")]

/-- A status by its number and its reason. -/
def Status.text (s : Status) : String :=
  toString s.code ++ " " ++ (reasons.lookup s.code).getD "<unknown status code>"

/-- Whether the request succeeded. -/
def Status.isSuccess (s : Status) : Bool := 200 ≤ s.code && s.code < 300

/-- The number of bytes of a text that a message quotes at most. -/
def quotedLimit : Nat := 400

/-- The text as a message quotes it: whole, or cut between the last two characters
    that the limit allows. There is none if no such place is found, or the cut is
    one through a character. -/
def shortened? (s : String) : Option String :=
  if s.utf8ByteSize ≤ quotedLimit then some s
  else
    let bytes := Utf8.encode s
    (Utf8.boundaryWithin? bytes quotedLimit).bind fun n =>
      (Utf8.front? bytes n).map (· ++ "...")

/-- The text as a message quotes it; there always is one. -/
def shortened (s : String) : String := (shortened? s).getD s

/-- What a message says of an error. -/
def DescribeError.message : DescribeError → String
  | unusable model address =>
    s!"request failed (model={model}): builder error" ++
      (match address with
        | some a => s!" for url ({a})"
        | none => "")
  | unreachable model address =>
    s!"request failed (model={model}): error sending request for url ({address})"
  | timedOut limit model => s!"request timed out after {limit.text} (model={model})"
  | refused status body => s!"endpoint returned HTTP {status.text}: {shortened body}"
  | notJson error body =>
    s!"invalid JSON from endpoint: {error.message} (body={shortened body})"
  | noChoice => "response had no choices"
  | noContent => "response had empty message content"
  | stated reason => reason
  | other message => message

/-- What a describer answers: a text, or the reason why there is none. -/
abbrev Answer := Except DescribeError String

/-- Answers a question in a state, and goes on to the next. -/
abbrev Describer (σ : Type) := σ → Question → Answer × σ

end RepoAtlas
