import RepoAtlas.Web.Host

/-!
# Addresses

The address that a request is made to, in its one written form (`Url.ofText?`):
small letters where case makes no difference, no port where it goes without
saying, no dots as parts of the path, and everything that is not plain ASCII as
its bytes in percent notation.
-/

namespace RepoAtlas.Web

/-- An address. A user that it names is left out. -/
structure Url where
  scheme : String
  /-- The host, with its port. -/
  authority : Option String
  hasHost : Bool
  path : String
  query : Option String
  fragment : Option String
  deriving DecidableEq, Repr

namespace Url

/-- The address as text. -/
def text (u : Url) : String :=
  u.scheme ++ ":" ++ (match u.authority with
    | some a => "//" ++ a
    | none => "") ++ u.path ++
  (match u.query with
    | some q => "?" ++ q
    | none => "") ++
  (match u.fragment with
    | some f => "#" ++ f
    | none => "")

/-- A byte in percent notation. -/
def percent (b : UInt8) : List Char :=
  ['%', (Host.digit (b.toNat / 16)).toUpper, (Host.digit (b.toNat % 16)).toUpper]

/-- The text with characters in percent notation: those beyond plain ASCII, and
    those given. -/
def encode (those : String) (cs : List Char) : String :=
  String.ofList (cs.flatMap fun c =>
    if c.toNat < 32 || 126 < c.toNat || those.toList.contains c then
      (Utf8.encode (String.singleton c)).flatMap percent
    else [c])

/-- The schemes whose addresses have a host, and the port that goes without
    saying. -/
def specialPorts : List (String × Option Nat) :=
  [("http", some 80), ("https", some 443), ("ftp", some 21), ("ws", some 80), ("wss", some 443),
    ("file", none)]

/-- Whether the part of a path is a dot, in either notation. -/
def isDot (part : List Char) : Bool :=
  [".", "%2e"].contains (String.ofList (part.map Char.toLower))

/-- Whether the part of a path is two dots, in either notation. -/
def isTwoDots (part : List Char) : Bool :=
  ["..", ".%2e", "%2e.", "%2e%2e"].contains (String.ofList (part.map Char.toLower))

/-- The parts of a path without dots; `before` holds those in front, the last
    first. -/
def withoutDots : List (List Char) → List (List Char) → List (List Char)
  | before, [] => before.reverse
  | before, part :: rest =>
    if isDot part then
      withoutDots (if rest.isEmpty then [] :: before else before) rest
    else if isTwoDots part then
      withoutDots (if rest.isEmpty then [] :: before.tail else before.tail) rest
    else withoutDots (part :: before) rest

/-- A path of parts, in its written form. -/
def pathText (parts : List (List Char)) : String :=
  String.join ((withoutDots [] parts).map fun p => "/" ++ encode " \"<>`#?\x7b\x7d" p)

/-- The text in front of the first character that ends it, and from there on. -/
def upTo (ends : String) (cs : List Char) : List Char × List Char :=
  (cs.takeWhile fun c => !ends.toList.contains c, cs.dropWhile fun c => !ends.toList.contains c)

/-- The host and the port behind a user. -/
def behindUser (cs : List Char) : List Char :=
  (cs.reverse.takeWhile (· ≠ '@')).reverse

/-- The text before and behind the colon of a port. -/
def splitPort (cs : List Char) : List Char × Option (List Char) :=
  -- A colon inside brackets is none of a port.
  let (host, rest) :=
    if cs.head? = some '[' then
      let inside := cs.takeWhile (· ≠ ']')
      (inside ++ (cs.drop inside.length).take 1, cs.drop (inside.length + 1))
    else upTo ":" cs
  match rest with
  | ':' :: port => (host, some port)
  | [] => (host, none)
  | other => (host ++ other, none)

/-- The written form of a port, which may go without saying. -/
def portText? (usual : Option Nat) (port : Option (List Char)) : Option String :=
  match port with
  | none | some [] => some ""
  | some ds =>
    if !ds.all Char.isDigit then none
    else
      match Host.numberOf? 10 ds with
      | none => none
      | some n =>
        if 65535 < n then none else if some n = usual then some "" else some s!":{n}"

/-- The path, the query and the fragment of a text behind the host. -/
def tail (special : Bool) (cs : List Char) : String × Option String × Option String :=
  let (path, rest) := upTo "?#" cs
  let slashed := if special then path.map fun c => if c = '\\' then '/' else c else path
  let parts := Host.splitAtChar '/' (if slashed.head? = some '/' then slashed.tail else slashed)
  let pathText := if slashed.isEmpty && !special then "" else pathText parts
  let query := match rest with
    | '?' :: q => some (encode (if special then " \"#<>'" else " \"#<>") (upTo "#" q).1)
    | _ => none
  let fragment := match (upTo "#" rest).2 with
    | '#' :: f => some (encode " \"<>`" f)
    | _ => none
  (pathText, query, fragment)

/-- Whether the characters can be a scheme. -/
def isScheme : List Char → Bool
  | [] => false
  | c :: rest => c.isAlpha && rest.all fun c => c.isAlphanum || "+-.".toList.contains c

/-- The text of an address without what counts for nothing: control characters
    and blanks at its ends, and breaks and tabs. -/
def cleaned (text : String) : List Char :=
  let quiet (c : Char) : Bool := c.toNat ≤ 32
  let inner := ((text.toList.dropWhile quiet).reverse.dropWhile quiet).reverse
  inner.filter fun c => c ≠ '\t' && c ≠ '\n' && c ≠ '\r'

/-- The address of a text that names a scheme. -/
def ofText? (text : String) : Option Url :=
  let (front, rest) := upTo ":" (cleaned text)
  match rest with
  | [] => none
  | _ :: rest =>
    if !isScheme front then none
    else
      let scheme := String.ofList (front.map Char.toLower)
      let isSlash (c : Char) : Bool := c == '/' || c == '\\'
      match specialPorts.lookup scheme with
      | some usual =>
        let file := scheme == "file"
        let behind := if file then rest.drop ((rest.take 2).takeWhile isSlash).length
          else rest.dropWhile isSlash
        let (authority, after) := upTo "/\\?#" behind
        let (host, port) := splitPort (behindUser authority)
        let (path, query, fragment) := tail true after
        if file && authority.isEmpty then some ⟨scheme, some "", false, path, query, fragment⟩
        else
          match Host.normal? host, portText? usual port with
          | some h, some p => some ⟨scheme, some (h ++ p), true, path, query, fragment⟩
          | _, _ => none
      | none =>
        match rest with
        | '/' :: '/' :: behind =>
          let (authority, after) := upTo "/?#" behind
          let (host, port) := splitPort (behindUser authority)
          let (path, query, fragment) := tail false after
          match portText? none port with
          | some p =>
            if host.any Host.isForbidden then none
            else some ⟨scheme, some (encode "" host ++ p), !host.isEmpty, path, query, fragment⟩
          | none => none
        | '/' :: _ =>
          let (path, query, fragment) := tail false rest
          some ⟨scheme, none, false, path, query, fragment⟩
        | _ =>
          let (path, _) := upTo "?#" rest
          let (_, query, fragment) := tail false (rest.drop path.length)
          some ⟨scheme, none, false, encode "" path, query, fragment⟩

end Url

end RepoAtlas.Web
