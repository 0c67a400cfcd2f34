import RepoAtlas.Ignore.Rule
import RepoAtlas.Path

/-!
# Scopes

Rules hold below the directory they stand in (`Scope`). Several scopes may speak
of a path; the deepest of those that decide about it has the say, and among
scopes of the same depth the one added last (`isIgnored`).
-/

namespace RepoAtlas.Ignore

/-- Rules, and the directory they are read from. -/
structure Scope where
  root : Bytes
  rules : List Rule

namespace Scope

/-- The number of parts of the directory's path. -/
def depth (s : Scope) : Nat := (Path.parts s.root).length

/-- Whether the path lies below the directory. -/
def contains (s : Scope) (path : Bytes) : Bool :=
  (Path.parts s.root).isPrefixOf (Path.parts path) && Path.parts path != Path.parts s.root

/-- The path without a dot and a slash in front. -/
def withoutDot (path : Bytes) : Bytes :=
  if [Path.dot, Path.slash].isPrefixOf path then path.drop 2 else path

/-- The path without a slash in front. -/
def withoutSlash (path : Bytes) : Bytes :=
  if path.head? = some Path.slash then path.tail else path

/-- The path as read from the directory: without that of the directory, and
    without a slash behind it. -/
def relative (s : Scope) (path : Bytes) : Bytes :=
  let root := withoutDot s.root
  let bytes := withoutDot path
  let isName := !bytes.contains Path.slash
  if isName || Path.parts root = [.here] then bytes
  else
    match root.isPrefixOf? bytes with
    | some rest => withoutSlash rest
    | none => bytes

/-- What the rules of the scope decide about a path. -/
def verdict? (s : Scope) (path : Bytes) (isDirectory : Bool) : Option Verdict :=
  Ignore.verdict? s.rules (s.relative path) isDirectory

end Scope

/-- The scopes that contain the path, the deepest last. -/
def scopesFor (scopes : List Scope) (path : Bytes) : List Scope :=
  (scopes.filter (·.contains path)).mergeSort fun a b => a.depth ≤ b.depth

/-- Whether a path is ignored: the last of its scopes that decides says so. -/
def isIgnored (scopes : List Scope) (path : Bytes) (isDirectory : Bool) : Bool :=
  (scopesFor scopes path).reverse.findSome? (·.verdict? path isDirectory) == some .ignored

end RepoAtlas.Ignore
