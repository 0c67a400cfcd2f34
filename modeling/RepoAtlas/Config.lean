import RepoAtlas.Describe.Policy
import RepoAtlas.Path
import RepoAtlas.Text.Blank

/-!
# Configuration of a run

Where a run keeps what it writes, and how it asks for descriptions (`Config`).

* `Config.artifacts`: every file that a run writes;
* `resolveKey`: the key for the describer, from the environment.
-/

namespace RepoAtlas

/-- The configuration of a run. -/
structure Config where
  /-- The path of the cache, which need not be a text. -/
  cacheFile : Bytes := Utf8.encode ".repo-map-cache.db"
  snapshotFile : String := ".repo_map_structure.json"
  /-- What the name of the map adds to that of the repository. -/
  mapEnding : String := "_repo_map.md"
  model : String := "anthropic/claude-3.5-sonnet"
  endpoint : String := "https://openrouter.ai/api/v1"
  key : Option String := none
  policy : Policy := {}
  timeout : Duration := .ofMilliseconds 60000
  enrich : Bool := true
  deriving DecidableEq, Repr, Inhabited

/-- The name of a repository: the name its path ends with, as it is shown. -/
def repositoryName (root : Bytes) : String := Path.text ((Path.fileName? root).getD root)

namespace Config

/-- The path of the cache: read from the root, if it is relative. -/
def cachePath (c : Config) (root : Bytes) : Bytes := Path.join root c.cacheFile

/-- The path of the snapshot. -/
def snapshotPath (c : Config) (root : Bytes) : Bytes :=
  Path.join root (Utf8.encode c.snapshotFile)

/-- The path of the map. -/
def mapPath (c : Config) (root : Bytes) : Bytes :=
  Path.join root (Utf8.encode (repositoryName root ++ c.mapEnding))

/-- Every file that a run writes: the cache with the two files beside it, the
    snapshot and the map. -/
def artifacts (c : Config) (root : Bytes) : List Bytes :=
  let cache := c.cachePath root
  [cache, cache ++ Utf8.encode "-wal", cache ++ Utf8.encode "-shm", c.snapshotPath root,
    c.mapPath root]

/-- Whether a run asks for descriptions: it is told to, and has a key. -/
def enrichmentEnabled (c : Config) : Bool := c.enrich && c.key.isSome

end Config

/-- The names under which a key is looked up, in order. -/
def keyNames : List String := ["REPO_MAP_API_KEY", "OPENROUTER_API_KEY"]

/-- The first key that is not blank, without the blanks around it, and the names
    that were looked up for it. -/
def resolveKeyFrom (env : String → Option String) : List String → Option String × List String
  | [] => (none, [])
  | name :: rest =>
    match (env name).map Text.trim with
    | some key =>
      if key.isEmpty then
        let (found, asked) := resolveKeyFrom env rest
        (found, name :: asked)
      else (some key, [name])
    | none =>
      let (found, asked) := resolveKeyFrom env rest
      (found, name :: asked)

/-- The key in an environment, and the names that were looked up for it. -/
def resolveKey (env : String → Option String) : Option String × List String :=
  resolveKeyFrom env keyNames

end RepoAtlas
