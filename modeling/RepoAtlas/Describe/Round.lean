import RepoAtlas.Cache
import RepoAtlas.Describe.Retry

/-!
# A round of descriptions

A describer is asked about every record that is worth it, one after the other
(`Round.run`). What it tells is written into the cache at once, and at the end
into the records, by way of patches. A file about which nothing was answered
stays as it is.

* `Record.isEligible`: whether a record is worth a question;
* `Patch.apply`, `applyPatches`: records with what was told;
* `Round.run`: the round.
-/

namespace RepoAtlas

/-- Whether a describer should be asked about the record: it is a file of a
    known language and content that has imports or functions, and nobody was
    asked about this content before. -/
def Record.isEligible (r : Record) : Bool :=
  match r.hash? with
  | none => false
  | some hash =>
    r.isFile && r.language.isSome &&
      (!r.knownImports.isEmpty || !r.knownFunctions.isEmpty) &&
      (r.consideration.bind Record.filled?).isNone && r.describedHash ≠ some hash

/-- What was told about the record at a position. -/
structure Patch where
  index : Nat
  description : Option String
  consideration : Option String
  deriving DecidableEq, Repr

/-- The record with what was told about its content. -/
def Patch.apply (p : Patch) (r : Record) : Record :=
  { r with
    describedHash := r.contentHash
    description := p.description.or r.description
    consideration := p.consideration.or r.consideration }

/-- The records with what was told about them. A position beyond the end counts
    for nothing. -/
def applyPatches (records : List Record) (patches : List Patch) : List Record :=
  patches.foldl (fun rs p => rs.modify p.index p.apply) records

/-- What a round came to. -/
structure RoundStats where
  eligible : Nat := 0
  enriched : Nat := 0
  skipped : Nat := 0
  cacheWrites : Nat := 0
  deriving DecidableEq, Repr

namespace Round

/-- The state of a round. -/
structure State (σ : Type) where
  describer : σ
  cache : Database
  patches : List Patch := []
  attempts : List Attempt := []
  stats : RoundStats := {}

/-- Writes the entry of a record into the cache, if it has one. -/
def remember {σ : Type} (s : State σ) (r : Record) : State σ :=
  match Entry.ofRecord? r with
  | none => s
  | some e =>
    match Cache.insert s.cache e with
    | .ok cache =>
      { s with cache, stats := { s.stats with cacheWrites := s.stats.cacheWrites + 1 } }
    | .error _ => s

/-- The state after what a describer told about the record at a position. -/
def accept {σ : Type} (s : State σ) (index : Nat) (r : Record) (reply : Reply) : State σ :=
  let patch : Patch := ⟨index, reply.description, reply.consideration⟩
  let s := remember s (patch.apply r)
  { s with
    patches := s.patches ++ [patch]
    stats := { s.stats with enriched := s.stats.enriched + 1 } }

/-- Asks about the record at a position. -/
def visit {σ : Type} (d : Describer σ) (model : String) (p : Policy) (s : State σ) (index : Nat)
    (r : Record) : Option (State σ) :=
  (d.ask p ⟨Summary.ofRecord r, model⟩ s.describer).map fun (outcome, attempts, describer) =>
    let s := { s with describer, attempts := s.attempts ++ attempts }
    match outcome with
    | .described reply => accept s index r reply
    | .skipped _ _ => { s with stats := { s.stats with skipped := s.stats.skipped + 1 } }

/-- Asks about the records that are worth it, from a position on. -/
def visitAll {σ : Type} (d : Describer σ) (model : String) (p : Policy) :
    State σ → Nat → List Record → Option (State σ)
  | s, _, [] => some s
  | s, index, r :: rest =>
    if r.isEligible then
      let s := { s with stats := { s.stats with eligible := s.stats.eligible + 1 } }
      (visit d model p s index r).bind fun s => visitAll d model p s (index + 1) rest
    else visitAll d model p s (index + 1) rest

/-- The result of a round. -/
structure Result (σ : Type) where
  records : List Record
  patches : List Patch
  attempts : List Attempt
  stats : RoundStats
  cache : Database
  describer : σ

/-- Asks about every record that is worth it. There is no result if a wait
    overflows. -/
def run {σ : Type} (d : Describer σ) (model : String) (p : Policy) (records : List Record)
    (cache : Database) (describer : σ) : Option (Result σ) :=
  (visitAll d model p { describer, cache } 0 records).map fun s => {
    records := applyPatches records s.patches
    patches := s.patches
    attempts := s.attempts
    stats := s.stats
    cache := s.cache
    describer := s.describer }

end Round

end RepoAtlas
