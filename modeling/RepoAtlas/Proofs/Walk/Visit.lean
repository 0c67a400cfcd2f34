import RepoAtlas.Proofs.Cache
import RepoAtlas.Proofs.Language.Suffix
import RepoAtlas.Walk
import Mathlib.Algebra.Group.Prod
import Mathlib.Data.List.Forall2

/-!
# Visits

What a walk makes of one thing it sees, and of all of them one after the other.
The record depends on the content and on what the cache knows of the path on record
alone (`Sight.recordOf`, `visit_record`), and with a cache that works there are three
ways a visit can go:

* `visit_of_unread`: nothing is read, and the cache stays;
* `visit_of_fresh`: the cache knows the content, and stays;
* `visit_of_stale`: it does not, and takes the entry of the record in.

Two files may have the same path on record, if their paths are no texts. Where no
such file is read beside one that the cache does not know (`Undisturbed`), no visit
sees what another one wrote (`visitAll_records`, `known?_visitAll`).
-/

namespace RepoAtlas

/-- No digest is the empty text. -/
theorem Sha256.isEmpty_hash (content : Bytes) : (Sha256.hash content).isEmpty = false := by
  rw [← Bool.not_eq_true, String.isEmpty_iff, ← String.toList_eq_nil_iff, hash, Chain.hex,
    String.toList_ofList, List.flatMap_cons]
  exact List.append_ne_nil_of_left_ne_nil (List.cons_ne_nil _ _) _

/-- The entry of a record whose content is known. -/
theorem Entry.ofRecord?_eq {r : Record} {content : Bytes}
    (h : r.contentHash = some (Sha256.hash content)) :
    ofRecord? r = some {
      path := r.path
      hash := Sha256.hash content
      description := r.description.getD ""
      consideration := r.consideration.getD ""
      imports := r.imports.getD []
      functions := r.functions.getD []
      describedHash := r.describedHash.getD "" } := by
  have hhash : r.hash? = some (Sha256.hash content) := by
    rw [Record.hash?, h, Option.bind_some, Record.filled?, Sha256.isEmpty_hash]
    rfl
  rw [ofRecord?, hhash, Option.map_some]

theorem Entry.ofRecord?_eq_none {r : Record} (h : r.contentHash = none) : ofRecord? r = none := by
  rw [ofRecord?, Record.hash?, h]
  rfl

/-- What of a record does not depend on the content: name, path, depth, kind and
    language. -/
def Record.identity (r : Record) : String × String × Nat × Kind × Option String :=
  (r.name, r.path, r.depth, r.kind, r.language)

/-- What a record shows of the file or directory that it is of. -/
structure Shown where
  name : String
  path : String
  depth : Nat
  kind : Kind
  deriving DecidableEq

/-- What a record shows. -/
def Record.shown (r : Record) : Shown := ⟨r.name, r.path, r.depth, r.kind⟩

namespace Walk

open RepoAtlas.Path (text)

/-! ### The record of a sight -/

/-- What is shown of something seen: the last name of its path, and the path. -/
def Sight.shown (x : Sight) : Shown :=
  ⟨((Path.fileName? x.path).map text).getD "", text x.path, x.depth, x.kind⟩

/-- What is told about content by the language of a path on record. -/
def analysisAt (path : String) (content : Bytes) : Language.Analysis :=
  (analyze ((Language.ofPath? (Utf8.encode path)).bind Language.method?) content).1

/-- The content that is read of something seen: that of a file of a known
    language, if it can be read. -/
def Sight.content? (fs : FileSystem) (x : Sight) : Option Bytes :=
  match x.kind with
  | .directory => none
  | .file => (Language.ofPath? x.path).bind fun _ => (fs.read x.path).toOption

/-- The record of something seen, as long as nothing is read of it. -/
def Sight.bare (x : Sight) : Record :=
  match x.kind with
  | .directory => .directory x.path x.depth
  | .file => .file x.path x.depth (Language.ofPath? x.path)

/-- The record of something seen, by the content that was read of it, and by what
    is known of its path. -/
def Sight.recordOf (x : Sight) (content : Option Bytes) (known : Option Entry) : Record :=
  match content with
  | none => x.bare
  | some c =>
    let r := { x.bare with contentHash := some (Sha256.hash c) }
    match known.filter (·.isFreshFor (Sha256.hash c)) with
    | some e => r.restore e
    | none => r.fill (analyze ((Language.ofPath? x.path).bind Language.method?) c).1

/-- What is known of the content of something seen. -/
def Sight.fresh? (fs : FileSystem) (cache : Database) (x : Sight) : Option Entry :=
  (x.content? fs).bind fun c =>
    (Cache.known? cache (text x.path)).filter (·.isFreshFor (Sha256.hash c))

/-- The record of something seen, with what a cache knows. -/
def Sight.recordBy (fs : FileSystem) (cache : Database) (x : Sight) : Record :=
  x.recordOf (x.content? fs) (Cache.known? cache (text x.path))

variable {fs : FileSystem} {s : State} {x : Sight} {content : Bytes} {known : Option Entry}

theorem shown_bare : x.bare.shown = x.shown := by
  obtain ⟨_, _, kind⟩ := x
  cases kind <;> rfl

theorem path_bare : x.bare.path = text x.path := congrArg (·.path) shown_bare

theorem contentHash_bare : x.bare.contentHash = none := by
  obtain ⟨_, _, kind⟩ := x
  cases kind <;> rfl

/-- What is read is of a known language. -/
theorem exists_language_of_content? (h : (x.content? fs).isSome) :
    ∃ language, Language.ofPath? x.path = some language := by
  obtain ⟨path, depth, kind⟩ := x
  cases kind with
  | directory => cases h
  | file =>
    obtain ⟨c, hc⟩ := Option.isSome_iff_exists.1 h
    obtain ⟨language, hlanguage, -⟩ := Option.bind_eq_some_iff.1 hc
    exact ⟨language, hlanguage⟩

/-- What is read has the language that its path on record tells: the name of a file of
    a known language is a text. -/
theorem analysis_eq (h : (x.content? fs).isSome) :
    (analyze ((Language.ofPath? x.path).bind Language.method?) content).1 =
      analysisAt (text x.path) content := by
  obtain ⟨language, hlanguage⟩ := exists_language_of_content? h
  rw [analysisAt, hlanguage, Language.ofPath?_text hlanguage]

/-- What the record tells without what was read stays, whatever is read. -/
theorem identity_recordOf (content : Option Bytes) :
    (x.recordOf content known).identity = x.bare.identity := by
  cases content with
  | none => rfl
  | some c =>
    dsimp only [Sight.recordOf]
    cases known.filter fun e => e.isFreshFor (Sha256.hash c) <;> rfl

/-- The record has the digest of the content that was read. -/
theorem contentHash_recordOf (content : Option Bytes) :
    (x.recordOf content known).contentHash = content.map Sha256.hash := by
  cases content with
  | none => exact contentHash_bare
  | some c =>
    dsimp only [Sight.recordOf]
    cases known.filter fun e => e.isFreshFor (Sha256.hash c) <;> rfl

/-- The record shows what was seen. -/
theorem shown_recordOf (content : Option Bytes) : (x.recordOf content known).shown = x.shown :=
  (congrArg (fun i => Shown.mk i.1 i.2.1 i.2.2.1 i.2.2.2.1) (identity_recordOf content)).trans
    shown_bare

theorem path_recordOf (content : Option Bytes) : (x.recordOf content known).path = text x.path :=
  congrArg (·.path) (shown_recordOf content)

theorem contentHash_recordBy {cache : Database} :
    (x.recordBy fs cache).contentHash = (x.content? fs).map Sha256.hash :=
  contentHash_recordOf _

theorem path_recordBy {cache : Database} : (x.recordBy fs cache).path = text x.path :=
  path_recordOf _

theorem remembered?_eq (cache : Database) (path hash : String) :
    remembered? cache path hash = (Cache.known? cache path).filter (·.isFreshFor hash) := by
  rw [remembered?, Cache.known?]
  cases Cache.lookup cache path with
  | error e => rfl
  | ok known =>
    cases known with
    | none => rfl
    | some e => rw [Option.filter_some]

/-- The counts of what came from the cache, of what did not, and of what went into
    the cache. -/
def Stats.tally (t : Stats) : Nat × Nat × Nat := (t.cacheHits, t.extractions, t.cacheWrites)

/-- The state after something of which nothing is read. -/
def State.passed (fs : FileSystem) (s : State) (x : Sight) : State :=
  match x.kind with
  | .directory =>
    let failures := if fs.isListed x.path then 0 else 1
    { s with
      stats := { s.stats with
        directories := s.stats.directories + 1
        unreadable := s.stats.unreadable + failures } }
  | .file =>
    let failures := if (Language.ofPath? x.path).isSome then 1 else 0
    { s with
      stats := { s.stats with
        files := s.stats.files + 1
        unreadable := s.stats.unreadable + failures } }

theorem cache_passed : (s.passed fs x).cache = s.cache := by
  obtain ⟨_, _, kind⟩ := x
  cases kind <;> rfl

theorem tally_passed : (s.passed fs x).stats.tally = s.stats.tally := by
  obtain ⟨_, _, kind⟩ := x
  cases kind <;> rfl

/-- A visit of what is not read. -/
theorem visit_of_unread (h : x.content? fs = none) :
    visit fs s x = (s.passed fs x, x.bare) := by
  obtain ⟨path, depth, kind⟩ := x
  cases kind with
  | directory => rfl
  | file =>
    rw [visit, Sight.bare, State.passed]
    dsimp only [Sight.content?] at h ⊢
    rw [visitFile]
    cases hlanguage : Language.ofPath? path with
    | none => rfl
    | some language =>
      rw [hlanguage, Option.bind_some] at h
      cases hread : fs.read path with
      | error e => rfl
      | ok content => rw [hread] at h; cases h

/-- The state in which content that was read of something seen is looked at. -/
def State.opened (s : State) (x : Sight) : State :=
  let sources := if ((Language.ofPath? x.path).bind Language.method?).isSome then 1 else 0
  { s with
    stats := { s.stats with
      files := s.stats.files + 1
      sourcesRead := s.stats.sourcesRead + sources } }

/-- A visit of what is read. -/
theorem visit_of_read (h : x.content? fs = some content) :
    visit fs s x =
      fill (s.opened x) ((Language.ofPath? x.path).bind Language.method?) content x.bare := by
  obtain ⟨path, depth, kind⟩ := x
  cases kind with
  | directory => cases h
  | file =>
    rw [visit, Sight.bare, State.opened]
    dsimp only [Sight.content?] at h ⊢
    rw [visitFile]
    cases hlanguage : Language.ofPath? path with
    | none => rw [hlanguage] at h; cases h
    | some language =>
      rw [hlanguage, Option.bind_some] at h
      cases hread : fs.read path with
      | error e => rw [hread] at h; cases h
      | ok content =>
        rw [hread] at h
        cases h
        rfl

/-- A visit gives the record of what is seen. -/
theorem visit_record : (visit fs s x).2 = x.recordBy fs s.cache := by
  rw [Sight.recordBy]
  cases hcontent : x.content? fs with
  | none => rw [visit_of_unread hcontent]; rfl
  | some content =>
    rw [visit_of_read hcontent, fill, remembered?_eq]
    dsimp only [Sight.recordOf, State.opened]
    rw [path_bare]
    cases (Cache.known? s.cache (text x.path)).filter
      fun e => e.isFreshFor (Sha256.hash content) with
    | none => rfl
    | some e => rfl

/-- What is known is restored. -/
theorem recordBy_of_fresh {cache : Database} {e : Entry} (h : x.content? fs = some content)
    (he : x.fresh? fs cache = some e) :
    x.recordBy fs cache = { x.bare with contentHash := some (Sha256.hash content) }.restore e := by
  rw [Sight.fresh?, h, Option.bind_some] at he
  rw [Sight.recordBy, h, Sight.recordOf, he]

/-- What is not known is analyzed. -/
theorem recordBy_of_stale {cache : Database} (h : x.content? fs = some content)
    (hstale : x.fresh? fs cache = none) :
    x.recordBy fs cache =
      { x.bare with contentHash := some (Sha256.hash content) }.fill
        (analysisAt (text x.path) content) := by
  rw [Sight.fresh?, h, Option.bind_some] at hstale
  rw [Sight.recordBy, h, Sight.recordOf, hstale, ← analysis_eq (by rw [h]; rfl)]

/-- A record that was not read is bare. -/
theorem recordBy_of_unread {cache : Database} (h : x.content? fs = none) :
    x.recordBy fs cache = x.bare := by
  rw [Sight.recordBy, h]
  rfl

/-- A visit of content that the cache knows. -/
theorem visit_of_fresh {e : Entry} (h : x.fresh? fs s.cache = some e) :
    (visit fs s x).1.cache = s.cache ∧
      (visit fs s x).1.stats.tally = s.stats.tally + (1, 0, 0) := by
  obtain ⟨content, hcontent, he⟩ := Option.bind_eq_some_iff.1 h
  rw [visit_of_read hcontent, fill, remembered?_eq, path_bare, State.opened, he]
  exact ⟨rfl, rfl⟩

/-- A visit of content that the cache does not know. -/
theorem visit_of_stale (hworking : Cache.Working s.cache) (h : x.content? fs = some content)
    (hstale : x.fresh? fs s.cache = none) :
    ∃ e, Entry.ofRecord? (x.recordBy fs s.cache) = some e ∧ e.path = text x.path ∧
      Cache.insert s.cache e = .ok (visit fs s x).1.cache ∧
      (visit fs s x).1.stats.tally = s.stats.tally + (0, 1, 1) := by
  obtain ⟨e, he, hpath⟩ : ∃ e, Entry.ofRecord? (x.recordBy fs s.cache) = some e ∧
      e.path = text x.path :=
    ⟨_, Entry.ofRecord?_eq (contentHash_recordBy.trans (congrArg _ h)), path_recordBy⟩
  obtain ⟨next, hnext, _⟩ := Cache.exists_insert hworking e
  refine ⟨e, he, hpath, ?_⟩
  rw [Sight.fresh?, h, Option.bind_some] at hstale
  rw [← visit_record, visit_of_read h, fill, remembered?_eq, path_bare, State.opened, hstale] at he
  rw [visit_of_read h, fill, remembered?_eq, path_bare, State.opened, hstale]
  dsimp only at he ⊢
  rw [remember, he]
  dsimp only
  rw [hnext]
  exact ⟨rfl, rfl⟩

/-! ### What a visit does to the cache -/

variable (fs x) in
/-- The ways a visit can go with a cache that works. -/
theorem visit_cases (hworking : Cache.Working s.cache) :
    (x.content? fs = none ∧ (visit fs s x).1.cache = s.cache ∧
      (visit fs s x).1.stats.tally = s.stats.tally) ∨
    (∃ e, x.fresh? fs s.cache = some e ∧ (visit fs s x).1.cache = s.cache ∧
      (visit fs s x).1.stats.tally = s.stats.tally + (1, 0, 0)) ∨
    ∃ content e, x.content? fs = some content ∧ x.fresh? fs s.cache = none ∧
      Entry.ofRecord? (x.recordBy fs s.cache) = some e ∧ e.path = text x.path ∧
      Cache.insert s.cache e = .ok (visit fs s x).1.cache ∧
      (visit fs s x).1.stats.tally = s.stats.tally + (0, 1, 1) := by
  cases hcontent : x.content? fs with
  | none =>
    rw [visit_of_unread hcontent]
    exact .inl ⟨rfl, cache_passed, tally_passed⟩
  | some content =>
    cases hfresh : x.fresh? fs s.cache with
    | some e => exact .inr (.inl ⟨e, rfl, visit_of_fresh hfresh⟩)
    | none =>
      obtain ⟨e, he⟩ := visit_of_stale hworking hcontent hfresh
      exact .inr (.inr ⟨content, e, rfl, rfl, he⟩)

theorem working_visit (hworking : Cache.Working s.cache) :
    Cache.Working (visit fs s x).1.cache := by
  rcases visit_cases fs x hworking with ⟨_, hcache, _⟩ | ⟨_, _, hcache, _⟩ |
    ⟨_, e, _, _, _, _, hinsert, _⟩
  · rwa [hcache]
  · rwa [hcache]
  · obtain ⟨next, hnext, hworks⟩ := Cache.exists_insert hworking e
    cases hinsert.symm.trans hnext
    exact hworks

/-- An entry that was found fresh is that of its record. -/
theorem ofRecord?_recordBy_of_fresh {cache : Database} (hworking : Cache.Working cache) {e : Entry}
    (he : x.fresh? fs cache = some e) : Entry.ofRecord? (x.recordBy fs cache) = some e := by
  obtain ⟨c, hc, hfresh⟩ := Option.bind_eq_some_iff.1 he
  obtain ⟨hknown, hhash⟩ := Option.filter_eq_some_iff.1 hfresh
  have hpath := Cache.path_of_known? hworking hknown
  rw [Entry.isFreshFor, Bool.and_eq_true, decide_eq_true_iff] at hhash
  have hfilled (s : String) : (Record.filled? s).getD "" = s := by
    rw [Record.filled?]
    split
    · rename_i hs
      exact (String.isEmpty_iff.1 hs).symm
    · rfl
  rw [recordBy_of_fresh hc he, Entry.ofRecord?_eq rfl]
  dsimp only [Record.restore]
  rw [hfilled, hfilled, path_bare, ← hpath, ← hhash.2]
  rfl

/-- After a visit, the cache knows the entry of the record, if there is one. -/
theorem known?_visit (hworking : Cache.Working s.cache) :
    Cache.known? (visit fs s x).1.cache (text x.path) =
      (Entry.ofRecord? (x.recordBy fs s.cache)).or (Cache.known? s.cache (text x.path)) := by
  rcases visit_cases fs x hworking with ⟨hcontent, hcache, _⟩ |
    ⟨e, hfresh, hcache, _⟩ | ⟨_, e, _, _, he, hpath, hinsert, _⟩
  · rw [hcache, Entry.ofRecord?_eq_none, Option.none_or]
    rw [contentHash_recordBy, hcontent]
    rfl
  · obtain ⟨c, _, hknown⟩ := Option.bind_eq_some_iff.1 hfresh
    rw [hcache, ofRecord?_recordBy_of_fresh hworking hfresh,
      (Option.filter_eq_some_iff.1 hknown).1, Option.some_or]
  · rw [he, Option.some_or, ← hpath]
    exact Cache.known?_insert hworking hinsert

variable (fs s x) in
/-- Whatever the cache, a visit leaves it alone or puts one entry into it, under
    the path of what is seen. -/
theorem cache_visit :
    (visit fs s x).1.cache = s.cache ∨
      ∃ e, e.path = text x.path ∧ Cache.insert s.cache e = .ok (visit fs s x).1.cache := by
  cases hcontent : x.content? fs with
  | none => rw [visit_of_unread hcontent]; exact .inl cache_passed
  | some content =>
    rw [visit_of_read hcontent, fill, State.opened]
    dsimp only
    split
    · exact .inl rfl
    · rw [remember]
      split
      · exact .inl rfl
      · rename_i e he
        split
        · rename_i hinsert
          obtain ⟨_, -, rfl⟩ := Option.map_eq_some_iff.1 he
          exact .inr ⟨_, path_bare, hinsert⟩
        · exact .inl rfl

/-- What is known of other paths is left alone. -/
theorem known?_visit_of_ne {path : String} (h : path ≠ text x.path) :
    Cache.known? (visit fs s x).1.cache path = Cache.known? s.cache path := by
  rcases cache_visit fs s x with hcache | ⟨e, hpath, hinsert⟩
  · rw [hcache]
  · exact Cache.known?_insert_of_ne hinsert (hpath ▸ h)

/-! ### All visits -/

variable {sights : List Sight}

theorem visitAll_cons :
    visitAll fs s (x :: sights) =
      ((visitAll fs (visit fs s x).1 sights).1,
        (visit fs s x).2 :: (visitAll fs (visit fs s x).1 sights).2) := rfl

theorem working_visitAll (hworking : Cache.Working s.cache) :
    Cache.Working (visitAll fs s sights).1.cache := by
  induction sights generalizing s with
  | nil => exact hworking
  | cons x sights ih => exact ih (working_visit hworking)

/-! ### Visits that do not disturb each other -/

/-- Whether the content of something seen is read and not known. -/
def Sight.isStale (fs : FileSystem) (cache : Database) (x : Sight) : Bool :=
  (x.content? fs).isSome && (x.fresh? fs cache).isNone

/-- Whether nothing that is read and not known shares its path on record with anything
    else that is read. -/
def Undisturbed (fs : FileSystem) (cache : Database) (sights : List Sight) : Prop :=
  sights.Pairwise fun x y => x.isStale fs cache ∨ y.isStale fs cache →
    (x.content? fs).isSome → (y.content? fs).isSome → text x.path ≠ text y.path

theorem content?_of_isStale {cache : Database} (h : x.isStale fs cache) :
    (x.content? fs).isSome := by
  rw [Sight.isStale, Bool.and_eq_true] at h
  exact h.1

/-- What is not stale leaves the cache alone. -/
theorem cache_visit_of_not_stale (h : x.isStale fs s.cache = false) :
    (visit fs s x).1.cache = s.cache := by
  cases hcontent : x.content? fs with
  | none => rw [visit_of_unread hcontent, cache_passed]
  | some content =>
    rw [Sight.isStale, hcontent, Option.isSome_some, Bool.true_and, Option.isNone_eq_false_iff,
      Option.isSome_iff_exists] at h
    obtain ⟨e, he⟩ := h
    exact (visit_of_fresh he).1

/-- What is known of a path stays, unless something stale is seen there. -/
theorem known?_visit_of_stale_ne {path : String}
    (h : x.isStale fs s.cache → path ≠ text x.path) :
    Cache.known? (visit fs s x).1.cache path = Cache.known? s.cache path := by
  cases hstale : x.isStale fs s.cache with
  | true => exact known?_visit_of_ne (h hstale)
  | false => rw [cache_visit_of_not_stale hstale]

namespace Undisturbed

variable {y : Sight}

/-- A visit makes no difference to what is known of what is read later. -/
theorem known?_visit (h : Undisturbed fs s.cache (x :: sights)) (hy : y ∈ sights)
    (hread : (y.content? fs).isSome) :
    Cache.known? (visit fs s x).1.cache (text y.path) =
      Cache.known? s.cache (text y.path) :=
  known?_visit_of_stale_ne fun hstale =>
    ((List.pairwise_cons.1 h).1 y hy (.inl hstale) (content?_of_isStale hstale) hread).symm

theorem fresh?_visit (h : Undisturbed fs s.cache (x :: sights)) (hy : y ∈ sights) :
    y.fresh? fs (visit fs s x).1.cache = y.fresh? fs s.cache := by
  cases hcontent : y.content? fs with
  | none => rw [Sight.fresh?, Sight.fresh?, hcontent, Option.bind_none, Option.bind_none]
  | some content =>
    rw [Sight.fresh?, Sight.fresh?, h.known?_visit hy (by rw [hcontent]; rfl)]

theorem isStale_visit (h : Undisturbed fs s.cache (x :: sights)) (hy : y ∈ sights) :
    y.isStale fs (visit fs s x).1.cache = y.isStale fs s.cache := by
  rw [Sight.isStale, Sight.isStale, h.fresh?_visit hy]

theorem recordBy_visit (h : Undisturbed fs s.cache (x :: sights)) (hy : y ∈ sights) :
    y.recordBy fs (visit fs s x).1.cache = y.recordBy fs s.cache := by
  cases hcontent : y.content? fs with
  | none => rw [recordBy_of_unread hcontent, recordBy_of_unread hcontent]
  | some content =>
    rw [Sight.recordBy, Sight.recordBy, h.known?_visit hy (by rw [hcontent]; rfl)]

/-- Visits that do not disturb each other do so no more after the first of them. -/
theorem visit (h : Undisturbed fs s.cache (x :: sights)) :
    Undisturbed fs (visit fs s x).1.cache sights := by
  refine (List.pairwise_cons.1 h).2.imp_of_mem fun {y z} hy hz hyz => ?_
  rwa [h.isStale_visit hy, h.isStale_visit hz]

/-- Each record is made with what was known before the first visit. -/
theorem visitAll_records (h : Undisturbed fs s.cache sights) :
    (visitAll fs s sights).2 = sights.map fun x => x.recordBy fs s.cache := by
  induction sights generalizing s with
  | nil => rfl
  | cons x sights ih =>
    rw [visitAll_cons, visit_record, ih h.visit, List.map_cons]
    exact congrArg (_ :: ·) (List.map_congr_left fun y hy => h.recordBy_visit hy)

/-- What is known of a path stays, if nothing stale is seen there. -/
theorem known?_visitAll_of_ne (h : Undisturbed fs s.cache sights) {path : String}
    (hpath : ∀ y ∈ sights, y.isStale fs s.cache → path ≠ text y.path) :
    Cache.known? (visitAll fs s sights).1.cache path = Cache.known? s.cache path := by
  induction sights generalizing s with
  | nil => rfl
  | cons x sights ih =>
    rw [visitAll_cons, ih h.visit fun y hy hstale => ?_,
      known?_visit_of_stale_ne (hpath x List.mem_cons_self)]
    exact hpath y (List.mem_cons_of_mem _ hy) (h.isStale_visit hy ▸ hstale)

/-- After all visits, the cache knows the entry of every record that was read. -/
theorem known?_visitAll (h : Undisturbed fs s.cache sights) (hworking : Cache.Working s.cache)
    (hx : x ∈ sights) (hread : (x.content? fs).isSome) :
    Cache.known? (visitAll fs s sights).1.cache (text x.path) =
      Entry.ofRecord? (x.recordBy fs s.cache) := by
  induction sights generalizing s with
  | nil => cases hx
  | cons y sights ih =>
    rw [visitAll_cons]
    rcases List.mem_cons.1 hx with rfl | hx
    · -- Nothing further on writes where the first one is known by now.
      have hlater (z : Sight) (hz : z ∈ sights)
          (hstale : z.isStale fs (Walk.visit fs s x).1.cache) : text x.path ≠ text z.path := by
        rw [h.isStale_visit hz] at hstale
        exact (List.pairwise_cons.1 h).1 z hz (.inr hstale) hread (content?_of_isStale hstale)
      obtain ⟨c, hc⟩ := Option.isSome_iff_exists.1 hread
      rw [h.visit.known?_visitAll_of_ne hlater, Walk.known?_visit hworking,
        Entry.ofRecord?_eq (contentHash_recordBy.trans (congrArg _ hc)), Option.some_or]
    · rw [ih h.visit (working_visit hworking) hx, h.recordBy_visit hx]

/-- What is known is taken from the cache, and what is not is analyzed and goes
    into it. -/
theorem tally_visitAll (h : Undisturbed fs s.cache sights) (hworking : Cache.Working s.cache) :
    (visitAll fs s sights).1.stats.tally = s.stats.tally +
      (sights.countP fun x => (x.fresh? fs s.cache).isSome,
        sights.countP (·.isStale fs s.cache), sights.countP (·.isStale fs s.cache)) := by
  induction sights generalizing s with
  | nil => rfl
  | cons x sights ih =>
    -- What is fresh or stale further on is so before the first visit as well.
    have hfresh : (sights.countP fun y => (y.fresh? fs (Walk.visit fs s x).1.cache).isSome) =
        sights.countP fun y => (y.fresh? fs s.cache).isSome :=
      List.countP_congr fun y hy => by rw [h.fresh?_visit hy]
    have hstale : sights.countP (·.isStale fs (Walk.visit fs s x).1.cache) =
        sights.countP (·.isStale fs s.cache) :=
      List.countP_congr fun y hy => by rw [h.isStale_visit hy]
    rw [visitAll_cons, ih h.visit (working_visit hworking), hfresh, hstale, List.countP_cons,
      List.countP_cons]
    rcases visit_cases fs x hworking with ⟨hcontent, _, htally⟩ |
      ⟨e, hfound, _, htally⟩ | ⟨content, e, hcontent, hfound, _, _, _, htally⟩
    · have hnone : x.fresh? fs s.cache = none := by rw [Sight.fresh?, hcontent, Option.bind_none]
      rw [htally, Sight.isStale, hcontent, hnone]
      rfl
    · obtain ⟨content, hcontent, _⟩ := Option.bind_eq_some_iff.1 hfound
      rw [htally, Sight.isStale, hcontent, hfound, add_right_comm, add_assoc]
      rfl
    · rw [htally, Sight.isStale, hcontent, hfound, add_right_comm, add_assoc]
      rfl

end Undisturbed

/-! ### Visits of any kind -/

/-- Whatever the cache knows, the records are of what is seen, in its order. -/
theorem forall₂_visitAll : List.Forall₂ (fun x r => ∃ cache, r = x.recordBy fs cache) sights
    (visitAll fs s sights).2 := by
  induction sights generalizing s with
  | nil => exact .nil
  | cons x sights ih => exact .cons ⟨_, visit_record⟩ ih

/-- The records show what is seen, in its order. -/
theorem shown_visitAll : (visitAll fs s sights).2.map Record.shown = sights.map Sight.shown := by
  rw [← List.forall₂_eq_eq_eq, List.forall₂_map_left_iff, List.forall₂_map_right_iff]
  refine forall₂_visitAll.flip.imp fun r x ⟨cache, hr⟩ => ?_
  rw [hr, Sight.recordBy, shown_recordOf]

/-- The rows of paths that are not read stay, in their order. -/
theorem rowsApart_visitAll (hworking : Cache.Working s.cache) {paths : List String}
    (hpaths : ∀ x ∈ sights, (x.content? fs).isSome → text x.path ∈ paths) :
    Cache.rowsApart (visitAll fs s sights).1.cache paths = Cache.rowsApart s.cache paths := by
  induction sights generalizing s with
  | nil => rfl
  | cons x sights ih =>
    rw [visitAll_cons, ih (working_visit hworking) fun y hy => hpaths y (List.mem_cons_of_mem _ hy)]
    rcases visit_cases fs x hworking with ⟨_, hcache, _⟩ | ⟨_, _, hcache, _⟩ |
      ⟨content, e, hcontent, _, _, hpath, hinsert, _⟩
    · rw [hcache]
    · rw [hcache]
    · refine Cache.rowsApart_insert hworking hinsert ?_
      rw [hpath]
      exact hpaths x (List.mem_cons_self ..) (by rw [hcontent]; rfl)

/-- A cache that knows all that is read stays as it is. -/
theorem cache_visitAll_of_fresh (h : ∀ x ∈ sights, x.isStale fs s.cache = false) :
    (visitAll fs s sights).1.cache = s.cache := by
  induction sights generalizing s with
  | nil => rfl
  | cons x sights ih =>
    have hcache : (visit fs s x).1.cache = s.cache :=
      cache_visit_of_not_stale (h x List.mem_cons_self)
    rw [visitAll_cons, ih, hcache]
    exact hcache ▸ fun y hy => h y (List.mem_cons_of_mem _ hy)

end Walk

end RepoAtlas
