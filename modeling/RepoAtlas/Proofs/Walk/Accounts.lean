import RepoAtlas.Proofs.Walk.Exactness

/-!
# What a walk counts

The record of a file has one of four shapes (`Record.hasShape`): the language is
unknown, the content cannot be read, it was known to the cache, or it was
analyzed. The counts of a walk are the numbers of records by their kind, shape and
language (`Stats.Accounts`), whatever the cache, and whether it works or not. What
cannot be read are files and directories: a directory that does not tell its entries
counts as well.

* `Record.HasOnly.restored` and its like: what is done to a record gives it one
  shape and no other;
* `Stats.Accounts.append`: the counts of two lists of records add up;
* `exists_accounts_visit`: what a visit adds to the counts;
* `run_accounts`: the counts of a walk.
-/

namespace RepoAtlas

/-- What of a file a record tells. -/
inductive Shape where
  /-- The language is unknown. -/
  | unknown
  /-- The content cannot be read. -/
  | unread
  /-- The cache knows the content. -/
  | restored
  /-- The content was analyzed. -/
  | analyzed
  deriving DecidableEq

namespace Record

/-- Whether nothing is told that depends on the content. -/
def isBlank (r : Record) : Bool :=
  r.contentHash.isNone && r.description.isNone && r.imports.isNone && r.functions.isNone &&
    r.types.isNone && r.constants.isNone && r.consideration.isNone && r.describedHash.isNone

/-- Whether all is told that a cache remembers of a content. -/
def isOutlined (r : Record) : Bool :=
  r.contentHash.isSome && r.description.isSome && r.imports.isSome && r.functions.isSome

/-- Whether a record has a shape. -/
def hasShape (r : Record) : Shape → Bool
  | .unknown => r.language.isNone && r.isBlank
  | .unread => r.language.isSome && r.isBlank
  | .restored => r.language.isSome && r.isOutlined && r.types.isNone && r.constants.isNone
  | .analyzed =>
    r.language.isSome && r.isOutlined && r.types.isSome && r.constants.isSome &&
      r.consideration.isNone && r.describedHash.isNone

/-- Whether the sources of the language are read. -/
def hasMethod (r : Record) : Bool := (r.language.bind Language.method?).isSome

/-- Whether the content was read, and found in the cache or analyzed. -/
def isRead (r : Record) : Bool := r.hasShape .restored || r.hasShape .analyzed

/-- Whether a record has a shape and no other. -/
def HasOnly (r : Record) (shape : Shape) : Prop :=
  ∀ other, r.hasShape other = decide (shape = other)

variable {r : Record} {shape : Shape}

theorem HasOnly.existsUnique (h : r.HasOnly shape) : ∃! shape, r.hasShape shape = true := by
  refine ⟨shape, (h shape).trans (decide_eq_true rfl), fun other hother => ?_⟩
  exact (of_decide_eq_true ((h other).symm.trans hother)).symm

theorem isBlank_iff : r.isBlank = true ↔
    r.contentHash = none ∧ r.description = none ∧ r.imports = none ∧ r.functions = none ∧
      r.types = none ∧ r.constants = none ∧ r.consideration = none ∧ r.describedHash = none := by
  simp [isBlank, and_assoc]

theorem HasOnly.unknown (h : r.isBlank) (hlanguage : r.language = none) :
    r.HasOnly .unknown := by
  intro shape
  cases shape <;> simp [hasShape, h, hlanguage]

theorem HasOnly.unread (h : r.isBlank) (hlanguage : r.language.isSome) :
    r.HasOnly .unread := by
  have hblank := isBlank_iff.1 h
  intro shape
  cases shape <;> simp_all [hasShape, isOutlined]

variable (hash : String)

theorem HasOnly.restored (h : r.isBlank) (hlanguage : r.language.isSome) (e : Entry) :
    ({ r with contentHash := some hash }.restore e).HasOnly .restored := by
  have hblank := isBlank_iff.1 h
  intro shape
  cases shape <;> simp [hasShape, isBlank, isOutlined, restore, hblank, hlanguage]

theorem HasOnly.analyzed (h : r.isBlank) (hlanguage : r.language.isSome) (a : Language.Analysis) :
    ({ r with contentHash := some hash }.fill a).HasOnly .analyzed := by
  have hblank := isBlank_iff.1 h
  intro shape
  cases shape <;> simp [hasShape, isBlank, isOutlined, fill, hblank, hlanguage]

end Record

/-- Python alone is parsed. -/
theorem Language.eq_of_parsed {language : String}
    (h : Language.method? language = some .parsed) : language = "Python" := by
  obtain ⟨before, after, hmethods, -⟩ := List.lookup_eq_some_iff.1 h
  have hmem : (language, Language.Method.parsed) ∈ Language.methods :=
    hmethods ▸ List.mem_append_right _ List.mem_cons_self
  simpa [Language.methods] using hmem

namespace Walk

variable {fs : FileSystem} {cache : Database} {s : State} {x : Sight} {sights : List Sight}
  {artifacts : List Bytes} {path : Bytes} {place : Place}

/-! ### Counts -/

/-- The counts of two walks together. -/
instance : Add Stats where
  add t u := {
    directories := t.directories + u.directories
    files := t.files + u.files
    sourcesRead := t.sourcesRead + u.sourcesRead
    cacheHits := t.cacheHits + u.cacheHits
    extractions := t.extractions + u.extractions
    parseFailures := t.parseFailures + u.parseFailures
    unreadable := t.unreadable + u.unreadable
    cacheWrites := t.cacheWrites + u.cacheWrites
    cacheWriteFailures := t.cacheWriteFailures + u.cacheWriteFailures }

/-- Whether counts are those of records, some of them of directories that do not tell
    their entries. -/
structure Stats.Accounts (t : Stats) (unlisted : Nat) (records : List Record) : Prop where
  directories : t.directories = records.countP (·.isDirectory)
  files : t.files = records.countP (·.isFile)
  unreadable : t.unreadable = records.countP (·.hasShape .unread) + unlisted
  cacheHits : t.cacheHits = records.countP (·.hasShape .restored)
  extractions : t.extractions = records.countP (·.hasShape .analyzed)
  /-- All that is analyzed is written, or fails to be. -/
  writes : t.cacheWrites + t.cacheWriteFailures = t.extractions
  sourcesRead : t.sourcesRead = records.countP fun r => r.isRead && r.hasMethod
  /-- Nothing but Python fails to be parsed. -/
  parseFailures : t.parseFailures ≤
    records.countP fun r => r.hasShape .analyzed && r.language = some "Python"

variable {t u : Stats} {m n : Nat} {records others : List Record}

/-- Counts of two lists of records add up to those of both. -/
theorem Stats.Accounts.append (h : t.Accounts m records) (h' : u.Accounts n others) :
    (t + u).Accounts (m + n) (records ++ others) where
  directories := by rw [List.countP_append, ← h.directories, ← h'.directories]; rfl
  files := by rw [List.countP_append, ← h.files, ← h'.files]; rfl
  unreadable := by
    change t.unreadable + u.unreadable = _
    rw [List.countP_append, h.unreadable, h'.unreadable, Nat.add_add_add_comm]
  cacheHits := by rw [List.countP_append, ← h.cacheHits, ← h'.cacheHits]; rfl
  extractions := by rw [List.countP_append, ← h.extractions, ← h'.extractions]; rfl
  writes := by
    change t.cacheWrites + u.cacheWrites + (t.cacheWriteFailures + u.cacheWriteFailures) =
      t.extractions + u.extractions
    rw [← h.writes, ← h'.writes, Nat.add_add_add_comm]
  sourcesRead := by rw [List.countP_append, ← h.sourcesRead, ← h'.sourcesRead]; rfl
  parseFailures := by
    rw [List.countP_append]
    exact Nat.add_le_add h.parseFailures h'.parseFailures

/-- What of an analysis fails is Python, and fails once. -/
theorem failures_analyze_le (language : Option String) (content : Bytes) :
    (analyze (language.bind Language.method?) content).2 ≤
      if language = some "Python" then 1 else 0 := by
  cases hmethod : language.bind Language.method? with
  | none => exact Nat.zero_le _
  | some method =>
    cases method with
    | scanned g => exact Nat.zero_le _
    | parsed =>
      obtain ⟨name, rfl, hname⟩ := Option.bind_eq_some_iff.1 hmethod
      rw [if_pos (congrArg some (Language.eq_of_parsed hname)), analyze]
      split <;> simp

/-- A write succeeds or fails, and adds to no other count. -/
theorem exists_remember {r : Record} {content : Bytes} (cache : Database)
    (hr : r.contentHash = some (Sha256.hash content)) :
    ∃ done failed, done + failed = 1 ∧ ∀ t : Stats, (remember ⟨cache, t⟩ r).stats =
      t + { cacheWrites := done, cacheWriteFailures := failed } := by
  obtain ⟨e, he⟩ : ∃ e, Entry.ofRecord? r = some e := ⟨_, Entry.ofRecord?_eq hr⟩
  simp only [remember, he]
  cases Cache.insert cache e with
  | ok next => exact ⟨1, 0, rfl, fun _ => rfl⟩
  | error error => exact ⟨0, 1, rfl, fun _ => rfl⟩

/-- The counts of one record, by its kind, shape and language. -/
theorem accounts_single {r : Record} {shape : Shape}
    (hshape : r.HasOnly shape)
    (hdirectories : t.directories = if r.isDirectory then 1 else 0)
    (hfiles : t.files = if r.isFile then 1 else 0)
    (hunreadable : t.unreadable = (if shape = .unread then 1 else 0) + n)
    (hhits : t.cacheHits = if shape = .restored then 1 else 0)
    (hextractions : t.extractions = if shape = .analyzed then 1 else 0)
    (hwrites : t.cacheWrites + t.cacheWriteFailures = t.extractions)
    (hsources : t.sourcesRead =
      if (shape = .restored ∨ shape = .analyzed) ∧ r.hasMethod then 1 else 0)
    (hfailures : t.parseFailures ≤
      if shape = .analyzed ∧ r.language = some "Python" then 1 else 0) :
    t.Accounts n [r] := by
  constructor <;> simp_all [List.countP_singleton, Record.isRead, hshape _]

/-- Whether something seen is a file of a known language that cannot be read. -/
def Sight.isUnread (fs : FileSystem) (x : Sight) : Bool :=
  x.kind = .file && (Language.ofPath? x.path).isSome && (fs.read x.path).toOption.isNone

/-- Whether something seen is a directory that does not tell its entries. -/
def Sight.isUnlisted (fs : FileSystem) (x : Sight) : Bool :=
  x.kind = .directory && !fs.isListed x.path

/-- The number of directories that do not tell their entries. -/
def unlistedIn (fs : FileSystem) (sights : List Sight) : Nat := sights.countP (·.isUnlisted fs)

/-- What is known of a record when its file is visited: it has one shape, which tells
    whether the file could be read, and certain counts. -/
structure IsAccounted (fs : FileSystem) (x : Sight) (u : Stats) (shape : Shape) (r : Record) :
    Prop where
  hasOnly : r.HasOnly shape
  unread : shape = .unread ↔ x.isUnread fs
  accounts : u.Accounts (unlistedIn fs [x]) [r]

/-- What is read can be read. -/
theorem isUnread_of_content? {content : Bytes} (h : x.content? fs = some content) :
    x.isUnread fs = false := by
  obtain ⟨path, depth, kind⟩ := x
  cases kind with
  | directory => cases h
  | file =>
    obtain ⟨_, _, hread⟩ := Option.bind_eq_some_iff.1 h
    rw [Sight.isUnread, hread]
    simp

/-- What a visit of what is not read adds to the counts. -/
theorem accounts_of_unread (h : x.content? fs = none) :
    ∃ u shape, (visit fs s x).1.stats = s.stats + u ∧
      IsAccounted fs x u shape (visit fs s x).2 := by
  rw [visit_of_unread h]
  obtain ⟨path, depth, kind⟩ := x
  cases kind with
  | directory =>
    have hshape : (Record.directory path depth).HasOnly .unknown := .unknown rfl rfl
    refine ⟨{ directories := 1, unreadable := if fs.isListed path then 0 else 1 }, _, rfl, hshape,
      by simp [Sight.isUnread], accounts_single hshape rfl rfl ?_ rfl rfl rfl rfl (Nat.zero_le _)⟩
    cases hlisted : fs.isListed path <;> simp [unlistedIn, Sight.isUnlisted, hlisted]
  | file =>
    have hunlisted : unlistedIn fs [⟨path, depth, .file⟩] = 0 := rfl
    dsimp only [State.passed, Sight.bare, Sight.content?] at h ⊢
    cases hlanguage : Language.ofPath? path with
    | none =>
      have hshape : (Record.file path depth none).HasOnly .unknown := .unknown rfl rfl
      exact ⟨{ files := 1 }, _, rfl, hshape, by simp [Sight.isUnread, hlanguage],
        hunlisted ▸ accounts_single hshape rfl rfl rfl rfl rfl rfl rfl (Nat.zero_le _)⟩
    | some language =>
      rw [hlanguage, Option.bind_some] at h
      have hshape : (Record.file path depth (some language)).HasOnly .unread := .unread rfl rfl
      exact ⟨{ files := 1, unreadable := 1 }, _, rfl, hshape,
        by simp [Sight.isUnread, hlanguage, h],
        hunlisted ▸ accounts_single hshape rfl rfl rfl rfl rfl rfl rfl (Nat.zero_le _)⟩

/-- What a visit of content that the cache knows adds to the counts. -/
theorem accounts_of_fresh {e : Entry} (h : x.fresh? fs s.cache = some e) :
    ∃ u shape, (visit fs s x).1.stats = s.stats + u ∧
      IsAccounted fs x u shape (visit fs s x).2 := by
  obtain ⟨content, hcontent, he⟩ := Option.bind_eq_some_iff.1 h
  have hread := isUnread_of_content? hcontent
  rw [visit_of_read hcontent, fill, remembered?_eq, path_bare, State.opened, he]
  obtain ⟨path, depth, kind⟩ := x
  cases kind with
  | directory => cases hcontent
  | file =>
    obtain ⟨language, hlanguage, -⟩ := Option.bind_eq_some_iff.1 hcontent
    have hunlisted : unlistedIn fs [⟨path, depth, .file⟩] = 0 := rfl
    dsimp only [Sight.bare]
    rw [hlanguage]
    have hshape := Record.HasOnly.restored (Sha256.hash content)
      (r := .file path depth (some language)) rfl rfl e
    exact ⟨{ files := 1, sourcesRead := _, cacheHits := 1 }, _, rfl, hshape, by simp [hread],
      hunlisted ▸ accounts_single hshape rfl rfl rfl rfl rfl rfl
        (if_congr ⟨fun h => ⟨.inl rfl, h⟩, And.right⟩ rfl rfl) (Nat.zero_le _)⟩

/-- What a visit of content that the cache does not know adds to the counts. -/
theorem accounts_of_stale {content : Bytes} (hcontent : x.content? fs = some content)
    (h : x.fresh? fs s.cache = none) :
    ∃ u shape, (visit fs s x).1.stats = s.stats + u ∧
      IsAccounted fs x u shape (visit fs s x).2 := by
  have hread := isUnread_of_content? hcontent
  rw [Sight.fresh?, hcontent, Option.bind_some] at h
  rw [visit_of_read hcontent, fill, remembered?_eq, path_bare, State.opened, h]
  obtain ⟨path, depth, kind⟩ := x
  cases kind with
  | directory => cases hcontent
  | file =>
    obtain ⟨language, hlanguage, -⟩ := Option.bind_eq_some_iff.1 hcontent
    have hunlisted : unlistedIn fs [⟨path, depth, .file⟩] = 0 := rfl
    dsimp only [Sight.bare]
    rw [hlanguage, Option.bind_some]
    have hshape := Record.HasOnly.analyzed (Sha256.hash content)
      (r := .file path depth (some language)) rfl rfl
      (analyze (Language.method? language) content).1
    have hfailures := failures_analyze_le (some language) content
    obtain ⟨done, failed, hwrites, hstats⟩ := exists_remember s.cache
      (r := { Record.file path depth (some language) with
        contentHash := some (Sha256.hash content) }.fill
          (analyze (Language.method? language) content).1) rfl
    let counts : Stats := {
      files := 1
      sourcesRead := if (Language.method? language).isSome then 1 else 0
      extractions := 1
      parseFailures := (analyze (Language.method? language) content).2
      cacheWrites := done
      cacheWriteFailures := failed }
    exact ⟨counts, _, hstats _, hshape, by simp [hread],
      hunlisted ▸ accounts_single hshape rfl rfl rfl rfl rfl hwrites
        (if_congr ⟨fun h => ⟨.inr rfl, h⟩, And.right⟩ rfl rfl)
        (hfailures.trans_eq (if_congr ⟨fun h => ⟨rfl, h⟩, And.right⟩ rfl rfl))⟩

variable (fs s x) in
/-- What a visit adds to the counts. -/
theorem exists_accounts_visit :
    ∃ u shape, (visit fs s x).1.stats = s.stats + u ∧
      IsAccounted fs x u shape (visit fs s x).2 := by
  cases hcontent : x.content? fs with
  | none => exact accounts_of_unread hcontent
  | some content =>
    cases hfresh : x.fresh? fs s.cache with
    | some e => exact accounts_of_fresh hfresh
    | none => exact accounts_of_stale hcontent hfresh

/-- If the counts were those of the records before a visit, they are after it. -/
theorem accounts_visit (h : s.stats.Accounts n records) :
    (visit fs s x).1.stats.Accounts (n + unlistedIn fs [x]) (records ++ [(visit fs s x).2]) := by
  obtain ⟨u, _, hstats, hu⟩ := exists_accounts_visit fs s x
  rw [hstats]
  exact h.append hu.accounts

theorem accounts_visitAll (h : s.stats.Accounts n records) :
    (visitAll fs s sights).1.stats.Accounts (n + unlistedIn fs sights)
      (records ++ (visitAll fs s sights).2) := by
  induction sights generalizing s n records with
  | nil => rwa [visitAll, List.append_nil]
  | cons x sights ih =>
    have hunlisted : unlistedIn fs (x :: sights) = unlistedIn fs [x] + unlistedIn fs sights := by
      rw [unlistedIn, unlistedIn, unlistedIn, ← List.countP_append, List.singleton_append]
    rw [visitAll_cons, List.append_cons, hunlisted, ← Nat.add_assoc]
    exact ih (accounts_visit h)

/-- Each record is of what is seen, and has one shape, which tells whether its file
    could be read. -/
theorem forall₂_shape_visitAll : List.Forall₂ (fun x r => r.shown = x.shown ∧
    (∃! shape, r.hasShape shape = true) ∧ (r.hasShape .unread ↔ x.isUnread fs)) sights
    (visitAll fs s sights).2 := by
  induction sights generalizing s with
  | nil => exact .nil
  | cons x sights ih =>
    obtain ⟨_, shape, -, hshape⟩ := exists_accounts_visit fs s x
    have hshown : (visit fs s x).2.shown = x.shown := by
      rw [visit_record, Sight.recordBy, shown_recordOf]
    have hunread : (visit fs s x).2.hasShape .unread ↔ x.isUnread fs := by
      rw [hshape.hasOnly, decide_eq_true_iff, hshape.unread]
    exact .cons ⟨hshown, hshape.hasOnly.existsUnique, hunread⟩ ih

/-- After a walk, the record of every file has one shape and no other, that of a file
    that cannot be read if its own cannot. The counts are those of the records, and
    what cannot be read are such files and the directories that do not tell their
    entries. -/
theorem run_accounts (hroot : rootPlace fs path = .ok place) (cache : Database)
    (artifacts : List Bytes) :
    ∃ w, run fs cache artifacts path = .ok w ∧
      List.Forall₂ (fun x r => r.shown = x.shown ∧
        (r.isFile → ∃! shape, r.hasShape shape = true) ∧ (r.hasShape .unread ↔ x.isUnread fs))
        (survey fs artifacts place) w.records ∧
      w.stats.Accounts (unlistedIn fs (survey fs artifacts place)) w.records := by
  have hstart : ({} : Stats).Accounts 0 [] := by constructor <;> rfl
  refine ⟨_, run_eq cache artifacts hroot, ?_, ?_⟩
  · exact forall₂_shape_visitAll.imp fun _ _ h => ⟨h.1, fun _ => h.2.1, h.2.2⟩
  · rw [← Nat.zero_add (unlistedIn fs _)]
    exact accounts_visitAll (s := { cache }) hstart

theorem run_accounts_sample :
    rootPlace FileSystem.sample "/r" = .ok ["r"] ∧
      ∃ w, run FileSystem.sample Cache.lost [] "/r" = .ok w ∧
        List.Forall₂ (fun x r => r.shown = x.shown ∧
          (r.isFile → ∃! shape, r.hasShape shape = true) ∧
          (r.hasShape .unread ↔ x.isUnread FileSystem.sample))
          (survey FileSystem.sample [] ["r"]) w.records ∧
        w.stats.Accounts (unlistedIn FileSystem.sample (survey FileSystem.sample [] ["r"]))
          w.records := by
  have hroot : rootPlace FileSystem.sample "/r" = .ok ["r"] := by decide +kernel
  exact ⟨hroot, run_accounts hroot Cache.lost []⟩

end Walk

end RepoAtlas
