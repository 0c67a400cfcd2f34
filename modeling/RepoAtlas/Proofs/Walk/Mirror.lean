import RepoAtlas.Proofs.Walk.Exactness
import Mathlib.Data.List.Pairwise

/-!
# The cache after a walk

After a walk with a cache that works, the cache mirrors the walk (`Mirrored`): under
the path of every record whose content was read, it has the entry of the record. It
gives nothing away and takes nothing else in, and what went into it is what the walk
had to analyze. A second walk of the same files takes all of it from the cache,
which stays as it is, and tells the same but for what no entry remembers.

All this holds if no record that is outdated shares its path with another one that was
read (`KeepsApart`), and not otherwise (`run_mirrored`): of two files with one path on
record, the entry of the first is gone or taken for that of the second. Where all names
are texts no two records have the same path (`nodup_readPaths`).
-/

namespace RepoAtlas

open RepoAtlas.Path (text IsText)

/-- Whether all names of files and directories are texts. -/
def FileSystem.HasTextNames (fs : FileSystem) : Prop := ∀ s ∈ fs.allNames, IsText s

instance (fs : FileSystem) : Decidable fs.HasTextNames :=
  inferInstanceAs (Decidable (∀ s ∈ fs.allNames, IsText s))

namespace Walk

variable {fs : FileSystem} {cache : Database} {artifacts : List Bytes} {path : Bytes}
  {place : Place} {s : State} {x y : Sight} {sights : List Sight} {records others : List Record}

/-- The paths of the records whose content was read. -/
def readPaths (records : List Record) : List String :=
  (records.filter (·.contentHash.isSome)).map (·.path)

/-- Whether the content was read, while the row of its path was absent or held
    another digest. -/
def isOutdated (cache : Database) (r : Record) : Bool :=
  r.contentHash.isSome && (Cache.known? cache r.path).map (·.hash) ≠ r.contentHash

/-- Whether no record that is outdated shares its path with another one that was read. -/
def KeepsApart (cache : Database) (records : List Record) : Prop :=
  records.Pairwise fun r other => isOutdated cache r ∨ isOutdated cache other →
    r.contentHash.isSome → other.contentHash.isSome → r.path ≠ other.path

/-- The record without what no entry remembers, if its content was read. -/
def forgetful (r : Record) : Record :=
  if r.contentHash.isSome then { r with types := none, constants := none } else r

/-- Whether a cache mirrors the walk that left it and was made with another cache, and a
    second walk of the same files takes all that it reads from it. -/
structure Mirrored (fs : FileSystem) (cache : Database) (artifacts : List Bytes) (path : Bytes)
    (w : Result) : Prop where
  /-- Under the path of every record that was read, there is its entry. -/
  lookup : ∀ r ∈ w.records, r.contentHash.isSome →
    ∃ e, Entry.ofRecord? r = some e ∧ Cache.lookup w.cache r.path = .ok (some e)
  /-- The rows of other paths are what they were. -/
  rowsApart :
    Cache.rowsApart w.cache (readPaths w.records) = Cache.rowsApart cache (readPaths w.records)
  extractions : w.stats.extractions = w.records.countP (isOutdated cache)
  cacheWrites : w.stats.cacheWrites = w.records.countP (isOutdated cache)
  again : ∃ again, run fs w.cache artifacts path = .ok again ∧
    again.stats.extractions = 0 ∧ again.stats.cacheWrites = 0 ∧
    again.stats.cacheHits = w.records.countP (·.contentHash.isSome) ∧
    again.cache = w.cache ∧ again.records = w.records.map forgetful

/-! ### One record -/

theorem isSome_contentHash_recordBy :
    (x.recordBy fs cache).contentHash.isSome = (x.content? fs).isSome := by
  rw [contentHash_recordBy, Option.isSome_map]

/-- What is read of something seen is the content of a file. -/
theorem mem_contents_of_content? {c : Bytes} (h : x.content? fs = some c) : c ∈ fs.contents := by
  obtain ⟨path, depth, kind⟩ := x
  cases kind with
  | directory => cases h
  | file =>
    obtain ⟨_, _, hread⟩ := Option.bind_eq_some_iff.1 h
    cases hfound : fs.read path with
    | error e => rw [hfound] at hread; cases hread
    | ok found =>
      rw [hfound] at hread
      cases hread
      exact FileSystem.mem_contents_of_read hfound

/-- What is read is fresh if the row of its path holds its digest. -/
theorem isOutdated_recordBy (other : Database) :
    isOutdated cache (x.recordBy fs other) = x.isStale fs cache := by
  rw [isOutdated, isSome_contentHash_recordBy, contentHash_recordBy, path_recordBy, Sight.isStale,
    Sight.fresh?]
  cases x.content? fs with
  | none => rfl
  | some c =>
    rw [Option.isSome_some, Bool.true_and, Bool.true_and, Option.bind_some]
    cases Cache.known? cache (text x.path) with
    | none => rfl
    | some e =>
      by_cases hhash : e.hash = Sha256.hash c <;>
        simp [Option.filter_some, Entry.isFreshFor, hhash, Sha256.isEmpty_hash]

variable (cache) in
/-- A record that was read has an entry. -/
theorem exists_ofRecord?_recordBy (h : (x.content? fs).isSome) :
    ∃ e, Entry.ofRecord? (x.recordBy fs cache) = some e := by
  obtain ⟨c, hc⟩ := Option.isSome_iff_exists.1 h
  exact ⟨_, Entry.ofRecord?_eq (contentHash_recordBy.trans (congrArg _ hc))⟩

variable {next : Database}

/-- What a cache knows by the entry of a record is fresh. -/
theorem fresh?_of_known?
    (hnext : Cache.known? next (text x.path) = Entry.ofRecord? (x.recordBy fs cache)) :
    x.fresh? fs next = Entry.ofRecord? (x.recordBy fs cache) := by
  rw [Sight.fresh?, hnext]
  cases hcontent : x.content? fs with
  | none => rw [Entry.ofRecord?_eq_none (by rw [contentHash_recordBy, hcontent]; rfl)]; rfl
  | some c =>
    rw [Entry.ofRecord?_eq (contentHash_recordBy.trans (congrArg _ hcontent)), Option.bind_some,
      Option.filter_some, if_pos]
    rw [Entry.isFreshFor, Sha256.isEmpty_hash]
    simp

/-- The record made from the entry of a record. -/
theorem recordBy_of_known? (hcache : Cache.Working cache)
    (hnext : (x.content? fs).isSome →
      Cache.known? next (text x.path) = Entry.ofRecord? (x.recordBy fs cache)) :
    x.recordBy fs next = forgetful (x.recordBy fs cache) := by
  -- Read before and again, the record is restored from an entry in which the first
  -- record, restored or analyzed, was remembered.
  cases hcontent : x.content? fs with
  | none =>
    rw [recordBy_of_unread hcontent, recordBy_of_unread hcontent, forgetful, contentHash_bare]
    rfl
  | some c =>
    have hfresh := fresh?_of_known? (hnext (by rw [hcontent]; rfl))
    cases hknown : x.fresh? fs cache with
    | some e =>
      rw [ofRecord?_recordBy_of_fresh hcache hknown] at hfresh
      rw [recordBy_of_fresh hcontent hfresh, recordBy_of_fresh hcontent hknown, forgetful]
      obtain ⟨_, _, kind⟩ := x
      cases kind <;> rfl
    | none =>
      rw [Entry.ofRecord?_eq (contentHash_recordBy.trans (congrArg _ hcontent))] at hfresh
      rw [recordBy_of_fresh hcontent hfresh, recordBy_of_stale hcontent hknown, forgetful]
      obtain ⟨_, _, kind⟩ := x
      cases kind <;> rfl

/-! ### What of the records no cache decides -/

/-- The paths of the records, and the digests of what was read. -/
def readings (records : List Record) : List (String × Option String) :=
  records.map fun r => (r.path, r.contentHash)

/-- Whatever the cache knows, the same is read. -/
theorem readings_visitAll (cache : Database) :
    readings (visitAll fs s sights).2 = readings (sights.map fun x => x.recordBy fs cache) := by
  rw [readings, readings, List.map_map, ← List.forall₂_eq_eq_eq, List.forall₂_map_left_iff,
    List.forall₂_map_right_iff]
  refine forall₂_visitAll.flip.imp fun r x ⟨other, hr⟩ => ?_
  rw [hr, Function.comp_apply, path_recordBy, path_recordBy, contentHash_recordBy,
    contentHash_recordBy]

theorem readPaths_congr (h : readings records = readings others) :
    readPaths records = readPaths others := by
  have hform (l : List Record) :
      readPaths l = ((readings l).filter (·.2.isSome)).map (·.1) := by
    rw [readings, List.filter_map, List.map_map]
    rfl
  rw [hform, hform, h]

/-- Whether what was read has no row of its digest. -/
def isOutdatedReading (cache : Database) (k : String × Option String) : Bool :=
  k.2.isSome && (Cache.known? cache k.1).map (·.hash) ≠ k.2

theorem countP_isOutdated_congr (h : readings records = readings others) :
    records.countP (isOutdated cache) = others.countP (isOutdated cache) := by
  have hform (l : List Record) :
      l.countP (isOutdated cache) = (readings l).countP (isOutdatedReading cache) := by
    rw [readings, List.countP_map]
    rfl
  rw [hform, hform, h]

theorem keepsApart_congr (h : readings records = readings others) :
    KeepsApart cache records ↔ KeepsApart cache others := by
  have hform (l : List Record) : KeepsApart cache l ↔ (readings l).Pairwise fun j k =>
      isOutdatedReading cache j ∨ isOutdatedReading cache k →
        j.2.isSome → k.2.isSome → j.1 ≠ k.1 := by
    rw [readings, List.pairwise_map]
    rfl
  rw [hform, hform, h]

theorem keepsApart_visitAll_iff :
    KeepsApart cache (visitAll fs s sights).2 ↔ Undisturbed fs cache sights := by
  rw [keepsApart_congr (readings_visitAll cache), KeepsApart, List.pairwise_map]
  simp only [isOutdated_recordBy, isSome_contentHash_recordBy, path_recordBy]
  rfl

/-- Records whose paths differ, where they were read, are kept apart. -/
theorem keepsApart_of_nodup (h : (readPaths records).Nodup) : KeepsApart cache records := by
  rw [readPaths, List.Nodup, List.pairwise_map, List.pairwise_filter] at h
  exact h.imp fun hne _ hr hother => hne hr hother

/-- Where all names are texts, so are all paths. -/
theorem Listing.isText_path {l : List Sight} (h : Listing fs artifacts place [] l)
    (htext : fs.HasTextNames) (hx : x ∈ l) : IsText x.path := by
  obtain ⟨names, hreached, hpath, -⟩ := h.reached_of_mem hx
  obtain ⟨-, node, hnode, -⟩ := hreached.survives
  exact hpath ▸ Path.isText_ofNames fun s hs =>
    htext s (FileSystem.mem_allNames_of_nodeAt? hnode hs)

/-- Where all that is read has paths that are texts, no two records of it have the same
    path. -/
theorem nodup_readPaths_of_isText (hfs : fs.WellFormed)
    (hlisting : Listing fs artifacts place [] (survey fs artifacts place))
    (htext : ∀ x ∈ survey fs artifacts place, (x.content? fs).isSome → IsText x.path)
    (cache : Database) : (readPaths (collect fs cache artifacts place).records).Nodup := by
  have hnodup := hlisting.nodup hfs
  have hpaths : readPaths (collect fs cache artifacts place).records =
      readPaths ((survey fs artifacts place).map fun x => x.recordBy fs cache) :=
    readPaths_congr (readings_visitAll cache)
  rw [hpaths, readPaths, List.Nodup, List.pairwise_map, List.pairwise_filter, List.pairwise_map]
  rw [List.Nodup, List.pairwise_map] at hnodup
  refine hnodup.imp_of_mem fun {x y} hx hy hne hread hread' heq => hne ?_
  rw [isSome_contentHash_recordBy] at hread hread'
  rw [path_recordBy, path_recordBy] at heq
  exact Path.eq_of_text_eq (htext x hx hread) (htext y hy hread') heq

/-- Where all names are texts, no two records have the same path. -/
theorem nodup_readPaths (hfs : fs.WellFormed) (htext : fs.HasTextNames)
    (hroot : rootPlace fs path = .ok place) (cache : Database) (artifacts : List Bytes) :
    (readPaths (collect fs cache artifacts place).records).Nodup :=
  nodup_readPaths_of_isText hfs (listing_of_rootPlace hfs hroot)
    (fun _ hx _ => (listing_of_rootPlace hfs hroot).isText_path htext hx) cache

/-! ### All records -/

theorem working_collect (hworking : Cache.Working cache) :
    Cache.Working (collect fs cache artifacts place).cache :=
  working_visitAll hworking

section Collect

variable (h : Undisturbed fs cache (survey fs artifacts place))

include h

/-- The records of a walk are made with what the cache knew before it. -/
theorem records_eq :
    (collect fs cache artifacts place).records =
      (survey fs artifacts place).map fun x => x.recordBy fs cache :=
  Undisturbed.visitAll_records h

theorem mem_records_iff {r : Record} :
    r ∈ (collect fs cache artifacts place).records ↔
      ∃ x ∈ survey fs artifacts place, x.recordBy fs cache = r := by
  rw [records_eq h, List.mem_map]

theorem countP_records (p : Record → Bool) :
    (collect fs cache artifacts place).records.countP p =
      (survey fs artifacts place).countP fun x => p (x.recordBy fs cache) := by
  rw [records_eq h, List.countP_map]
  rfl

/-- The path of what is read is the path of a record that was read. -/
theorem path_mem_readPaths (hx : x ∈ survey fs artifacts place) (hread : (x.content? fs).isSome) :
    text x.path ∈ readPaths (collect fs cache artifacts place).records := by
  refine List.mem_map.2 ⟨x.recordBy fs cache, List.mem_filter.2 ⟨?_, ?_⟩, path_recordBy⟩
  · exact (mem_records_iff h).2 ⟨x, hx, rfl⟩
  · rw [isSome_contentHash_recordBy, hread]

variable (hworking : Cache.Working cache)

include hworking

/-- After a walk, the cache knows the entry of what was read. -/
theorem known?_collect (hx : x ∈ survey fs artifacts place) (hread : (x.content? fs).isSome) :
    Cache.known? (collect fs cache artifacts place).cache (text x.path) =
      Entry.ofRecord? (x.recordBy fs cache) :=
  Undisturbed.known?_visitAll h hworking hx hread

/-- Under the path of a record that was read, the cache has the entry of the
    record. -/
theorem lookup_collect {r : Record} (hr : r ∈ (collect fs cache artifacts place).records)
    (hread : r.contentHash.isSome) :
    ∃ e, Entry.ofRecord? r = some e ∧
      Cache.lookup (collect fs cache artifacts place).cache r.path = .ok (some e) := by
  obtain ⟨x, hx, rfl⟩ := (mem_records_iff h).1 hr
  rw [isSome_contentHash_recordBy] at hread
  obtain ⟨e, he⟩ := exists_ofRecord?_recordBy cache hread
  refine ⟨e, he, ?_⟩
  rw [Cache.lookup_eq_known? (working_collect hworking), path_recordBy,
    known?_collect h hworking hx hread, he]

/-- All other rows stay. -/
theorem rowsApart_collect :
    Cache.rowsApart (collect fs cache artifacts place).cache
        (readPaths (collect fs cache artifacts place).records) =
      Cache.rowsApart cache (readPaths (collect fs cache artifacts place).records) :=
  rowsApart_visitAll hworking fun _ hx => path_mem_readPaths h hx

/-- What is not known goes into the cache. -/
theorem tally_collect :
    (collect fs cache artifacts place).stats.tally =
      ((survey fs artifacts place).countP fun x => (x.fresh? fs cache).isSome,
        (collect fs cache artifacts place).records.countP (isOutdated cache),
        (collect fs cache artifacts place).records.countP (isOutdated cache)) := by
  have houtdated : (collect fs cache artifacts place).records.countP (isOutdated cache) =
      (survey fs artifacts place).countP (·.isStale fs cache) := by
    rw [countP_records h]
    exact List.countP_congr fun x _ => by rw [isOutdated_recordBy]
  rw [houtdated, collect]
  exact (Undisturbed.tally_visitAll h hworking).trans (zero_add _)

/-- What was read in a walk is fresh after it. -/
theorem fresh?_collect (hx : x ∈ survey fs artifacts place) (hread : (x.content? fs).isSome) :
    (x.fresh? fs (collect fs cache artifacts place).cache).isSome := by
  obtain ⟨e, he⟩ := exists_ofRecord?_recordBy cache hread
  rw [fresh?_of_known? (known?_collect h hworking hx hread), he]
  rfl

/-- A second walk of the same files takes all that is read from the cache. -/
theorem collect_again :
    let first := collect fs cache artifacts place
    let again := collect fs first.cache artifacts place
    again.cache = first.cache ∧ again.records = first.records.map forgetful ∧
      again.stats.tally = (first.records.countP (·.contentHash.isSome), 0, 0) := by
  intro first again
  have hfirst : Cache.Working first.cache := working_collect hworking
  -- What is read at all is known from the first walk.
  have hfresh (x : Sight) (hx : x ∈ survey fs artifacts place) :
      (x.fresh? fs first.cache).isSome = (x.content? fs).isSome := by
    cases hcontent : x.content? fs with
    | none => rw [Sight.fresh?, hcontent]; rfl
    | some c => exact fresh?_collect h hworking hx (by rw [hcontent]; rfl)
  have hstale (x : Sight) (hx : x ∈ survey fs artifacts place) :
      x.isStale fs first.cache = false := by
    rw [Sight.isStale, ← hfresh x hx]
    cases x.fresh? fs first.cache <;> rfl
  have hagain : Undisturbed fs first.cache (survey fs artifacts place) := by
    refine List.pairwise_of_forall_mem_list fun x hx y hy hstales => ?_
    rw [hstale x hx, hstale y hy] at hstales
    simp at hstales
  refine ⟨cache_visitAll_of_fresh hstale, ?_, ?_⟩
  · rw [records_eq hagain, records_eq h, List.map_map]
    exact List.map_congr_left fun x hx =>
      recordBy_of_known? hworking (known?_collect h hworking hx)
  · have hhits : ((survey fs artifacts place).countP fun x => (x.fresh? fs first.cache).isSome) =
        first.records.countP (·.contentHash.isSome) := by
      rw [countP_records h]
      exact List.countP_congr fun x hx => by rw [hfresh x hx, isSome_contentHash_recordBy]
    have houtdated : again.records.countP (isOutdated first.cache) = 0 := by
      rw [countP_records hagain, List.countP_eq_zero]
      intro x hx
      rw [isOutdated_recordBy, hstale x hx]
      exact Bool.false_ne_true
    rw [tally_collect hagain hfirst, hhits, houtdated]

/-- The cache mirrors a walk whose visits do not disturb each other. -/
theorem mirrored_collect (hroot : rootPlace fs path = .ok place) :
    Mirrored fs cache artifacts path (collect fs cache artifacts place) := by
  have htally := tally_collect h hworking
  obtain ⟨hcache, hrecords, hagain⟩ := collect_again h hworking
  simp only [Stats.tally, Prod.mk.injEq] at htally hagain
  exact ⟨fun r hr hread => lookup_collect h hworking hr hread, rowsApart_collect h hworking,
    htally.2.1, htally.2.2, _, run_eq _ _ hroot, hagain.2.1, hagain.2.2, hagain.1, hcache, hrecords⟩

end Collect

/-! ### Paths that are read twice -/

/-- Whether files that are read under one path on record have the same digest. -/
def AgreeOnPaths (fs : FileSystem) (sights : List Sight) : Prop :=
  ∀ x ∈ sights, ∀ y ∈ sights, (x.content? fs).isSome → (y.content? fs).isSome →
    text x.path = text y.path → (x.content? fs).map Sha256.hash = (y.content? fs).map Sha256.hash

/-- What has the same path and digest is known alike. -/
theorem isStale_congr (hpath : text x.path = text y.path)
    (hhash : (x.content? fs).map Sha256.hash = (y.content? fs).map Sha256.hash) :
    x.isStale fs cache = y.isStale fs cache := by
  rw [← isOutdated_recordBy cache, ← isOutdated_recordBy cache, isOutdated, isOutdated,
    path_recordBy, path_recordBy, contentHash_recordBy, contentHash_recordBy, hpath, hhash]

/-- After a visit of what is read, nothing of its path and digest is stale. -/
theorem isStale_visit_of_same (hworking : Cache.Working s.cache) (hread : (x.content? fs).isSome)
    (hpath : text x.path = text y.path)
    (hhash : (x.content? fs).map Sha256.hash = (y.content? fs).map Sha256.hash) :
    y.isStale fs (visit fs s x).1.cache = false := by
  obtain ⟨e, he⟩ := exists_ofRecord?_recordBy s.cache hread
  have hknown : Cache.known? (visit fs s x).1.cache (text x.path) =
      Entry.ofRecord? (x.recordBy fs s.cache) := by
    rw [known?_visit hworking, he, Option.some_or]
  rw [← isStale_congr hpath hhash, Sight.isStale, fresh?_of_known? hknown, he]
  simp

/-- A visit makes no difference to what has another path. -/
theorem isStale_visit_of_ne (h : x.isStale fs s.cache → text y.path ≠ text x.path) :
    y.isStale fs (visit fs s x).1.cache = y.isStale fs s.cache := by
  rw [Sight.isStale, Sight.isStale, Sight.fresh?, Sight.fresh?, known?_visit_of_stale_ne h]

/-- What a visit adds to the count of analyses. -/
theorem extractions_visit (hworking : Cache.Working s.cache) :
    (visit fs s x).1.stats.extractions =
      s.stats.extractions + if x.isStale fs s.cache then 1 else 0 := by
  rcases visit_cases fs x hworking with ⟨hcontent, _, htally⟩ | ⟨e, hfound, _, htally⟩ |
    ⟨content, e, hcontent, hfound, _, _, _, htally⟩
  all_goals
    have hextractions : (visit fs s x).1.stats.extractions = _ := congrArg (·.2.1) htally
    rw [hextractions]
  · simp [Stats.tally, Sight.isStale, hcontent]
  · simp [Stats.tally, Sight.isStale, hfound]
  · simp [Stats.tally, Sight.isStale, hcontent, hfound]

section Agree

variable (hworking : Cache.Working s.cache) (hagree : AgreeOnPaths fs (x :: sights))

include hworking hagree

/-- What is stale after a visit was so before. -/
theorem isStale_of_isStale_visit (hy : y ∈ sights)
    (hstale : y.isStale fs (visit fs s x).1.cache) : y.isStale fs s.cache := by
  have hread := content?_of_isStale hstale
  by_cases hpath : x.isStale fs s.cache ∧ text x.path = text y.path
  · have hx := content?_of_isStale hpath.1
    have hhash := hagree x List.mem_cons_self y (List.mem_cons_of_mem _ hy) hx hread hpath.2
    rw [isStale_visit_of_same hworking hx hpath.2 hhash] at hstale
    cases hstale
  · rwa [isStale_visit_of_ne fun hx heq => hpath ⟨hx, heq.symm⟩] at hstale

theorem countP_isStale_visit_le :
    sights.countP (·.isStale fs (visit fs s x).1.cache) ≤
      sights.countP (·.isStale fs s.cache) :=
  List.countP_mono_left fun _ hy => isStale_of_isStale_visit hworking hagree hy

/-- A visit of what is stale settles all that has its path. -/
theorem countP_isStale_visit_lt (hstale : x.isStale fs s.cache) (hy : y ∈ sights)
    (hread : (y.content? fs).isSome) (hpath : text x.path = text y.path) :
    sights.countP (·.isStale fs (visit fs s x).1.cache) <
      sights.countP (·.isStale fs s.cache) := by
  have hx := content?_of_isStale hstale
  have hhash := hagree x List.mem_cons_self y (List.mem_cons_of_mem _ hy) hx hread hpath
  have hbefore : y.isStale fs s.cache = true := isStale_congr hpath hhash ▸ hstale
  have hafter := isStale_visit_of_same hworking hx hpath hhash
  have hmono {l : List Sight} (hl : ∀ z ∈ l, z ∈ sights) :
      l.countP (·.isStale fs (visit fs s x).1.cache) ≤ l.countP (·.isStale fs s.cache) :=
    List.countP_mono_left fun z hz => isStale_of_isStale_visit hworking hagree (hl z hz)
  obtain ⟨front, rest, rfl⟩ := List.append_of_mem hy
  have hfront := hmono (l := front) fun z hz => List.mem_append_left _ hz
  have hrest := hmono (l := rest) fun z hz => List.mem_append_right _ (List.mem_cons_of_mem _ hz)
  rw [List.countP_append, List.countP_append, List.countP_cons, List.countP_cons, hafter, hbefore,
    if_neg Bool.false_ne_true, if_pos rfl]
  omega

end Agree

/-- Visits do not disturb each other, if those behind the first do not, and none of
    them has its path after it was stale. -/
theorem undisturbed_cons (hagree : AgreeOnPaths fs (x :: sights))
    (hhead : ∀ y ∈ sights, x.isStale fs s.cache → (y.content? fs).isSome →
      text x.path ≠ text y.path)
    (h : Undisturbed fs (visit fs s x).1.cache sights) : Undisturbed fs s.cache (x :: sights) := by
  refine List.pairwise_cons.2 ⟨fun y hy hstales hx hread heq => ?_, ?_⟩
  · have hhash := hagree x List.mem_cons_self y (List.mem_cons_of_mem _ hy) hx hread heq
    rw [← isStale_congr heq hhash, or_self] at hstales
    exact hhead y hy hstales hread heq
  · refine h.imp_of_mem fun {y z} hy hz hyz hstales hready hreadz => ?_
    have hne (t : Sight) (ht : t ∈ sights) (hread : (t.content? fs).isSome) :
        t.isStale fs (visit fs s x).1.cache = t.isStale fs s.cache :=
      isStale_visit_of_ne fun hstale => (hhead t ht hstale hread).symm
    rw [hne y hy hready, hne z hz hreadz] at hyz
    exact hyz hstales hready hreadz

/-- Where a path is read twice and not known, less is analyzed than is not known. -/
theorem extractions_visitAll (hworking : Cache.Working s.cache) (hagree : AgreeOnPaths fs sights) :
    (visitAll fs s sights).1.stats.extractions ≤
        s.stats.extractions + sights.countP (·.isStale fs s.cache) ∧
      (¬Undisturbed fs s.cache sights → (visitAll fs s sights).1.stats.extractions <
        s.stats.extractions + sights.countP (·.isStale fs s.cache)) := by
  induction sights generalizing s with
  | nil => exact ⟨le_rfl, fun h => absurd List.Pairwise.nil h⟩
  | cons x sights ih =>
    have hrest : AgreeOnPaths fs sights := fun y hy z hz =>
      hagree y (List.mem_cons_of_mem _ hy) z (List.mem_cons_of_mem _ hz)
    have hnext : Cache.Working (visit fs s x).1.cache := working_visit hworking
    obtain ⟨hle, hlt⟩ := ih hnext hrest
    have hcount := countP_isStale_visit_le hworking hagree
    rw [extractions_visit hworking] at hle hlt
    rw [visitAll_cons, List.countP_cons]
    refine ⟨by dsimp only; omega, fun hdisturbed => ?_⟩
    -- Either a later file has the path of the first one, which settles it, or two later
    -- ones share their path.
    by_cases hpath : x.isStale fs s.cache = true ∧
        ∃ y ∈ sights, (y.content? fs).isSome ∧ text x.path = text y.path
    · obtain ⟨hstale, y, hy, hread, hpath⟩ := hpath
      have hless := countP_isStale_visit_lt hworking hagree hstale hy hread hpath
      dsimp only
      omega
    · have hlater : ¬Undisturbed fs (visit fs s x).1.cache sights := by
        refine fun hlater => hdisturbed (undisturbed_cons hagree (fun y hy hstale hread heq =>
          hpath ⟨hstale, y, hy, hread, heq⟩) hlater)
      have hless := hlt hlater
      dsimp only
      omega

/-- The cache mirrors no walk whose visits disturb each other. -/
theorem undisturbed_of_mirrored (hworking : Cache.Working cache)
    (h : Mirrored fs cache artifacts path (collect fs cache artifacts place)) :
    Undisturbed fs cache (survey fs artifacts place) := by
  have hreadings : readings (collect fs cache artifacts place).records =
      readings ((survey fs artifacts place).map fun x => x.recordBy fs cache) :=
    readings_visitAll cache
  -- One row has the digests of all that is read under its path.
  have hrow (x : Sight) (hx : x ∈ survey fs artifacts place) (hread : (x.content? fs).isSome) :
      ∃ e, Cache.lookup (collect fs cache artifacts place).cache (text x.path) = .ok (some e) ∧
        (x.content? fs).map Sha256.hash = some e.hash := by
    have hmem : (text x.path, (x.content? fs).map Sha256.hash) ∈
        readings (collect fs cache artifacts place).records := by
      rw [hreadings, readings, List.map_map]
      exact List.mem_map.2 ⟨x, hx, by rw [Function.comp_apply, path_recordBy, contentHash_recordBy]⟩
    obtain ⟨r, hr, heq⟩ := List.mem_map.1 hmem
    obtain ⟨hpath, hhash⟩ := Prod.mk.inj heq
    obtain ⟨c, hc⟩ := Option.isSome_iff_exists.1 hread
    obtain ⟨e, he, hlookup⟩ := h.lookup r hr (by rw [hhash, hc]; rfl)
    rw [hc] at hhash
    rw [Entry.ofRecord?_eq hhash] at he
    cases he
    exact ⟨_, hpath ▸ hlookup, by rw [hc]; rfl⟩
  have hagree : AgreeOnPaths fs (survey fs artifacts place) := by
    intro x hx y hy hreadx hready hpath
    obtain ⟨e, he, hhash⟩ := hrow x hx hreadx
    obtain ⟨f, hf, hhash'⟩ := hrow y hy hready
    rw [hpath, hf] at he
    cases he
    rw [hhash, hhash']
  by_contra hdisturbed
  have hless := (extractions_visitAll (s := { cache }) hworking hagree).2 hdisturbed
  have hcount : (collect fs cache artifacts place).records.countP (isOutdated cache) =
      (survey fs artifacts place).countP (·.isStale fs cache) := by
    rw [countP_isOutdated_congr hreadings, List.countP_map]
    exact List.countP_congr fun x _ => by rw [Function.comp_apply, isOutdated_recordBy]
  have hextractions := h.extractions
  rw [hcount] at hextractions
  exact absurd hextractions (Nat.ne_of_lt (lt_of_lt_of_eq hless (Nat.zero_add _)))

/-- Two directories whose names are no texts and are shown alike, with the same file
    in each. -/
def twins : FileSystem where
  entries :=
    .cons "r" (.directory
      (.cons [0x64, 0xFE] (.directory (.cons "a.py" (.file (.bytes [])) .nil))
      (.cons [0x64, 0xFF] (.directory (.cons "a.py" (.file (.bytes [])) .nil)) .nil))) .nil

theorem rootPlace_twins : rootPlace twins "/r" = .ok ["r"] := by decide +kernel

theorem survey_twins : survey twins [] ["r"] = [
    sightOf ["r"] [[0x64, 0xFE]] .directory, sightOf ["r"] [[0x64, 0xFE], "a.py"] .file,
    sightOf ["r"] [[0x64, 0xFF]] .directory, sightOf ["r"] [[0x64, 0xFF], "a.py"] .file] := by
  rw [survey_of_pairwise rfl rfl rfl rfl (by decide +kernel)]
  decide +kernel

/-- To a cache that knows nothing, the visits of the two disturb each other. -/
theorem twins_disturbed : ¬Undisturbed twins Cache.empty (survey twins [] ["r"]) := by
  rw [survey_twins, Undisturbed]
  decide +kernel

/-- No walk of the two is mirrored by a cache that knew nothing: the second file takes
    the row of the first. -/
theorem twins_not_mirrored :
    twins.WellFormed ∧ Cache.Working Cache.empty ∧
      ∃ w, run twins Cache.empty [] "/r" = .ok w ∧ ¬Mirrored twins Cache.empty [] "/r" w :=
  ⟨by decide, Cache.blank_empty.1, _, run_eq _ _ rootPlace_twins,
    fun h => twins_disturbed (undisturbed_of_mirrored Cache.blank_empty.1 h)⟩

end Walk

end RepoAtlas
