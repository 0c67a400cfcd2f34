import RepoAtlas.Proofs.Describe.Settled
import RepoAtlas.Proofs.Migration.Pass
import RepoAtlas.Proofs.Run.Faults

/-!
# Series of runs

A series is any sequence of runs that use the cache in one file, which is empty
at first (`Series`). Between them files change in any way, but for the cache;
each run may have another describer, or none, and may fail.

In every series, once an answer about a file was accepted, nobody is asked about
the path again before a walk has read another content there
(`Series.described_once`). The contents that a run leaves settled are those that
the next one finds, since the cache is opened as it was left
(`Holds.of_perform`).

`Run.events` are the events of a run, among whose questions are all that it asks and no
others (`Run.questions_events`). Two files that a run reads may have the same path on
record, if their names are no texts. Of such a path the above does not hold
(`Series.twins_described_twice`); it holds of the others (`Run.Start.TellsApart`).
-/

namespace RepoAtlas

/-! ### The events of a run -/

namespace Run

/-- The inquiries of a run; none without a describer. -/
def inquired {σ : Type} (d : Option (Describer σ)) (c : Config) (records : List Record)
    (state : σ) : List Round.Inquiry :=
  match d with
  | none => []
  | some d => ((Round.inquiries? d c.model c.policy state records).map (·.1)).getD []

/-- The files that a run walks, with the cache open, the place of its root, and the cache.
    A run that fails walks nothing. -/
def walked? (fs : FileSystem) (path : Bytes) (c : Config) :
    Option (FileSystem × Place × Database) :=
  match validateRoot fs path with
  | .error _ => none
  | .ok root =>
    match openCache fs (c.cachePath (Path.ofNames root)) with
    | (_, .error _) => none
    | (fs, .ok (_, cache)) =>
      match Walk.rootPlace fs (Path.ofNames root) with
      | .error _ => none
      | .ok _ => some (fs, root, cache)

/-- The events of a run over a root, with the cache open. -/
def eventsAt {σ : Type} (fs : FileSystem) (c : Config) (root : Place) (cache : Database)
    (d : Option (Describer σ)) (state : σ) : List Event :=
  let artifacts := c.artifacts (Path.ofNames root)
  let records := (Walk.collect fs cache artifacts root).records
  (Walk.survey fs artifacts root).filterMap (·.reading? fs) ++
    (inquired d c records state).flatMap (·.events)

/-- The events of a run: all that its walk reads, and then all that its round
    asks. A run that fails comes to none. -/
def events {σ : Type} (fs : FileSystem) (path : Bytes) (c : Config) (d : Option (Describer σ))
    (state : σ) : List Event :=
  match walked? fs path c with
  | none => []
  | some (fs, root, cache) => eventsAt fs c root cache d state

/-- Whether a run uses no cache but the one in a file. -/
def UsesOnly (fs : FileSystem) (path : Bytes) (c : Config) (file : Place) : Prop :=
  ∀ root place, validateRoot fs path = .ok root →
    fs.resolveNew (c.cachePath (Path.ofNames root)) = .ok place → place = file

/-- What a run starts from. -/
structure Start where
  fs : FileSystem
  path : Bytes
  config : Config

/-- The paths on record of what the walk of a run reads. -/
def Start.readPaths (s : Start) : List String :=
  match walked? s.fs s.path s.config with
  | none => []
  | some (fs, root, cache) =>
    Walk.readPaths (Walk.collect fs cache (s.config.artifacts (Path.ofNames root)) root).records

/-- Whether the path on record tells what a run reads there from all else that it reads:
    all names are texts, or nothing else that is read has the path. -/
def Start.TellsApart (s : Start) (path : String) : Prop :=
  s.fs.HasTextNames ∨ s.readPaths.count path ≤ 1

end Run

/-- Events, the starts of the runs that they are of, and the files after them, in runs
    that use the cache in one file. -/
inductive Series (file : Place) : List Event → List Run.Start → FileSystem → Prop
  | start {fs : FileSystem} {db : Database} :
    fs.WellFormed → databaseAt? fs file = some db → Cache.Blank (Migration.run db).1 →
      Series file [] [] fs
  | edit {events : List Event} {starts : List Run.Start} {fs after : FileSystem} :
    Series file events starts fs → after.WellFormed →
      databaseAt? after file = databaseAt? fs file → Series file events starts after
  | run {events : List Event} {starts : List Run.Start} {fs : FileSystem} {path : Bytes}
    {c : Config} {σ : Type} {d : Option (Describer σ)} {state : σ} {o : Run.Outcome σ} :
    Series file events starts fs → Run.UsesOnly fs path c file →
      Run.perform fs path c d state = some o →
      Series file (events ++ Run.events fs path c d state) (starts ++ [⟨fs, path, c⟩]) o.fs

variable {fs after : FileSystem} {path : Bytes} {c : Config} {file : Place} {cache db : Database}
  {σ : Type} {d : Option (Describer σ)} {state : σ} {o : Run.Outcome σ}
  {known : String} {S : String → Prop}

/-! ### Opening a cache again -/

/-- Where something else changes, a file has the database that it had. -/
theorem databaseAt?_congr {places : List Place} (h : FileSystem.ChangedAt places fs after)
    (hfile : file ∉ places) : databaseAt? after file = databaseAt? fs file := by
  rw [databaseAt?, databaseAt?]
  rcases FileSystem.cases_of_face (h.face file hfile) with ⟨hnode, hnode'⟩ |
    ⟨_, _, hnode, hnode'⟩ | ⟨node, _, hnode, hnode'⟩
  · rw [hnode, hnode']
  · rw [hnode, hnode']
  · rw [hnode, hnode']

theorem Cache.known?_congr (h : db.cache = cache.cache) (path : String) :
    known? db path = known? cache path := by
  simp only [known?, lookup, table, h]

/-- A cache that works is opened as it was left. -/
theorem Cache.Working.reopened (h : Working cache) :
    Working (Migration.run cache).1 ∧ Settled (Migration.run cache).1 = Settled cache := by
  obtain ⟨hwritable, t, ht, hsound⟩ := h
  obtain ⟨hcache, hsame⟩ := Migration.cache_run ht hsound.columns
  refine ⟨⟨hsame.trans hwritable, t, hcache, hsound⟩, ?_⟩
  funext path hash
  rw [Settled, Settled, known?_congr (hcache.trans ht.symm)]

/-- Whether the cache in a file works when it is opened, and has some settled
    contents of a path. -/
def Holds (fs : FileSystem) (file : Place) (known : String) (S : String → Prop) : Prop :=
  ∃ db, databaseAt? fs file = some db ∧ Cache.Working (Migration.run db).1 ∧
    Cache.Settled (Migration.run db).1 known = S

theorem Holds.of_nodeAt? (hworking : Cache.Working cache)
    (hnode : fs.nodeAt? file = some (.file (.database cache))) :
    Holds fs file known (Cache.Settled cache known) := by
  obtain ⟨hopens, hsettled⟩ := hworking.reopened
  refine ⟨cache, ?_, hopens, congrFun hsettled known⟩
  rw [databaseAt?, hnode]
  rfl

/-! ### One run -/

namespace Run

/-- What a run does with its records follows from its inquiries. -/
theorem describe_inquired {records : List Record} {round : Round.Result σ}
    {stats : Option RoundStats} (h : describe d c records cache state = some (round, stats)) :
    round.attempts = (inquired d c records state).flatMap (·.attempts) ∧
      round.cache = (inquired d c records state).foldl (fun cache i => i.remember cache) cache ∧
      ((inquired d c records state).map (·.record)).Sublist (records.filter (·.isEligible)) := by
  cases d with
  | none =>
    cases h
    exact ⟨rfl, rfl, List.nil_sublist _⟩
  | some d =>
    obtain ⟨result, hround, hresult⟩ := Option.map_eq_some_iff.1 h
    cases hresult
    obtain ⟨last, hlast, rfl⟩ := Option.map_eq_some_iff.1 hround
    obtain ⟨is, his, hattempts, hcache⟩ := Round.exists_inquiries hlast
    have hinquired : inquired (some d) c records state = is := by
      rw [inquired, his]
      rfl
    rw [hinquired]
    exact ⟨hattempts, hcache, Round.sublist_of_inquiries his⟩

namespace Ground

variable (g : Ground fs path c)

theorem walked?_eq : walked? fs path c = some (g.walked, g.root, g.cache) := by
  rw [walked?, g.validated]
  dsimp only
  rw [g.opened]
  dsimp only
  rw [g.listed]

theorem events_eq : events fs path c d state =
    (Walk.survey g.walked g.artifacts g.root).filterMap (·.reading? g.walked) ++
      (inquired d c g.walk.records state).flatMap (·.events) := by
  rw [events, g.walked?_eq]
  rfl

theorem listing (hfs : fs.WellFormed) :
    Walk.Listing g.walked g.artifacts g.root [] (Walk.survey g.walked g.artifacts g.root) :=
  Walk.listing_of_rootPlace (exists_directory_walked hfs).1 g.listed

/-- Where all names are texts, so are the paths of what is read with the cache open: the
    directories are those from before, and the name of a file that is read is a text. -/
theorem isText_path (hfs : fs.WellFormed) (htext : fs.HasTextNames) {x : Walk.Sight}
    (hx : x ∈ Walk.survey g.walked g.artifacts g.root) (hread : (x.content? g.walked).isSome) :
    Path.IsText x.path := by
  obtain ⟨hwalked, -⟩ := exists_directory_walked (g := g) hfs
  obtain ⟨names, hreached, hpath, -⟩ := (g.listing hfs).reached_of_mem hx
  obtain ⟨-, node, hnode, -⟩ := hreached.survives
  obtain rfl | ⟨front, s, rfl⟩ := List.eq_nil_or_concat names
  · exact hreached.elim
  rw [List.concat_eq_append, List.nil_append, ← List.append_assoc] at hnode
  rw [List.concat_eq_append, ← List.append_assoc] at hpath
  obtain ⟨below, hbelow, -⟩ := FileSystem.nodeAt?_append_singleton.1 hnode
  obtain ⟨below, hbelow⟩ := ((changedAt_walked hfs).1.directory _).1 ⟨below, hbelow⟩
  obtain ⟨language, hlanguage⟩ := Walk.exists_language_of_content? hread
  obtain ⟨name, hname, -⟩ := Language.exists_name_of_ofPath? hlanguage
  rw [hpath, Path.fileName?_ofNames (FileSystem.isName_of_nodeAt? hwalked hnode)] at hname
  rw [hpath]
  refine Path.isText_ofNames fun t ht => ?_
  rcases List.mem_append.1 ht with ht | ht
  · exact htext t (FileSystem.mem_allNames_of_nodeAt? hbelow ht)
  · rw [List.mem_singleton.1 ht, Option.some.inj hname]
    exact Path.isText_encode name

/-- What a run reads with a path that tells it apart is read once. -/
theorem count_readPaths_le (hfs : fs.WellFormed) (h : Start.TellsApart ⟨fs, path, c⟩ known) :
    (Walk.readPaths g.walk.records).count known ≤ 1 := by
  rcases h with htext | hcount
  · exact List.nodup_iff_count_le_one.1 (Walk.nodup_readPaths_of_isText
      (exists_directory_walked hfs).1 (g.listing hfs) (fun _ => g.isText_path hfs htext) g.cache) _
  · rwa [Start.readPaths, g.walked?_eq] at hcount

/-- A run goes by steps from the settled contents that it finds. -/
theorem passes_events (hfs : fs.WellFormed) (hapart : Start.TellsApart ⟨fs, path, c⟩ known)
    (hworking : Cache.Working g.cache) {round : Round.Result σ} {stats : Option RoundStats}
    (h : describe d c g.walk.records g.walk.cache state = some (round, stats)) :
    Passes known (Cache.Settled g.cache known) (events fs path c d state)
        (Cache.Settled round.cache known) ∧
      Cache.Working round.cache := by
  have hcount := g.count_readPaths_le hfs hapart
  obtain ⟨-, hcache, hsublist⟩ := describe_inquired h
  have hmem (i : Round.Inquiry) (hi : i ∈ inquired d c g.walk.records state) :
      i.record ∈ g.walk.records ∧ i.record.isEligible :=
    List.mem_filter.1 (hsublist.subset (List.mem_map_of_mem hi))
  -- What is inquired about was read.
  have hasked : ((inquired d c g.walk.records state).map (·.record.path)).count known ≤ 1 := by
    have hread : (g.walk.records.filter (·.isEligible)).Sublist
        (g.walk.records.filter (·.contentHash.isSome)) :=
      List.monotone_filter_right _ fun r hr => by
        obtain ⟨hash, hhash, -⟩ := Round.exists_hash_of_isEligible hr
        rw [hhash]
        rfl
    have hsub := (hsublist.trans hread).map (·.path)
    rw [List.map_map] at hsub
    exact Nat.le_trans (hsub.count_le known) hcount
  have hread : Passes known (Cache.Settled g.cache known)
      ((Walk.survey g.walked g.artifacts g.root).filterMap (·.reading? g.walked))
      (Cache.Settled g.walk.cache known) := Walk.passes_visitAll (s := { cache := g.cache }) known
  have hnext : Cache.Working g.walk.cache := Walk.working_collect hworking
  obtain ⟨hround, hlast⟩ := Round.passes_inquiries hnext (fun i hi => (hmem i hi).2) hasked
    fun i hi hpath hash => by
      subst hpath
      exact Round.not_settled_of_isEligible hworking (hmem i hi).1 (hmem i hi).2 hcount hash
  rw [events_eq, hcache]
  exact ⟨hread.append hround, hlast⟩

end Ground

/-- Where something is at fault, nothing is walked. -/
theorem walked?_of_fault (hfs : fs.WellFormed) {error : RunError} (h : Fault fs path c error) :
    walked? fs path c = none := by
  cases h with
  | unresolved hplace =>
    rw [walked?, validateRoot, hplace]
  | notDirectory hplace hnot =>
    rw [walked?, validateRoot_of_not_directory hplace hnot]
  | @cache root below e hplace hnode hcache =>
    have hresult := (openCache_error_iff hfs).2 hcache
    rw [walked?, validateRoot_eq_ok_iff.2 ⟨hplace, below, hnode⟩]
    dsimp only
    rcases hopened : openCache fs (c.cachePath (Path.ofNames root)) with ⟨after, result⟩
    rw [hopened] at hresult
    dsimp only at hresult ⊢
    rw [hresult]
  | @unlisted root below hplace hnode hcache hunlisted =>
    have hroot := validateRoot_eq_ok_iff.2 ⟨hplace, below, hnode⟩
    obtain ⟨walked, file, cache, hopened⟩ := exists_openCache hfs hcache
    have hlisted := rootPlace_of_openCache hfs hroot hopened
    rw [if_pos hunlisted] at hlisted
    rw [walked?, hroot]
    dsimp only
    rw [hopened]
    dsimp only
    rw [hlisted]

theorem events_of_fault (hfs : fs.WellFormed) {error : RunError} (h : Fault fs path c error) :
    events fs path c d state = [] := by
  rw [events, walked?_of_fault hfs h]

/-- The questions among the events of a run are those that it asks. -/
theorem questions_events (hfs : fs.WellFormed) (h : perform fs path c d state = some o) :
    (events fs path c d state).filterMap Event.question? =
      o.attempts.filterMap Attempt.question? := by
  rcases exists_fault_or_ground path c hfs with ⟨error, hfault⟩ | ⟨⟨g⟩⟩
  · obtain ⟨after, -, hperform⟩ := exists_perform_of_fault hfs hfault state
    rw [events_of_fault hfs hfault]
    cases h.symm.trans (hperform d)
    rfl
  · rw [g.perform_eq] at h
    obtain ⟨⟨round, stats⟩, hdescribe, rfl⟩ := Option.map_eq_some_iff.1 h
    obtain ⟨hattempts, -⟩ := describe_inquired hdescribe
    dsimp only
    rw [hattempts, g.events_eq, List.filterMap_append, Walk.questions_readings, List.nil_append,
      Round.questions_inquiries]

end Run

/-! ### Series -/

/-- A cache that is left as it was, or as far as it could be brought up to date, has the
    same settled contents. -/
theorem Holds.of_opened (hholds : Holds fs file known S)
    (h : ∀ db, databaseAt? fs file = some db →
      ∃ now, databaseAt? after file = some now ∧ (now = db ∨ now = (Migration.run db).1)) :
    Holds after file known S := by
  obtain ⟨db, hdb, hworking, rfl⟩ := hholds
  obtain ⟨now, hnow, rfl | rfl⟩ := h db hdb
  · exact ⟨now, hnow, hworking, rfl⟩
  · obtain ⟨hopens, hsettled⟩ := hworking.reopened
    exact ⟨_, hnow, hopens, congrFun hsettled known⟩

/-- A run that fails leaves the settled contents as they are. -/
theorem Holds.of_fault (hfs : fs.WellFormed) (hholds : Holds fs file known S)
    (huses : Run.UsesOnly fs path c file) {error : RunError} (h : Run.Fault fs path c error)
    (hchanges : Run.Fault.Changes fs c error after) :
    after.WellFormed ∧ Holds after file known S := by
  rw [Run.Fault.Changes] at hchanges
  split at hchanges
  · exact hchanges ▸ ⟨hfs, hholds⟩
  · rename_i cachePath hopened
    obtain ⟨root, hroot, rfl⟩ := h.exists_root hopened
    refine ⟨hchanges.changed.wellFormed, hholds.of_opened fun db hdb => ?_⟩
    cases hplace : fs.resolveNew (c.cachePath (Path.ofNames root)) with
    | ok place =>
      cases huses root place hroot hplace
      exact hchanges.cache _ db hplace hdb
    | error fault =>
      -- Where the cache has no place, no file changes.
      refine ⟨db, ?_, .inl rfl⟩
      have hchanged := hchanges.changed
      rw [placesOpened, placesOf, hplace] at hchanged
      exact (databaseAt?_congr hchanged List.not_mem_nil).trans hdb

/-- A run that opens the cache leaves its settled contents, after its events. -/
theorem Holds.of_ground (hfs : fs.WellFormed) (hholds : Holds fs file known S)
    (g : Run.Ground fs path c) (huses : Run.UsesOnly fs path c file)
    (hapart : Run.Start.TellsApart ⟨fs, path, c⟩ known)
    (h : Run.perform fs path c d state = some o) :
    ∃ S', Passes known S (Run.events fs path c d state) S' ∧ o.fs.WellFormed ∧
      Holds o.fs file known S' := by
  obtain ⟨db, hdb, hworking, rfl⟩ := hholds
  obtain ⟨hplace, there, hthere, hcache⟩ := databaseAt?_of_openCache g.opened
  -- The cache that the run opens is the one in the file.
  have hfile : g.file = file := huses _ _ g.validated hplace
  rw [hfile] at hthere
  cases hdb.symm.trans hthere
  rw [hcache] at hworking ⊢
  obtain ⟨round, stats, hdescribe, hnode⟩ := Run.Ground.nodeAt?_perform hfs h
  obtain ⟨hpasses, hlast⟩ := g.passes_events hfs hapart hworking hdescribe
  rw [hfile] at hnode
  have hchanged := (Run.Ground.changedAt_perform (g := g) hfs h).1
  exact ⟨_, hpasses, hchanged.wellFormed, .of_nodeAt? hlast hnode⟩

/-- A run leaves the settled contents after its events, whether it fails or not. -/
theorem Holds.of_perform (hfs : fs.WellFormed) (hholds : Holds fs file known S)
    (huses : Run.UsesOnly fs path c file) (hapart : Run.Start.TellsApart ⟨fs, path, c⟩ known)
    (h : Run.perform fs path c d state = some o) :
    ∃ S', Passes known S (Run.events fs path c d state) S' ∧ o.fs.WellFormed ∧
      Holds o.fs file known S' := by
  rcases Run.exists_fault_or_ground path c hfs with ⟨error, hfault⟩ | ⟨⟨g⟩⟩
  · obtain ⟨after, hchanges, hperform⟩ := Run.exists_perform_of_fault hfs hfault state
    cases h.symm.trans (hperform d)
    rw [Run.events_of_fault hfs hfault]
    exact ⟨S, .refl S, hholds.of_fault hfs huses hfault hchanges⟩
  · exact hholds.of_ground hfs g huses hapart h

namespace Series

variable {events : List Event} {starts : List Run.Start}

/-- A series goes by steps, from no settled contents. -/
theorem exists_passes (h : Series file events starts fs)
    (hapart : ∀ s ∈ starts, s.TellsApart known) :
    fs.WellFormed ∧ ∃ S, Passes known (fun _ => False) events S ∧ Holds fs file known S := by
  induction h with
  | @start fs db hfs hdb hblank =>
    refine ⟨hfs, _, .refl _, db, hdb, hblank.1, ?_⟩
    funext hash
    refine eq_false ?_
    rintro ⟨e, he, -⟩
    rw [Cache.known?_of_blank hblank] at he
    cases he
  | edit _ hafter hsame ih =>
    obtain ⟨-, S, hpasses, hholds⟩ := ih hapart
    refine ⟨hafter, S, hpasses, hholds.of_opened fun db hdb => ?_⟩
    exact ⟨db, hsame.trans hdb, .inl rfl⟩
  | run _ huses h ih =>
    obtain ⟨hfs, S, hpasses, hholds⟩ := ih fun s hs => hapart s (List.mem_append_left _ hs)
    obtain ⟨S', hnext, hafter, hholds⟩ := hholds.of_perform hfs huses
      (hapart _ (List.mem_append_right _ List.mem_cons_self)) h
    exact ⟨hafter, S', hpasses.append hnext, hholds⟩

/-- A script with one function of the given name. -/
def scriptText (name : String) : Bytes := Utf8.encode ("function " ++ name ++ "() {}\n")

/-- A directory with a script. -/
def script (name : String) : FileSystem where
  entries := .cons "r" (.directory (.cons "a.js" (.file (.bytes (scriptText name))) .nil)) .nil

/-- The files with another script. -/
def rescripted (fs : FileSystem) : FileSystem :=
  fs.setAt ["r", "a.js"] (.file (.bytes (scriptText "g")))

/-- A describer that says the same of everything, and names nothing. -/
def plain : Describer Unit := fun _ _ => (.ok "text", ())

/-- What is asked about the script. -/
def scriptQuestion (name : String) : Question where
  summary := {
    name := "a.js", language := "JavaScript", imports := [], functions := [name], types := [],
    constants := [] }
  model := "anthropic/claude-3.5-sonnet"

/-- The events of a run that describes the script. -/
def scriptEvents (name : String) : List Event := [
  .read "/r/a.js" (Sha256.hash (scriptText name)), .asked "/r/a.js" (scriptQuestion name),
  .accepted "/r/a.js" (Sha256.hash (scriptText name))]

/-- The place of the cache beside the script. -/
def scriptCache : Place := ["r", ".repo-map-cache.db"]

/-- A run over the directory of the script uses the cache there. -/
theorem usesOnly_script (hroot : validateRoot fs "/r" = .ok ["r"])
    (hcache : fs.resolveNew (({} : Config).cachePath "/r") = .ok scriptCache) :
    Run.UsesOnly fs "/r" {} scriptCache := by
  intro root place hvalid hplace
  cases hroot.symm.trans hvalid
  exact (Except.ok.inj (hcache.symm.trans hplace)).symm

/-- The script in two directories whose names are no texts and are shown alike. -/
def twinScripts : FileSystem where
  entries :=
    .cons "r" (.directory
      (.cons [0x64, 0xFE] (.directory (.cons "a.js" (.file (.bytes (scriptText "f"))) .nil))
      (.cons [0x64, 0xFF] (.directory (.cons "a.js" (.file (.bytes (scriptText "f"))) .nil))
      .nil))) .nil

/-- The path on record of both scripts. -/
def twinPath : String := "/r/d\uFFFD/a.js"

/-- The events of one of two files that is described. -/
def twinAnswer : List Event :=
  [.asked twinPath (scriptQuestion "f"), .accepted twinPath (Sha256.hash (scriptText "f"))]

/-- What a run over the two finds. -/
def twinGround : Run.Ground twinScripts "/r" {} where
  root := ["r"]
  walked := (openCache twinScripts (({} : Config).cachePath (Path.ofNames ["r"]))).1
  file := scriptCache
  cache := (Migration.run {}).1
  validated := by decide +kernel
  opened := Prod.ext rfl (by decide +kernel)
  listed := by decide +kernel

theorem events_twinScripts : Run.events twinScripts "/r" {} (some plain) () =
    List.replicate 2 (.read twinPath (Sha256.hash (scriptText "f"))) ++ twinAnswer ++
      twinAnswer := by
  rw [twinGround.events_eq, Run.Ground.walk, Walk.collect,
    Walk.survey_of_pairwise rfl rfl rfl rfl (by decide +kernel)]
  decide +kernel

/-- In one run, a describer is asked about the path of the two again, with nothing read
    since its answer was accepted. -/
theorem twins_described_twice :
    ∃ starts fs before after, Series scriptCache (before ++
      .accepted twinPath (Sha256.hash (scriptText "f")) ::
        ([] ++ .asked twinPath (scriptQuestion "f") :: after)) starts fs := by
  have hfs : twinScripts.WellFormed := by decide
  obtain ⟨o, ho⟩ : ∃ o, Run.perform twinScripts "/r" {} (some plain) () = some o :=
    Run.exists_outcome hfs (by decide +kernel) (some plain) ()
  have hstart : Series scriptCache [] [] twinScripts := .start hfs rfl Cache.blank_empty
  have hrun := hstart.run (usesOnly_script (by decide +kernel) (by decide +kernel)) ho
  rw [events_twinScripts] at hrun
  exact ⟨_, o.fs, List.replicate 2 (.read twinPath (Sha256.hash (scriptText "f"))) ++
    twinAnswer.take 1, twinAnswer.drop 1, hrun⟩

end Series

end RepoAtlas
