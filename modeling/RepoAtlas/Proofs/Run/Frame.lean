import RepoAtlas.Proofs.Bytes.Utf8
import RepoAtlas.Proofs.Describe.Inquiry
import RepoAtlas.Proofs.Run.Faults
import RepoAtlas.Proofs.Snapshot
import RepoAtlas.Proofs.Walk.Exactness
import RepoAtlas.Proofs.Walk.Verdicts

/-!
# What runs leave of the files

A run writes a few files, may remove the journal of its cache, and leaves all others as
they are (`Run.perform_framed`). A run that fails writes none but its cache and those
beside it (`Run.Fails`). Any other writes a snapshot of what it walked and a map of what
it returns, where they can be written (`Run.Succeeds`), if the files that it writes are
apart (`Config.Apart`).

The files change one after the other. As they are files that paths lead to, or the
journal, no path leads to another place than before (`ChangedAt.placesOf_subset`,
`ChangedAt.resolveNew_eq_of_notMem`), and what a file holds is read under the path
that it was written under (`ChangedAt.read_eq`).
-/

namespace RepoAtlas

open FileSystem (ChangedAt IsEnd KeptOrGone MayEnd SameTurns)

/-! ### Files that paths lead to -/

theorem placesOf_eq {fs : FileSystem} {path : Bytes} {place : Place}
    (h : fs.resolveNew path = .ok place) : placesOf fs path = [place] := by
  rw [placesOf, h]
  rfl

theorem mem_placesOf {fs : FileSystem} {path : Bytes} {place : Place} :
    place ∈ placesOf fs path ↔ fs.resolveNew path = .ok place := by
  rw [placesOf]
  cases fs.resolveNew path <;> simp [Except.toOption, eq_comm]

namespace FileSystem

variable {fs after : FileSystem} {places : List Place} {path : Bytes} {place : Place}

/-- Whether a file may be written where a path leads. -/
def IsWritable (fs : FileSystem) (path : Bytes) : Prop :=
  ∃ bytes after, fs.write path bytes = .ok after

theorem writeContent_eq (hplace : fs.resolveNew path = .ok place)
    (hnot : ∀ below, fs.nodeAt? place ≠ some (.directory below)) (content : Content) :
    fs.writeContent path content = .ok (fs.setAt place (.file content)) := by
  rw [writeContent, hplace]
  dsimp only [bind, Except.bind]
  split
  · rename_i below hnode
    exact absurd hnode (hnot below)
  · rfl

theorem isWritable_iff : fs.IsWritable path ↔ ∃ place,
    fs.resolveNew path = .ok place ∧ ∀ below, fs.nodeAt? place ≠ some (.directory below) := by
  constructor
  · rintro ⟨bytes, after, hwrite⟩
    rw [write, writeContent] at hwrite
    cases hplace : fs.resolveNew path with
    | error e => rw [hplace] at hwrite; cases hwrite
    | ok place =>
      refine ⟨place, rfl, fun below hnode => ?_⟩
      rw [hplace] at hwrite
      simp only [bind, Except.bind, hnode] at hwrite
      cases hwrite
  · rintro ⟨place, hplace, hnot⟩
    exact ⟨[], _, writeContent_eq hplace hnot _⟩

theorem MayEnd.congr {new : Bool}
    (h : (after.nodeAt? place).map Node.face = (fs.nodeAt? place).map Node.face)
    (hend : fs.MayEnd new place) : after.MayEnd new place := by
  refine hend.imp_left fun ⟨node, hnode⟩ => ?_
  rw [hnode, Option.map_some, Option.map_eq_some_iff] at h
  obtain ⟨found, hfound, -⟩ := h
  exact ⟨found, hfound⟩

/-- Paths lead to ends. -/
theorem isEnd_of_mem_placesOf {paths : List Bytes} {p : Place}
    (h : p ∈ paths.flatMap (placesOf fs)) : fs.IsEnd true p := by
  obtain ⟨_, _, hmem⟩ := List.mem_flatMap.1 h
  exact isEnd_of_resolveNew (mem_placesOf.1 hmem)

namespace ChangedAt

variable (h : ChangedAt places fs after) (hends : ∀ p ∈ places, fs.IsEnd true p)

include h hends

theorem sameTurns_of_ends : SameTurns fs after := h.sameTurns fun p hp => (hends p hp).not_link

/-- Where files change at ends, no path leads anywhere new. -/
theorem placesOf_subset (path : Bytes) : placesOf after path ⊆ placesOf fs path := by
  intro place hmem
  have hplace := mem_placesOf.1 hmem
  refine mem_placesOf.2 ((h.sameTurns_of_ends hends).symm.resolveNew_eq ?_ hplace)
  by_cases hchanged : place ∈ places
  · exact (hends place hchanged).mayEnd
  · exact (isEnd_of_resolveNew hplace).mayEnd.congr (h.face place hchanged).symm

theorem resolveNew_eq_of_notMem (hnot : place ∉ places)
    (hplace : fs.resolveNew path = .ok place) : after.resolveNew path = .ok place :=
  (h.sameTurns_of_ends hends).resolveNew_eq
    ((isEnd_of_resolveNew hplace).mayEnd.congr (h.face place hnot)) hplace

/-- What is in a file is read under each path that leads there. -/
theorem read_eq (hplace : fs.resolveNew path = .ok place) {content : Content}
    (hnode : after.nodeAt? place = some (.file content)) :
    after.read path = .ok content.toBytes := by
  rw [read, readContent, find, (h.sameTurns_of_ends hends).resolve_eq hnode hplace]
  simp only [bind, Except.bind, hnode]
  rfl

end ChangedAt

end FileSystem

/-- A text that may be written is in its file when it is saved. -/
theorem Run.nodeAt?_save {fs : FileSystem} {path : Bytes} {place : Place}
    (hplace : fs.resolveNew path = .ok place)
    (hnot : ∀ below, fs.nodeAt? place ≠ some (.directory below)) (text : String) :
    (save fs path text).nodeAt? place = some (.file (.bytes (Utf8.encode text))) := by
  rw [save, FileSystem.writeText, FileSystem.write, FileSystem.writeContent_eq hplace hnot]
  exact FileSystem.nodeAt?_setAt (FileSystem.hasParent_of_resolveNew hplace) hnot _

/-! ### Artifacts that are apart -/

/-- The paths of the cache and of the two files beside it. -/
def cachePaths (path : Bytes) : List Bytes := path :: sideEndings.map (path ++ ·)

theorem Config.artifacts_eq (c : Config) (root : Bytes) : c.artifacts root =
    cachePaths (c.cachePath root) ++ [c.snapshotPath root, c.mapPath root] := rfl

/-- Whether the files that a run over a root writes are apart: no two of their
    paths lead to the same place, none is a link, and where there is a place for
    the cache, there is one for each file beside it. The journal of the cache is one
    more such file. -/
structure Config.Apart (c : Config) (fs : FileSystem) (root : Bytes) : Prop where
  nodup : ((c.artifacts root).flatMap (placesOf fs)).Nodup
  not_link : ∀ artifact ∈ c.artifacts root, ∀ place target,
    fs.placeOfName artifact = .ok place → fs.nodeAt? place ≠ some (.link target)
  beside : ∀ place, fs.resolveNew (c.cachePath root) = .ok place → ∀ ending ∈ sideEndings,
    ∃ side, fs.resolveNew (c.cachePath root ++ ending) = .ok side
  journal : ∀ place, fs.placeOfName (c.cachePath root ++ journalEnding) = .ok place →
    place ∉ (c.artifacts root).flatMap (placesOf fs) ∧
      ∀ target, fs.nodeAt? place ≠ some (.link target)

namespace Config.Apart

variable {c : Config} {fs : FileSystem} {root : Bytes} {place : Place}

theorem nodup_append (h : c.Apart fs root) :
    ((cachePaths (c.cachePath root)).flatMap (placesOf fs) ++ placesOf fs (c.snapshotPath root) ++
      placesOf fs (c.mapPath root)).Nodup := by
  have hnodup := h.nodup
  rw [Config.artifacts_eq, List.flatMap_append, List.flatMap_cons, List.flatMap_singleton,
    ← List.append_assoc] at hnodup
  exact hnodup

theorem snapshot_notMem (h : c.Apart fs root)
    (hplace : fs.resolveNew (c.snapshotPath root) = .ok place) :
    place ∉ (cachePaths (c.cachePath root)).flatMap (placesOf fs) ∧
      place ∉ placesOf fs (c.mapPath root) := by
  have hmem := mem_placesOf.2 hplace
  obtain ⟨hfront, -, hmap⟩ := List.nodup_append.1 h.nodup_append
  obtain ⟨-, -, hcache⟩ := List.nodup_append.1 hfront
  exact ⟨fun hother => hcache place hother place hmem rfl,
    fun hother => hmap place (List.mem_append_right _ hmem) place hother rfl⟩

theorem map_notMem (h : c.Apart fs root) (hplace : fs.resolveNew (c.mapPath root) = .ok place) :
    place ∉ (cachePaths (c.cachePath root)).flatMap (placesOf fs) ++
      placesOf fs (c.snapshotPath root) := by
  obtain ⟨-, -, hmap⟩ := List.nodup_append.1 h.nodup_append
  exact fun hother => hmap place hother place (mem_placesOf.2 hplace) rfl

section Cache

variable (h : c.Apart fs root) (hplace : fs.resolveNew (c.cachePath root) = .ok place)
  (hnot : ∀ below, fs.nodeAt? place ≠ some (.directory below))

include h hplace hnot

/-- The files beside the cache are where their paths lead. -/
theorem cachePlaces_eq :
    cachePlaces place = (cachePaths (c.cachePath root)).flatMap (placesOf fs) := by
  have hside {ending : Bytes} (hending : ending ∈ sideEndings) :
      placesOf fs (c.cachePath root ++ ending) = [besides place ending] := by
    have hmem : c.cachePath root ++ ending ∈ c.artifacts root := by
      rw [artifacts_eq]
      exact List.mem_append_left _ (List.mem_cons_of_mem _ (List.mem_map_of_mem hending))
    obtain ⟨side, hfound⟩ := h.beside place hplace ending hending
    obtain ⟨parent, s, rfl, rfl⟩ := FileSystem.places_of_append
      (fun _ => isName_append (List.mem_cons_of_mem _ hending)) hplace hnot
      (h.not_link _ List.mem_cons_self) hfound (h.not_link _ hmem)
    rw [placesOf_eq hfound, besides_append_singleton]
  rw [cachePlaces, cachePaths, List.flatMap_cons, List.flatMap_map, placesOf_eq hplace,
    List.singleton_append, List.map_eq_flatMap]
  exact congrArg _ (List.flatMap_congr fun ending hending => (hside hending).symm)

/-- The journal of the cache is where its path says. -/
theorem placeOfName_journal :
    fs.placeOfName (c.cachePath root ++ journalEnding) = .ok (besides place journalEnding) := by
  obtain ⟨parent, s, rfl, hfound⟩ := FileSystem.placeOfName_append
    (fun _ => isName_append List.mem_cons_self) hplace hnot (h.not_link _ List.mem_cons_self)
  rw [hfound, besides_append_singleton]

end Cache

/-- Whether files are apart can be found out. -/
theorem of_places (hnodup : ((c.artifacts root).flatMap (placesOf fs)).Nodup)
    (hlinks : ∀ link ∈ fs.links, ∀ file ∈ (c.cachePath root ++ journalEnding) :: c.artifacts root,
      fs.placeOfName file ≠ .ok link)
    (hbeside : ∀ ending ∈ sideEndings,
      (fs.resolveNew (c.cachePath root ++ ending)).toOption.isSome)
    (hjournal : fs.placeOfName (c.cachePath root ++ journalEnding) = .ok place)
    (hplace : place ∉ (c.artifacts root).flatMap (placesOf fs)) : c.Apart fs root := by
  have hlink {file : Bytes} {p : Place}
      (hfile : file ∈ (c.cachePath root ++ journalEnding) :: c.artifacts root)
      (hp : fs.placeOfName file = .ok p) (target : Bytes) : fs.nodeAt? p ≠ some (.link target) :=
    fun hnode => hlinks p (FileSystem.mem_links_of_nodeAt? hnode) file hfile hp
  refine ⟨hnodup, fun file hfile _ target hp => hlink (List.mem_cons_of_mem _ hfile) hp target,
    fun _ _ ending hending => ?_, fun p hp => ?_⟩
  · obtain ⟨side, hside⟩ := Option.isSome_iff_exists.1 (hbeside ending hending)
    cases hfound : fs.resolveNew (c.cachePath root ++ ending) with
    | error e => rw [hfound] at hside; cases hside
    | ok side => exact ⟨side, rfl⟩
  · cases hjournal.symm.trans hp
    exact ⟨hplace, hlink List.mem_cons_self hp⟩

end Config.Apart

namespace Run.Ground

variable {fs : FileSystem} {path : Bytes} {c : Config} {g : Ground fs path c} {place : Place}

/-! ### The files of a run, one after the other -/

/-- What is in a file stays there when the cache is closed. -/
theorem nodeAt?_closed (hfs : fs.WellFormed) (text : String) (database : Database)
    {content : Content} (hplace : place ∉ cachePlaces g.file)
    (hnode : (save g.saved (c.mapPath (Path.ofNames g.root)) text).nodeAt? place =
      some (.file content)) :
    (closeCache (save g.saved (c.mapPath (Path.ofNames g.root)) text) g.file database).nodeAt?
      place = some (.file content) := by
  have hmapped := changedAt_mapped (g := g) hfs text
  generalize save g.saved (c.mapPath (Path.ofNames g.root)) text = mapped at hmapped hnode ⊢
  exact (changedAt_closeCache hmapped.wellFormed (place_of_openCache g.opened).1
    (hmapped.ne_directory (ne_directory_file hfs)) database).nodeAt?_file hplace hnode

section

variable (hfs : fs.WellFormed) (hapart : c.Apart fs (Path.ofNames g.root))

include hapart

theorem cachePlaces_eq : cachePlaces g.file =
    (cachePaths (c.cachePath (Path.ofNames g.root))).flatMap (placesOf fs) :=
  hapart.cachePlaces_eq (databaseAt?_of_openCache g.opened).1 (place_of_openCache g.opened).2

/-- The journal is none of the files that a run writes, and no link. -/
theorem journal_apart :
    besides g.file journalEnding ∉
        (c.artifacts (Path.ofNames g.root)).flatMap (placesOf fs) ∧
      ∀ target, fs.nodeAt? (besides g.file journalEnding) ≠ some (.link target) :=
  hapart.journal _ (hapart.placeOfName_journal (databaseAt?_of_openCache g.opened).1
    (place_of_openCache g.opened).2)

/-- No path of a file that a run writes leads to the journal. -/
theorem notMem_journal {artifact : Bytes} (hartifact : artifact ∈ c.artifacts (Path.ofNames g.root))
    (hplace : fs.resolveNew artifact = .ok place) : place ∉ g.journal := by
  intro hmem
  obtain ⟨rfl, -⟩ := mem_taken.1 hmem
  exact (journal_apart hapart).1
    (List.mem_flatMap.2 ⟨artifact, hartifact, mem_placesOf.2 hplace⟩)

/-- A run changes files at ends. -/
theorem isEnd_of_mem {paths : List Bytes} {p : Place}
    (hp : p ∈ g.journal ++ paths.flatMap (placesOf fs)) : fs.IsEnd true p := by
  rcases List.mem_append.1 hp with hp | hp
  · obtain ⟨rfl, node, hnode⟩ := mem_taken.1 hp
    exact ⟨FileSystem.hasParent_of_nodeAt? hnode, .inl ⟨node, hnode⟩, (journal_apart hapart).2⟩
  · exact FileSystem.isEnd_of_mem_placesOf hp

include hfs

theorem changedAt_cache :
    ChangedAt (g.journal ++ (cachePaths (c.cachePath (Path.ofNames g.root))).flatMap (placesOf fs))
      fs g.walked := by
  rw [← cachePlaces_eq hapart]
  exact (changedAt_walked hfs).1

theorem changedAt_saved :
    ChangedAt (g.journal ++ (cachePaths (c.cachePath (Path.ofNames g.root)) ++
      [c.snapshotPath (Path.ofNames g.root)]).flatMap (placesOf fs)) fs g.saved := by
  have hwalked := changedAt_cache hfs hapart
  rw [List.flatMap_append, List.flatMap_singleton, ← List.append_assoc]
  refine hwalked.trans ((changedAt_save hwalked.wellFormed _ _).mono ?_)
  exact hwalked.placesOf_subset (fun _ => isEnd_of_mem hapart) _

/-- What a run writes is where the paths of its artifacts led before. -/
theorem written_subset :
    g.written ⊆ (c.artifacts (Path.ofNames g.root)).flatMap (placesOf fs) := by
  intro p hp
  rw [written, cachePlaces_eq hapart, List.mem_append, List.mem_append] at hp
  rw [Config.artifacts_eq, List.flatMap_append, List.flatMap_cons, List.flatMap_singleton,
    List.mem_append, List.mem_append]
  rcases hp with (hcache | hsnapshot) | hmap
  · exact .inl hcache
  · exact .inr (.inl ((changedAt_cache hfs hapart).placesOf_subset
      (fun _ => isEnd_of_mem hapart) _ hsnapshot))
  · exact .inr (.inr ((changedAt_saved hfs hapart).placesOf_subset
      (fun _ => isEnd_of_mem hapart) _ hmap))

/-- The snapshot that can be written is in its file when the cache is closed. -/
theorem nodeAt?_snapshot (hplace : fs.resolveNew (c.snapshotPath (Path.ofNames g.root)) = .ok place)
    (hnot : ∀ below, fs.nodeAt? place ≠ some (.directory below)) (text : String)
    (database : Database) :
    (closeCache (save g.saved (c.mapPath (Path.ofNames g.root)) text) g.file database).nodeAt?
      place = some (.file (.bytes (Utf8.encode (Snapshot.text g.walk.records)))) := by
  obtain ⟨hcache, hmap⟩ := hapart.snapshot_notMem hplace
  have hjournal := notMem_journal hapart (by simp [Config.artifacts_eq]) hplace
  have hwalked := changedAt_cache hfs hapart
  have hsaved := changedAt_saved hfs hapart
  have hthere := hwalked.resolveNew_eq_of_notMem (fun _ => isEnd_of_mem hapart)
    (fun hmem => (List.mem_append.1 hmem).elim hjournal hcache) hplace
  have hnode : g.saved.nodeAt? place = _ := nodeAt?_save hthere (hwalked.ne_directory hnot) _
  -- Neither the map is written there, nor the cache.
  refine nodeAt?_closed hfs text database (cachePlaces_eq hapart ▸ hcache) ?_
  exact (changedAt_save hsaved.wellFormed _ _).nodeAt?_file (fun hmem =>
    hmap (hsaved.placesOf_subset (fun _ => isEnd_of_mem hapart) _ hmem)) hnode

/-- The map that can be written is in its file when the cache is closed. -/
theorem nodeAt?_map (hplace : fs.resolveNew (c.mapPath (Path.ofNames g.root)) = .ok place)
    (hnot : ∀ below, fs.nodeAt? place ≠ some (.directory below)) (text : String)
    (database : Database) :
    (closeCache (save g.saved (c.mapPath (Path.ofNames g.root)) text) g.file database).nodeAt?
      place = some (.file (.bytes (Utf8.encode text))) := by
  have hothers := hapart.map_notMem hplace
  have hjournal := notMem_journal hapart (by simp [Config.artifacts_eq]) hplace
  have hsaved := changedAt_saved hfs hapart
  refine nodeAt?_closed hfs text database ?_ ?_
  · rw [cachePlaces_eq hapart]
    exact fun hmem => hothers (List.mem_append_left _ hmem)
  · rw [← List.flatMap_singleton (placesOf fs), ← List.flatMap_append] at hothers
    have hthere := hsaved.resolveNew_eq_of_notMem (fun _ => isEnd_of_mem hapart)
      (fun hmem => (List.mem_append.1 hmem).elim hjournal hothers) hplace
    exact nodeAt?_save hthere (hsaved.ne_directory hnot) text

end

end Run.Ground

namespace Run

variable {fs : FileSystem} {path : Bytes} {c : Config} {σ : Type}

/-! ### Whole runs -/

/-- What a run that fails leaves: it has asked nobody, it would have come to the
    same with anybody else to ask, and no file is another one but those that change when
    its cache is opened. -/
structure Fails (fs : FileSystem) (path : Bytes) (c : Config) (state : σ) (o : Outcome σ)
    (error : RunError) : Prop where
  attempts : o.attempts = []
  describer : o.describer = state
  anybody : ∀ d, perform fs path c d state = some o
  changes : Fault.Changes fs c error o.fs

/-- What a run leaves that goes on from its ground: the records of the walk in the
    snapshot, and those that it returns in the map, if these can be written; and
    every other file as it was, but for the journal of the cache, which may be gone. -/
structure Succeeds (g : Ground fs path c) (d : Option (Describer σ)) (state : σ) (o : Outcome σ)
    (run : Run) : Prop where
  root : run.root = Path.ofNames g.root
  described : ∃ round stats, describe d c g.walk.records g.walk.cache state = some (round, stats) ∧
    run.records = round.records
  changed : ChangedAt (g.journal ++ (c.artifacts run.root).flatMap (placesOf fs)) fs o.fs
  journal : KeptOrGone fs o.fs (besides g.file journalEnding)
  snapshot : fs.IsWritable (c.snapshotPath run.root) →
    o.fs.read (c.snapshotPath run.root) = .ok (Utf8.encode (Snapshot.text g.walk.records)) ∧
      (fs.height < Nat.pow 2 64 →
        Snapshot.load o.fs (c.snapshotPath run.root) = .ok g.walk.records)
  map : fs.IsWritable (c.mapPath run.root) →
    o.fs.read (c.mapPath run.root) =
      .ok (Utf8.encode (treeMap run.records (repositoryName run.root)))

/-- No record of the walk is deeper than the tree is high. -/
theorem depth_le_height (g : Ground fs path c) (hfs : fs.WellFormed) :
    ∀ r ∈ g.walk.records, r.depth ≤ fs.height := by
  obtain ⟨hwalked, entries, hroot⟩ := Ground.exists_directory_walked (g := g) hfs
  obtain ⟨hchanged, -⟩ := Ground.changedAt_walked (g := g) hfs
  have hlisting : Walk.Listing g.walked g.artifacts g.root [] _ :=
    Walk.listing_survey hwalked hroot
  have hshown : g.walk.records.map Record.shown =
      (Walk.survey g.walked g.artifacts g.root).map Walk.Sight.shown := Walk.shown_collect
  intro r hr
  -- The record shows something seen, and is as deep as that.
  obtain ⟨x, hx, hsame⟩ := List.mem_map.1 (hshown ▸ List.mem_map_of_mem hr)
  have hdepth : x.depth = r.depth := congrArg Shown.depth hsame
  obtain ⟨names, hreached, -, hlength⟩ := hlisting.reached_of_mem hx
  have hne : names ≠ [] := by
    rintro rfl
    cases hlength
  obtain ⟨-, node, hnode, -⟩ := (Walk.survives_iff hwalked hne).1 hreached.survives
  -- What it is of is in a directory, which was there before the cache was opened.
  obtain ⟨front, s, rfl⟩ := (List.eq_nil_or_concat names).resolve_left hne
  rw [List.concat_eq_append] at hnode hlength
  rw [← List.append_assoc] at hnode
  obtain ⟨below, hbelow, -⟩ := FileSystem.nodeAt?_append_singleton.1 hnode
  obtain ⟨below, hbelow⟩ := (hchanged.directory _).1 ⟨below, hbelow⟩
  have hle := FileSystem.length_le_height hbelow
  rw [List.length_append] at hle hlength
  rw [List.length_singleton] at hlength
  omega

theorem load_of_read {fs : FileSystem} {path : Bytes} {records : List Record}
    (h : fs.read path = .ok (Utf8.encode (Snapshot.text records)))
    (hdepth : ∀ r ∈ records, r.depth < Nat.pow 2 64) : Snapshot.load fs path = .ok records := by
  rw [Snapshot.load, h]
  dsimp only
  rw [Utf8.decode?_encode]
  dsimp only
  rw [Snapshot.records_text fun r hr => Nat.le_sub_one_of_lt (hdepth r hr)]
  rfl

theorem succeeds {d : Option (Describer σ)} {state : σ} {o : Outcome σ} {run : Run}
    (g : Ground fs path c) (hfs : fs.WellFormed) (hapart : c.Apart fs (Path.ofNames g.root))
    (h : perform fs path c d state = some o) (hok : o.result = .ok run) :
    Succeeds g d state o run := by
  obtain ⟨round, stats, hdescribe, hafter, found, hfound, hroot, hrecords⟩ := g.exists_describe h
  cases hok.symm.trans hfound
  obtain ⟨hperform, hjournal⟩ := Ground.changedAt_perform (g := g) hfs h
  have hwritten := Ground.written_subset hfs hapart
  have hchanged : ChangedAt
      (g.journal ++ (c.artifacts (Path.ofNames g.root)).flatMap (placesOf fs)) fs o.fs :=
    hperform.mono (List.append_subset.2 ⟨List.subset_append_left _ _,
      List.subset_append_of_subset_right _ hwritten⟩)
  have hends : ∀ p ∈ g.journal ++ (c.artifacts (Path.ofNames g.root)).flatMap (placesOf fs),
      fs.IsEnd true p := fun _ => Ground.isEnd_of_mem hapart
  refine ⟨hroot, ⟨round, stats, hdescribe, hrecords⟩, hroot ▸ hchanged,
    hjournal fun hmem => (Ground.journal_apart hapart).1 (hwritten hmem),
    fun hwritable => ?_, fun hwritable => ?_⟩
  · rw [hroot] at hwritable ⊢
    obtain ⟨place, hplace, hnot⟩ := FileSystem.isWritable_iff.1 hwritable
    have hread := hchanged.read_eq hends hplace
      (hafter ▸ Ground.nodeAt?_snapshot hfs hapart hplace hnot _ _)
    exact ⟨hread, fun hheight => load_of_read hread fun r hr =>
      Nat.lt_of_le_of_lt (depth_le_height g hfs r hr) hheight⟩
  · rw [hroot] at hwritable ⊢
    obtain ⟨place, hplace, hnot⟩ := FileSystem.isWritable_iff.1 hwritable
    rw [hrecords]
    exact hchanged.read_eq hends hplace (hafter ▸ Ground.nodeAt?_map hfs hapart hplace hnot _ _)

/-- A repository with one script, and a link to it. -/
def linked : FileSystem where
  entries :=
    .cons "home" (.link "repo")
    (.cons "repo" (.directory
      (.cons "a.js" (.file (.bytes (Utf8.encode "function f() {}\n"))) .nil)) .nil)

/-- A describer without an answer, which counts the questions. -/
def mute : Describer Nat := fun asked _ => (.error .noChoice, asked + 1)

theorem validateRoot_linked : validateRoot linked "/home" = .ok ["repo"] := by decide +kernel

/-- No link is where a run over the repository writes. -/
theorem apart_linked : ({} : Config).Apart linked "/repo" := by
  have hjournal : linked.placeOfName (({} : Config).cachePath "/repo" ++ journalEnding) =
      .ok ["repo", ".repo-map-cache.db-journal"] := by decide +kernel
  exact .of_places (by decide +kernel) (by decide +kernel) (by decide +kernel) hjournal
    (by decide +kernel)

/-- A repository without files, and a file in the place of the journal of a cache. -/
def journaled : FileSystem where
  entries :=
    .cons "repo" (.directory .nil)
    (.cons "state" (.directory
      (.cons "c.db-journal" (.file (.bytes (Utf8.encode "x"))) .nil)) .nil)

end Run

end RepoAtlas
