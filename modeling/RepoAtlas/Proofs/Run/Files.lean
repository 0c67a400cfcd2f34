import RepoAtlas.Proofs.Walk.Exactness
import RepoAtlas.Run

/-!
# The files of a run

What a run finds before it walks (`Run.Ground`), and the places of the files that
it writes itself (`Ground.written`): the cache with the two files beside it, the
snapshot and the map. The run leaves the directories as they are, and every
other place keeps what it has, but for that of the journal of the cache
(`Ground.changedAt_perform`).

The cache is opened in a few steps, each of which changes files at the places
beside it only (`changedAt_openCache`): it is put into its file, its journal is
settled, and it is brought up to date (`upgradeCache`).
-/

namespace RepoAtlas

open FileSystem (ChangedAt KeptOrGone)
open RepoAtlas.Path (IsName)

variable {fs after settled : FileSystem} {path : Bytes} {place file : Place} {content : Content}
  {cache db : Database}

/-! ### Places beside a cache -/

/-- The places of the cache and of the two files beside it. -/
def cachePlaces (file : Place) : List Place := file :: sideEndings.map (besides file)

/-- A place, if something is there. -/
def taken (fs : FileSystem) (place : Place) : List Place :=
  if (fs.nodeAt? place).isSome then [place] else []

/-- The place of the journal of the cache, if there is one. -/
def journalOf (fs : FileSystem) (file : Place) : List Place :=
  taken fs (besides file journalEnding)

/-- The places that may change when the cache is opened. -/
def openPlaces (fs : FileSystem) (file : Place) : List Place :=
  journalOf fs file ++ cachePlaces file

/-- What is added to the name of the cache has no slash and is longer than two dots. -/
theorem isEnding_of_mem {ending : Bytes} (h : ending ∈ journalEnding :: sideEndings) :
    Path.slash ∉ ending ∧ 2 < ending.length := by
  revert ending
  decide +kernel

theorem isName_append {name ending : Bytes} (hending : ending ∈ journalEnding :: sideEndings)
    (h : IsName name) : IsName (name ++ ending) :=
  Path.isName_append h.no_slash (isEnding_of_mem hending)

theorem besides_append_singleton (place : Place) (name ending : Bytes) :
    besides (place ++ [name]) ending = place ++ [name ++ ending] := by
  rw [besides, List.getLast?_concat, List.dropLast_concat]

theorem isName_besides (hplace : ∀ s ∈ place, IsName s) {ending : Bytes}
    (hending : ending ∈ journalEnding :: sideEndings) : ∀ s ∈ besides place ending, IsName s := by
  intro s hs
  rw [besides] at hs
  split at hs
  · rename_i name hlast
    rcases List.mem_append.1 hs with hs | hs
    · exact hplace s (List.dropLast_subset _ hs)
    · rw [List.mem_singleton.1 hs]
      exact isName_append hending (hplace name (List.mem_of_getLast? hlast))
  · exact hplace s hs

/-- With nothing added to its name, a file is beside itself. -/
theorem besides_nil (place : Place) : besides place [] = place := by
  obtain rfl | ⟨front, name, rfl⟩ := List.eq_nil_or_concat place
  · rfl
  · rw [List.concat_eq_append, besides_append_singleton, List.append_nil]

/-- What is beside a file tells what was added to its name. -/
theorem besides_injective (hplace : place ≠ []) : Function.Injective (besides place) := by
  intro a b h
  obtain rfl | ⟨front, name, rfl⟩ := List.eq_nil_or_concat place
  · exact absurd rfl hplace
  · rw [List.concat_eq_append, besides_append_singleton, besides_append_singleton] at h
    exact List.append_cancel_left (List.singleton_inj.1 (List.append_cancel_left h))

/-- What is no directory is not the root directory. -/
theorem ne_nil_of_ne_directory (hnot : ∀ below, fs.nodeAt? file ≠ some (.directory below)) :
    file ≠ [] := by
  rintro rfl
  exact hnot fs.entries rfl

/-- What is no directory is at none of the places beside it. -/
theorem besides_ne (hnot : ∀ below, fs.nodeAt? file ≠ some (.directory below)) {ending : Bytes}
    (hending : ending ∈ journalEnding :: sideEndings) : file ≠ besides file ending := by
  intro heq
  have hnil : [] = ending :=
    besides_injective (ne_nil_of_ne_directory hnot) ((besides_nil file).trans heq)
  obtain ⟨-, hlong⟩ := isEnding_of_mem hending
  rw [← hnil] at hlong
  cases hlong

/-! ### The steps of opening a cache -/

/-- The database in the file at a place; an empty one, if nothing is there. -/
def databaseAt? (fs : FileSystem) (place : Place) : Option Database :=
  match fs.nodeAt? place with
  | none => some {}
  | some (.file content) => (databaseOf content).toOption
  | some _ => none

/-- A file of a cache is found where its path leads, if there is a file or nothing. -/
theorem cacheFile_eq_ok_iff : cacheFile fs path = .ok (file, content) ↔
    fs.resolveNew path = .ok file ∧
      (fs.nodeAt? file = none ∧ content = .bytes [] ∨ fs.nodeAt? file = some (.file content)) := by
  rw [cacheFile]
  cases hplace : fs.resolveNew path with
  | error e => simp
  | ok place =>
    dsimp only
    constructor
    · intro h
      split at h
      · rename_i hnode
        cases h
        exact ⟨rfl, .inl ⟨hnode, rfl⟩⟩
      · rename_i found hnode
        cases h
        exact ⟨rfl, .inr hnode⟩
      · cases h
    · rintro ⟨hfile, ⟨hnode, rfl⟩ | hnode⟩
      · cases hfile
        rw [hnode]
      · cases hfile
        rw [hnode]

/-- The file of a cache is no directory. -/
theorem place_of_cacheFile (h : cacheFile fs path = .ok (file, content)) :
    (∀ s ∈ file, IsName s) ∧ ∀ below, fs.nodeAt? file ≠ some (.directory below) := by
  obtain ⟨hplace, hnode⟩ := cacheFile_eq_ok_iff.1 h
  refine ⟨FileSystem.isName_of_resolveNew hplace, fun below hbelow => ?_⟩
  rcases hnode with ⟨hnone, -⟩ | hfound
  · cases hnone.symm.trans hbelow
  · cases hfound.symm.trans hbelow

/-- The database of the file that a path leads to is the one at its place. -/
theorem databaseAt?_of_cacheFile (h : cacheFile fs path = .ok (file, content)) :
    databaseAt? fs file = (databaseOf content).toOption := by
  rw [databaseAt?]
  rcases (cacheFile_eq_ok_iff.1 h).2 with ⟨hnone, rfl⟩ | hfound
  · rw [hnone]
    rfl
  · rw [hfound]

theorem mem_taken {p : Place} :
    p ∈ taken fs place ↔ p = place ∧ ∃ node, fs.nodeAt? place = some node := by
  rw [taken, ← Option.isSome_iff_exists]
  split <;> simp_all

/-- A journal that is settled is left as it was, or removed. -/
theorem settleJournal_ok {isNew : Bool} (h : settleJournal fs place isNew = .ok settled) :
    settled = fs ∨ settled = fs.eraseAt place ∧ ∃ node, fs.nodeAt? place = some node ∧
      ∀ below, node ≠ .directory below := by
  rw [settleJournal] at h
  split at h
  · split at h
    · cases h
    · cases h
      exact .inl rfl
  · rename_i hnode
    split at h
    · cases h
      exact .inr ⟨rfl, _, hnode, fun below heq => by cases heq⟩
    · cases h
      exact .inl rfl
  · cases h
  · rename_i hnode
    split at h
    · cases h
    · cases h
      split
      · exact .inr ⟨rfl, _, hnode, fun below heq => by cases heq⟩
      · exact .inl rfl

theorem changedAt_settleJournal {isNew : Bool} (hfs : fs.WellFormed)
    (hplace : ∀ s ∈ place, IsName s) (h : settleJournal fs place isNew = .ok settled) :
    ChangedAt (taken fs place) fs settled := by
  rcases settleJournal_ok h with rfl | ⟨rfl, node, hnode, hnot⟩
  · exact .refl hfs _
  · rw [taken, hnode, Option.isSome_some, if_pos rfl]
    exact FileSystem.changedAt_eraseAt hfs
      (fun below hbelow => hnot below (Option.some.inj (hnode.symm.trans hbelow))) hplace

theorem keptOrGone_settleJournal {isNew : Bool} (hfs : fs.WellFormed)
    (h : settleJournal fs place isNew = .ok settled) : KeptOrGone fs settled place := by
  rcases settleJournal_ok h with rfl | ⟨rfl, node, hnode, hnot⟩
  · exact .inl rfl
  · exact FileSystem.keptOrGone_eraseAt hfs (ne_nil_of_ne_directory fun below hbelow =>
      hnot below (Option.some.inj (hnode.symm.trans hbelow)))

theorem ne_directory_of_takesFile (h : takesFile fs place = true) :
    ∀ below, fs.nodeAt? place ≠ some (.directory below) := by
  intro below hnode
  rw [takesFile, hnode, Bool.and_false] at h
  cases h

section Sides

variable (hfs : fs.WellFormed) (hnames : ∀ s ∈ file, IsName s)

include hfs hnames

/-- Files put beside the cache, where they may be put. -/
theorem changedAt_putBeside (hfree : ∀ e ∈ sideEndings, takesFile fs (besides file e) = true) :
    ChangedAt (sideEndings.map (besides file)) fs
      (sideEndings.foldl (fun fs e => fs.setAt (besides file e) (.file (.bytes []))) fs) := by
  have hput : ChangedAt (sideEndings.map (besides file)) fs ((sideEndings.map (besides file)).foldl
      (fun now p => now.setAt p (.file (.bytes []))) fs) := by
    refine FileSystem.changedAt_foldl hfs fun now seen hnow p hp => ?_
    obtain ⟨e, he, rfl⟩ := List.mem_map.1 hp
    exact FileSystem.changedAt_setAt hnow.wellFormed _
      (hnow.ne_directory (ne_directory_of_takesFile (hfree e he)))
      (isName_besides hnames (List.mem_cons_of_mem _ he))
  rwa [List.foldl_map] at hput

theorem changedAt_clearBeside :
    ChangedAt (sideEndings.map (besides file)) fs
      (sideEndings.foldl (fun fs e => clearBeside fs (besides file e)) fs) := by
  have hclear : ChangedAt (sideEndings.map (besides file)) fs
      ((sideEndings.map (besides file)).foldl clearBeside fs) := by
    refine FileSystem.changedAt_foldl hfs fun now seen hnow p hp => ?_
    obtain ⟨e, he, rfl⟩ := List.mem_map.1 hp
    rw [clearBeside]
    split
    · exact .refl hnow.wellFormed _
    · rename_i hnot
      exact FileSystem.changedAt_eraseAt hnow.wellFormed hnot
        (isName_besides hnames (List.mem_cons_of_mem _ he))
  rwa [List.foldl_map] at hclear

variable (hnot : ∀ below, fs.nodeAt? file ≠ some (.directory below))

include hnot

theorem changedAt_closeCache (cache : Database) :
    ChangedAt (cachePlaces file) fs (closeCache fs file cache) := by
  have hset := FileSystem.changedAt_setAt hfs (.database cache) hnot hnames
  exact hset.trans (changedAt_clearBeside hset.wellFormed hnames)

/-- A cache that is closed is in its file. -/
theorem nodeAt?_closeCache (cache : Database) (hparent : fs.HasParent file) :
    (closeCache fs file cache).nodeAt? file = some (.file (.database cache)) := by
  have hset := FileSystem.changedAt_setAt hfs (.database cache) hnot hnames
  refine (changedAt_clearBeside hset.wellFormed hnames).nodeAt?_file ?_
    (FileSystem.nodeAt?_setAt hparent hnot (.file (.database cache)))
  intro hmem
  obtain ⟨e, he, heq⟩ := List.mem_map.1 hmem
  exact besides_ne hnot (List.mem_cons_of_mem _ he) heq.symm

/-- A cache that is brought up to date is put into its file, with the files beside it. -/
theorem changedAt_putCache (hfree : ∀ ending ∈ sideEndings,
    takesFile (fs.setAt file (.file (.database db))) (besides file ending) = true) :
    ChangedAt (cachePlaces file) fs (sideEndings.foldl
      (fun fs e => fs.setAt (besides file e) (.file (.bytes [])))
      (fs.setAt file (.file (.database db)))) := by
  have hset := FileSystem.changedAt_setAt hfs (.database db) hnot hnames
  exact hset.trans (changedAt_putBeside hset.wellFormed hnames hfree)

/-- Whether a cache can be brought up to date or not, only its file and those beside
    it change. -/
theorem changedAt_upgradeCache (db : Database) :
    ChangedAt (cachePlaces file) fs (upgradeCache fs file db).1 := by
  rw [upgradeCache]
  split
  · rename_i hfree
    have hput := changedAt_putCache hfs hnames hnot (List.all_eq_true.1 hfree)
    dsimp only
    split
    · rename_i last e hrun
      refine (hput.trans (changedAt_closeCache hput.wellFormed hnames (hput.ne_directory hnot)
        last)).mono (List.append_subset.2 ⟨List.Subset.refl _, List.Subset.refl _⟩)
    · rename_i last hrun
      refine (hput.trans (FileSystem.changedAt_setAt hput.wellFormed (.database last)
        (hput.ne_directory hnot) hnames)).mono (List.append_subset.2 ⟨List.Subset.refl _, ?_⟩)
      exact List.cons_subset.2 ⟨List.mem_cons_self, List.nil_subset _⟩
  · exact (FileSystem.changedAt_setAt hfs (.database db) hnot hnames).mono
      (List.cons_subset.2 ⟨List.mem_cons_self, List.nil_subset _⟩)

/-- Whether a cache can be brought up to date or not, its file then has it as it was or as
    far as it was brought. -/
theorem nodeAt?_upgradeCache (db : Database) (hparent : fs.HasParent file) :
    ∃ now, (upgradeCache fs file db).1.nodeAt? file = some (.file (.database now)) ∧
      (now = db ∨ now = (Migration.run db).1) := by
  rw [upgradeCache]
  split
  · rename_i hfree
    have hput := changedAt_putCache hfs hnames hnot (List.all_eq_true.1 hfree)
    have hthere := hput.ne_directory hnot
    dsimp only
    split
    · rename_i last e hrun
      exact ⟨last, nodeAt?_closeCache hput.wellFormed hnames hthere last (hput.hasParent hparent),
        .inr (by rw [hrun])⟩
    · rename_i last hrun
      exact ⟨last, FileSystem.nodeAt?_setAt (hput.hasParent hparent) hthere _,
        .inr (by rw [hrun])⟩
  · exact ⟨db, FileSystem.nodeAt?_setAt hparent hnot _, .inl rfl⟩

end Sides

/-- A cache that was brought up to date. -/
theorem upgradeCache_ok (h : (upgradeCache fs file db).2 = .ok (place, cache)) :
    place = file ∧ Migration.run db = (cache, none) := by
  rw [upgradeCache] at h
  split at h
  · dsimp only at h
    split at h
    · cases h
    · rename_i hrun
      cases h
      exact ⟨rfl, hrun⟩
  · cases h

/-! ### Opening a cache -/

/-- How the cache that a path leads to is opened, and what comes of it. -/
inductive Opening (fs : FileSystem) (path : Bytes) :
    FileSystem × Except DatabaseError (Place × Database) → Prop
  /-- There can be no file for it. -/
  | lost {e : DatabaseError} : cacheFile fs path = .error e → Opening fs path (fs, .error e)
  /-- Its journal cannot be settled. -/
  | unsettled {file : Place} {content : Content} {e : DatabaseError} :
    cacheFile fs path = .ok (file, content) →
      settleJournal (fs.setAt file (.file content)) (besides file journalEnding)
        (content = .bytes []) = .error e →
      Opening fs path (fs.setAt file (.file content), .error e)
  /-- Its file holds something else. -/
  | foreign {file : Place} {content : Content} {settled : FileSystem} {e : DatabaseError} :
    cacheFile fs path = .ok (file, content) →
      settleJournal (fs.setAt file (.file content)) (besides file journalEnding)
        (content = .bytes []) = .ok settled →
      databaseOf content = .error e → Opening fs path (settled, .error e)
  /-- It is brought up to date. -/
  | upgraded {file : Place} {content : Content} {settled : FileSystem} {db : Database} :
    cacheFile fs path = .ok (file, content) →
      settleJournal (fs.setAt file (.file content)) (besides file journalEnding)
        (content = .bytes []) = .ok settled →
      databaseOf content = .ok db → Opening fs path (upgradeCache settled file db)

theorem openCache_eq_iff {opened : FileSystem × Except DatabaseError (Place × Database)} :
    openCache fs path = opened ↔ Opening fs path opened := by
  constructor
  · rintro rfl
    rw [openCache]
    split
    · rename_i hfile
      exact .lost hfile
    · rename_i hfile
      dsimp only
      split
      · rename_i hsettled
        exact .unsettled hfile hsettled
      · rename_i hsettled
        split
        · rename_i hdb
          exact .foreign hfile hsettled hdb
        · rename_i hdb
          exact .upgraded hfile hsettled hdb
  · rintro (hfile | ⟨hfile, hsettled⟩ | ⟨hfile, hsettled, hdb⟩ | ⟨hfile, hsettled, hdb⟩)
    · rw [openCache, hfile]
    · rw [openCache, hfile]
      dsimp only
      rw [hsettled]
    · rw [openCache, hfile]
      dsimp only
      rw [hsettled]
      dsimp only
      rw [hdb]
    · rw [openCache, hfile]
      dsimp only
      rw [hsettled]
      dsimp only
      rw [hdb]

/-- A cache that is open was found where its path leads, its journal was settled, and it
    was brought up to date. -/
theorem openCache_ok (h : openCache fs path = (after, .ok (file, cache))) :
    ∃ content settled db, cacheFile fs path = .ok (file, content) ∧
      settleJournal (fs.setAt file (.file content)) (besides file journalEnding)
        (content = .bytes []) = .ok settled ∧
      databaseOf content = .ok db ∧ after = (upgradeCache settled file db).1 ∧
      Migration.run db = (cache, none) := by
  generalize hopened : (after, Except.ok (file, cache)) = opened at h
  rcases openCache_eq_iff.1 h with _ | _ | _ | ⟨hfile, hsettled, hdb⟩
  · cases hopened
  · cases hopened
  · cases hopened
  · obtain ⟨rfl, hrun⟩ := upgradeCache_ok (congrArg Prod.snd hopened.symm)
    exact ⟨_, _, _, hfile, hsettled, hdb, congrArg Prod.fst hopened, hrun⟩

/-- A cache that is open was in its file before. -/
theorem databaseAt?_of_openCache (h : openCache fs path = (after, .ok (file, cache))) :
    fs.resolveNew path = .ok file ∧
      ∃ db, databaseAt? fs file = some db ∧ (Migration.run db).1 = cache := by
  obtain ⟨content, _, db, hfound, _, hdb, _, hrun⟩ := openCache_ok h
  refine ⟨(cacheFile_eq_ok_iff.1 hfound).1, db, ?_, by rw [hrun]⟩
  rw [databaseAt?_of_cacheFile hfound, hdb]
  rfl

theorem place_of_openCache (h : openCache fs path = (after, .ok (file, cache))) :
    (∀ s ∈ file, IsName s) ∧ ∀ below, fs.nodeAt? file ≠ some (.directory below) := by
  obtain ⟨_, _, _, hfound, _⟩ := openCache_ok h
  exact place_of_cacheFile hfound

/-- The place of the file that a path leads to, if it may be written. -/
def placesOf (fs : FileSystem) (path : Bytes) : List Place := (fs.resolveNew path).toOption.toList

/-- The places that may change when the cache that a path leads to is opened. -/
def placesOpened (fs : FileSystem) (path : Bytes) : List Place :=
  (placesOf fs path).flatMap (openPlaces fs)

theorem placesOpened_of_resolveNew (h : fs.resolveNew path = .ok file) :
    placesOpened fs path = openPlaces fs file := by
  rw [placesOpened, placesOf, h]
  exact List.append_nil _

theorem cachePlaces_subset : cachePlaces file ⊆ openPlaces fs file := List.subset_append_right _ _

theorem file_subset : [file] ⊆ openPlaces fs file :=
  List.cons_subset.2 ⟨cachePlaces_subset List.mem_cons_self, List.nil_subset _⟩

/-- The journal is none of the files that a cache is closed with. -/
theorem journal_notMem (hnot : ∀ below, fs.nodeAt? file ≠ some (.directory below)) :
    besides file journalEnding ∉ cachePlaces file := by
  intro hmem
  rcases List.mem_cons.1 hmem with heq | hmem
  · exact besides_ne hnot List.mem_cons_self heq.symm
  · obtain ⟨ending, hending, heq⟩ := List.mem_map.1 hmem
    exact (by decide +kernel : ∀ ending ∈ sideEndings, ending ≠ journalEnding) ending hending
      (besides_injective (ne_nil_of_ne_directory hnot) heq)

/-- To settle the journal of a cache in its file, at most the journal is removed. -/
theorem changedAt_settled (hfs : fs.WellFormed) (hfile : cacheFile fs path = .ok (file, content))
    (hsettled : settleJournal (fs.setAt file (.file content)) (besides file journalEnding)
      (content = .bytes []) = .ok settled) :
    ChangedAt ([file] ++ journalOf fs file) fs settled ∧
      KeptOrGone fs settled (besides file journalEnding) := by
  obtain ⟨hnames, hnot⟩ := place_of_cacheFile hfile
  have hset := FileSystem.changedAt_setAt hfs content hnot hnames
  have hjournal : besides file journalEnding ∉ [file] := fun hmem =>
    besides_ne hnot List.mem_cons_self (List.mem_singleton.1 hmem).symm
  have htaken : taken (fs.setAt file (.file content)) (besides file journalEnding) =
      journalOf fs file := by
    have hsome := congrArg Option.isSome (hset.face _ hjournal)
    rw [Option.isSome_map, Option.isSome_map] at hsome
    rw [journalOf, taken, taken, hsome]
  have hchanged := changedAt_settleJournal hset.wellFormed
    (isName_besides hnames List.mem_cons_self) hsettled
  rw [htaken] at hchanged
  exact ⟨hset.trans hchanged, (hset.keptOrGone hjournal).trans
    (keptOrGone_settleJournal hset.wellFormed hsettled)⟩

/-- Whether a cache can be opened or not, no other file changes, and its journal is
    left as it is or removed. -/
theorem changedAt_openCache (hfs : fs.WellFormed) (hplace : fs.resolveNew path = .ok file) :
    ChangedAt (openPlaces fs file) fs (openCache fs path).1 ∧
      KeptOrGone fs (openCache fs path).1 (besides file journalEnding) := by
  have hsub : [file] ++ journalOf fs file ⊆ openPlaces fs file :=
    List.append_subset.2 ⟨file_subset, List.subset_append_left _ _⟩
  generalize hopened : openCache fs path = opened
  rcases openCache_eq_iff.1 hopened with
    _ | @⟨_, content, _, hfile, -⟩ | ⟨hfile, hsettled, -⟩ | @⟨_, _, _, db, hfile, hsettled, -⟩
  · exact ⟨.refl hfs _, .inl rfl⟩
  · cases hplace.symm.trans (cacheFile_eq_ok_iff.1 hfile).1
    obtain ⟨hnames, hnot⟩ := place_of_cacheFile hfile
    have hset := FileSystem.changedAt_setAt hfs content hnot hnames
    refine ⟨hset.mono file_subset, hset.keptOrGone fun hmem => journal_notMem hnot ?_⟩
    exact List.mem_cons.2 (.inl (List.mem_singleton.1 hmem))
  · cases hplace.symm.trans (cacheFile_eq_ok_iff.1 hfile).1
    obtain ⟨hbefore, hkept⟩ := changedAt_settled hfs hfile hsettled
    exact ⟨hbefore.mono hsub, hkept⟩
  · cases hplace.symm.trans (cacheFile_eq_ok_iff.1 hfile).1
    obtain ⟨hnames, hnot⟩ := place_of_cacheFile hfile
    obtain ⟨hbefore, hkept⟩ := changedAt_settled hfs hfile hsettled
    have hupgraded := changedAt_upgradeCache hbefore.wellFormed hnames
      (hbefore.ne_directory hnot) db
    exact ⟨(hbefore.trans hupgraded).mono (List.append_subset.2 ⟨hsub, cachePlaces_subset⟩),
      hkept.trans (hupgraded.keptOrGone (journal_notMem hnot))⟩

/-- A cache that is opened changes at the places beside its file. -/
theorem changedAt_of_openCache (hfs : fs.WellFormed)
    (h : openCache fs path = (after, .ok (file, cache))) :
    ChangedAt (openPlaces fs file) fs after ∧
      KeptOrGone fs after (besides file journalEnding) := by
  have hopened := changedAt_openCache hfs (databaseAt?_of_openCache h).1
  rwa [h] at hopened

/-- Whether a cache can be opened or not, its file then has it as it was or as far as it
    was brought. -/
theorem databaseAt?_openCache (hfs : fs.WellFormed) (hplace : fs.resolveNew path = .ok file)
    (hdb : databaseAt? fs file = some db) :
    ∃ now, databaseAt? (openCache fs path).1 file = some now ∧
      (now = db ∨ now = (Migration.run db).1) := by
  have hparent := FileSystem.hasParent_of_resolveNew hplace
  generalize hopened : openCache fs path = opened
  rcases openCache_eq_iff.1 hopened with
    _ | ⟨hfile, -⟩ | ⟨hfile, -, hnone⟩ | ⟨hfile, hsettled, hthere⟩
  · exact ⟨db, hdb, .inl rfl⟩
  · cases hplace.symm.trans (cacheFile_eq_ok_iff.1 hfile).1
    rw [databaseAt?_of_cacheFile hfile] at hdb
    refine ⟨db, ?_, .inl rfl⟩
    rw [databaseAt?, FileSystem.nodeAt?_setAt hparent (place_of_cacheFile hfile).2]
    exact hdb
  · cases hplace.symm.trans (cacheFile_eq_ok_iff.1 hfile).1
    rw [databaseAt?_of_cacheFile hfile, hnone] at hdb
    cases hdb
  · cases hplace.symm.trans (cacheFile_eq_ok_iff.1 hfile).1
    rw [databaseAt?_of_cacheFile hfile, hthere] at hdb
    cases hdb
    obtain ⟨hnames, hnot⟩ := place_of_cacheFile hfile
    obtain ⟨hbefore, -⟩ := changedAt_settled hfs hfile hsettled
    obtain ⟨now, hnow, hor⟩ := nodeAt?_upgradeCache hbefore.wellFormed hnames
      (hbefore.ne_directory hnot) db (hbefore.hasParent hparent)
    refine ⟨now, ?_, hor⟩
    rw [databaseAt?, hnow]
    rfl

/-! ### What is saved -/

theorem Run.changedAt_save (hfs : fs.WellFormed) (path : Bytes) (text : String) :
    ChangedAt (placesOf fs path) fs (save fs path text) := by
  rw [placesOf, save, FileSystem.writeText, FileSystem.write, FileSystem.writeContent]
  cases hplace : fs.resolveNew path with
  | error e => exact .refl hfs _
  | ok place =>
    have hnames := FileSystem.isName_of_resolveNew hplace
    dsimp only [bind, Except.bind]
    split
    · rename_i saved hsaved
      split at hsaved
      · cases hsaved
      · rename_i hnot
        cases hsaved
        exact FileSystem.changedAt_setAt hfs _ hnot hnames
    · exact .refl hfs _

namespace Run

/-! ### The ground of a run -/

/-- What a run over a path finds when it begins to walk. -/
structure Ground (fs : FileSystem) (path : Bytes) (c : Config) where
  root : Place
  /-- The files, with the cache open. -/
  walked : FileSystem
  /-- The place of the cache. -/
  file : Place
  cache : Database
  validated : validateRoot fs path = .ok root
  opened : openCache fs (c.cachePath (Path.ofNames root)) = (walked, .ok (file, cache))
  listed : Walk.rootPlace walked (Path.ofNames root) = .ok root

variable {c : Config} {σ : Type} {d : Option (Describer σ)} {state : σ} {o : Outcome σ}
  {root : Place}

theorem validateRoot_eq_ok_iff : validateRoot fs path = .ok root ↔
    fs.resolve path = .ok root ∧ ∃ below, fs.nodeAt? root = some (.directory below) := by
  rw [validateRoot]
  split
  · rename_i hplace
    simp [hplace]
  · rename_i place hplace
    rw [hplace]
    split
    · rename_i below hnode
      constructor
      · intro h
        cases h
        exact ⟨rfl, below, hnode⟩
      · rintro ⟨h, -⟩
        cases h
        rfl
    · rename_i hnot
      refine iff_of_false (by simp) ?_
      rintro ⟨h, below, hnode⟩
      cases h
      exact hnot below hnode

/-- With the cache open, the root can be walked if it tells its entries. -/
theorem rootPlace_of_openCache (hfs : fs.WellFormed) (hroot : validateRoot fs path = .ok root)
    {cachePath : Bytes} (h : openCache fs cachePath = (after, .ok (file, cache))) :
    Walk.rootPlace after (Path.ofNames root) =
      if root ∈ fs.unlisted then .error (.unlisted (Path.ofNames root) .denied) else .ok root := by
  obtain ⟨hchanged, -⟩ := changedAt_of_openCache hfs h
  obtain ⟨-, hdirectory⟩ := validateRoot_eq_ok_iff.1 hroot
  rw [Walk.rootPlace_ofNames hchanged.wellFormed ((hchanged.directory root).2 hdirectory),
    hchanged.unlisted]

/-- A run finds all it needs if its cache can be opened and its root tells its entries. -/
theorem nonempty_ground (hfs : fs.WellFormed) (hroot : validateRoot fs path = .ok root)
    (hopens : (openCache fs (c.cachePath (Path.ofNames root))).2.toOption.isSome)
    (hlisted : root ∉ fs.unlisted) : Nonempty (Ground fs path c) := by
  rcases hopened : openCache fs (c.cachePath (Path.ofNames root)) with ⟨walked, e | ⟨file, cache⟩⟩
  · rw [hopened] at hopens
    cases hopens
  · have hplace := rootPlace_of_openCache hfs hroot hopened
    rw [if_neg hlisted] at hplace
    exact ⟨⟨root, walked, file, cache, hroot, hopened, hplace⟩⟩

/-- A run that comes to records found all it needs. -/
theorem exists_ground {run : Run} (hfs : fs.WellFormed) (h : perform fs path c d state = some o)
    (hok : o.result = .ok run) : Nonempty (Ground fs path c) := by
  rw [perform] at h
  cases hroot : validateRoot fs path with
  | error e => rw [hroot] at h; cases h; cases hok
  | ok root =>
    rw [hroot] at h
    cases hopened : openCache fs (c.cachePath (Path.ofNames root)) with
    | mk walked result =>
      cases result with
      | error e => simp only [hopened] at h; cases h; cases hok
      | ok found =>
        have hplace := rootPlace_of_openCache hfs hroot hopened
        by_cases hunlisted : root ∈ fs.unlisted
        · rw [if_pos hunlisted] at hplace
          simp only [hopened, mapRoot, Walk.run, hplace, Except.map] at h
          cases h
          cases hok
        · rw [if_neg hunlisted] at hplace
          exact ⟨⟨root, walked, found.1, found.2, hroot, hopened, hplace⟩⟩

namespace Ground

variable (g : Ground fs path c)

/-- The files that no record is to be made of. -/
def artifacts : List Bytes := c.artifacts (Path.ofNames g.root)

/-- The walk of the run. -/
def walk : Walk.Result := Walk.collect g.walked g.cache g.artifacts g.root

/-- The files after the snapshot is saved. -/
def saved : FileSystem :=
  save g.walked (c.snapshotPath (Path.ofNames g.root)) (Snapshot.text g.walk.records)

/-- The places of the files that the run writes. -/
def written : List Place :=
  cachePlaces g.file ++ placesOf g.walked (c.snapshotPath (Path.ofNames g.root)) ++
    placesOf g.saved (c.mapPath (Path.ofNames g.root))

/-- The place of the journal of the cache, if there is one. -/
def journal : List Place := journalOf fs g.file

variable {g}

theorem changedAt_walked (hfs : fs.WellFormed) :
    ChangedAt (openPlaces fs g.file) fs g.walked ∧
      KeptOrGone fs g.walked (besides g.file journalEnding) :=
  changedAt_of_openCache hfs g.opened

/-- The root is still a directory when the cache is open. -/
theorem exists_directory_walked (hfs : fs.WellFormed) :
    g.walked.WellFormed ∧ ∃ entries, g.walked.nodeAt? g.root = some (.directory entries) := by
  obtain ⟨hchanged, -⟩ := changedAt_walked (g := g) hfs
  exact ⟨hchanged.wellFormed,
    (hchanged.directory g.root).2 (validateRoot_eq_ok_iff.1 g.validated).2⟩

/-- A run over its ground is that from the walk on. -/
theorem perform_eq :
    perform fs path c d state = mapWalk g.walked c g.root g.file g.walk d state := by
  rw [perform, g.validated]
  dsimp only
  rw [g.opened]
  dsimp only [mapRoot]
  rw [Walk.run_eq _ _ g.listed]
  rfl

variable (g) in
/-- A run goes on from its ground. -/
theorem exists_describe (h : perform fs path c d state = some o) :
    ∃ round stats, describe d c g.walk.records g.walk.cache state = some (round, stats) ∧
      o.fs = closeCache (save g.saved (c.mapPath (Path.ofNames g.root))
        (treeMap round.records (repositoryName (Path.ofNames g.root)))) g.file round.cache ∧
      ∃ run, o.result = .ok run ∧ run.root = Path.ofNames g.root ∧ run.records = round.records := by
  rw [g.perform_eq] at h
  obtain ⟨⟨round, stats⟩, hdescribe, rfl⟩ := Option.map_eq_some_iff.1 h
  exact ⟨round, stats, hdescribe, rfl, _, rfl, rfl, rfl⟩

/-- Without a describer, a run comes to an end. -/
theorem exists_perform (g : Ground fs path c) (state : σ) :
    ∃ o, perform fs path c none state = some o :=
  ⟨_, g.perform_eq⟩

/-- The files that are saved, before the cache is closed. -/
theorem changedAt_mapped (hfs : fs.WellFormed) (text : String) :
    ChangedAt (placesOf g.walked (c.snapshotPath (Path.ofNames g.root)) ++
      placesOf g.saved (c.mapPath (Path.ofNames g.root))) g.walked
        (save g.saved (c.mapPath (Path.ofNames g.root)) text) :=
  have hsaved : ChangedAt _ g.walked g.saved := changedAt_save (exists_directory_walked hfs).1 _ _
  hsaved.trans (changedAt_save hsaved.wellFormed _ _)

/-- The file of the cache is no directory when it is open. -/
theorem ne_directory_file (hfs : fs.WellFormed) :
    ∀ below, g.walked.nodeAt? g.file ≠ some (.directory below) :=
  (changedAt_walked hfs).1.ne_directory (place_of_openCache g.opened).2

/-- After the map is saved, the cache is closed. -/
theorem exists_mapped (hfs : fs.WellFormed) (h : perform fs path c d state = some o) :
    ∃ round stats mapped, describe d c g.walk.records g.walk.cache state = some (round, stats) ∧
      ChangedAt (placesOf g.walked (c.snapshotPath (Path.ofNames g.root)) ++
        placesOf g.saved (c.mapPath (Path.ofNames g.root))) g.walked mapped ∧
      o.fs = closeCache mapped g.file round.cache := by
  obtain ⟨round, stats, hdescribe, hafter, _⟩ := g.exists_describe h
  exact ⟨round, stats, _, hdescribe, changedAt_mapped hfs _, hafter⟩

/-- With the cache open, a run changes no files but those it writes. -/
theorem changedAt_closed (hfs : fs.WellFormed) (h : perform fs path c d state = some o) :
    ChangedAt g.written g.walked o.fs := by
  obtain ⟨round, _, mapped, _, hmapped, hafter⟩ := exists_mapped (g := g) hfs h
  rw [hafter]
  refine (hmapped.trans (changedAt_closeCache hmapped.wellFormed (place_of_openCache g.opened).1
    (hmapped.ne_directory (ne_directory_file hfs)) round.cache)).mono ?_
  have hwritten : g.written = cachePlaces g.file ++
      (placesOf g.walked (c.snapshotPath (Path.ofNames g.root)) ++
        placesOf g.saved (c.mapPath (Path.ofNames g.root))) := List.append_assoc ..
  rw [hwritten]
  exact List.append_subset.2 ⟨List.subset_append_right _ _, List.subset_append_left _ _⟩

/-- A run changes no files but those it writes and the journal of the cache, which is
    left as it is or removed. -/
theorem changedAt_perform (hfs : fs.WellFormed) (h : perform fs path c d state = some o) :
    ChangedAt (g.journal ++ g.written) fs o.fs ∧
      (besides g.file journalEnding ∉ g.written →
        KeptOrGone fs o.fs (besides g.file journalEnding)) := by
  obtain ⟨hopened, hkept⟩ := changedAt_walked (g := g) hfs
  have hclosed := changedAt_closed (g := g) hfs h
  refine ⟨(hopened.trans hclosed).mono (List.append_subset.2 ⟨?_, List.subset_append_right _ _⟩),
    fun hjournal => hkept.trans (hclosed.keptOrGone hjournal)⟩
  exact List.append_subset.2 ⟨List.subset_append_left _ _, List.subset_append_of_subset_right _
    (List.Subset.trans (List.subset_append_left ..) (List.subset_append_left ..))⟩

/-- After a run, its cache is in its file. -/
theorem nodeAt?_perform (hfs : fs.WellFormed) (h : perform fs path c d state = some o) :
    ∃ round stats, describe d c g.walk.records g.walk.cache state = some (round, stats) ∧
      o.fs.nodeAt? g.file = some (.file (.database round.cache)) := by
  obtain ⟨round, stats, mapped, hdescribe, hmapped, hafter⟩ := exists_mapped (g := g) hfs h
  have hparent := (changedAt_walked (g := g) hfs).1.hasParent
    (FileSystem.hasParent_of_resolveNew (databaseAt?_of_openCache g.opened).1)
  refine ⟨round, stats, hdescribe, ?_⟩
  rw [hafter]
  exact nodeAt?_closeCache hmapped.wellFormed (place_of_openCache g.opened).1
    (hmapped.ne_directory (ne_directory_file hfs)) round.cache (hmapped.hasParent hparent)

end Ground

end Run

end RepoAtlas
