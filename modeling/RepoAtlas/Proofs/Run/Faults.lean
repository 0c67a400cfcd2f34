import RepoAtlas.Proofs.Describe.Inquiry
import RepoAtlas.Proofs.Run.Files

/-!
# Why runs fail

A run fails for what it finds at its root or at its cache, and for nothing else
(`Run.Fault`): the root cannot be resolved, it is no directory, the cache cannot be
opened (`CacheFault`), or the root does not tell its entries. The error tells which
(`result_eq_error_iff`).

A run that fails comes to the same whoever is there to be asked, and changes no file
but the cache and those beside it (`exists_perform_of_fault`). Where nothing is at
fault, a run has its ground (`exists_fault_or_ground`).
-/

namespace RepoAtlas

open FileSystem (ChangedAt KeptOrGone)

variable {fs after settled : FileSystem} {path : Bytes} {place file : Place} {content : Content}
  {cache db : Database} {e : DatabaseError}

/-! ### The cache -/

/-- Whether the path of a cache leads to a file with some content, whose journal can be
    settled. -/
structure IsFound (fs : FileSystem) (path : Bytes) (file : Place) (content : Content) : Prop where
  leads : cacheFile fs path = .ok (file, content)
  settles : ∃ settled, settleJournal (fs.setAt file (.file content)) (besides file journalEnding)
    (content = .bytes []) = .ok settled

/-- Why the cache that a path leads to cannot be opened. -/
inductive CacheFault (fs : FileSystem) (path : Bytes) : DatabaseError → Prop
  /-- There is no place for its file. -/
  | unresolved {fault : PathFault} : fs.resolveNew path = .error fault →
    CacheFault fs path (.cannotOpen (Path.text path))
  /-- A directory is in the place of its file. -/
  | directory {file : Place} {below : Entries} : fs.resolveNew path = .ok file →
    fs.nodeAt? file = some (.directory below) → CacheFault fs path (.cannotOpen (Path.text path))
  /-- Its journal cannot be settled. -/
  | journal {file : Place} {content : Content} {e : DatabaseError} :
    cacheFile fs path = .ok (file, content) →
      settleJournal (fs.setAt file (.file content)) (besides file journalEnding)
        (content = .bytes []) = .error e → CacheFault fs path e
  /-- Its file holds something else. -/
  | content {file : Place} {content : Content} {e : DatabaseError} :
    IsFound fs path file content → databaseOf content = .error e → CacheFault fs path e
  /-- A file cannot be put beside it. -/
  | beside {file : Place} {content : Content} {db : Database} {ending : Bytes} :
    IsFound fs path file content → databaseOf content = .ok db → ending ∈ sideEndings →
      takesFile fs (besides file ending) = false → CacheFault fs path .blocked
  /-- It cannot be brought up to date. -/
  | migration {file : Place} {content : Content} {db : Database} {e : DatabaseError} :
    IsFound fs path file content → databaseOf content = .ok db →
      (∀ ending ∈ sideEndings, takesFile fs (besides file ending) = true) →
      (Migration.run db).2 = some e → CacheFault fs path e

theorem CacheFault.of_cacheFile (h : cacheFile fs path = .error e) : CacheFault fs path e := by
  rw [cacheFile] at h
  split at h
  · rename_i hplace
    cases h
    exact .unresolved hplace
  · rename_i place hplace
    split at h
    · cases h
    · cases h
    · rename_i node hnot hnode
      cases h
      -- No path ends at a link.
      cases node with
      | file content => exact absurd rfl (hnot content)
      | link target => exact absurd hnode ((FileSystem.isEnd_of_resolveNew hplace).not_link target)
      | directory below => exact .directory hplace hnode

/-- Where something else changes, a file may be put as before. -/
theorem takesFile_congr {places : List Place} (h : ChangedAt places fs after)
    (hplace : place ∉ places) : takesFile after place = takesFile fs place := by
  rw [takesFile, takesFile]
  rcases FileSystem.cases_of_face (h.face place hplace) with ⟨hnode, hnode'⟩ |
    ⟨_, _, hnode, hnode'⟩ | ⟨node, _, hnode, hnode'⟩
  · rw [hnode, hnode']
  · rw [hnode, hnode']
  · rw [hnode, hnode']

/-- The files beside a cache may be put there as before, when its journal is settled and
    it is in its file. -/
theorem takesFile_settled (hfs : fs.WellFormed) (hfile : cacheFile fs path = .ok (file, content))
    (hsettled : settleJournal (fs.setAt file (.file content)) (besides file journalEnding)
      (content = .bytes []) = .ok settled) {ending : Bytes} (hending : ending ∈ sideEndings) :
    takesFile (settled.setAt file (.file (.database db))) (besides file ending) =
      takesFile fs (besides file ending) := by
  obtain ⟨hnames, hnot⟩ := place_of_cacheFile hfile
  obtain ⟨hbefore, -⟩ := changedAt_settled hfs hfile hsettled
  have hall := hbefore.trans (FileSystem.changedAt_setAt hbefore.wellFormed (.database db)
    (hbefore.ne_directory hnot) hnames)
  refine takesFile_congr hall fun hmem => ?_
  have hne := besides_ne hnot (List.mem_cons_of_mem _ hending)
  simp only [List.mem_append, List.mem_singleton, journalOf, mem_taken] at hmem
  rcases hmem with (heq | ⟨heq, -⟩) | heq
  · exact hne heq.symm
  · exact journal_notMem hnot (heq ▸ List.mem_cons_of_mem _ (List.mem_map_of_mem hending))
  · exact hne heq.symm

/-- What is in the way when a cache is brought up to date. -/
theorem upgradeCache_error_iff :
    (upgradeCache fs file db).2 = .error e ↔
      (∃ ending ∈ sideEndings,
        takesFile (fs.setAt file (.file (.database db))) (besides file ending) = false ∧
          e = .blocked) ∨
      (∀ ending ∈ sideEndings,
        takesFile (fs.setAt file (.file (.database db))) (besides file ending) = true) ∧
        (Migration.run db).2 = some e := by
  rw [upgradeCache]
  split
  · rename_i hfree
    rw [List.all_eq_true] at hfree
    have hnone : ¬∃ ending ∈ sideEndings,
        takesFile (fs.setAt file (.file (.database db))) (besides file ending) = false ∧
          e = .blocked := by
      rintro ⟨ending, hending, htaken, -⟩
      cases (hfree ending hending).symm.trans htaken
    rw [or_iff_right hnone, and_iff_right hfree]
    dsimp only
    rcases Migration.run db with ⟨last, _ | e'⟩ <;> simp
  · rename_i hnot
    simp only [List.all_eq_true, not_forall, Bool.not_eq_true] at hnot
    obtain ⟨ending, hending, htaken⟩ := hnot
    have hnone : ¬∀ ending ∈ sideEndings,
        takesFile (fs.setAt file (.file (.database db))) (besides file ending) = true := by
      intro hfree
      cases (hfree ending hending).symm.trans htaken
    rw [or_iff_left fun h => hnone h.1]
    constructor
    · intro h
      cases h
      exact ⟨ending, hending, htaken, rfl⟩
    · rintro ⟨_, _, _, rfl⟩
      rfl

/-- The cache cannot be opened for these reasons, and for no others. -/
theorem openCache_error_iff (hfs : fs.WellFormed) :
    (openCache fs path).2 = .error e ↔ CacheFault fs path e := by
  constructor
  · intro h
    generalize hopened : openCache fs path = opened at h
    rcases openCache_eq_iff.1 hopened with
      hfile | ⟨hfile, hsettled⟩ | ⟨hfile, hsettled, hdb⟩ | ⟨hfile, hsettled, hdb⟩
    · cases h
      exact .of_cacheFile hfile
    · cases h
      exact .journal hfile hsettled
    · cases h
      exact .content ⟨hfile, _, hsettled⟩ hdb
    · rcases upgradeCache_error_iff.1 h with ⟨ending, hending, htaken, rfl⟩ | ⟨hfree, hrun⟩
      · rw [takesFile_settled hfs hfile hsettled hending] at htaken
        exact .beside ⟨hfile, _, hsettled⟩ hdb hending htaken
      · refine .migration ⟨hfile, _, hsettled⟩ hdb (fun ending hending => ?_) hrun
        rw [← takesFile_settled hfs hfile hsettled hending]
        exact hfree ending hending
  · rintro (hplace | ⟨hplace, hnode⟩ | ⟨hfile, hsettled⟩ | ⟨⟨hfile, settled, hsettled⟩, hdb⟩ |
      ⟨⟨hfile, settled, hsettled⟩, hdb, hending, htaken⟩ |
      ⟨⟨hfile, settled, hsettled⟩, hdb, hfree, hrun⟩)
    · rw [openCache, cacheFile, hplace]
    · rw [openCache, cacheFile, hplace]
      dsimp only
      rw [hnode]
    · rw [openCache_eq_iff.2 (.unsettled hfile hsettled)]
    · rw [openCache_eq_iff.2 (.foreign hfile hsettled hdb)]
    · rw [openCache_eq_iff.2 (.upgraded hfile hsettled hdb), upgradeCache_error_iff]
      rw [← takesFile_settled hfs hfile hsettled hending] at htaken
      exact .inl ⟨_, hending, htaken, rfl⟩
    · rw [openCache_eq_iff.2 (.upgraded hfile hsettled hdb), upgradeCache_error_iff]
      refine .inr ⟨fun ending hending => ?_, hrun⟩
      rw [takesFile_settled hfs hfile hsettled hending]
      exact hfree ending hending

/-- Whether nothing changed but what may when the cache that a path leads to is opened:
    its file and those beside it, and its journal, which may be gone. The cache itself is
    as it was, or as far as it could be brought up to date. -/
structure OpensOnly (fs : FileSystem) (path : Bytes) (after : FileSystem) : Prop where
  changed : ChangedAt (placesOpened fs path) fs after
  journal : ∀ file, fs.resolveNew path = .ok file →
    KeptOrGone fs after (besides file journalEnding)
  cache : ∀ file db, fs.resolveNew path = .ok file → databaseAt? fs file = some db →
    ∃ now, databaseAt? after file = some now ∧ (now = db ∨ now = (Migration.run db).1)

theorem opensOnly_openCache (hfs : fs.WellFormed) (path : Bytes) :
    OpensOnly fs path (openCache fs path).1 := by
  cases hplace : fs.resolveNew path with
  | error fault =>
    rw [openCache, cacheFile, hplace]
    refine ⟨.refl hfs _, fun file hfile => ?_, fun file _ hfile => ?_⟩
    · cases hplace.symm.trans hfile
    · cases hplace.symm.trans hfile
  | ok file =>
    obtain ⟨hchanged, hkept⟩ := changedAt_openCache hfs hplace
    refine ⟨placesOpened_of_resolveNew hplace ▸ hchanged, fun found hfound => ?_,
      fun found _ => databaseAt?_openCache hfs⟩
    cases hplace.symm.trans hfound
    exact hkept

/-- A cache that was opened is closed again. -/
theorem opensOnly_closeCache (hfs : fs.WellFormed)
    (h : openCache fs path = (after, .ok (file, cache))) :
    OpensOnly fs path (closeCache after file cache) := by
  obtain ⟨hplace, there, hthere, hrun⟩ := databaseAt?_of_openCache h
  obtain ⟨hnames, hnot⟩ := place_of_openCache h
  obtain ⟨hopened, hkept⟩ := changedAt_of_openCache hfs h
  have hclosed := changedAt_closeCache hopened.wellFormed hnames (hopened.ne_directory hnot) cache
  refine ⟨?_, fun found hfound => ?_, fun found db hfound hdb => ⟨cache, ?_, .inr ?_⟩⟩
  · rw [placesOpened_of_resolveNew hplace]
    exact (hopened.trans hclosed).mono
      (List.append_subset.2 ⟨List.Subset.refl _, cachePlaces_subset⟩)
  · cases hplace.symm.trans hfound
    exact hkept.trans (hclosed.keptOrGone (journal_notMem hnot))
  · cases hplace.symm.trans hfound
    rw [databaseAt?, nodeAt?_closeCache hopened.wellFormed hnames (hopened.ne_directory hnot) cache
      (hopened.hasParent (FileSystem.hasParent_of_resolveNew hplace))]
    rfl
  · cases hplace.symm.trans hfound
    cases hthere.symm.trans hdb
    exact hrun.symm

namespace Run

variable {c : Config} {σ : Type} {d : Option (Describer σ)} {state : σ} {o : Outcome σ}
  {error : RunError} {root : Place}

/-! ### The run -/

/-- Why a run over a path fails. -/
inductive Fault (fs : FileSystem) (path : Bytes) (c : Config) : RunError → Prop
  /-- The root cannot be resolved. -/
  | unresolved {fault : PathFault} : fs.resolve path = .error fault →
    Fault fs path c (.unresolvedRoot path fault)
  /-- The root is no directory. -/
  | notDirectory {root : Place} : fs.resolve path = .ok root →
    (∀ below, fs.nodeAt? root ≠ some (.directory below)) → Fault fs path c (.notDirectory path)
  /-- The cache of the root cannot be opened. -/
  | cache {root : Place} {below : Entries} {e : DatabaseError} : fs.resolve path = .ok root →
    fs.nodeAt? root = some (.directory below) →
      CacheFault fs (c.cachePath (Path.ofNames root)) e →
      Fault fs path c (.cache (c.cachePath (Path.ofNames root)) e)
  /-- The cache can be opened, but the root does not tell its entries. -/
  | unlisted {root : Place} {below : Entries} : fs.resolve path = .ok root →
    fs.nodeAt? root = some (.directory below) →
      (∀ e, ¬CacheFault fs (c.cachePath (Path.ofNames root)) e) → root ∈ fs.unlisted →
      Fault fs path c (.walk (.unlisted (Path.ofNames root) .denied))

/-- The path of the cache that was opened when a run fails, if any was. -/
def Fault.opened (c : Config) : RunError → Option Bytes
  | .cache path _ => some path
  | .walk (.unlisted root _) => some (c.cachePath root)
  | _ => none

/-- Whether nothing changed but what may before a run fails: nothing, unless a cache was
    opened. -/
def Fault.Changes (fs : FileSystem) (c : Config) (error : RunError) (after : FileSystem) : Prop :=
  match Fault.opened c error with
  | none => after = fs
  | some path => OpensOnly fs path after

/-- A cache that was opened when a run fails is that of the root. -/
theorem Fault.exists_root {cachePath : Bytes} (h : Fault fs path c error)
    (hopened : Fault.opened c error = some cachePath) :
    ∃ root, validateRoot fs path = .ok root ∧ cachePath = c.cachePath (Path.ofNames root) := by
  cases h with
  | unresolved => cases hopened
  | notDirectory => cases hopened
  | cache hplace hnode =>
    cases hopened
    exact ⟨_, validateRoot_eq_ok_iff.2 ⟨hplace, _, hnode⟩, rfl⟩
  | unlisted hplace hnode =>
    cases hopened
    exact ⟨_, validateRoot_eq_ok_iff.2 ⟨hplace, _, hnode⟩, rfl⟩

theorem validateRoot_of_not_directory (hplace : fs.resolve path = .ok root)
    (hnot : ∀ below, fs.nodeAt? root ≠ some (.directory below)) :
    validateRoot fs path = .error (.notDirectory path) := by
  rw [validateRoot, hplace]
  dsimp only
  split
  · rename_i below hnode
    exact absurd hnode (hnot below)
  · rfl

/-- A cache that nothing is wrong with is open. -/
theorem exists_openCache (hfs : fs.WellFormed) (h : ∀ e, ¬CacheFault fs path e) :
    ∃ walked file cache, openCache fs path = (walked, .ok (file, cache)) := by
  rcases hopened : openCache fs path with ⟨walked, e | ⟨file, cache⟩⟩
  · exact absurd ((openCache_error_iff hfs).1 (congrArg Prod.snd hopened)) (h e)
  · exact ⟨walked, file, cache, rfl⟩

/-- A run over a root that does not tell its entries ends with the cache closed. -/
theorem perform_of_unlisted (hfs : fs.WellFormed) (hroot : validateRoot fs path = .ok root)
    {walked : FileSystem}
    (hopened : openCache fs (c.cachePath (Path.ofNames root)) = (walked, .ok (file, cache)))
    (hunlisted : root ∈ fs.unlisted) :
    perform fs path c d state = some ⟨closeCache walked file cache,
      .error (.walk (.unlisted (Path.ofNames root) .denied)), [], state⟩ := by
  have hplace := rootPlace_of_openCache hfs hroot hopened
  rw [if_pos hunlisted] at hplace
  rw [perform, hroot]
  dsimp only
  rw [hopened]
  dsimp only [mapRoot]
  rw [Walk.run, hplace]
  rfl

/-- Whoever is there to be asked, a fault is what the run comes to. -/
theorem exists_perform_of_fault (hfs : fs.WellFormed) (h : Fault fs path c error) (state : σ) :
    ∃ after, Fault.Changes fs c error after ∧
      ∀ d, perform fs path c d state = some ⟨after, .error error, [], state⟩ := by
  cases h with
  | unresolved hplace =>
    refine ⟨fs, rfl, fun d => ?_⟩
    rw [perform, validateRoot, hplace]
  | notDirectory hplace hnot =>
    refine ⟨fs, rfl, fun d => ?_⟩
    rw [perform, validateRoot_of_not_directory hplace hnot]
  | @cache root below e hplace hnode hcache =>
    have hroot := validateRoot_eq_ok_iff.2 ⟨hplace, below, hnode⟩
    rw [← openCache_error_iff hfs] at hcache
    refine ⟨_, opensOnly_openCache hfs _, fun d => ?_⟩
    rw [perform, hroot]
    dsimp only
    rcases hopened : openCache fs (c.cachePath (Path.ofNames root)) with ⟨after, result⟩
    rw [hopened] at hcache
    dsimp only at hcache ⊢
    rw [hcache]
  | @unlisted root below hplace hnode hcache hunlisted =>
    have hroot := validateRoot_eq_ok_iff.2 ⟨hplace, below, hnode⟩
    obtain ⟨walked, file, cache, hopened⟩ := exists_openCache hfs hcache
    exact ⟨_, opensOnly_closeCache hfs hopened, fun d =>
      perform_of_unlisted hfs hroot hopened hunlisted⟩

variable (path c) in
/-- Where nothing is at fault, a run finds all it needs. -/
theorem exists_fault_or_ground (hfs : fs.WellFormed) :
    (∃ error, Fault fs path c error) ∨ Nonempty (Ground fs path c) := by
  cases hplace : fs.resolve path with
  | error fault => exact .inl ⟨_, .unresolved hplace⟩
  | ok root =>
    by_cases hdirectory : ∃ below, fs.nodeAt? root = some (.directory below)
    · obtain ⟨below, hnode⟩ := hdirectory
      have hroot := validateRoot_eq_ok_iff.2 ⟨hplace, below, hnode⟩
      by_cases hcache : ∃ e, CacheFault fs (c.cachePath (Path.ofNames root)) e
      · exact .inl ⟨_, .cache hplace hnode hcache.choose_spec⟩
      · obtain ⟨walked, file, cache, hopened⟩ := exists_openCache hfs (not_exists.1 hcache)
        have hlisted := rootPlace_of_openCache hfs hroot hopened
        by_cases hunlisted : root ∈ fs.unlisted
        · exact .inl ⟨_, .unlisted hplace hnode (not_exists.1 hcache) hunlisted⟩
        · rw [if_neg hunlisted] at hlisted
          exact .inr ⟨⟨root, walked, file, cache, hroot, hopened, hlisted⟩⟩
    · exact .inl ⟨_, .notDirectory hplace (not_exists.1 hdirectory)⟩

/-- A run fails for what is at fault, and for nothing else. -/
theorem result_eq_error_iff (hfs : fs.WellFormed) (h : perform fs path c d state = some o) :
    o.result = .error error ↔ Fault fs path c error := by
  have hresult {error : RunError} (hfault : Fault fs path c error) : o.result = .error error := by
    obtain ⟨after, -, hperform⟩ := exists_perform_of_fault hfs hfault state
    cases h.symm.trans (hperform d)
    rfl
  refine ⟨fun herror => ?_, hresult⟩
  rcases exists_fault_or_ground path c hfs with ⟨found, hfault⟩ | ⟨⟨g⟩⟩
  · cases herror.symm.trans (hresult hfault)
    exact hfault
  · obtain ⟨_, _, _, _, run, hok, _⟩ := g.exists_describe h
    cases herror.symm.trans hok

example : (perform (σ := Unit) { FileSystem.sample with unlisted := [["r"]] } "/r" {} none ()).map
    (·.result) = some (.error (.walk (.unlisted "/r" .denied))) := by
  decide +kernel

/-- Whatever the describer answers, a round of descriptions ends if no wait
    overflows. -/
theorem exists_round (hp : c.policy.NeverOverflows) (d : Option (Describer σ))
    (records : List Record) (cache : Database) (state : σ) :
    ∃ result, describe d c records cache state = some result := by
  cases d with
  | none => exact ⟨_, rfl⟩
  | some d =>
    obtain ⟨result, hresult⟩ := Round.exists_run_of_ask (fun q => d.exists_ask q hp) c.model
      records cache state
    exact ⟨_, by rw [describe, hresult]; rfl⟩

theorem exists_outcome (hfs : fs.WellFormed) (hp : c.policy.NeverOverflows)
    (d : Option (Describer σ)) (state : σ) : ∃ o, perform fs path c d state = some o := by
  rcases exists_fault_or_ground path c hfs with ⟨error, hfault⟩ | ⟨⟨g⟩⟩
  · obtain ⟨after, -, hperform⟩ := exists_perform_of_fault hfs hfault state
    exact ⟨_, hperform d⟩
  · obtain ⟨result, hresult⟩ := exists_round hp d g.walk.records g.walk.cache state
    rw [g.perform_eq, mapWalk]
    exact ⟨_, congrArg (Option.map _) hresult⟩

end Run

end RepoAtlas
