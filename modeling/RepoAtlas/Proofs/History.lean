import RepoAtlas.Proofs.Provenance

/-!
# Histories

A history is any sequence of steps that begins with an empty cache that works:
the files change in any way, a walk is made, or a describer is asked about the
records that the latest walk or round left (`History`).

After every history, the next walk tells what a walk with an empty cache would
tell, but for what a describer told about the very content that is there now
(`History.transparent`). What was told about an older content does not come
back.
-/

namespace RepoAtlas

/-- What is there between two steps: the files, the cache and the records of the
    latest walk or round. -/
structure History.State where
  fs : FileSystem
  cache : Database
  records : List Record := []

/-- A history through file systems, the latest first, up to a state. -/
inductive History : List FileSystem → History.State → Prop
  | start {fs : FileSystem} {cache : Database} :
    fs.WellFormed → Cache.Blank cache → History [fs] { fs, cache }
  | edit {past : List FileSystem} {s : History.State} {fs : FileSystem} :
    History past s → fs.WellFormed → History (fs :: past) { s with fs }
  | walk {past : List FileSystem} {s : History.State} {artifacts : List Bytes} {path : Bytes}
    {w : Walk.Result} :
    History past s → Walk.run s.fs s.cache artifacts path = .ok w →
    History past { s with cache := w.cache, records := w.records }
  | round {past : List FileSystem} {s : History.State} {σ : Type} {d : Describer σ}
    {model : String} {p : Policy} {describer : σ} {result : Round.Result σ} :
    History past s → Round.run d model p s.records s.cache describer = some result →
    History past { s with cache := result.cache, records := result.records }

namespace History

/-- The contents that occur in file systems. -/
def occurring (past : List FileSystem) : Set Bytes := {c | ∃ fs ∈ past, c ∈ fs.contents}

variable {past : List FileSystem} {s : State}

/-- The files of a state are those that came last. -/
theorem fs_mem (h : History past s) : s.fs ∈ past ∧ s.fs.WellFormed := by
  induction h with
  | start hfs _ => exact ⟨List.mem_cons_self .., hfs⟩
  | edit _ hfs _ => exact ⟨List.mem_cons_self .., hfs⟩
  | walk _ _ ih => exact ih
  | round _ _ ih => exact ih

/-- All that is known and told has its origin in contents that occurred. -/
theorem faithful (h : History past s) :
    Cache.Faithful (occurring past) s.cache ∧ ∀ r ∈ s.records, r.Traced (occurring past) := by
  induction h with
  | start _ hblank => exact ⟨Cache.faithful_of_blank hblank, fun _ hr => absurd hr List.not_mem_nil⟩
  | @edit past s fs _ _ ih =>
    have hsub : occurring past ⊆ occurring (fs :: past) :=
      fun _ ⟨old, hold, hc⟩ => ⟨old, List.mem_cons_of_mem _ hold, hc⟩
    exact ⟨ih.1.mono hsub, fun r hr => (ih.2 r hr).mono hsub⟩
  | @walk past s artifacts path w hpast hrun ih =>
    obtain ⟨place, hroot⟩ := Walk.exists_rootPlace hrun
    rw [Walk.run_eq _ _ hroot] at hrun
    cases hrun
    exact Walk.faithful_visitAll ih.1 fun c hc => ⟨s.fs, hpast.fs_mem.1, hc⟩
  | round _ hrun ih => exact Round.faithful_run ih.1 ih.2 hrun

/-- Whether two records tell the same, where the first may also tell what a
    describer told about its content. -/
structure Agrees (r cold : Record) : Prop where
  identity : r.identity = cold.identity
  contentHash : r.contentHash = cold.contentHash
  imports : r.imports = cold.imports
  functions : r.functions = cold.functions
  description : (∀ hash, r.contentHash = some hash → r.describedHash ≠ some hash) →
    r.description = cold.description

variable {contents : Set Bytes} {fs : FileSystem} {cache cold blank : Database} {x : Walk.Sight}

/-- Where no two contents have the same digest, the record of something seen is of
    what is read of it. -/
theorem isOf_recordBy (hcache : Cache.Faithful contents cache)
    (hcollision : Set.InjOn Sha256.hash contents) {c : Bytes} (hread : x.content? fs = some c)
    (hc : c ∈ contents) : (x.recordBy fs cache).IsOf c := by
  obtain ⟨d, hd, hhash, hof⟩ := Walk.isOf_recordBy hcache hread hc
  exact hcollision hd hc hhash ▸ hof

/-- Whether nothing that a cache knows was told by a describer. -/
def Untold (cache : Database) : Prop :=
  ∀ path e, Cache.known? cache path = some e → e.describedHash = ""

/-- What a walk makes of something seen with such a cache was told by none either. -/
theorem describedHash_recordBy (h : Untold cache) : (x.recordBy fs cache).describedHash = none := by
  have hbare : x.bare.describedHash = none := by
    obtain ⟨path, depth, kind⟩ := x
    cases kind <;> rfl
  cases hread : x.content? fs with
  | none => rw [Walk.recordBy_of_unread hread, hbare]
  | some c =>
    cases hknown : x.fresh? fs cache with
    | none =>
      rw [Walk.recordBy_of_stale hread hknown]
      exact hbare
    | some e =>
      have hfound := hknown
      rw [Walk.Sight.fresh?, hread, Option.bind_some] at hfound
      rw [Walk.recordBy_of_fresh hread hknown]
      dsimp only [Record.restore]
      rw [h _ e (Option.filter_eq_some_iff.1 hfound).1]
      rfl

theorem untold_visit {t : Walk.State} (hworking : Cache.Working t.cache) (h : Untold t.cache) :
    Untold (Walk.visit fs t x).1.cache := by
  rcases Walk.visit_cases fs x hworking with ⟨_, hnext, _⟩ | ⟨_, _, hnext, _⟩ |
    ⟨c, e, hcontent, _, he, _, hinsert, _⟩
  · rwa [hnext]
  · rwa [hnext]
  · intro path found hfound
    by_cases hpath : path = e.path
    · rw [hpath, Cache.known?_insert hworking hinsert] at hfound
      rw [Entry.ofRecord?_eq (Walk.contentHash_recordBy.trans (congrArg _ hcontent)),
        describedHash_recordBy h] at he
      cases he
      cases hfound
      rfl
    · rw [Cache.known?_insert_of_ne hinsert hpath] at hfound
      exact h path found hfound

/-- The record of something seen agrees with the one that a walk makes of it whose cache
    knows nothing that a describer told. -/
theorem agrees_recordBy (hcache : Cache.Faithful contents cache)
    (hcold : Cache.Faithful contents cold) (huntold : Untold cold)
    (hcollision : Set.InjOn Sha256.hash contents) (hfs : ∀ c ∈ fs.contents, c ∈ contents) :
    Agrees (x.recordBy fs cache) (x.recordBy fs cold) := by
  have hidentity (db : Database) : (x.recordBy fs db).identity = x.bare.identity :=
    Walk.identity_recordOf _
  cases hread : x.content? fs with
  | none =>
    rw [Walk.recordBy_of_unread hread, Walk.recordBy_of_unread hread]
    exact ⟨rfl, rfl, rfl, rfl, fun _ => rfl⟩
  | some c =>
    -- Both records may come from a cache, but then from entries of the same digest,
    -- which are of the same content.
    have hc := hfs c (Walk.mem_contents_of_content? hread)
    have hof := isOf_recordBy hcache hcollision hread hc
    have hofCold := isOf_recordBy hcold hcollision hread hc
    refine ⟨(hidentity _).trans (hidentity _).symm, ?_, ?_, ?_, fun hnot => ?_⟩
    · rw [hof.contentHash, hofCold.contentHash]
    · rw [hof.imports, hofCold.imports, Walk.path_recordBy, Walk.path_recordBy]
    · rw [hof.functions, hofCold.functions, Walk.path_recordBy, Walk.path_recordBy]
    · have hnone : (x.recordBy fs cold).describedHash = none := describedHash_recordBy huntold
      rcases hof.told with htold | ⟨_, _, hdescription⟩
      · exact absurd htold (hnot _ hof.contentHash)
      · rcases hofCold.told with htold | ⟨_, _, hdescription'⟩
        · cases hnone.symm.trans htold
        · rw [hdescription, hdescription', Walk.path_recordBy, Walk.path_recordBy]

/-- The records of two walks agree one by one, though either may find what it wrote
    itself. -/
theorem agrees_visitAll {s t : Walk.State} {sights : List Walk.Sight}
    (hcache : Cache.Faithful contents s.cache) (hcold : Cache.Faithful contents t.cache)
    (huntold : Untold t.cache) (hcollision : Set.InjOn Sha256.hash contents)
    (hfs : ∀ c ∈ fs.contents, c ∈ contents) :
    List.Forall₂ Agrees (Walk.visitAll fs s sights).2 (Walk.visitAll fs t sights).2 := by
  induction sights generalizing s t with
  | nil => exact .nil
  | cons x sights ih =>
    have hread (c : Bytes) (hc : x.content? fs = some c) : c ∈ contents :=
      hfs c (Walk.mem_contents_of_content? hc)
    rw [Walk.visitAll_cons, Walk.visitAll_cons, Walk.visit_record, Walk.visit_record]
    exact .cons (agrees_recordBy hcache hcold huntold hcollision hfs)
      (ih (Walk.faithful_visit hcache hread) (Walk.faithful_visit hcold hread)
        (untold_visit hcold.working huntold))

/-- After any history, the records of the next walk agree one by one with those
    of a walk of the same files with an empty cache, if no two contents that
    occurred have the same digest. A record has a consideration only if it was
    told about the content that the record is of. -/
theorem transparent (h : History past s) (hcollision : Set.InjOn Sha256.hash (occurring past))
    (hblank : Cache.Blank blank) {artifacts : List Bytes} {path : Bytes} {w : Walk.Result}
    (hrun : Walk.run s.fs s.cache artifacts path = .ok w) :
    ∃ cold, Walk.run s.fs blank artifacts path = .ok cold ∧
      List.Forall₂ Agrees w.records cold.records ∧
      ∀ r ∈ w.records, r.consideration.isSome →
        ∃ hash, r.contentHash = some hash ∧ r.describedHash = some hash := by
  obtain ⟨place, hroot⟩ := Walk.exists_rootPlace hrun
  rw [Walk.run_eq _ _ hroot] at hrun
  cases hrun
  obtain ⟨hfs, _⟩ := h.fs_mem
  obtain ⟨hcache, _⟩ := h.faithful
  have hoccurring : ∀ c ∈ s.fs.contents, c ∈ occurring past := fun c hc => ⟨s.fs, hfs, hc⟩
  refine ⟨_, Walk.run_eq _ _ hroot, ?_, fun r hr hconsideration => ?_⟩
  · have huntold : Untold blank := fun path e he => by
      rw [Cache.known?_of_blank hblank] at he
      cases he
    exact agrees_visitAll (s := { cache := s.cache }) (t := { cache := blank }) hcache
      (Cache.faithful_of_blank hblank) huntold hcollision hoccurring
  · rcases (Walk.faithful_visitAll (by exact hcache) hoccurring).2 r hr with
      ⟨_, _, hnone⟩ | ⟨c, _, hof⟩
    · rw [hnone] at hconsideration
      cases hconsideration
    · rcases hof.told with htold | ⟨_, hnone, _⟩
      · exact ⟨_, hof.contentHash, htold⟩
      · rw [hnone] at hconsideration
        cases hconsideration

/-- A directory with one file. -/
def note (content : Bytes) : FileSystem where
  entries := .cons "r" (.directory (.cons "a.md" (.file (.bytes content)) .nil)) .nil

/-- A file is walked, told about, and changed before the next walk. -/
theorem transparent_note :
    ∃ s, History [note [0x62], note [0x61]] s ∧
      Set.InjOn Sha256.hash (occurring [note [0x62], note [0x61]]) ∧ Cache.Blank Cache.empty ∧
      ∃ w cold, Walk.run s.fs s.cache [] "/r" = .ok w ∧
        Walk.run s.fs Cache.empty [] "/r" = .ok cold ∧
        List.Forall₂ Agrees w.records cold.records := by
  have hroot (c : Bytes) : Walk.rootPlace (note c) "/r" = .ok ["r"] := rfl
  have hstart : History [note [0x61]] { fs := note [0x61], cache := Cache.empty } :=
    .start (by decide) Cache.blank_empty
  have hwalked := hstart.walk (Walk.run_eq _ [] (hroot _))
  let walked := Walk.collect (note [0x61]) Cache.empty [] ["r"]
  let d : Describer Unit := fun _ _ => (.ok "text", ())
  obtain ⟨result, hresult⟩ := Round.exists_run walked.cache "" {} walked.records () (d := d)
    fun _ _ => ⟨_, _, rfl⟩
  have htold := hwalked.round hresult
  have hedited : History [note [0x62], note [0x61]] _ :=
    htold.edit (by decide : (note [0x62]).WellFormed)
  have hcollision : Set.InjOn Sha256.hash (occurring [note [0x62], note [0x61]]) := by
    have hne : Sha256.hash [0x62] ≠ Sha256.hash [0x61] := by decide +kernel
    have hmem {c : Bytes} (hc : c ∈ occurring [note [0x62], note [0x61]]) :
        c = [0x62] ∨ c = [0x61] := by
      obtain ⟨fs, hfs, hc⟩ := hc
      rcases List.mem_cons.1 hfs with rfl | hfs
      · exact .inl (List.mem_singleton.1 hc)
      · cases List.mem_singleton.1 hfs
        exact .inr (List.mem_singleton.1 hc)
    intro a ha b hb hhash
    rcases hmem ha with rfl | rfl <;> rcases hmem hb with rfl | rfl
    · rfl
    · exact absurd hhash hne
    · exact absurd hhash.symm hne
    · rfl
  obtain ⟨cold, hcold, hagrees, _⟩ := hedited.transparent hcollision Cache.blank_empty
    (Walk.run_eq _ [] (hroot _))
  exact ⟨_, hedited, hcollision, Cache.blank_empty, _, cold, Walk.run_eq _ _ (hroot _), hcold,
    hagrees⟩

end History

end RepoAtlas
