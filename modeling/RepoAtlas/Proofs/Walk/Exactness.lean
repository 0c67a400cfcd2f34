import RepoAtlas.Proofs.Walk.Survey
import RepoAtlas.Proofs.Walk.Visit

/-!
# The records of a walk

A walk of a directory comes to an end, and its records show the listing of the
directory, one record for each entry of it (`run_exact`). In which order the
directories hold their entries makes no difference to the walk
(`run_of_sameTree`), nor does what the cache knows to what is listed.
-/

namespace RepoAtlas.Walk

open RepoAtlas.Path

variable {fs other : FileSystem} {cache : Database} {artifacts : List Bytes} {path : Bytes}
  {place : Place}

/-- A path leads to a root if it leads to the place of a directory that tells its
    entries. -/
theorem rootPlace_eq_ok_iff :
    rootPlace fs path = .ok place ↔
      fs.resolve path = .ok place ∧ (∃ entries, fs.nodeAt? place = some (.directory entries)) ∧
        fs.isListed (ofNames place) = true := by
  rw [rootPlace]
  cases hresolve : fs.resolve path with
  | error e => simp
  | ok found =>
    dsimp only
    constructor
    · intro h
      split at h
      · rename_i entries hnode
        split at h
        · rename_i hlisted
          cases h
          exact ⟨rfl, ⟨entries, hnode⟩, hlisted⟩
        · cases h
      · cases h
    · rintro ⟨hfound, ⟨entries, hnode⟩, hlisted⟩
      cases hfound
      rw [hnode]
      exact if_pos hlisted

/-- The path of a directory leads to a root if the directory tells its entries. -/
theorem rootPlace_ofNames (hfs : fs.WellFormed)
    (hdirectory : ∃ entries, fs.nodeAt? place = some (.directory entries)) :
    rootPlace fs (ofNames place) =
      if place ∈ fs.unlisted then .error (.unlisted (ofNames place) .denied) else .ok place := by
  obtain ⟨entries, hnode⟩ := hdirectory
  have hresolve := FileSystem.resolve_ofNames hfs hnode
  rw [rootPlace, hresolve]
  dsimp only
  rw [hnode]
  dsimp only
  rw [FileSystem.isListed, hresolve]
  by_cases hunlisted : place ∈ fs.unlisted <;> simp [hunlisted]

variable (cache artifacts) in
theorem run_eq (hroot : rootPlace fs path = .ok place) :
    run fs cache artifacts path = .ok (collect fs cache artifacts place) := by
  rw [run, hroot, Except.map]

theorem exists_rootPlace {w : Result} (h : run fs cache artifacts path = .ok w) :
    ∃ place, rootPlace fs path = .ok place := by
  rw [run] at h
  cases hroot : rootPlace fs path with
  | error e => rw [hroot] at h; cases h
  | ok place => exact ⟨place, rfl⟩

/-! ### What makes no difference -/

theorem visitAll_of_sameTree (h : fs.SameTree other) (s : State) (sights : List Sight) :
    visitAll fs s sights = visitAll other s sights := by
  have hvisit (s : State) (x : Sight) : visit fs s x = visit other s x := by
    rw [visit, visit]
    cases x.kind with
    | directory => dsimp only; rw [h.isListed_eq]
    | file => dsimp only; rw [visitFile, visitFile, h.read_eq]
  induction sights generalizing s with
  | nil => rfl
  | cons x sights ih => rw [visitAll_cons, visitAll_cons, hvisit, ih]

/-- The order in which directories hold their entries makes no difference to a
    walk. -/
theorem run_of_sameTree (hfs : fs.WellFormed) (hother : other.WellFormed) (h : fs.SameTree other)
    (hroot : rootPlace fs path = .ok place) :
    run other cache artifacts path = run fs cache artifacts path := by
  obtain ⟨hresolve, ⟨entries, hnode⟩, hlisted⟩ := rootPlace_eq_ok_iff.1 hroot
  obtain ⟨entries', hnode'⟩ : ∃ entries', other.nodeAt? place = some (.directory entries') := by
    rcases FileSystem.cases_of_face (h.face place) with ⟨hnone, _⟩ | ⟨_, entries', _, hnode'⟩ |
      ⟨node, hne, hfound, _⟩
    · cases hnode.symm.trans hnone
    · exact ⟨entries', hnode'⟩
    · cases hnode.symm.trans hfound
      exact absurd rfl (hne entries)
  have hroot' : rootPlace other path = .ok place :=
    rootPlace_eq_ok_iff.2
      ⟨h.resolve_eq path ▸ hresolve, ⟨entries', hnode'⟩, h.isListed_eq _ ▸ hlisted⟩
  have hsurvey : survey fs artifacts place = survey other artifacts place :=
    ((listing_survey hfs hnode).of_sameTree h).unique (listing_survey hother hnode')
  rw [run_eq cache artifacts hroot, run_eq cache artifacts hroot', collect, collect, hsurvey,
    visitAll_of_sameTree h]

/-! ### Exactness -/

/-- The records show what is surveyed, in its order. -/
theorem shown_collect :
    (collect fs cache artifacts place).records.map Record.shown =
      (survey fs artifacts place).map Sight.shown :=
  shown_visitAll

/-- Where a path leads to a root, the survey of it is its listing. -/
theorem listing_of_rootPlace (hfs : fs.WellFormed) (hroot : rootPlace fs path = .ok place) :
    Listing fs artifacts place [] (survey fs artifacts place) := by
  obtain ⟨_, ⟨_, hnode⟩, _⟩ := rootPlace_eq_ok_iff.1 hroot
  exact listing_survey hfs hnode

section Entries

variable {l : List Sight} (h : Listing fs artifacts place [] l)

include h

/-- Each entry of a listing is reached, as deep as there are names before its own. -/
theorem Listing.reached_of_mem {x : Sight} (hx : x ∈ l) :
    ∃ names, Reached fs artifacts place [] names x.kind ∧ x.path = ofNames (place ++ names) ∧
      names.length = x.depth + 1 := by
  obtain ⟨names, kind, hreached, rfl⟩ := h.mem_iff.1 hx
  refine ⟨names, hreached, rfl, ?_⟩
  cases names with
  | nil => exact hreached.elim
  | cons s names => rfl

/-- An entry shows the last of its names. -/
theorem Listing.name_of_mem (hfs : fs.WellFormed) {x : Sight} (hx : x ∈ l) :
    ∃ names, Reached fs artifacts place [] names x.kind ∧ x.path = ofNames (place ++ names) ∧
      names.getLast?.map text = some x.shown.name ∧ names.length = x.depth + 1 := by
  obtain ⟨names, hreached, hpath, hdepth⟩ := h.reached_of_mem hx
  refine ⟨names, hreached, hpath, ?_, hdepth⟩
  obtain rfl | ⟨front, s, rfl⟩ := List.eq_nil_or_concat names
  · exact hreached.elim
  · rw [List.concat_eq_append] at hreached hpath ⊢
    have hnames := hreached.survives.isName hfs
    rw [Sight.shown, hpath, ← List.append_assoc,
      fileName?_ofNames (by simpa using hnames), List.getLast?_concat]
    rfl

/-- All that is reached is listed. -/
theorem Listing.exists_sight {names : List Bytes} {kind : Kind}
    (hreached : Reached fs artifacts place [] names kind) :
    ∃ x ∈ l, x.path = ofNames (place ++ names) ∧ x.kind = kind :=
  ⟨_, h.mem_iff.2 ⟨names, kind, hreached, rfl⟩, rfl, rfl⟩

end Entries

/-- A walk of a directory gives the listing of it: one record for each of its
    entries, in their order, which shows the path of the entry, the last of its names
    and how deep it lies. An entry that survives through directories that survive is
    listed, under the path that its names lead along and as deep as there are names
    before its own, each once, and there is no other. In which order the directories
    hold their entries makes no difference. -/
theorem run_exact (hfs : fs.WellFormed) (hroot : rootPlace fs path = .ok place)
    (cache : Database) (artifacts : List Bytes) :
    ∃ w l, run fs cache artifacts path = .ok w ∧
      (∀ other, Listing fs artifacts place [] other ↔ other = l) ∧
      w.records.map Record.shown = l.map Sight.shown ∧
      (l.map (·.path)).Nodup ∧
      (∀ x ∈ l, ∃ names, Reached fs artifacts place [] names x.kind ∧
        x.path = ofNames (place ++ names) ∧ names.getLast?.map text = some x.shown.name ∧
        names.length = x.depth + 1) ∧
      (∀ names kind, Reached fs artifacts place [] names kind →
        ∃ x ∈ l, x.path = ofNames (place ++ names) ∧ x.kind = kind) ∧
      ∀ other : FileSystem, other.WellFormed → fs.SameTree other →
        run other cache artifacts path = .ok w := by
  have hlisting : Listing fs artifacts place [] (survey fs artifacts place) :=
    listing_of_rootPlace hfs hroot
  refine ⟨collect fs cache artifacts place, survey fs artifacts place, run_eq cache artifacts hroot,
    fun l => ⟨fun hl => hl.unique hlisting, ?_⟩, shown_collect, hlisting.nodup hfs,
    fun x hx => hlisting.name_of_mem hfs hx, fun names kind => hlisting.exists_sight,
    fun other hother hsame => ?_⟩
  · rintro rfl
    exact hlisting
  · rw [run_of_sameTree hfs hother hsame hroot, run_eq cache artifacts hroot]

theorem run_exact_sample :
    FileSystem.sample.WellFormed ∧ rootPlace FileSystem.sample "/r" = .ok ["r"] ∧
      ∃ w l, run FileSystem.sample Cache.empty [] "/r" = .ok w ∧
        (∀ other, Listing FileSystem.sample [] ["r"] [] other ↔ other = l) ∧
        w.records.map Record.shown = l.map Sight.shown ∧ (l.map (·.path)).Nodup := by
  have hfs : FileSystem.sample.WellFormed := by decide
  have hroot : rootPlace FileSystem.sample "/r" = .ok ["r"] := by decide +kernel
  obtain ⟨w, l, hrun, hlisting, hshown, hnodup, _⟩ := run_exact hfs hroot Cache.empty []
  exact ⟨hfs, hroot, w, l, hrun, hlisting, hshown, hnodup⟩

end RepoAtlas.Walk
