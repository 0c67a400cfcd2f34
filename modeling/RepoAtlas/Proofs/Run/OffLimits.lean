import RepoAtlas.Proofs.Run.Files
import RepoAtlas.Proofs.Walk.Exactness
import RepoAtlas.Proofs.Walk.Verdicts

/-!
# What is off limits

Two things no run should have records of (`Ground.IsOffLimits`): the data of
version control, and the files that the run writes itself. The rules that always
hold speak of them, but a rule file may keep what they speak of, and they do not
speak of every file: a brace in a name is read as a mark of a glob, and the
place of a file may be another than its path says.

* `Ground.IsGuarded`: in the directories that are listed, no rule file keeps a
  directory of the name `.git`, and each file that the run writes is ignored;
* `off_limits_iff`: a run has no record of what is off limits if this holds, and
  only then;
* `spares_version_data`: so it is for the data of version control where no rule
  file keeps anything;
* `maps_git`: a rule file of one line is enough for a record of what is off
  limits.
-/

namespace RepoAtlas

open RepoAtlas.Path (IsName ofNames)
open Utf8 (encode)
open Walk (IsCovered IsListed IsSeenAs Listing Reached Sight fileVerdict?)

/-! ### The records of a run -/

/-- Whatever is told about records, they show the same. -/
theorem shown_applyPatches (records : List Record) (patches : List Patch) :
    (applyPatches records patches).map Record.shown = records.map Record.shown := by
  induction patches generalizing records with
  | nil => rfl
  | cons p patches ih =>
    have happly (r : Record) : (p.apply r).shown = r.shown := rfl
    have hmodify : (records.modify p.index p.apply).map Record.shown =
        records.map Record.shown := by
      refine List.ext_getElem? fun i => ?_
      rw [List.getElem?_map, List.getElem?_map, List.getElem?_modify, Option.map_eq_map,
        Option.map_map]
      refine congrArg (Option.map · records[i]?) (funext fun r => ?_)
      rw [Function.comp_apply]
      split
      · exact happly r
      · rfl
    exact (ih _).trans hmodify

namespace Run

variable {fs : FileSystem} {path : Bytes} {c : Config} {σ : Type} {d : Option (Describer σ)}
  {state : σ} {o : Outcome σ}

theorem shown_describe {records : List Record} {cache : Database} {round : Round.Result σ}
    {stats : Option RoundStats} (h : describe d c records cache state = some (round, stats)) :
    round.records.map Record.shown = records.map Record.shown := by
  cases d with
  | none => cases h; rfl
  | some d =>
    obtain ⟨_, hround, hmap⟩ := Option.map_eq_some_iff.1 h
    cases hmap
    obtain ⟨last, _, rfl⟩ := Option.map_eq_some_iff.1 hround
    exact shown_applyPatches ..

/-- Whether names lead to a directory of the name `.git`, or to something below
    one. -/
def IsVersionData (names : List Bytes) (kind : Kind) : Prop :=
  ∃ front rest, names = front ++ encode ".git" :: rest ∧ (rest = [] → kind = .directory)

namespace Ground

variable (g : Ground fs path c)

/-- The records of a run show the listing of its root. -/
theorem listing_perform (hfs : fs.WellFormed) (h : perform fs path c d state = some o) :
    ∃ run l, o.result = .ok run ∧ run.root = ofNames g.root ∧
      Listing g.walked g.artifacts g.root [] l ∧
      run.records.map Record.shown = l.map Sight.shown := by
  obtain ⟨round, stats, hdescribe, _, run, hok, hroot, hrecords⟩ := g.exists_describe h
  obtain ⟨hwalked, entries, hnode⟩ := exists_directory_walked (g := g) hfs
  refine ⟨run, _, hok, hroot, Walk.listing_survey hwalked hnode, ?_⟩
  rw [hrecords, shown_describe hdescribe, walk, Walk.shown_collect]

/-! ### What is off limits -/

/-- Whether something listed is what the run must not map: data of version control
    below the root, or a file that the run writes. -/
def IsOffLimits (x : Sight) : Prop :=
  ∃ names, (∀ s ∈ g.root ++ names, IsName s) ∧ x.path = ofNames (g.root ++ names) ∧
    (IsVersionData names x.kind ∨ x.kind = .file ∧ g.root ++ names ∈ g.written)

/-- Whether the rules keep all that is off limits from being mapped. -/
structure IsGuarded : Prop where
  git : ∀ {names entries}, IsListed g.walked g.artifacts g.root names →
    g.walked.nodeAt? (g.root ++ (names ++ [encode ".git"])) = some (.directory entries) →
    fileVerdict? g.walked g.root (names ++ [encode ".git"]) .directory ≠ some .kept
  written : ∀ {names s node}, IsListed g.walked g.artifacts g.root names →
    g.root ++ (names ++ [s]) ∈ g.written →
    g.walked.nodeAt? (g.root ++ (names ++ [s])) = some node →
    IsSeenAs g.walked (ofNames (g.root ++ (names ++ [s]))) node .file →
    fileVerdict? g.walked g.root (names ++ [s]) .file = some .ignored ∨
      fileVerdict? g.walked g.root (names ++ [s]) .file = none ∧
        IsCovered g.walked g.artifacts g.root (names ++ [s]) .file

variable {g}

/-- On the way to data of version control, some rule file keeps a directory of
    the name `.git`. -/
theorem exists_kept (hfs : g.walked.WellFormed) {names : List Bytes} {kind : Kind}
    (hreached : Reached g.walked g.artifacts g.root [] names kind) (h : IsVersionData names kind) :
    ∃ front entries, IsListed g.walked g.artifacts g.root front ∧
      g.walked.nodeAt? (g.root ++ (front ++ [encode ".git"])) = some (.directory entries) ∧
      fileVerdict? g.walked g.root (front ++ [encode ".git"]) .directory = some .kept := by
  obtain ⟨front, rest, rfl, hkind⟩ := h
  -- Whatever lies below a directory of the name `.git`, it is reached too.
  obtain ⟨hlisted, hsurvives⟩ := Walk.reached_iff.1 (hreached.directory hkind)
  obtain ⟨-, ⟨entries, hnode⟩, hkept⟩ := (Walk.survives_git_iff hfs).1 hsurvives
  exact ⟨front, entries, hlisted, hnode, hkept⟩

/-- What the rules keep from being mapped is what is not reached. -/
theorem isGuarded_iff (hfs : g.walked.WellFormed) :
    g.IsGuarded ↔ ∀ names kind, Reached g.walked g.artifacts g.root [] names kind →
      ¬(IsVersionData names kind ∨ kind = .file ∧ g.root ++ names ∈ g.written) := by
  constructor
  · rintro h names kind hreached (hdata | ⟨rfl, hwritten⟩)
    · obtain ⟨front, entries, hlisted, hnode, hkept⟩ := exists_kept hfs hreached hdata
      exact h.git hlisted hnode hkept
    · obtain rfl | ⟨front, s, rfl⟩ := List.eq_nil_or_concat names
      · exact hreached.elim
      · rw [List.concat_eq_append] at hreached hwritten
        obtain ⟨hlisted, hsurvives⟩ := Walk.reached_iff.1 hreached
        obtain ⟨-, node, hnode, hseen, hnot, hkept⟩ :=
          (Walk.survives_iff hfs (List.concat_ne_nil _ _)).1 hsurvives
        rcases h.written hlisted hwritten hnode hseen with hignored | ⟨hnone, hcovered⟩
        · exact hnot hignored
        · exact hkept hnone hcovered
  · refine fun h => ⟨fun hlisted hnode hkept => ?_, fun hlisted hwritten hnode hseen => ?_⟩
    · have hreached := Walk.reached_iff.2
        ⟨hlisted, (Walk.survives_git_iff hfs).2 ⟨hlisted.2, ⟨_, hnode⟩, hkept⟩⟩
      exact h _ _ hreached (.inl ⟨_, [], rfl, fun _ => rfl⟩)
    · -- What nothing ignores survives, so that the run would have a record of it.
      by_contra hnot
      rw [not_or, not_and] at hnot
      have hreached := Walk.reached_iff.2
        ⟨hlisted, (Walk.survives_iff hfs (List.concat_ne_nil _ _)).2
          ⟨by rw [List.dropLast_concat]; exact hlisted.2, _, hnode, hseen, hnot⟩⟩
      exact h _ _ hreached (.inr ⟨rfl, hwritten⟩)

/-- What is off limits is told by the names that lead to it. -/
theorem isOffLimits_iff {x : Sight} {names : List Bytes}
    (hnames : ∀ s ∈ g.root ++ names, IsName s) (hpath : x.path = ofNames (g.root ++ names)) :
    g.IsOffLimits x ↔
      IsVersionData names x.kind ∨ x.kind = .file ∧ g.root ++ names ∈ g.written := by
  constructor
  · rintro ⟨others, hothers, hpath', h⟩
    have heq := Path.ofNames_injective hothers hnames (hpath'.symm.trans hpath)
    rwa [List.append_cancel_left heq] at h
  · exact fun h => ⟨names, hnames, hpath, h⟩

/-- A file that the run writes is spoken of by the rules that always hold, if its
    names are literal. -/
theorem isCovered_of_isLiteral {artifact : Bytes} {names : List Bytes}
    (hartifact : artifact ∈ g.artifacts)
    (hbelow : Ignore.namesBelow? g.walked.resolveParts (ofNames g.root) artifact = some names)
    (hliteral : Ignore.IsLiteral names) :
    IsCovered g.walked g.artifacts g.root names .file := by
  obtain ⟨hne, hnames⟩ := Ignore.isName_of_namesBelow? FileSystem.isName_of_resolveParts hbelow
  exact Ignore.verdict?_builtin_artifact hartifact hbelow hne hnames hliteral

end Ground

/-- The records of a run show what is listed, one record for each entry, and nothing that
    is listed is off limits if, in the directories that are listed, no rule file keeps a
    directory of the name `.git`, and each file that the run writes is ignored by the
    deepest rule file that decides or, where none does, by the rules that always hold.
    Otherwise something is. The rules that always hold speak of each file that the run
    writes whose names are literal. -/
theorem off_limits_iff (hfs : fs.WellFormed) (h : perform fs path c d state = some o) {run : Run}
    (hok : o.result = .ok run) :
    ∃ (g : Ground fs path c) (l : List Sight), run.root = ofNames g.root ∧
      Listing g.walked g.artifacts g.root [] l ∧
      run.records.map Record.shown = l.map Sight.shown ∧
      ((∀ x ∈ l, ¬g.IsOffLimits x) ↔ g.IsGuarded) ∧
      ∀ artifact ∈ g.artifacts, ∀ names,
        Ignore.namesBelow? g.walked.resolveParts (ofNames g.root) artifact = some names →
        Ignore.IsLiteral names → IsCovered g.walked g.artifacts g.root names .file := by
  obtain ⟨g⟩ := exists_ground hfs h hok
  obtain ⟨found, l, hfound, hroot, hlisting, hshown⟩ := g.listing_perform hfs h
  cases hok.symm.trans hfound
  obtain ⟨hwalked, _⟩ := Ground.exists_directory_walked (g := g) hfs
  refine ⟨g, l, hroot, hlisting, hshown, ?_,
    fun _ hartifact _ => Ground.isCovered_of_isLiteral hartifact⟩
  have hnames {names : List Bytes} {kind : Kind}
      (hreached : Reached g.walked g.artifacts g.root [] names kind) :
      ∀ s ∈ g.root ++ names, IsName s := hreached.survives.isName hwalked
  rw [Ground.isGuarded_iff hwalked]
  constructor
  · intro hspared names kind hreached
    obtain ⟨x, hx, hpath, rfl⟩ := hlisting.exists_sight hreached
    have hnot := hspared x hx
    rwa [Ground.isOffLimits_iff (hnames hreached) hpath] at hnot
  · intro hspared x hx
    obtain ⟨names, hreached, hpath, _⟩ := hlisting.reached_of_mem hx
    rw [Ground.isOffLimits_iff (hnames hreached) hpath]
    exact hspared names x.kind hreached

/-- Where every rule of every rule file below the root ignores, nothing listed is data
    of version control. -/
theorem spares_version_data (g : Ground fs path c) (hfs : fs.WellFormed)
    (hrules : ∀ above scope, Walk.scopeOf? g.walked (ofNames (g.root ++ above)) = some scope →
      ∀ r ∈ scope.rules, r.verdict = .ignored)
    (h : perform fs path c d state = some o) :
    ∃ run, ∃ l : List Sight, o.result = .ok run ∧
      run.records.map Record.shown = l.map Sight.shown ∧
      ∀ x ∈ l, ∃ names, (∀ s ∈ g.root ++ names, IsName s) ∧
        x.path = ofNames (g.root ++ names) ∧ ¬IsVersionData names x.kind := by
  obtain ⟨run, l, hok, _, hlisting, hshown⟩ := g.listing_perform hfs h
  obtain ⟨hwalked, _⟩ := Ground.exists_directory_walked (g := g) hfs
  refine ⟨run, l, hok, hshown, fun x hx => ?_⟩
  obtain ⟨names, hreached, hpath, _⟩ := hlisting.reached_of_mem hx
  refine ⟨names, hreached.survives.isName hwalked, hpath, fun hdata => ?_⟩
  obtain ⟨front, _, _, _, hkept⟩ := Ground.exists_kept hwalked hreached hdata
  refine Walk.fileVerdict?_ne_kept (fun scope hscope => ?_) hkept
  obtain ⟨above, _, hscope⟩ := List.mem_filterMap.1 hscope
  exact hrules above scope hscope

/-! ### A rule file that keeps the data of version control -/

/-- A repository with one rule, which keeps the directories of the name `.git`. -/
def keeper : FileSystem where
  entries :=
    .cons "repo" (.directory
      (.cons ".gitignore" (.file (.bytes (Utf8.encode "!.git/\n")))
      (.cons ".git" (.directory (.cons "config" (.file (.bytes (Utf8.encode "[core]\n"))) .nil))
        .nil))) .nil

/-- A run over it reaches the directory. -/
theorem reached_keeper (g : Ground keeper "/repo" { enrich := false }) :
    g.root = (["repo"] : Place) ∧
      Reached g.walked g.artifacts g.root [] [encode ".git"] .directory := by
  have hfs : keeper.WellFormed := by decide
  have hkept : fileVerdict? (openCache keeper "/repo/.repo-map-cache.db").1 ["repo"] [encode ".git"]
      .directory = some .kept := by decide +kernel
  have hvalid : validateRoot keeper "/repo" = .ok ["repo"] := by decide +kernel
  have hroot : g.root = (["repo"] : Place) := Except.ok.inj (g.validated.symm.trans hvalid)
  obtain ⟨hchanged, _⟩ := Ground.changedAt_walked (g := g) hfs
  have hnode := (hchanged.directory ["repo", encode ".git"]).2 ⟨_, rfl⟩
  obtain ⟨-, -, hlisted⟩ := Walk.rootPlace_eq_ok_iff.1 g.listed
  have hopened := g.opened
  rw [hroot] at hopened hlisted
  have hwalked : (openCache keeper "/repo/.repo-map-cache.db").1 = g.walked :=
    congrArg Prod.fst hopened
  rw [hwalked] at hkept
  rw [hroot]
  have hroots : IsListed g.walked g.artifacts ["repo"] [] := ⟨.inl rfl, hlisted⟩
  exact ⟨rfl, Walk.reached_iff.2
    ⟨hroots, (Walk.survives_git_iff hchanged.wellFormed).2 ⟨hlisted, hnode, hkept⟩⟩⟩

theorem exists_perform_keeper :
    ∃ o : Outcome Unit, perform keeper "/repo" { enrich := false } none () = some o ∧
      Nonempty (Ground keeper "/repo" { enrich := false }) := by
  have hvalid : validateRoot keeper "/repo" = .ok ["repo"] := by decide +kernel
  obtain ⟨g⟩ : Nonempty (Ground keeper "/repo" { enrich := false }) :=
    nonempty_ground (by decide) hvalid (by decide +kernel) (by decide)
  obtain ⟨o, h⟩ := g.exists_perform ()
  exact ⟨o, h, ⟨g⟩⟩

/-- A rule that keeps it makes a run map the data of version control. -/
theorem maps_git :
    keeper.WellFormed ∧ ∃ o : Outcome Unit,
      perform keeper "/repo" { enrich := false } none () = some o ∧
      ∃ run, o.result = .ok run ∧
        ∃ r ∈ run.records, r.path = "/repo/.git" ∧ r.kind = .directory := by
  have hfs : keeper.WellFormed := by decide
  obtain ⟨o, h, ⟨g⟩⟩ := exists_perform_keeper
  obtain ⟨run, l, hok, _, hlisting, hshown⟩ := g.listing_perform hfs h
  obtain ⟨hroot, hreached⟩ := reached_keeper g
  obtain ⟨x, hx, hpath, hkind⟩ := hlisting.exists_sight hreached
  -- The record that shows the directory.
  obtain ⟨r, hr, hsame⟩ := List.mem_map.1 (hshown ▸ List.mem_map_of_mem hx)
  refine ⟨hfs, o, h, run, hok, r, hr, ?_, (congrArg Shown.kind hsame).trans hkind⟩
  rw [show r.path = Path.text x.path from congrArg Shown.path hsame, hpath, hroot]
  decide +kernel

/-- Nothing guards the directory, so that something listed is off limits. -/
theorem off_limits_iff_keeper :
    keeper.WellFormed ∧ ∃ o : Outcome Unit,
      perform keeper "/repo" { enrich := false } none () = some o ∧
      ∃ run, ∃ l : List Sight, o.result = .ok run ∧
        run.records.map Record.shown = l.map Sight.shown ∧
        ∃ g : Ground keeper "/repo" { enrich := false },
          ¬g.IsGuarded ∧ ∃ x ∈ l, g.IsOffLimits x := by
  have hfs : keeper.WellFormed := by decide
  obtain ⟨o, h, ⟨g⟩⟩ := exists_perform_keeper
  obtain ⟨run, _, hok, _⟩ := g.listing_perform hfs h
  obtain ⟨g, l, _, _, hshown, hiff, _⟩ := off_limits_iff hfs h hok
  have hnot : ¬g.IsGuarded := by
    rw [Ground.isGuarded_iff (Ground.exists_directory_walked hfs).1]
    exact fun hspared => hspared [encode ".git"] .directory (reached_keeper g).2
      (.inl ⟨[], [], rfl, fun _ => rfl⟩)
  have hoff : ∃ x ∈ l, g.IsOffLimits x := by
    by_contra hnone
    push Not at hnone
    exact hnot (hiff.1 hnone)
  exact ⟨hfs, o, h, run, l, hok, hshown, g, hnot, hoff⟩

end Run

end RepoAtlas
