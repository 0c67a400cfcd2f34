import RepoAtlas.Proofs.FileSystem.Lookups
import RepoAtlas.Walk.Survey
import Mathlib.Data.List.Infix
import Mathlib.Data.List.Nodup

/-!
# Listings

What the list of a walk is to be, said without the walk (`Listing`): for the root
and for every directory that is listed, first its files that survive the rules,
then its subdirectories that survive them, both in the order of the bytes of
their names, and behind each subdirectory its own listing. An entry survives if
the rules for it (`rulesFor`) do not ignore it, if it is no link to a directory, and
if its own directory tells its entries (`Survives`). Nothing is said of the order in
which a directory holds its entries.

* `Listing.unique`: there is but one;
* `Listing.mem_iff`: an entry is in it if it survives, and every directory on the
  way to it does;
* `Listing.nodup`: nothing is in it twice.
-/

namespace RepoAtlas.Walk

open Ignore RepoAtlas.Path

/-! ### Entries that survive -/

/-- What a node is seen as: a directory as one, and anything else as a file, if
    it is no link to a directory. -/
def IsSeenAs (fs : FileSystem) (path : Bytes) (node : Node) : Kind → Prop
  | .directory => ∃ entries, node = .directory entries
  | .file =>
    (∀ entries, node ≠ .directory entries) ∧
      ∀ target, node = .link target → fs.isDirectory path = false

theorem seenAs?_eq_some_iff {fs : FileSystem} {path : Bytes} {node : Node} {kind : Kind} :
    seenAs? fs path node = some kind ↔ IsSeenAs fs path node kind := by
  cases node with
  | file content => cases kind <;> simp [seenAs?, IsSeenAs]
  | directory entries => cases kind <;> simp [seenAs?, IsSeenAs]
  | link target =>
    cases hdirectory : fs.isDirectory path <;> cases kind <;>
      simp [seenAs?, IsSeenAs, hdirectory]

variable (fs : FileSystem) (artifacts : List Bytes) (place : Place)

/-- The rules of the rule files in the directories above what names below the
    root lead to, from the root on. -/
def ruleFilesFor (names : List Bytes) : List Scope :=
  names.inits.dropLast.filterMap fun front => scopeOf? fs (ofNames (place ++ front))

/-- The rules for what names below the root lead to: those that always hold, and
    those of the rule files in the directories above it. -/
def rulesFor (names : List Bytes) : List Scope :=
  builtin fs.resolveParts (ofNames place) artifacts :: ruleFilesFor fs place names

/-- Whether names below the root lead to something that is seen as of a kind and
    is not ignored, in a directory that tells its entries. -/
def Survives (names : List Bytes) (kind : Kind) : Prop :=
  fs.isListed (ofNames (place ++ names.dropLast)) = true ∧
    ∃ node, fs.nodeAt? (place ++ names) = some node ∧
      IsSeenAs fs (ofNames (place ++ names)) node kind ∧
      isIgnored (rulesFor fs artifacts place names) (ofNames (place ++ names))
        (kind = .directory) = false

/-- The sight of what names below the root lead to. -/
def sightOf (names : List Bytes) (kind : Kind) : Sight :=
  ⟨ofNames (place ++ names), names.length - 1, kind⟩

/-- Whether the names are in the order of their bytes, none of them twice. -/
def InByteOrder (names : List Bytes) : Prop := names.Pairwise (· < ·)

/-- The list of what is below a directory, which is given by the names that lead
    to it from the root. -/
inductive Listing : List Bytes → List Sight → Prop
  | directory {names files directories : List Bytes} {sub : Bytes → List Sight} :
    InByteOrder files →
    (∀ s, s ∈ files ↔ Survives fs artifacts place (names ++ [s]) .file) →
    InByteOrder directories →
    (∀ s, s ∈ directories ↔ Survives fs artifacts place (names ++ [s]) .directory) →
    (∀ s ∈ directories, Listing (names ++ [s]) (sub s)) →
    Listing names
      (files.map (fun s => sightOf place (names ++ [s]) .file) ++
        directories.flatMap fun s => sightOf place (names ++ [s]) .directory :: sub s)

/-- Whether names lead on from a directory, which is given by the names that lead
    to it from the root, to something that survives, through directories that
    survive. -/
def Reached : (names further : List Bytes) → Kind → Prop
  | _, [], _ => False
  | names, [s], kind => Survives fs artifacts place (names ++ [s]) kind
  | names, s :: further, kind =>
    Survives fs artifacts place (names ++ [s]) .directory ∧ Reached (names ++ [s]) further kind

variable {fs artifacts place}

theorem inits_eq (names : List Bytes) : names.inits = names.inits.dropLast ++ [names] := by
  rcases List.eq_nil_or_concat names with rfl | ⟨front, s, rfl⟩
  · rfl
  · rw [List.concat_eq_append, List.inits_append]
    simp

/-- For the entries of a directory, its own rule file holds as well. -/
theorem rulesFor_append (names : List Bytes) (s : Bytes) :
    rulesFor fs artifacts place (names ++ [s]) =
      rulesFor fs artifacts place names ++ (scopeOf? fs (ofNames (place ++ names))).toList := by
  have hfronts : (names ++ [s]).inits.dropLast = names.inits.dropLast ++ [names] := by
    rw [← inits_eq, List.inits_append]
    simp
  have hown : [names].filterMap (fun front => scopeOf? fs (ofNames (place ++ front))) =
      (scopeOf? fs (ofNames (place ++ names))).toList := by
    cases hscope : scopeOf? fs (ofNames (place ++ names)) with
    | none => exact List.filterMap_cons_none hscope
    | some scope => exact List.filterMap_cons_some hscope
  rw [rulesFor, ruleFilesFor, hfronts, List.filterMap_append, hown, rulesFor, ruleFilesFor,
    List.cons_append]

/-- Names that survive are such as entries may have. -/
theorem Survives.isName (hfs : fs.WellFormed) {names : List Bytes} {kind : Kind}
    (h : Survives fs artifacts place names kind) : ∀ s ∈ place ++ names, IsName s := by
  obtain ⟨-, node, hnode, _⟩ := h
  exact FileSystem.isName_of_nodeAt? hfs hnode

/-! ### Rules of a directory -/

/-- Rules from a directory speak of what lies below it. -/
theorem contains_ofNames {scope : Scope} {front names : List Bytes}
    (hscope : scope.root = ofNames front) (hfront : ∀ s ∈ front, IsName s)
    (hnames : ∀ s ∈ names, IsName s) :
    scope.contains (ofNames names) = true ↔ front <+: names ∧ front ≠ names := by
  have hbelow : scope.contains (ofNames names) = isBelow scope.root (ofNames names) := rfl
  rw [hbelow, hscope, isBelow_ofNames hfront hnames]

theorem root_of_scopeOf? {directory : Bytes} {scope : Scope}
    (h : scopeOf? fs directory = some scope) : scope.root = directory := by
  rw [scopeOf?] at h
  split at h
  · cases h
    rfl
  · cases h

/-! ### The order of names -/

theorem nodup_of_inByteOrder {names : List Bytes} (h : InByteOrder names) : names.Nodup := by
  refine List.Pairwise.imp (fun {a b} hlt => ?_) h
  rintro rfl
  exact List.lt_irrefl a hlt

/-- There is one list of given names in the order of their bytes. -/
theorem eq_of_inByteOrder {a b : List Bytes} (ha : InByteOrder a) (hb : InByteOrder b)
    (h : ∀ s, s ∈ a ↔ s ∈ b) : a = b := by
  have hperm : a.Perm b :=
    (List.perm_ext_iff_of_nodup (nodup_of_inByteOrder ha) (nodup_of_inByteOrder hb)).2 h
  exact hperm.eq_of_pairwise (fun _ _ _ _ hst hts => absurd hts (List.lt_asymm hst)) ha hb

/-! ### Laws of listings -/

section Laws

variable {names further : List Bytes} {kind : Kind} {l : List Sight}

/-- There is but one listing. -/
theorem Listing.unique {other : List Sight} (h : Listing fs artifacts place names l)
    (hother : Listing fs artifacts place names other) : l = other := by
  induction h generalizing other with
  | directory hfiles hmemFiles hdirectories hmemDirectories _ ih =>
    cases hother with
    | directory hfiles' hmemFiles' hdirectories' hmemDirectories' hsub' =>
      cases eq_of_inByteOrder hfiles hfiles' fun s => (hmemFiles s).trans (hmemFiles' s).symm
      cases eq_of_inByteOrder hdirectories hdirectories' fun s =>
        (hmemDirectories s).trans (hmemDirectories' s).symm
      congr 1
      exact List.flatMap_congr fun s hs => by rw [ih s hs (hsub' s hs)]

theorem reached_cons_iff {s : Bytes} :
    Reached fs artifacts place names (s :: further) kind ↔
      further = [] ∧ Survives fs artifacts place (names ++ [s]) kind ∨
        Survives fs artifacts place (names ++ [s]) .directory ∧
          Reached fs artifacts place (names ++ [s]) further kind := by
  cases further with
  | nil => simp [Reached]
  | cons t further => simp [Reached]

theorem Reached.survives (h : Reached fs artifacts place names further kind) :
    Survives fs artifacts place (names ++ further) kind := by
  induction further generalizing names with
  | nil => exact h.elim
  | cons s further ih =>
    rcases reached_cons_iff.1 h with ⟨rfl, hs⟩ | ⟨_, hfurther⟩
    · exact hs
    · rw [List.append_cons]
      exact ih hfurther

/-- In a listing is what survives, if every directory on the way to it does. -/
theorem Listing.mem_iff (h : Listing fs artifacts place names l) {x : Sight} :
    x ∈ l ↔ ∃ further kind, Reached fs artifacts place names further kind ∧
      x = sightOf place (names ++ further) kind := by
  induction h with
  | directory _ hmemFiles _ hmemDirectories _ ih =>
    simp only [List.mem_append, List.mem_map, List.mem_flatMap, List.mem_cons]
    constructor
    · rintro (⟨s, hs, rfl⟩ | ⟨s, hs, rfl | hx⟩)
      · exact ⟨[s], .file, (hmemFiles s).1 hs, rfl⟩
      · exact ⟨[s], .directory, (hmemDirectories s).1 hs, rfl⟩
      · obtain ⟨further, kind, hreached, rfl⟩ := (ih s hs).1 hx
        exact ⟨s :: further, kind, reached_cons_iff.2 (.inr ⟨(hmemDirectories s).1 hs, hreached⟩),
          by rw [List.append_cons _ s further]⟩
    · rintro ⟨further, kind, hreached, rfl⟩
      cases further with
      | nil => exact hreached.elim
      | cons s further =>
        rcases reached_cons_iff.1 hreached with ⟨rfl, hs⟩ | ⟨hs, hfurther⟩
        · cases kind with
          | file => exact .inl ⟨s, (hmemFiles s).2 hs, rfl⟩
          | directory => exact .inr ⟨s, (hmemDirectories s).2 hs, .inl rfl⟩
        · refine .inr ⟨s, (hmemDirectories s).2 hs, .inr ?_⟩
          rw [ih s ((hmemDirectories s).2 hs)]
          exact ⟨further, kind, hfurther, by rw [List.append_cons _ s further]⟩

/-- What survives does so as one kind. -/
theorem Survives.kind_unique {other : Kind} (h : Survives fs artifacts place names kind)
    (hother : Survives fs artifacts place names other) : kind = other := by
  obtain ⟨-, node, hnode, hseen, _⟩ := h
  obtain ⟨-, node', hnode', hseen', _⟩ := hother
  cases hnode.symm.trans hnode'
  exact Option.some.inj ((seenAs?_eq_some_iff.2 hseen).symm.trans (seenAs?_eq_some_iff.2 hseen'))

/-- Names that survive are told apart by their paths. -/
theorem Survives.names_unique (hfs : fs.WellFormed) {others : List Bytes} {other : Kind}
    (h : Survives fs artifacts place names kind)
    (hother : Survives fs artifacts place others other)
    (hpath : ofNames (place ++ names) = ofNames (place ++ others)) : names = others :=
  List.append_cancel_left (ofNames_injective (h.isName hfs) (hother.isName hfs) hpath)

/-- No path is twice in a listing. -/
theorem Listing.nodup (hfs : fs.WellFormed) (h : Listing fs artifacts place names l) :
    (l.map (·.path)).Nodup := by
  induction h with
  | @directory names files directories sub hfiles hmemFiles hdirectories hmemDirectories hsub ih =>
    -- Whatever stands with a subdirectory, its names go through the subdirectory.
    have hblock {s : Bytes} (hs : s ∈ directories) {x : Sight}
        (hx : x ∈ sightOf place (names ++ [s]) .directory :: sub s) :
        ∃ further kind, Survives fs artifacts place (names ++ s :: further) kind ∧
          x.path = ofNames (place ++ (names ++ s :: further)) ∧
          (further = [] → kind = .directory) := by
      rcases List.mem_cons.1 hx with rfl | hx
      · exact ⟨[], .directory, (hmemDirectories s).1 hs, rfl, fun _ => rfl⟩
      · obtain ⟨further, kind, hreached, rfl⟩ := (hsub s hs).mem_iff.1 hx
        refine ⟨further, kind, ?_, ?_, ?_⟩
        · rw [List.append_cons names s further]
          exact hreached.survives
        · rw [List.append_cons names s further]
          rfl
        · rintro rfl
          exact hreached.elim
    rw [List.map_append, List.map_flatMap, List.nodup_append', List.map_map]
    refine ⟨?_, List.nodup_flatMap.2 ⟨fun s hs => ?_, ?_⟩, ?_⟩
    · refine (nodup_of_inByteOrder hfiles).map_on fun s hs t ht hpath => ?_
      have hnames := ((hmemFiles s).1 hs).names_unique hfs ((hmemFiles t).1 ht) hpath
      exact List.singleton_inj.1 (List.append_cancel_left hnames)
    · rw [List.map_cons, List.nodup_cons]
      refine ⟨fun hmem => ?_, ih s hs⟩
      obtain ⟨x, hx, hpath⟩ := List.mem_map.1 hmem
      obtain ⟨further, kind, hreached, rfl⟩ := (hsub s hs).mem_iff.1 hx
      have hnames := hreached.survives.names_unique hfs ((hmemDirectories s).1 hs) hpath
      rw [List.append_right_eq_self.1 hnames] at hreached
      exact hreached.elim
    · refine (nodup_of_inByteOrder hdirectories).imp_of_mem fun hs ht hne => ?_
      refine List.disjoint_left.2 fun path hpath hpath' => ?_
      obtain ⟨x, hx, rfl⟩ := List.mem_map.1 hpath
      obtain ⟨y, hy, hpath⟩ := List.mem_map.1 hpath'
      obtain ⟨further, kind, hsurvives, hx, _⟩ := hblock hs hx
      obtain ⟨further', kind', hsurvives', hy, _⟩ := hblock ht hy
      have hnames := hsurvives.names_unique hfs hsurvives' (hx.symm.trans (hpath.symm.trans hy))
      exact hne (List.cons.inj (List.append_cancel_left hnames)).1
    · rw [List.disjoint_left]
      intro path hpath hpath'
      obtain ⟨s, hs, rfl⟩ := List.mem_map.1 hpath
      obtain ⟨t, ht, hpath⟩ := List.mem_flatMap.1 hpath'
      obtain ⟨x, hx, hpath⟩ := List.mem_map.1 hpath
      obtain ⟨further, kind, hsurvives, hx, hkind⟩ := hblock ht hx
      have hfile := (hmemFiles s).1 hs
      have hnames := hfile.names_unique hfs hsurvives (hpath.symm.trans hx)
      -- No name is of a file and of a directory.
      obtain ⟨rfl, rfl⟩ := List.cons.inj (List.append_cancel_left hnames)
      cases (hkind rfl).symm.trans (hsurvives.kind_unique hfile)

end Laws

/-! ### What makes no difference -/

section SameTree

variable {other : FileSystem} (h : fs.SameTree other)

include h

theorem scopeOf?_eq : scopeOf? fs = scopeOf? other := by
  funext directory
  rw [scopeOf?, scopeOf?, h.readContent_eq]

theorem rulesFor_eq : rulesFor fs artifacts place = rulesFor other artifacts place := by
  funext names
  rw [rulesFor, rulesFor, ruleFilesFor, ruleFilesFor, h.resolveParts_eq, scopeOf?_eq h]

theorem survives_eq : Survives fs artifacts place = Survives other artifacts place := by
  funext names kind
  have hseen (path : Bytes) (node : Node) : seenAs? fs path node = seenAs? other path node := by
    cases node with
    | file content => rfl
    | directory entries => rfl
    | link target => rw [seenAs?, seenAs?, h.isDirectory_eq]
  have hkind (path : Bytes) (node : Node) : IsSeenAs fs path node kind ↔
      IsSeenAs other path node kind := by
    rw [← seenAs?_eq_some_iff, hseen, seenAs?_eq_some_iff]
  simp only [Survives, rulesFor_eq h, hkind, h.isListed_eq]
  refine propext (and_congr_right fun _ => ?_)
  rcases FileSystem.cases_of_face (h.face (place ++ names)) with ⟨hnode, hnode'⟩ |
    ⟨_, _, hnode, hnode'⟩ | ⟨node, _, hnode, hnode'⟩
  · simp [hnode, hnode']
  · cases kind <;> simp [hnode, hnode', IsSeenAs]
  · simp [hnode, hnode']

/-- The order in which directories hold their entries makes no difference to a
    listing. -/
theorem Listing.of_sameTree {names : List Bytes} {l : List Sight}
    (hl : Listing fs artifacts place names l) : Listing other artifacts place names l := by
  induction hl with
  | directory hfiles hmemFiles hdirectories hmemDirectories _ ih =>
    rw [survives_eq h] at hmemFiles hmemDirectories
    exact .directory hfiles hmemFiles hdirectories hmemDirectories ih

end SameTree

end RepoAtlas.Walk
