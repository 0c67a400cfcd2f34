import RepoAtlas.Proofs.FileSystem.Leads

/-!
# Where a path is looked up

Whoever follows a path looks at one place after the other (`FileSystem.lookups`),
and at no other: where two file systems agree on all these places, the path leads
to the same in both (`AgreeOn.follow_eq`), and what it leads to is one of these
places, or above one of them (`follow_mem`). If they agree on a set of places and
on all above them (`IsRegion`), a path that is looked up within the set has the
same content in both (`AgreeOn.readContent_eq`).

As a special case, the order in which directories hold their entries makes no
difference (`SameTree`).
-/

namespace RepoAtlas

open RepoAtlas.Path

namespace FileSystem

/-- The places that are looked at on the way from a place. `through` gives those
    of what remains of a path behind a link. -/
def lookupsWith (fs : FileSystem) (through : Place → List Part → List Place) :
    Place → List Part → List Place
  | _, [] => []
  | _, .root :: rest => fs.lookupsWith through [] rest
  | place, .here :: rest => fs.lookupsWith through place rest
  | place, .up :: rest => fs.lookupsWith through place.dropLast rest
  | place, .name s :: rest =>
    (place ++ [s]) ::
      match fs.nodeAt? (place ++ [s]) with
      | some (.directory _) => fs.lookupsWith through (place ++ [s]) rest
      | some (.link target) => through place (stepsOf target ++ rest)
      | _ => []

/-- The places that are looked at on the way from a place, through so many links
    at most. -/
def lookups (fs : FileSystem) : (links : Nat) → Place → List Part → List Place
  | 0 => fs.lookupsWith fun _ _ => []
  | links + 1 => fs.lookupsWith (fs.lookups links)

/-- The places that are looked at to resolve a path. -/
def lookupsOf (fs : FileSystem) (path : Bytes) : List Place :=
  fs.lookups linkLimit [] (stepsOf path)

/-- Whether the same is at the places of a set in both file systems, and the same
    directories among them tell their entries. -/
structure AgreeOn (P : Place → Prop) (fs other : FileSystem) : Prop where
  face : ∀ place, P place → (fs.nodeAt? place).map Node.face = (other.nodeAt? place).map Node.face
  unlisted : ∀ place, P place → (place ∈ fs.unlisted ↔ place ∈ other.unlisted)

/-- A set of places, with all that is above them. -/
structure IsRegion (P : Place → Prop) : Prop where
  root : P []
  above : ∀ {place : Place}, P place → P place.dropLast

variable {fs other : FileSystem} {P : Place → Prop} {place found : Place} {parts : List Part}
  {path : Bytes} {new : Bool}

theorem lookups_name {links : Nat} {s : Bytes} {rest : List Part} :
    fs.lookups links place (.name s :: rest) = (place ++ [s]) ::
      match fs.nodeAt? (place ++ [s]) with
      | some (.directory _) => fs.lookups links (place ++ [s]) rest
      | some (.link target) =>
        match links with
        | 0 => []
        | links + 1 => fs.lookups links place (stepsOf target ++ rest)
      | _ => [] := by
  cases links <;> rfl

/-- What is at a place in both. -/
theorem cases_of_face
    (h : (fs.nodeAt? place).map Node.face = (other.nodeAt? place).map Node.face) :
    (fs.nodeAt? place = none ∧ other.nodeAt? place = none) ∨
    (∃ entries entries', fs.nodeAt? place = some (.directory entries) ∧
      other.nodeAt? place = some (.directory entries')) ∨
    ∃ node, (∀ entries, node ≠ .directory entries) ∧ fs.nodeAt? place = some node ∧
      other.nodeAt? place = some node := by
  rcases hnode : fs.nodeAt? place with _ | node <;>
    rcases hnode' : other.nodeAt? place with _ | node'
  · exact .inl ⟨rfl, rfl⟩
  · simp [hnode, hnode'] at h
  · simp [hnode, hnode'] at h
  · rw [hnode, hnode'] at h
    cases node <;> cases node' <;> simp_all [Node.face]

/-! ### Following a path -/

/-- What a path leads to is looked at on the way, or above what is. -/
theorem follow_mem (hP : IsRegion P) (links : Nat) (hplace : P place)
    (hlooked : ∀ p ∈ fs.lookups links place parts, P p)
    (h : fs.follow new links place parts = .ok found) : P found := by
  replace h := follow_iff.1 h
  induction h with
  | done => exact hplace
  | @root links _ _ _ _ ih => exact ih hP.root (by cases links <;> exact hlooked)
  | @here links _ _ _ _ ih => exact ih hplace (by cases links <;> exact hlooked)
  | @up links _ _ _ _ ih => exact ih (hP.above hplace) (by cases links <;> exact hlooked)
  | @directory links _ _ _ _ _ hnode _ ih =>
    rw [lookups_name, List.forall_mem_cons, hnode] at hlooked
    exact ih hlooked.1 hlooked.2
  | link hnode _ ih =>
    rw [lookups_name, List.forall_mem_cons, hnode] at hlooked
    exact ih hplace hlooked.2
  | last =>
    rw [lookups_name, List.forall_mem_cons] at hlooked
    exact hlooked.1

/-- Where a path leads was looked at on the way. -/
theorem mem_of_resolve (hP : IsRegion P) (hlooked : ∀ p ∈ fs.lookupsOf path, P p)
    (hplace : fs.resolve path = .ok place) : P place := by
  rw [resolve] at hplace
  split at hplace
  · cases hplace
  · exact follow_mem hP linkLimit hP.root hlooked hplace

namespace AgreeOn

variable (h : fs.AgreeOn P other)

include h

/-- Files that agree at all that is looked at lead to the same place. -/
theorem followWith_eq {through through' : Place → List Part → Except PathFault Place}
    {looked : Place → List Part → List Place}
    (hthrough : ∀ place parts, (∀ p ∈ looked place parts, P p) →
      through place parts = through' place parts)
    (hlooked : ∀ p ∈ fs.lookupsWith looked place parts, P p) :
    fs.followWith new through place parts = other.followWith new through' place parts := by
  induction parts generalizing place with
  | nil => rfl
  | cons part rest ih =>
    cases part with
    | root => exact ih hlooked
    | here => exact ih hlooked
    | up => exact ih hlooked
    | name s =>
      -- Whether the way goes on depends on the kind of what is there alone; where a
      -- link leads is part of its face.
      unfold lookupsWith at hlooked
      unfold followWith
      have hrest := fun p hp => hlooked p (List.mem_cons_of_mem _ hp)
      rcases cases_of_face (h.face _ (hlooked _ List.mem_cons_self)) with ⟨hnode, hnode'⟩ |
        ⟨_, _, hnode, hnode'⟩ | ⟨node, hnot, hnode, hnode'⟩
      · rw [hnode, hnode']
      · rw [hnode] at hrest
        rw [hnode, hnode']
        exact ih hrest
      · rw [hnode] at hrest
        rw [hnode, hnode']
        cases node with
        | file content => rfl
        | link target => exact hthrough _ _ hrest
        | directory entries => exact absurd rfl (hnot entries)

theorem follow_eq (links : Nat) (hlooked : ∀ p ∈ fs.lookups links place parts, P p) :
    fs.follow new links place parts = other.follow new links place parts := by
  induction links generalizing place parts with
  | zero => exact h.followWith_eq (fun _ _ _ => rfl) hlooked
  | succ links ih => exact h.followWith_eq (fun _ _ => ih) hlooked

theorem resolve_eq (hlooked : ∀ p ∈ fs.lookupsOf path, P p) :
    fs.resolve path = other.resolve path := by
  rw [resolve, resolve, h.follow_eq linkLimit hlooked]

/-- What a path leads to in both. -/
theorem cases_of_resolve (hP : IsRegion P) (hlooked : ∀ p ∈ fs.lookupsOf path, P p)
    (hplace : fs.resolve path = .ok place) :
    (fs.nodeAt? place = none ∧ other.nodeAt? place = none) ∨
    (∃ entries entries', fs.nodeAt? place = some (.directory entries) ∧
      other.nodeAt? place = some (.directory entries')) ∨
    ∃ node, (∀ entries, node ≠ .directory entries) ∧ fs.nodeAt? place = some node ∧
      other.nodeAt? place = some node := by
  exact cases_of_face (h.face place (mem_of_resolve hP hlooked hplace))

theorem isDirectory_eq (hP : IsRegion P) (hlooked : ∀ p ∈ fs.lookupsOf path, P p) :
    fs.isDirectory path = other.isDirectory path := by
  rw [isDirectory, isDirectory, find, find, ← h.resolve_eq hlooked]
  cases hplace : fs.resolve path with
  | error e => rfl
  | ok place =>
    rcases h.cases_of_resolve hP hlooked hplace with ⟨hnode, hnode'⟩ | ⟨_, _, hnode, hnode'⟩ |
      ⟨node, _, hnode, hnode'⟩ <;>
      simp [hnode, hnode', bind, Except.bind, pure, Except.pure]

theorem isListed_eq (hP : IsRegion P) (hlooked : ∀ p ∈ fs.lookupsOf path, P p) :
    fs.isListed path = other.isListed path := by
  rw [isListed, isListed, ← h.resolve_eq hlooked]
  cases hplace : fs.resolve path with
  | error e => rfl
  | ok place =>
    exact decide_eq_decide.2 (not_congr (h.unlisted place (mem_of_resolve hP hlooked hplace)))

theorem readContent_eq (hP : IsRegion P) (hlooked : ∀ p ∈ fs.lookupsOf path, P p) :
    fs.readContent path = other.readContent path := by
  rw [readContent, readContent, find, find, ← h.resolve_eq hlooked]
  cases hplace : fs.resolve path with
  | error e => rfl
  | ok place =>
    rcases h.cases_of_resolve hP hlooked hplace with ⟨hnode, hnode'⟩ | ⟨_, _, hnode, hnode'⟩ |
      ⟨node, _, hnode, hnode'⟩ <;>
      simp [hnode, hnode', bind, Except.bind, pure, Except.pure]

theorem read_eq (hP : IsRegion P) (hlooked : ∀ p ∈ fs.lookupsOf path, P p) :
    fs.read path = other.read path := by
  rw [read, read, h.readContent_eq hP hlooked]

end AgreeOn

end FileSystem

/-! ### Paths of names -/

namespace FileSystem

variable {fs : FileSystem} {place front names : Place} {found : Place} {entries : Entries}

/-- Above a directory are directories. -/
theorem exists_directory_of_append (h : fs.nodeAt? (front ++ names) = some (.directory entries)) :
    ∃ above, fs.nodeAt? front = some (.directory above) := by
  induction names using List.reverseRecOn generalizing entries with
  | nil => exact ⟨entries, by rwa [List.append_nil] at h⟩
  | append_singleton names s ih =>
    rw [← List.append_assoc] at h
    obtain ⟨above, habove, -⟩ := nodeAt?_append_singleton.1 h
    exact ih habove

/-- The way to an entry of a directory that is no link goes from directory to
    directory. -/
theorem prefix_of_mem_lookupsWith {looked : Place → List Part → List Place}
    (hdirectory : fs.nodeAt? (place ++ names.dropLast) = some (.directory entries))
    (hlink : ∀ target, fs.nodeAt? (place ++ names) ≠ some (.link target))
    (h : found ∈ fs.lookupsWith looked place (names.map .name)) : found <+: place ++ names := by
  induction names generalizing place with
  | nil => cases h
  | cons s names ih =>
    rw [List.map_cons, lookupsWith, List.mem_cons] at h
    rcases h with rfl | h
    · exact (List.prefix_append_right_inj place).2 (List.prefix_append [s] names)
    · rw [List.append_cons] at hlink ⊢
      cases names with
      | nil =>
        -- Nothing is left, and the entry itself leads no further.
        rw [List.append_nil] at hlink
        cases hnode : fs.nodeAt? (place ++ [s]) with
        | none => rw [hnode] at h; cases h
        | some node =>
          rw [hnode] at h
          cases node with
          | file content => cases h
          | directory below => cases h
          | link target => exact absurd hnode (hlink target)
      | cons t names =>
        rw [List.dropLast_cons_cons, List.append_cons] at hdirectory
        obtain ⟨above, habove⟩ := exists_directory_of_append hdirectory
        rw [habove] at h
        exact ih hdirectory hlink h

theorem stepsOf_ofNames (hnames : ∀ s ∈ names, IsName s) (hne : names ≠ []) :
    stepsOf (ofNames names) = .root :: names.map .name := by
  obtain ⟨last, hlast⟩ : ∃ last, names.getLast? = some last :=
    ⟨_, List.getLast?_eq_some_getLast hne⟩
  have hname := hnames last (List.mem_of_getLast? hlast)
  have hend : (segments (ofNames names)).getLast? = some last := by
    rw [segments_ofNames hnames, if_neg hne, List.getLast?_cons, hlast]
    rfl
  rw [stepsOf, hend, parts_ofNames hnames, Option.any_some, part?_of_isName hname]
  rfl

/-- The names of a directory lead to it. -/
theorem leads_names {new : Bool} {links : Nat}
    (h : fs.nodeAt? (front ++ names) = some (.directory entries)) :
    Leads fs new links front (names.map .name) (front ++ names) := by
  induction names generalizing front with
  | nil =>
    rw [List.append_nil]
    exact .done
  | cons s names ih =>
    rw [List.append_cons] at h ⊢
    obtain ⟨above, habove⟩ := exists_directory_of_append h
    exact .directory habove (ih h)

/-- The path of a directory leads to it. -/
theorem resolve_ofNames (hfs : fs.WellFormed) (h : fs.nodeAt? names = some (.directory entries)) :
    fs.resolve (ofNames names) = .ok names := by
  refine resolve_iff.2 ⟨rfl, ?_⟩
  obtain rfl | hne := eq_or_ne names []
  · exact .root (.here .done)
  · have hleads : Leads fs false linkLimit [] (names.map .name) ([] ++ names) := leads_names h
    rw [stepsOf_ofNames (isName_of_nodeAt? hfs h) hne]
    exact .root hleads

/-- To resolve the path of an entry of a directory that is no link, nothing is
    looked at but what is above it, and the entry itself. -/
theorem prefix_of_mem_lookupsOf (hnames : ∀ s ∈ names, IsName s) (hne : names ≠ [])
    (hdirectory : fs.nodeAt? names.dropLast = some (.directory entries))
    (hlink : ∀ target, fs.nodeAt? names ≠ some (.link target))
    (h : found ∈ fs.lookupsOf (ofNames names)) : found <+: names := by
  rw [lookupsOf, stepsOf_ofNames hnames hne, linkLimit, lookups, lookupsWith] at h
  rw [← List.nil_append names] at hlink ⊢
  exact prefix_of_mem_lookupsWith hdirectory hlink h

end FileSystem

/-! ### The order of entries -/

/-- Whether the same names lead to the same in both file systems, and the same
    directories tell their entries. -/
structure FileSystem.SameTree (fs other : FileSystem) : Prop where
  face : ∀ place, (fs.nodeAt? place).map Node.face = (other.nodeAt? place).map Node.face
  unlisted : ∀ place, place ∈ fs.unlisted ↔ place ∈ other.unlisted

namespace FileSystem.SameTree

variable {fs other : FileSystem} (h : fs.SameTree other)

include h

theorem agreeOn : fs.AgreeOn (fun _ => True) other :=
  ⟨fun place _ => h.face place, fun place _ => h.unlisted place⟩

theorem resolve_eq (path : Bytes) : fs.resolve path = other.resolve path :=
  h.agreeOn.resolve_eq fun _ _ => trivial

theorem resolveParts_eq : fs.resolveParts = other.resolveParts := by
  funext parts
  rw [resolveParts, resolveParts, h.agreeOn.follow_eq linkLimit fun _ _ => trivial]

theorem isDirectory_eq (path : Bytes) : fs.isDirectory path = other.isDirectory path :=
  h.agreeOn.isDirectory_eq ⟨trivial, fun _ => trivial⟩ fun _ _ => trivial

theorem isListed_eq (path : Bytes) : fs.isListed path = other.isListed path :=
  h.agreeOn.isListed_eq ⟨trivial, fun _ => trivial⟩ fun _ _ => trivial

theorem readContent_eq (path : Bytes) : fs.readContent path = other.readContent path :=
  h.agreeOn.readContent_eq ⟨trivial, fun _ => trivial⟩ fun _ _ => trivial

theorem read_eq (path : Bytes) : fs.read path = other.read path :=
  h.agreeOn.read_eq ⟨trivial, fun _ => trivial⟩ fun _ _ => trivial

end FileSystem.SameTree

end RepoAtlas
