import RepoAtlas.Proofs.FileSystem.Change

/-!
# Ways along paths

A path leads from place to place (`FileSystem.Leads`): up, into a directory, to
where a link points, and at last to a name that no path goes on from. It is
followed along such a way, and whatever is followed is one (`follow_iff`).

* `Leads.isEnd`, `Leads.isName`: what is known of the place where a way ends;
* `Leads.congr`: a way is one in every file system that has the same directories
  and links (`SameTurns`), if it may end there where it does;
* `Leads.exists_parent`: a way to a name goes through the directory that has it,
  so that names that begin alike lead to places next to one another
  (`places_of_append`).
-/

namespace RepoAtlas.FileSystem

open RepoAtlas.Path

/-- Whether no path goes on from a place. -/
structure IsLeaf (fs : FileSystem) (place : Place) : Prop where
  not_directory : ∀ below, fs.nodeAt? place ≠ some (.directory below)
  not_link : ∀ target, fs.nodeAt? place ≠ some (.link target)

/-- Whether a path may end at a place: something is there or, if `new` is set, may
    be put there. -/
def MayEnd (fs : FileSystem) (new : Bool) (place : Place) : Prop :=
  (∃ node, fs.nodeAt? place = some node) ∨
    new = true ∧ ∀ s ∈ place.getLast?, s.length ≤ nameLimit

/-- Whether the parts of a path lead from one place to another, through so many
    links at most. -/
inductive Leads (fs : FileSystem) (new : Bool) : Nat → Place → List Part → Place → Prop
  | done {links : Nat} {place : Place} : Leads fs new links place [] place
  | root {links : Nat} {place found : Place} {rest : List Part} :
    Leads fs new links [] rest found → Leads fs new links place (.root :: rest) found
  | here {links : Nat} {place found : Place} {rest : List Part} :
    Leads fs new links place rest found → Leads fs new links place (.here :: rest) found
  | up {links : Nat} {place found : Place} {rest : List Part} :
    Leads fs new links place.dropLast rest found → Leads fs new links place (.up :: rest) found
  | directory {links : Nat} {place found : Place} {s : Bytes} {rest : List Part}
    {below : Entries} : fs.nodeAt? (place ++ [s]) = some (.directory below) →
      Leads fs new links (place ++ [s]) rest found →
      Leads fs new links place (.name s :: rest) found
  | link {links : Nat} {place found : Place} {s target : Bytes} {rest : List Part} :
    fs.nodeAt? (place ++ [s]) = some (.link target) →
      Leads fs new links place (stepsOf target ++ rest) found →
      Leads fs new (links + 1) place (.name s :: rest) found
  | last {links : Nat} {place : Place} {s : Bytes} : fs.IsLeaf (place ++ [s]) →
    fs.MayEnd new (place ++ [s]) → Leads fs new links place [.name s] (place ++ [s])

variable {fs other : FileSystem} {new : Bool} {links : Nat} {place found : Place}
  {parts rest : List Part} {path : Bytes}

/-! ### Ways that are followed -/

theorem followWith_leaf {through : Place → List Part → Except PathFault Place} {s : Bytes}
    (hleaf : fs.IsLeaf (place ++ [s])) :
    fs.followWith new through place (.name s :: rest) = .ok found ↔
      rest = [] ∧ found = place ++ [s] ∧ fs.MayEnd new (place ++ [s]) := by
  unfold followWith
  rw [MayEnd, List.getLast?_concat]
  cases hnode : fs.nodeAt? (place ++ [s]) with
  | none =>
    dsimp only
    split
    · rename_i hlong
      simp [Nat.not_le.2 hlong]
    · rename_i hshort
      cases new with
      | false => simp
      | true =>
        rcases rest with _ | ⟨part, rest⟩
        · simp [Nat.not_lt.1 hshort, eq_comm]
        · cases part <;> cases rest <;> simp
  | some node =>
    cases node with
    | directory below => exact absurd hnode (hleaf.not_directory below)
    | link target => exact absurd hnode (hleaf.not_link target)
    | file content => cases rest <;> simp [eq_comm]

theorem leads_of_followWith {through : Place → List Part → Except PathFault Place}
    (hthrough : ∀ {place : Place} {s target : Bytes} {rest : List Part},
      fs.nodeAt? (place ++ [s]) = some (.link target) →
      through place (stepsOf target ++ rest) = .ok found →
      Leads fs new links place (.name s :: rest) found)
    (h : fs.followWith new through place parts = .ok found) :
    Leads fs new links place parts found := by
  induction parts generalizing place with
  | nil => cases h; exact .done
  | cons part rest ih =>
    cases part with
    | root => exact .root (ih h)
    | here => exact .here (ih h)
    | up => exact .up (ih h)
    | name s =>
      by_cases hdirectory : ∃ below, fs.nodeAt? (place ++ [s]) = some (.directory below)
      · obtain ⟨below, hnode⟩ := hdirectory
        unfold followWith at h
        rw [hnode] at h
        exact .directory hnode (ih h)
      by_cases hlink : ∃ target, fs.nodeAt? (place ++ [s]) = some (.link target)
      · obtain ⟨target, hnode⟩ := hlink
        unfold followWith at h
        rw [hnode] at h
        exact hthrough hnode h
      have hleaf : fs.IsLeaf (place ++ [s]) := ⟨not_exists.1 hdirectory, not_exists.1 hlink⟩
      obtain ⟨rfl, rfl, hend⟩ := (followWith_leaf hleaf).1 h
      exact .last hleaf hend

/-- The parts of a path are followed along the ways they lead. -/
theorem follow_iff : fs.follow new links place parts = .ok found ↔
    Leads fs new links place parts found := by
  constructor
  · intro h
    induction links generalizing place parts with
    | zero => exact leads_of_followWith (fun _ hfollow => by cases hfollow) h
    | succ links ih => exact leads_of_followWith (fun hnode hfollow => .link hnode (ih hfollow)) h
  · intro h
    induction h with
    | @done links => cases links <;> rfl
    | @root links _ _ _ _ ih => cases links <;> exact ih
    | @here links _ _ _ _ ih => cases links <;> exact ih
    | @up links _ _ _ _ ih => cases links <;> exact ih
    | @directory links _ _ _ _ _ hnode _ ih =>
      cases links <;>
      · unfold follow followWith
        rw [hnode]
        exact ih
    | link hnode _ ih =>
      unfold follow followWith
      rw [hnode]
      exact ih
    | @last links _ _ hleaf hend =>
      cases links <;> exact (followWith_leaf hleaf).2 ⟨rfl, rfl, hend⟩

theorem resolve_iff : fs.resolve path = .ok place ↔
    path.isEmpty = false ∧ Leads fs false linkLimit [] (stepsOf path) place := by
  rw [resolve, ← follow_iff]
  cases path.isEmpty <;> simp

theorem resolveNew_iff : fs.resolveNew path = .ok place ↔
    path.isEmpty = false ∧ Leads fs true linkLimit [] (stepsOf path) place := by
  rw [resolveNew, ← follow_iff]
  cases path.isEmpty <;> simp

/-! ### Where ways end -/

theorem isName_of_mem_stepsOf {s : Bytes} (h : Part.name s ∈ stepsOf path) : IsName s := by
  rw [stepsOf] at h
  split at h
  · exact Path.isName_of_mem_parts ((List.mem_append.1 h).resolve_right (by simp))
  · exact Path.isName_of_mem_parts h

theorem Leads.isName (h : Leads fs new links place parts found) (hplace : ∀ s ∈ place, IsName s)
    (hparts : ∀ s, .name s ∈ parts → IsName s) : ∀ s ∈ found, IsName s := by
  have hnext {place : Place} {t : Bytes} {rest : List Part} (hplace : ∀ s ∈ place, IsName s)
      (hparts : ∀ s, .name s ∈ Part.name t :: rest → IsName s) : ∀ s ∈ place ++ [t], IsName s := by
    intro s hs
    rcases List.mem_append.1 hs with hs | hs
    · exact hplace s hs
    · exact List.mem_singleton.1 hs ▸ hparts t List.mem_cons_self
  induction h with
  | done => exact hplace
  | root _ ih =>
    exact ih (fun _ hs => absurd hs List.not_mem_nil)
      fun s hs => hparts s (List.mem_cons_of_mem _ hs)
  | here _ ih => exact ih hplace fun s hs => hparts s (List.mem_cons_of_mem _ hs)
  | up _ ih =>
    exact ih (fun s hs => hplace s (List.dropLast_subset _ hs))
      fun s hs => hparts s (List.mem_cons_of_mem _ hs)
  | directory _ _ ih =>
    exact ih (hnext hplace hparts) fun s hs => hparts s (List.mem_cons_of_mem _ hs)
  | link _ _ ih =>
    -- Behind a link, the parts of its target come first.
    refine ih hplace fun s hs => ?_
    exact (List.mem_append.1 hs).elim isName_of_mem_stepsOf
      fun hs => hparts s (List.mem_cons_of_mem _ hs)
  | last => exact hnext hplace hparts

/-- The place that a path leads to is given by names that entries may have. -/
theorem isName_of_resolveNew (h : fs.resolveNew path = .ok place) : ∀ s ∈ place, IsName s :=
  (resolveNew_iff.1 h).2.isName (fun _ hs => absurd hs List.not_mem_nil)
    fun _ => isName_of_mem_stepsOf

theorem isName_of_resolveParts {parts parent : List Part} (hparts : ∀ s, .name s ∈ parts → IsName s)
    (h : fs.resolveParts parts = some parent) : ∀ s, .name s ∈ parent → IsName s := by
  rw [resolveParts] at h
  split at h
  · cases h
  · split at h
    · rename_i place hplace
      cases h
      intro s hs
      obtain ⟨t, ht, hpart⟩ := List.mem_map.1 ((List.mem_cons.1 hs).resolve_left (by simp))
      cases hpart
      exact (follow_iff.1 hplace).isName (fun _ hs => absurd hs List.not_mem_nil) hparts _ ht
    · cases h

/-- What is known of a place where a path ends. -/
structure IsEnd (fs : FileSystem) (new : Bool) (place : Place) : Prop where
  parent : fs.HasParent place
  mayEnd : fs.MayEnd new place
  not_link : ∀ target, fs.nodeAt? place ≠ some (.link target)

/-- A way goes from directory to directory up to its end. -/
theorem Leads.isEnd (h : Leads fs new links place parts found)
    (hplace : ∃ below, fs.nodeAt? place = some (.directory below)) : fs.IsEnd new found := by
  induction h with
  | done =>
    obtain ⟨below, hnode⟩ := hplace
    refine ⟨hasParent_of_nodeAt? hnode, .inl ⟨_, hnode⟩, fun target hlink => ?_⟩
    cases hnode.symm.trans hlink
  | root _ ih => exact ih ⟨fs.entries, rfl⟩
  | here _ ih => exact ih hplace
  | up _ ih => exact ih (hasParent_of_nodeAt? hplace.choose_spec)
  | directory hnode _ ih => exact ih ⟨_, hnode⟩
  | link _ _ ih => exact ih hplace
  | last hleaf hend => exact ⟨by rwa [HasParent, List.dropLast_concat], hend, hleaf.not_link⟩

theorem isEnd_of_resolveNew (h : fs.resolveNew path = .ok place) : fs.IsEnd true place :=
  (resolveNew_iff.1 h).2.isEnd ⟨fs.entries, rfl⟩

/-- Something may be put where a path leads. -/
theorem hasParent_of_resolveNew (h : fs.resolveNew path = .ok place) : fs.HasParent place :=
  (isEnd_of_resolveNew h).parent

/-- A way whose last part is no name ends at a directory. -/
theorem Leads.exists_directory (h : Leads fs new links place parts found)
    (hplace : ∃ below, fs.nodeAt? place = some (.directory below))
    (hlast : ∀ s, parts.getLast? ≠ some (.name s)) :
    ∃ below, fs.nodeAt? found = some (.directory below) := by
  have htail {part : Part} {rest : List Part}
      (hlast : ∀ s, (part :: rest).getLast? ≠ some (.name s)) :
      ∀ s, rest.getLast? ≠ some (.name s) := by
    intro s hs
    refine hlast s ?_
    rw [List.getLast?_cons, hs]
    rfl
  induction h with
  | done => exact hplace
  | root _ ih => exact ih ⟨fs.entries, rfl⟩ (htail hlast)
  | here _ ih => exact ih hplace (htail hlast)
  | up _ ih => exact ih (hasParent_of_nodeAt? hplace.choose_spec) (htail hlast)
  | directory hnode _ ih => exact ih ⟨_, hnode⟩ (htail hlast)
  | @link _ _ _ s target rest _ _ ih =>
    refine ih hplace fun t ht => ?_
    rw [List.getLast?_append] at ht
    cases hrest : rest.getLast? with
    | none =>
      rw [List.getLast?_eq_none_iff] at hrest
      subst hrest
      exact hlast s rfl
    | some part =>
      rw [hrest, Option.some_or] at ht
      exact htail hlast t (hrest.trans ht)
  | @last _ _ s => exact absurd rfl (hlast s)

/-! ### The same ways elsewhere -/

/-- Whether both file systems have the same directories and links. -/
structure SameTurns (fs other : FileSystem) : Prop where
  directory : ∀ place, (∃ below, fs.nodeAt? place = some (.directory below)) ↔
    ∃ below, other.nodeAt? place = some (.directory below)
  link : ∀ place target, fs.nodeAt? place = some (.link target) ↔
    other.nodeAt? place = some (.link target)

theorem SameTurns.symm (h : SameTurns fs other) : SameTurns other fs :=
  ⟨fun place => (h.directory place).symm, fun place target => (h.link place target).symm⟩

theorem SameTurns.isLeaf (h : SameTurns fs other) (hleaf : fs.IsLeaf place) :
    other.IsLeaf place where
  not_directory below hnode := by
    obtain ⟨below, hnode⟩ := (h.directory place).2 ⟨below, hnode⟩
    exact hleaf.not_directory below hnode
  not_link target hnode := hleaf.not_link target ((h.link place target).2 hnode)

theorem Leads.congr {new' : Bool} (h : Leads fs new links place parts found)
    (hsame : SameTurns fs other) (hend : other.MayEnd new' found) :
    Leads other new' links place parts found := by
  induction h with
  | done => exact .done
  | root _ ih => exact .root (ih hend)
  | here _ ih => exact .here (ih hend)
  | up _ ih => exact .up (ih hend)
  | directory hnode _ ih =>
    obtain ⟨below, hnode⟩ := (hsame.directory _).1 ⟨_, hnode⟩
    exact .directory hnode (ih hend)
  | link hnode _ ih => exact .link ((hsame.link _ _).1 hnode) (ih hend)
  | last hleaf _ => exact .last (hsame.isLeaf hleaf) hend

theorem SameTurns.resolveNew_eq (h : SameTurns fs other) (hend : other.MayEnd true place)
    (hplace : fs.resolveNew path = .ok place) : other.resolveNew path = .ok place := by
  obtain ⟨hne, hleads⟩ := resolveNew_iff.1 hplace
  exact resolveNew_iff.2 ⟨hne, hleads.congr h hend⟩

/-- Where there is something in the end, a path that may have led to nothing leads. -/
theorem SameTurns.resolve_eq (h : SameTurns fs other) {node : Node}
    (hnode : other.nodeAt? place = some node) (hplace : fs.resolveNew path = .ok place) :
    other.resolve path = .ok place := by
  obtain ⟨hne, hleads⟩ := resolveNew_iff.1 hplace
  exact resolve_iff.2 ⟨hne, hleads.congr h (.inl ⟨node, hnode⟩)⟩

/-- Where files change that no link is replaced by, the ways stay the same. -/
theorem ChangedAt.sameTurns {places : List Place} (h : ChangedAt places fs other)
    (hnot : ∀ p ∈ places, ∀ target, fs.nodeAt? p ≠ some (.link target)) : SameTurns fs other where
  directory place := (h.directory place).symm
  link place target := by
    refine ⟨fun hnode => ?_, h.link⟩
    have hplace : place ∉ places := fun hmem => hnot place hmem target hnode
    exact nodeAt?_of_face (h.face place hplace) (fun _ heq => by cases heq) hnode

/-! ### Ways to a name -/

theorem cons_of_append_name {part : Part} {s : Bytes} (hpart : ∀ t, part ≠ .name t)
    (h : parts ++ [.name s] = part :: rest) :
    ∃ front, parts = part :: front ∧ front ++ [.name s] = rest := by
  cases parts with
  | nil => exact absurd (List.cons.inj h).1.symm (hpart s)
  | cons first front =>
    obtain ⟨rfl, hrest⟩ := List.cons.inj h
    exact ⟨front, rfl, hrest⟩

/-- A way to a name goes to a directory first, which may be reached without the
    name. If no link has the name, the way ends there. -/
theorem Leads.exists_parent {s : Bytes}
    (h : Leads fs true links place (parts ++ [.name s]) found) :
    ∃ parent, Leads fs false links place parts parent ∧
      ((∀ target, fs.nodeAt? (parent ++ [s]) ≠ some (.link target)) → found = parent ++ [s]) := by
  generalize hwhole : parts ++ [.name s] = whole at h
  induction h generalizing parts with
  | done => simp at hwhole
  | root _ ih =>
    obtain ⟨front, rfl, hrest⟩ := cons_of_append_name (by simp) hwhole
    obtain ⟨parent, hparent, hlast⟩ := ih hrest
    exact ⟨parent, .root hparent, hlast⟩
  | here _ ih =>
    obtain ⟨front, rfl, hrest⟩ := cons_of_append_name (by simp) hwhole
    obtain ⟨parent, hparent, hlast⟩ := ih hrest
    exact ⟨parent, .here hparent, hlast⟩
  | up _ ih =>
    obtain ⟨front, rfl, hrest⟩ := cons_of_append_name (by simp) hwhole
    obtain ⟨parent, hparent, hlast⟩ := ih hrest
    exact ⟨parent, .up hparent, hlast⟩
  | @directory _ place _ _ _ _ hnode hleads ih =>
    cases parts with
    | nil =>
      cases hwhole
      cases hleads
      exact ⟨place, .done, fun _ => rfl⟩
    | cons part front =>
      obtain ⟨rfl, hrest⟩ := List.cons.inj hwhole
      obtain ⟨parent, hparent, hlast⟩ := ih hrest
      exact ⟨parent, .directory hnode hparent, hlast⟩
  | @link _ place _ _ target _ hnode _ ih =>
    cases parts with
    | nil =>
      cases hwhole
      exact ⟨place, .done, fun hnot => absurd hnode (hnot target)⟩
    | cons part front =>
      obtain ⟨rfl, rfl⟩ := List.cons.inj hwhole
      obtain ⟨parent, hparent, hlast⟩ := ih (List.append_assoc ..)
      exact ⟨parent, .link hnode hparent, hlast⟩
  | @last _ place =>
    cases parts with
    | nil =>
      cases hwhole
      exact ⟨place, .done, fun _ => rfl⟩
    | cons part front => simp at hwhole

/-! ### Paths that end with a name -/

theorem stepsOf_eq_parts {last : Bytes} {front : List Bytes} {part : Part}
    (h : segments path = front ++ [last]) (hpart : part? last = some part) :
    stepsOf path = Path.parts path := by
  rw [stepsOf, h, List.getLast?_concat, Option.any_some, hpart]
  rfl

/-- A path that does not lead to a directory ends with a name. -/
theorem isName_last {last : Bytes} {front : List Bytes} (h : segments path = front ++ [last])
    (hplace : fs.resolveNew path = .ok place)
    (hnot : ∀ below, fs.nodeAt? place ≠ some (.directory below)) : IsName last := by
  have hleads := (resolveNew_iff.1 hplace).2
  obtain ⟨s, hs⟩ : ∃ s, (stepsOf path).getLast? = some (.name s) := by
    by_contra hlast
    obtain ⟨below, hbelow⟩ := hleads.exists_directory ⟨fs.entries, rfl⟩ (not_exists.1 hlast)
    exact hnot below hbelow
  have hslash : slash ∉ last :=
    notMem_of_mem_segments (h ▸ List.mem_append_right _ (List.mem_singleton_self _))
  cases hpart : part? last with
  | none =>
    have hsteps : stepsOf path = Path.parts path ++ [.here] := by
      rw [stepsOf, h, List.getLast?_concat, Option.any_some, hpart]
      rfl
    rw [hsteps, List.getLast?_concat] at hs
    cases hs
  | some part =>
    rw [stepsOf_eq_parts h hpart, parts_of_segments h hpart, List.getLast?_concat] at hs
    cases hs
    exact (isName_of_part? hslash hpart).2

/-- Where the name is that a path ends with. -/
theorem placeOfName_of_segments {last : Bytes} {front : List Bytes} {parent : Place}
    (h : segments path = front ++ [last]) (hlast : IsName last)
    (hparent : fs.follow false linkLimit [] (partsBefore path front) = .ok parent) :
    fs.placeOfName path = .ok (parent ++ [last]) := by
  have hparts := parts_of_segments h (part?_of_isName hlast)
  rw [placeOfName, fileName?, hparts, List.getLast?_concat, List.dropLast_concat]
  dsimp only
  rw [hparent]
  rfl

/-- Where a path leads that ends with a name under which there is no link. -/
theorem exists_parent_of_resolveNew {last : Bytes} {front : List Bytes}
    (h : segments path = front ++ [last]) (hlast : IsName last)
    (hplace : fs.resolveNew path = .ok place)
    (hlink : ∀ p target, fs.placeOfName path = .ok p → fs.nodeAt? p ≠ some (.link target)) :
    ∃ parent, fs.follow false linkLimit [] (partsBefore path front) = .ok parent ∧
      place = parent ++ [last] := by
  have hleads := (resolveNew_iff.1 hplace).2
  rw [stepsOf_eq_parts h (part?_of_isName hlast),
    parts_of_segments h (part?_of_isName hlast)] at hleads
  obtain ⟨parent, hparent, hend⟩ := hleads.exists_parent
  have hfollow := follow_iff.2 hparent
  exact ⟨parent, hfollow, hend fun target =>
    hlink _ target (placeOfName_of_segments h hlast hfollow)⟩

section Append

variable {ending : Bytes} (hending : ∀ s, IsName s → IsName (s ++ ending))
  (hplace : fs.resolveNew path = .ok place)
  (hnot : ∀ below, fs.nodeAt? place ≠ some (.directory below))
  (hlink : ∀ p target, fs.placeOfName path = .ok p → fs.nodeAt? p ≠ some (.link target))

include hending hplace hnot hlink

/-- The name of a file is in the same directory with an ending. -/
theorem exists_parent_of_append : ∃ parent front last, place = parent ++ [last] ∧
    segments (path ++ ending) = front ++ [last ++ ending] ∧ IsName (last ++ ending) ∧
    fs.follow false linkLimit [] (partsBefore (path ++ ending) front) = .ok parent := by
  have hslash : slash ∉ ending := by
    have hname := (hending [0x61] (by decide)).no_slash
    rw [List.mem_append, not_or] at hname
    exact hname.2
  obtain ⟨front, last, hpath, happend⟩ := exists_segments_append hslash path
  have hlast := isName_last hpath hplace hnot
  have hne : path ≠ [] := by
    rintro rfl
    cases (resolveNew_iff.1 hplace).1
  obtain ⟨parent, hparent, rfl⟩ := exists_parent_of_resolveNew hpath hlast hplace hlink
  refine ⟨parent, front, last, rfl, happend, hending _ hlast, ?_⟩
  rwa [partsBefore, isAbsolute_append hne, ← partsBefore]

/-- A path to a file, and the same path with an ending, name places next to one
    another. -/
theorem placeOfName_append :
    ∃ parent s, place = parent ++ [s] ∧
      fs.placeOfName (path ++ ending) = .ok (parent ++ [s ++ ending]) := by
  obtain ⟨parent, front, last, hlast, happend, hname, hparent⟩ :=
    exists_parent_of_append hending hplace hnot hlink
  exact ⟨parent, last, hlast, placeOfName_of_segments happend hname hparent⟩

/-- They lead there, if there are no links. -/
theorem places_of_append (hfound : fs.resolveNew (path ++ ending) = .ok found)
    (hlink' : ∀ p target, fs.placeOfName (path ++ ending) = .ok p →
      fs.nodeAt? p ≠ some (.link target)) :
    ∃ parent s, place = parent ++ [s] ∧ found = parent ++ [s ++ ending] := by
  obtain ⟨parent, front, last, hlast, happend, hname, hparent⟩ :=
    exists_parent_of_append hending hplace hnot hlink
  obtain ⟨again, hagain, hplace'⟩ := exists_parent_of_resolveNew happend hname hfound hlink'
  cases hparent.symm.trans hagain
  exact ⟨parent, last, hlast, hplace'⟩

end Append

end RepoAtlas.FileSystem
