import RepoAtlas.FileSystem
import RepoAtlas.Proofs.Path
import Mathlib.Data.List.Induction

/-!
# Well-formed file trees

The trees that a file system may be: in every directory, each entry has a name
of its own (`Entries.WellFormed`). What names lead to is then found step by step
(`nodeAt?_append_singleton`), and all names on the way are such as entries may
have (`isName_of_nodeAt?`). What is read under a path is the content of one of its
files (`mem_contents_of_read`), and there is a greatest number of names that lead
to a directory (`FileSystem.height`).
-/

namespace RepoAtlas

open RepoAtlas.Path (IsName)

mutual

/-- Whether every directory at or below the node gives each entry a name of its
    own. -/
def Node.WellFormed : Node → Prop
  | .directory entries => entries.WellFormed
  | .file _ => True
  | .link _ => True

/-- Whether these entries, and those of every directory below, each have a name
    of their own. -/
def Entries.WellFormed : Entries → Prop
  | .nil => True
  | .cons name node rest =>
    IsName name ∧ name ∉ rest.names ∧ node.WellFormed ∧ rest.WellFormed

end

/-- Induction on the entries of a directory alone. -/
@[elab_as_elim, induction_eliminator]
theorem Entries.induction {motive : Entries → Prop} (nil : motive .nil)
    (cons : ∀ name node rest, motive rest → motive (.cons name node rest)) :
    ∀ entries, motive entries
  | .nil => nil
  | .cons name node rest => cons name node rest (Entries.induction nil cons rest)

/-- Whether the tree of the file system is well-formed. -/
def FileSystem.WellFormed (fs : FileSystem) : Prop := fs.entries.WellFormed

mutual

/-- Decides whether the node is well-formed. -/
def Node.decideWellFormed : (node : Node) → Decidable node.WellFormed
  | .directory entries => entries.decideWellFormed
  | .file _ => .isTrue trivial
  | .link _ => .isTrue trivial

/-- Decides whether the entries are well-formed. -/
def Entries.decideWellFormed : (entries : Entries) → Decidable entries.WellFormed
  | .nil => .isTrue trivial
  | .cons name node rest =>
    have := node.decideWellFormed
    have := rest.decideWellFormed
    inferInstanceAs
      (Decidable (IsName name ∧ name ∉ rest.names ∧ node.WellFormed ∧ rest.WellFormed))

end

instance (fs : FileSystem) : Decidable fs.WellFormed := fs.entries.decideWellFormed

/-- A small tree: a directory with a rule file, a link that leads nowhere, and
    further down a link that leads back to it. -/
def FileSystem.sample : FileSystem where
  entries :=
    .cons "r" (.directory
      (.cons "sub" (.directory
        (.cons "back" (.link "/r") (.cons "a.md" (.file (.bytes [0x61])) .nil)))
      (.cons "lost" (.link "nowhere")
      (.cons ".gitignore" (.file (.bytes (Utf8.encode "*.log\n")))
      (.cons "x.log" (.file (.bytes [])) .nil))))) .nil

namespace Entries

variable {entries below : Entries} {name : Bytes} {node : Node}

/-! ### One entry -/

theorem mem_names_of_find? (h : entries.find? name = some node) : name ∈ entries.names := by
  induction entries with
  | nil => cases h
  | cons n _ rest ih =>
    rw [find?] at h
    split at h
    · rename_i hn
      exact hn ▸ List.mem_cons_self ..
    · exact List.mem_cons_of_mem _ (ih h)

/-- An entry of a well-formed directory has a name and is well-formed. -/
theorem WellFormed.of_find? (hwf : entries.WellFormed) (h : entries.find? name = some node) :
    IsName name ∧ node.WellFormed := by
  induction entries with
  | nil => cases h
  | cons n _ rest ih =>
    obtain ⟨hname, _, hnode, hrest⟩ := hwf
    rw [find?] at h
    split at h
    · rename_i hn
      cases h
      exact ⟨hn ▸ hname, hnode⟩
    · exact ih hrest h

theorem sizeOf_lt_of_find? (h : entries.find? name = some node) : sizeOf node < sizeOf entries := by
  induction entries with
  | nil => cases h
  | cons n old rest ih =>
    rw [find?] at h
    rw [Entries.cons.sizeOf_spec]
    split at h
    · cases h
      omega
    · have := ih h
      omega

/-! ### Entries of entries -/

/-- The first of several names is that of a directory. -/
theorem nodeAt?_cons (names : List Bytes) :
    entries.nodeAt? (name :: names) =
      match entries.find? name with
      | some (.directory below) => below.nodeAt? names
      | some node => if names = [] then some node else none
      | none => none := by
  cases hfound : entries.find? name with
  | none => cases names <;> simp [nodeAt?, hfound]
  | some node => cases node <;> cases names <;> simp [nodeAt?, hfound]

/-- What names and one more lead to is an entry of the directory that the names
    lead to. -/
theorem nodeAt?_append_singleton {names : List Bytes} :
    entries.nodeAt? (names ++ [name]) = some node ↔
      ∃ below, entries.nodeAt? names = some (.directory below) ∧ below.find? name = some node := by
  induction names generalizing entries with
  | nil =>
    rw [List.nil_append, nodeAt?_cons]
    constructor
    · intro h
      refine ⟨entries, rfl, ?_⟩
      cases hfound : entries.find? name with
      | none => simp [hfound] at h
      | some found => cases found <;> simpa [hfound, nodeAt?] using h
    · rintro ⟨_, hentries, h⟩
      cases hentries
      rw [h]
      cases node <;> rfl
  | cons s names ih =>
    rw [List.cons_append, nodeAt?_cons, nodeAt?_cons]
    cases hfound : entries.find? s with
    | none => simp
    | some found =>
      -- Only through a directory is there anything behind the first name.
      cases found with
      | directory below => exact ih
      | file content => by_cases hnames : names = [] <;> simp [hnames]
      | link target => by_cases hnames : names = [] <;> simp [hnames]

/-- On the way to a node of a well-formed tree are names, and the node is well-formed. -/
theorem WellFormed.of_nodeAt? (hwf : entries.WellFormed) {names : List Bytes}
    (h : entries.nodeAt? names = some node) : (∀ s ∈ names, IsName s) ∧ node.WellFormed := by
  induction names using List.reverseRecOn generalizing node with
  | nil =>
    cases h
    exact ⟨fun _ hs => absurd hs List.not_mem_nil, hwf⟩
  | append_singleton names s ih =>
    obtain ⟨below, hbelow, hs⟩ := nodeAt?_append_singleton.1 h
    obtain ⟨hnames, hdirectory⟩ := ih hbelow
    obtain ⟨hname, hnode⟩ := WellFormed.of_find? hdirectory hs
    refine ⟨fun t ht => ?_, hnode⟩
    rcases List.mem_append.1 ht with ht | ht
    · exact hnames t ht
    · exact List.mem_singleton.1 ht ▸ hname

end Entries

namespace FileSystem

variable {fs : FileSystem} {place : Place} {name : Bytes} {node : Node}

theorem nodeAt?_append_singleton :
    fs.nodeAt? (place ++ [name]) = some node ↔
      ∃ below, fs.nodeAt? place = some (.directory below) ∧ below.find? name = some node :=
  Entries.nodeAt?_append_singleton

/-- All names on the way to a node are such as entries may have. -/
theorem isName_of_nodeAt? (hfs : fs.WellFormed) (h : fs.nodeAt? place = some node) :
    ∀ s ∈ place, IsName s := (hfs.of_nodeAt? h).1

theorem wellFormed_of_nodeAt? (hfs : fs.WellFormed) (h : fs.nodeAt? place = some node) :
    node.WellFormed := (hfs.of_nodeAt? h).2

end FileSystem

/-! ### Names -/

mutual

/-- The names that are given below the node. -/
def Node.allNames : Node → List Bytes
  | .directory entries => entries.allNames
  | .file _ => []
  | .link _ => []

/-- The names that are given among these entries and below them. -/
def Entries.allNames : Entries → List Bytes
  | .nil => []
  | .cons name node rest => name :: (node.allNames ++ rest.allNames)

end

/-- The names that are given in a file system. -/
def FileSystem.allNames (fs : FileSystem) : List Bytes := fs.entries.allNames

theorem Entries.allNames_subset_of_find? {entries : Entries} {name : Bytes} {node : Node}
    (h : entries.find? name = some node) : name :: node.allNames ⊆ entries.allNames := by
  induction entries with
  | nil => cases h
  | cons n old rest ih =>
    rw [find?] at h
    rw [allNames]
    split at h
    · rename_i hn
      cases h
      exact hn ▸ List.cons_subset_cons _ (List.subset_append_left ..)
    · exact List.Subset.trans (ih h)
        (List.subset_cons_of_subset _ (List.subset_append_right ..))

/-- All names on the way to a node are among those of the tree, and so are those below
    it. -/
theorem Entries.allNames_subset_of_nodeAt? {entries : Entries} {names : List Bytes} {node : Node}
    (h : entries.nodeAt? names = some node) : names ++ node.allNames ⊆ entries.allNames := by
  induction names using List.reverseRecOn generalizing node with
  | nil =>
    cases h
    rw [Node.allNames]
    exact List.Subset.refl _
  | append_singleton names s ih =>
    obtain ⟨below, hbelow, hs⟩ := nodeAt?_append_singleton.1 h
    have hsub := ih hbelow
    rw [Node.allNames, List.append_subset] at hsub
    rw [List.append_assoc, List.append_subset]
    exact ⟨hsub.1, List.Subset.trans (allNames_subset_of_find? hs) hsub.2⟩

/-- The names that lead to a node are given in the file system. -/
theorem FileSystem.mem_allNames_of_nodeAt? {fs : FileSystem} {place : Place} {node : Node}
    (h : fs.nodeAt? place = some node) {s : Bytes} (hs : s ∈ place) : s ∈ fs.allNames :=
  Entries.allNames_subset_of_nodeAt? h (List.mem_append_left _ hs)

/-! ### Contents -/

mutual

/-- The contents of the files at or below the node. -/
def Node.contents : Node → List Bytes
  | .file content => [content.toBytes]
  | .directory entries => entries.contents
  | .link _ => []

/-- The contents of the files among these entries and below them. -/
def Entries.contents : Entries → List Bytes
  | .nil => []
  | .cons _ node rest => node.contents ++ rest.contents

end

/-- The contents of the files of a file system. -/
def FileSystem.contents (fs : FileSystem) : List Bytes := fs.entries.contents

theorem Entries.contents_subset_of_find? {entries : Entries} {name : Bytes} {node : Node}
    (h : entries.find? name = some node) : node.contents ⊆ entries.contents := by
  induction entries with
  | nil => cases h
  | cons n old rest ih =>
    rw [find?] at h
    rw [contents]
    split at h
    · cases h
      exact List.subset_append_left ..
    · exact List.Subset.trans (ih h) (List.subset_append_right ..)

theorem Entries.contents_subset_of_nodeAt? {entries : Entries} {names : List Bytes} {node : Node}
    (h : entries.nodeAt? names = some node) : node.contents ⊆ entries.contents := by
  induction names using List.reverseRecOn generalizing node with
  | nil =>
    cases h
    rw [Node.contents]
    exact List.Subset.refl _
  | append_singleton names s ih =>
    obtain ⟨below, hbelow, hs⟩ := nodeAt?_append_singleton.1 h
    have hsub := ih hbelow
    rw [Node.contents] at hsub
    exact List.Subset.trans (contents_subset_of_find? hs) hsub

/-- What is read is the content of a file. -/
theorem FileSystem.mem_contents_of_read {fs : FileSystem} {path c : Bytes}
    (h : fs.read path = .ok c) : c ∈ fs.contents := by
  rw [read, readContent, find] at h
  cases hplace : fs.resolve path with
  | error e => rw [hplace] at h; cases h
  | ok place =>
    rw [hplace] at h
    cases hnode : fs.nodeAt? place with
    | none => simp [bind, Except.bind, hnode] at h; cases h
    | some node =>
      have hsub : node.contents ⊆ fs.contents := Entries.contents_subset_of_nodeAt? hnode
      cases node with
      | file content =>
        simp [bind, Except.bind, hnode] at h
        cases h
        exact hsub (by rw [Node.contents]; exact List.mem_singleton_self _)
      | directory entries => simp [bind, Except.bind, hnode] at h; cases h
      | link target => simp [bind, Except.bind, hnode] at h; cases h

/-! ### Links -/

mutual

/-- The places of the links at or below the node at a place. -/
def Node.links (place : Place) : Node → List Place
  | .file _ => []
  | .link _ => [place]
  | .directory entries => entries.links place

/-- The places of the links among these entries of a place and below them. -/
def Entries.links (place : Place) : Entries → List Place
  | .nil => []
  | .cons name node rest => node.links (place ++ [name]) ++ rest.links place

end

/-- The places of the links of a file system. -/
def FileSystem.links (fs : FileSystem) : List Place := fs.entries.links []

theorem Entries.links_subset_of_find? {entries : Entries} {name : Bytes} {node : Node}
    (h : entries.find? name = some node) (place : Place) :
    node.links (place ++ [name]) ⊆ entries.links place := by
  induction entries with
  | nil => cases h
  | cons n old rest ih =>
    rw [find?] at h
    rw [links]
    split at h
    next hn =>
      cases h
      rw [hn]
      exact List.subset_append_left ..
    next => exact List.Subset.trans (ih h) (List.subset_append_right ..)

/-- Links below a place are links of the tree, at their places. -/
theorem Entries.links_subset_of_nodeAt? {entries : Entries} {names : List Bytes} {node : Node}
    (h : entries.nodeAt? names = some node) : node.links names ⊆ entries.links [] := by
  induction names using List.reverseRecOn generalizing node with
  | nil =>
    cases h
    rw [Node.links]
    exact List.Subset.refl _
  | append_singleton names s ih =>
    obtain ⟨below, hbelow, hs⟩ := nodeAt?_append_singleton.1 h
    have hsub := ih hbelow
    rw [Node.links] at hsub
    exact List.Subset.trans (links_subset_of_find? hs names) hsub

theorem FileSystem.mem_links_of_nodeAt? {fs : FileSystem} {place : Place} {target : Bytes}
    (h : fs.nodeAt? place = some (.link target)) : place ∈ fs.links := by
  have hsub := Entries.links_subset_of_nodeAt? h
  rw [Node.links] at hsub
  exact hsub (List.mem_singleton_self _)

/-! ### Heights -/

mutual

/-- The greatest number of names that lead from above the node to a directory. -/
def Node.height : Node → Nat
  | .file _ => 0
  | .link _ => 0
  | .directory entries => entries.height + 1

/-- The greatest number of names that lead through these entries to a directory. -/
def Entries.height : Entries → Nat
  | .nil => 0
  | .cons _ node rest => max node.height rest.height

end

/-- The greatest number of names that lead to a directory. -/
def FileSystem.height (fs : FileSystem) : Nat := fs.entries.height

theorem Entries.height_le_of_find? {entries : Entries} {name : Bytes} {node : Node}
    (h : entries.find? name = some node) : node.height ≤ entries.height := by
  induction entries with
  | nil => cases h
  | cons n old rest ih =>
    rw [find?] at h
    rw [height]
    split at h
    · cases h
      exact Nat.le_max_left ..
    · exact Nat.le_trans (ih h) (Nat.le_max_right ..)

/-- No tree below a place is higher than what is left of the whole. -/
theorem Entries.length_add_height_le {entries : Entries} {names : List Bytes} {node : Node}
    (h : entries.nodeAt? names = some node) :
    names.length + node.height ≤ entries.height + 1 := by
  induction names using List.reverseRecOn generalizing node with
  | nil =>
    cases h
    rw [Node.height, List.length_nil, Nat.zero_add]
  | append_singleton names s ih =>
    obtain ⟨below, hbelow, hs⟩ := nodeAt?_append_singleton.1 h
    have hle := ih hbelow
    have hnode := height_le_of_find? hs
    rw [Node.height] at hle
    rw [List.length_append, List.length_singleton]
    omega

/-- No directory is higher than the tree. -/
theorem FileSystem.length_le_height {fs : FileSystem} {place : Place} {entries : Entries}
    (h : fs.nodeAt? place = some (.directory entries)) : place.length ≤ fs.height := by
  have hle := Entries.length_add_height_le h
  rw [Node.height] at hle
  rw [height]
  omega

/-! ### Faces -/

/-- What a file or a link is; nothing is told of a directory. -/
def Node.face : Node → Option (Content ⊕ Bytes)
  | .file content => some (.inl content)
  | .link target => some (.inr target)
  | .directory _ => none

end RepoAtlas
