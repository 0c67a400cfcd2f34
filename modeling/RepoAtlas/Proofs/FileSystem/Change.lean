import RepoAtlas.Proofs.FileSystem

/-!
# Changes of file trees

A change of a file at one place, be it put there or removed, leaves every other
place as it is, and a well-formed tree well-formed. It is the change of one entry
(`Entries.IsFileChange`), carried out where names lead (`Entries.changeAt`).

* `FileSystem.ChangedAt`: what files at some places may come to be, while
  everything else stays;
* `FileSystem.KeptOrGone`: a file is left as it is, or removed;
* `changedAt_setAt`, `changedAt_eraseAt`: a file is put somewhere, or removed;
* `nodeAt?_setAt`: what is put below a directory (`FileSystem.HasParent`) is
  there.
-/

namespace RepoAtlas

open RepoAtlas.Path (IsName)

namespace Entries

variable {entries : Entries} {name : Bytes} {node : Node}

/-! ### One entry -/

theorem mem_names_set {s : Bytes} (h : s ∈ (entries.set name node).names) :
    s = name ∨ s ∈ entries.names := by
  induction entries with
  | nil => exact .inl (List.mem_singleton.1 h)
  | cons n old rest ih =>
    rw [set] at h
    split at h
    · exact .inr h
    · rcases List.mem_cons.1 h with rfl | h
      · exact .inr (List.mem_cons_self ..)
      · exact (ih h).imp_right (List.mem_cons_of_mem _)

theorem set_wellFormed (hwf : entries.WellFormed) (hname : IsName name) (hnode : node.WellFormed) :
    (entries.set name node).WellFormed := by
  induction entries with
  | nil => exact ⟨hname, List.not_mem_nil, hnode, trivial⟩
  | cons n old rest ih =>
    obtain ⟨hn, hnew, hold, hrest⟩ := hwf
    rw [set]
    split
    · exact ⟨hn, hnew, hnode, hrest⟩
    · rename_i hne
      exact ⟨hn, fun hmem => (mem_names_set hmem).elim hne hnew, hold, ih hrest⟩

/-- What is put under a name is there, and the other names keep what they have. -/
theorem find?_set (other : Bytes) :
    (entries.set name node).find? other =
      if other = name then some node else entries.find? other := by
  induction entries with
  | nil => simp [set, find?, eq_comm]
  | cons n old rest ih =>
    rw [set]
    split
    · rename_i hn
      subst hn
      by_cases hother : other = n
      · simp [find?, hother]
      · simp [find?, hother, Ne.symm hother]
    · rename_i hn
      by_cases hother : n = other
      · subst hother
        simp [find?, hn]
      · simp [find?, hother, ih]

theorem mem_names_erase {s : Bytes} (h : s ∈ (entries.erase name).names) : s ∈ entries.names := by
  induction entries with
  | nil => exact h
  | cons n old rest ih =>
    rw [erase] at h
    split at h
    · exact List.mem_cons_of_mem _ h
    · exact (List.mem_cons.1 h).elim (· ▸ List.mem_cons_self ..) fun h =>
        List.mem_cons_of_mem _ (ih h)

theorem erase_wellFormed (hwf : entries.WellFormed) : (entries.erase name).WellFormed := by
  induction entries with
  | nil => exact trivial
  | cons n old rest ih =>
    obtain ⟨hn, hnew, hold, hrest⟩ := hwf
    rw [erase]
    split
    · exact hrest
    · exact ⟨hn, fun hmem => hnew (mem_names_erase hmem), hold, ih hrest⟩

/-- Of a name that is erased nothing is left, and the other names keep what they have. -/
theorem find?_erase (hwf : entries.WellFormed) (other : Bytes) :
    (entries.erase name).find? other = if other = name then none else entries.find? other := by
  induction entries with
  | nil => simp [erase, find?]
  | cons n old rest ih =>
    obtain ⟨_, hnew, _, hrest⟩ := hwf
    rw [erase]
    split
    · rename_i hn
      subst hn
      by_cases hother : other = n
      · -- The name is not there twice.
        rw [if_pos hother, hother]
        by_contra hfound
        obtain ⟨again, hagain⟩ := Option.ne_none_iff_exists'.1 hfound
        exact hnew (mem_names_of_find? hagain)
      · simp [find?, hother, Ne.symm hother]
    · rename_i hn
      by_cases hother : n = other
      · subst hother
        simp [find?, hn]
      · simp [find?, hother, ih hrest]

/-! ### Entries of entries -/

variable {names place : List Bytes} {f : Entries → Bytes → Entries}

/-- The entries with a change of the entry that names lead to. -/
def changeAt (f : Entries → Bytes → Entries) (entries : Entries) : List Bytes → Entries
  | [] => entries
  | [name] => f entries name
  | name :: rest =>
    match entries.find? name with
    | some (.directory below) => entries.set name (.directory (below.changeAt f rest))
    | _ => entries

/-- To put something at a place is a change of one entry. -/
theorem setAt_eq_changeAt : entries.setAt node names = entries.changeAt (·.set · node) names := by
  induction names generalizing entries with
  | nil => rfl
  | cons s names ih =>
    cases names with
    | nil => rfl
    | cons t names =>
      unfold setAt changeAt
      cases entries.find? s with
      | none => rfl
      | some found =>
        cases found with
        | directory below => exact congrArg (fun b => entries.set s (.directory b)) ih
        | file content => rfl
        | link target => rfl

/-- So it is to remove what is there. -/
theorem eraseAt_eq_changeAt : entries.eraseAt names = entries.changeAt erase names := by
  induction names generalizing entries with
  | nil => rfl
  | cons s names ih =>
    cases names with
    | nil => rfl
    | cons t names =>
      unfold eraseAt changeAt
      cases entries.find? s with
      | none => rfl
      | some found =>
        cases found with
        | directory below => exact congrArg (fun b => entries.set s (.directory b)) ih
        | file content => rfl
        | link target => rfl

/-- Whether a change of one entry leaves a file under its name, if anything, and
    all other entries as they are. -/
structure IsFileChange (f : Entries → Bytes → Entries) : Prop where
  wellFormed : ∀ {entries name}, entries.WellFormed → IsName name → (f entries name).WellFormed
  other : ∀ {entries name other}, entries.WellFormed → other ≠ name →
    (f entries name).find? other = entries.find? other
  file : ∀ {entries name node}, entries.WellFormed →
    (f entries name).find? name = some node → ∃ content, node = .file content

theorem isFileChange_set (content : Content) : IsFileChange (·.set · (.file content)) where
  wellFormed hwf hname := set_wellFormed hwf hname trivial
  other _ hne := by rw [find?_set, if_neg hne]
  file _ h := by
    rw [find?_set, if_pos rfl] at h
    exact ⟨content, (Option.some.inj h).symm⟩

theorem isFileChange_erase : IsFileChange erase where
  wellFormed hwf _ := erase_wellFormed hwf
  other hwf hne := by rw [find?_erase hwf, if_neg hne]
  file hwf h := by
    rw [find?_erase hwf, if_pos rfl] at h
    cases h

/-- A change at a place of names leaves a tree well-formed. -/
theorem changeAt_wellFormed (hf : IsFileChange f) (hwf : entries.WellFormed)
    (hnames : ∀ s ∈ names, IsName s) : (entries.changeAt f names).WellFormed := by
  induction names generalizing entries with
  | nil => exact hwf
  | cons s names ih =>
    have hs := hnames s (List.mem_cons_self ..)
    cases names with
    | nil => exact hf.wellFormed hwf hs
    | cons t names =>
      unfold changeAt
      split
      · rename_i below hbelow
        refine set_wellFormed hwf hs ?_
        exact ih (hwf.of_find? hbelow).2 fun u hu => hnames u (List.mem_cons_of_mem _ hu)
      · exact hwf

/-- Where one entry alone is another, all that does not lie behind it is the
    same. -/
theorem face_nodeAt?_congr {changed : Entries} (s : Bytes)
    (hother : ∀ t, t ≠ s → changed.find? t = entries.find? t)
    (hsame : ∀ rest, place = s :: rest →
      (changed.nodeAt? place).map Node.face = (entries.nodeAt? place).map Node.face) :
    (changed.nodeAt? place).map Node.face = (entries.nodeAt? place).map Node.face := by
  cases place with
  | nil => rfl
  | cons t rest =>
    by_cases ht : t = s
    · exact hsame rest (ht ▸ rfl)
    · rw [nodeAt?_cons, nodeAt?_cons, hother t ht]

/-- There is nothing behind what is no directory. -/
theorem nodeAt?_cons_eq_none {s : Bytes} (hne : names ≠ [])
    (h : ∀ below, entries.find? s ≠ some (.directory below)) :
    entries.nodeAt? (s :: names) = none := by
  rw [nodeAt?_cons]
  split
  · rename_i below hbelow
    exact absurd hbelow (h below)
  · rw [if_neg hne]
  · rfl

theorem nodeAt?_singleton (s : Bytes) : entries.nodeAt? [s] = entries.find? s := by
  rw [nodeAt?_cons]
  cases entries.find? s with
  | none => rfl
  | some node => cases node <;> rfl

/-- Where a file changes, every other place keeps what it has. -/
theorem face_changeAt (hf : IsFileChange f) (hwf : entries.WellFormed)
    (hnot : ∀ below, entries.nodeAt? names ≠ some (.directory below)) (hne : place ≠ names) :
    ((entries.changeAt f names).nodeAt? place).map Node.face =
      (entries.nodeAt? place).map Node.face := by
  induction names generalizing entries place with
  | nil => exact absurd rfl (hnot entries)
  | cons s names ih =>
    cases names with
    | nil =>
      refine face_nodeAt?_congr s (fun t ht => hf.other hwf ht) ?_
      rintro rest rfl
      -- Behind the last name there was nothing before, and there is nothing now.
      have hrest : rest ≠ [] := fun hrest => hne (hrest ▸ rfl)
      have hbefore (below : Entries) : entries.find? s ≠ some (.directory below) :=
        nodeAt?_singleton s ▸ hnot below
      have hafter (below : Entries) : (f entries s).find? s ≠ some (.directory below) := fun h => by
        obtain ⟨content, hfile⟩ := hf.file hwf h
        cases hfile
      rw [changeAt, nodeAt?_cons_eq_none hrest hafter, nodeAt?_cons_eq_none hrest hbefore]
    | cons t names =>
      unfold changeAt
      split
      · rename_i below hbelow
        refine face_nodeAt?_congr s (fun t ht => by rw [find?_set, if_neg ht]) ?_
        rintro rest rfl
        rw [nodeAt?_cons] at hnot
        rw [nodeAt?_cons, find?_set, if_pos rfl, nodeAt?_cons]
        rw [hbelow] at hnot ⊢
        exact ih (hwf.of_find? hbelow).2 hnot fun heq => hne (heq ▸ rfl)
      · rfl

/-- Where a directory is replaced, all that is not below it keeps what it has. -/
theorem face_setAt_directory {old : Entries} (new : Entries)
    (h : entries.nodeAt? names = some (.directory old)) (hplace : names <+: place → names = place) :
    ((entries.setAt (.directory new) names).nodeAt? place).map Node.face =
      (entries.nodeAt? place).map Node.face := by
  induction names generalizing entries place with
  | nil => rfl
  | cons s names ih =>
    cases names with
    | nil =>
      rw [setAt]
      refine face_nodeAt?_congr s (fun t ht => by rw [find?_set, if_neg ht]) ?_
      rintro rest rfl
      rw [← hplace (List.prefix_append [s] rest), h, nodeAt?_singleton, find?_set, if_pos rfl]
      rfl
    | cons t names =>
      unfold setAt
      rw [nodeAt?_cons] at h
      split at h
      next below hbelow =>
        rw [hbelow]
        refine face_nodeAt?_congr s (fun u hu => by rw [find?_set, if_neg hu]) ?_
        rintro rest rfl
        rw [nodeAt?_cons, find?_set, if_pos rfl, nodeAt?_cons, hbelow]
        refine ih h fun hfront => ?_
        exact (List.cons.inj (hplace ((List.prefix_cons_inj s).2 hfront))).2
      next => cases h
      next => cases h

/-- Where a file changes, there is a file after it, if anything is new there. -/
theorem nodeAt?_changeAt (hf : IsFileChange f) (hwf : entries.WellFormed)
    (h : (entries.changeAt f names).nodeAt? names = some node) :
    (∃ content, node = .file content) ∨ entries.nodeAt? names = some node := by
  induction names generalizing entries with
  | nil => exact .inr h
  | cons s names ih =>
    cases names with
    | nil =>
      rw [changeAt, nodeAt?_singleton] at h
      exact .inl (hf.file hwf h)
    | cons t names =>
      unfold changeAt at h
      split at h
      · rename_i found hfound
        rw [nodeAt?_cons, find?_set, if_pos rfl] at h
        rw [nodeAt?_cons, hfound]
        exact ih (hwf.of_find? hfound).2 h
      · exact .inr h

/-- What was removed is gone. -/
theorem nodeAt?_eraseAt (hwf : entries.WellFormed) (hne : names ≠ []) :
    (entries.eraseAt names).nodeAt? names = none := by
  induction names generalizing entries with
  | nil => exact absurd rfl hne
  | cons s names ih =>
    cases names with
    | nil => rw [eraseAt, nodeAt?_singleton, find?_erase hwf, if_pos rfl]
    | cons t names =>
      unfold eraseAt
      split
      · rename_i below hbelow
        rw [nodeAt?_cons, find?_set, if_pos rfl]
        exact ih (hwf.of_find? hbelow).2 (List.cons_ne_nil _ _)
      · rename_i hnot
        exact nodeAt?_cons_eq_none (List.cons_ne_nil _ _) hnot

/-- What is put into a directory is there. -/
theorem nodeAt?_setAt (h : ∃ below, entries.nodeAt? place = some (.directory below)) :
    (entries.setAt node (place ++ [name])).nodeAt? (place ++ [name]) = some node := by
  induction place generalizing entries with
  | nil => rw [List.nil_append, setAt, nodeAt?_singleton, find?_set, if_pos rfl]
  | cons s place ih =>
    obtain ⟨below, hbelow⟩ := h
    rw [nodeAt?_cons] at hbelow
    split at hbelow
    next found hfound =>
      have hset := ih ⟨below, hbelow⟩
      -- Another name comes behind this one.
      obtain ⟨t, rest, hcons⟩ := List.exists_cons_of_ne_nil
        (List.append_ne_nil_of_right_ne_nil place (List.cons_ne_nil name []))
      rw [hcons] at hset
      rw [List.cons_append, hcons]
      unfold setAt
      rw [hfound]
      dsimp only
      rw [nodeAt?_cons, find?_set, if_pos rfl]
      exact hset
    next hnot _ =>
      split at hbelow
      · cases hbelow
        exact absurd rfl (hnot below)
      · cases hbelow
    next => cases hbelow

end Entries

theorem Node.face_eq_none {node : Node} : node.face = none ↔ ∃ below, node = .directory below := by
  cases node <;> simp [face]

/-! ### Changes of files -/

/-- Whether a file system is what another one comes to be when files at some
    places change: the same directories are there and tell their entries as before, no
    link is new, and every other place keeps what it has. -/
structure FileSystem.ChangedAt (places : List Place) (fs after : FileSystem) : Prop where
  wellFormed : after.WellFormed
  directory : ∀ place, (∃ below, after.nodeAt? place = some (.directory below)) ↔
    ∃ below, fs.nodeAt? place = some (.directory below)
  link : ∀ {place target}, after.nodeAt? place = some (.link target) →
    fs.nodeAt? place = some (.link target)
  face : ∀ place ∉ places,
    (after.nodeAt? place).map Node.face = (fs.nodeAt? place).map Node.face
  unlisted : after.unlisted = fs.unlisted

namespace FileSystem

variable {fs after last : FileSystem} {place : Place} {places others : List Place}

theorem ChangedAt.refl (hfs : fs.WellFormed) (places : List Place) : ChangedAt places fs fs :=
  ⟨hfs, fun _ => Iff.rfl, fun h => h, fun _ _ => rfl, rfl⟩

/-- Changes that follow each other change what either does. -/
theorem ChangedAt.trans (h : ChangedAt places fs after) (hlast : ChangedAt others after last) :
    ChangedAt (places ++ others) fs last := by
  refine ⟨hlast.wellFormed, fun p => (hlast.directory p).trans (h.directory p),
    fun hlink => h.link (hlast.link hlink), fun p hp => ?_, hlast.unlisted.trans h.unlisted⟩
  rw [List.mem_append, not_or] at hp
  rw [hlast.face p hp.2, h.face p hp.1]

theorem ChangedAt.mono (h : ChangedAt places fs after) (hsub : places ⊆ others) :
    ChangedAt others fs after :=
  ⟨h.wellFormed, h.directory, h.link, fun p hp => h.face p fun hmem => hp (hsub hmem),
    h.unlisted⟩

/-- What is no directory does not become one. -/
theorem ChangedAt.ne_directory (h : ChangedAt places fs after)
    (hnot : ∀ below, fs.nodeAt? place ≠ some (.directory below)) :
    ∀ below, after.nodeAt? place ≠ some (.directory below) := by
  intro below hnode
  obtain ⟨below, hnode⟩ := (h.directory place).1 ⟨below, hnode⟩
  exact hnot below hnode

/-- Another face tells whether there is a directory. -/
theorem exists_directory_congr
    (h : (after.nodeAt? place).map Node.face = (fs.nodeAt? place).map Node.face) :
    (∃ below, after.nodeAt? place = some (.directory below)) ↔
      ∃ below, fs.nodeAt? place = some (.directory below) := by
  have hdirectory (fs : FileSystem) : (∃ below, fs.nodeAt? place = some (.directory below)) ↔
      (fs.nodeAt? place).map Node.face = some none := by
    cases fs.nodeAt? place with
    | none => simp
    | some node => simp [Node.face_eq_none]
  rw [hdirectory, hdirectory, h]

/-- What is no directory is told by its face. -/
theorem nodeAt?_of_face {node : Node}
    (h : (after.nodeAt? place).map Node.face = (fs.nodeAt? place).map Node.face)
    (hnot : ∀ below, node ≠ .directory below) (hnode : fs.nodeAt? place = some node) :
    after.nodeAt? place = some node := by
  rw [hnode, Option.map_some, Option.map_eq_some_iff] at h
  obtain ⟨found, hfound, hface⟩ := h
  rw [hfound]
  cases node with
  | directory below => exact absurd rfl (hnot below)
  | file content => cases found <;> cases hface; rfl
  | link target => cases found <;> cases hface; rfl

/-- A change of one file. -/
theorem changedAt_changeAt {f : Entries → Bytes → Entries} (hf : Entries.IsFileChange f)
    (hfs : fs.WellFormed) (hnot : ∀ below, fs.nodeAt? place ≠ some (.directory below))
    (hplace : ∀ s ∈ place, IsName s) :
    ChangedAt [place] fs { fs with entries := fs.entries.changeAt f place } := by
  have hface (p : Place) (hp : p ≠ place) :
      (nodeAt? { fs with entries := fs.entries.changeAt f place } p).map Node.face =
        (fs.nodeAt? p).map Node.face :=
    Entries.face_changeAt hf hfs hnot hp
  refine ⟨Entries.changeAt_wellFormed hf hfs hplace, fun p => ?_, fun {p target} h => ?_,
    fun p hp => ?_, rfl⟩
  · by_cases hp : p = place
    · subst hp
      refine iff_of_false (fun ⟨below, h⟩ => ?_) fun ⟨below, h⟩ => hnot below h
      rcases Entries.nodeAt?_changeAt hf hfs h with ⟨content, hfile⟩ | h
      · cases hfile
      · exact hnot below h
    · exact exists_directory_congr (hface p hp)
  · by_cases hp : p = place
    · subst hp
      rcases Entries.nodeAt?_changeAt hf hfs h with ⟨content, hfile⟩ | h
      · cases hfile
      · exact h
    · exact nodeAt?_of_face (hface p hp).symm (fun _ heq => by cases heq) h
  · exact hface p fun heq => hp (heq ▸ List.mem_singleton_self _)

/-- A file may be put where no directory is. -/
theorem changedAt_setAt (hfs : fs.WellFormed) (content : Content)
    (hnot : ∀ below, fs.nodeAt? place ≠ some (.directory below)) (hplace : ∀ s ∈ place, IsName s) :
    ChangedAt [place] fs (fs.setAt place (.file content)) := by
  rw [setAt, Entries.setAt_eq_changeAt]
  exact changedAt_changeAt (Entries.isFileChange_set content) hfs hnot hplace

/-- What is no directory may be removed. -/
theorem changedAt_eraseAt (hfs : fs.WellFormed)
    (hnot : ∀ below, fs.nodeAt? place ≠ some (.directory below)) (hplace : ∀ s ∈ place, IsName s) :
    ChangedAt [place] fs (fs.eraseAt place) := by
  rw [eraseAt, Entries.eraseAt_eq_changeAt]
  exact changedAt_changeAt Entries.isFileChange_erase hfs hnot hplace

/-- Whether what is at a place is the same afterwards, or nothing is there any more. -/
def KeptOrGone (fs after : FileSystem) (place : Place) : Prop :=
  (after.nodeAt? place).map Node.face = (fs.nodeAt? place).map Node.face ∨
    after.nodeAt? place = none

theorem ChangedAt.keptOrGone (h : ChangedAt places fs after) (hplace : place ∉ places) :
    KeptOrGone fs after place := .inl (h.face place hplace)

theorem keptOrGone_eraseAt (hfs : fs.WellFormed) (hne : place ≠ []) :
    KeptOrGone fs (fs.eraseAt place) place := .inr (Entries.nodeAt?_eraseAt hfs hne)

/-- What is kept or gone twice is kept or gone. -/
theorem KeptOrGone.trans (h : KeptOrGone fs after place) (hlast : KeptOrGone after last place) :
    KeptOrGone fs last place := by
  rcases hlast with hsame | hgone
  · rcases h with hsame' | hgone
    · exact .inl (hsame.trans hsame')
    · rw [hgone, Option.map_none, Option.map_eq_none_iff] at hsame
      exact .inr hsame
  · exact .inr hgone

/-- Changes at some places, one after the other. -/
theorem changedAt_foldl {f : FileSystem → Place → FileSystem} (hfs : fs.WellFormed)
    (hf : ∀ now seen, ChangedAt seen fs now → ∀ p ∈ places, ChangedAt [p] now (f now p)) :
    ChangedAt places fs (places.foldl f fs) := by
  induction places using List.reverseRecOn with
  | nil => exact .refl hfs _
  | append_singleton front p ih =>
    have hfront := ih fun now seen hnow q hq => hf now seen hnow q (List.mem_append_left _ hq)
    rw [List.foldl_append]
    exact hfront.trans (hf _ _ hfront p (List.mem_append_right _ List.mem_cons_self))

end FileSystem

/-! ### Places where something may be put -/

namespace FileSystem

variable {fs after : FileSystem} {place : Place} {places : List Place}

/-- Whether the place above is a directory. -/
def HasParent (fs : FileSystem) (place : Place) : Prop :=
  ∃ below, fs.nodeAt? place.dropLast = some (.directory below)

theorem hasParent_of_nodeAt? {node : Node} (h : fs.nodeAt? place = some node) :
    fs.HasParent place := by
  induction place using List.reverseRecOn with
  | nil => exact ⟨fs.entries, rfl⟩
  | append_singleton place name =>
    obtain ⟨below, hbelow, -⟩ := nodeAt?_append_singleton.1 h
    exact ⟨below, by rwa [List.dropLast_concat]⟩

theorem nodeAt?_setAt (h : fs.HasParent place)
    (hnot : ∀ below, fs.nodeAt? place ≠ some (.directory below)) (node : Node) :
    (fs.setAt place node).nodeAt? place = some node := by
  induction place using List.reverseRecOn with
  | nil => exact absurd rfl (hnot fs.entries)
  | append_singleton place name =>
    rw [HasParent, List.dropLast_concat] at h
    exact Entries.nodeAt?_setAt h

theorem ChangedAt.hasParent (h : ChangedAt places fs after) (hplace : fs.HasParent place) :
    after.HasParent place :=
  (h.directory _).2 hplace

/-- A file elsewhere stays. -/
theorem ChangedAt.nodeAt?_file (h : ChangedAt places fs after) {content : Content}
    (hplace : place ∉ places) (hnode : fs.nodeAt? place = some (.file content)) :
    after.nodeAt? place = some (.file content) :=
  nodeAt?_of_face (h.face place hplace) (fun _ heq => by cases heq) hnode

end FileSystem

end RepoAtlas
