import RepoAtlas.Proofs.Walk.Listing

/-!
# A survey is a listing

A survey gathers the rules of every rule file it comes across and forgets none.
Those from other directories say nothing of an entry (`Agree.sibling`), so that by
the rules gathered so far the same is ignored as by the rules for it.

From this, a directory is listed entry by entry: its files are seen alone, and
each subdirectory brings its own listing (`visitSeen_directories`), whatever the
others before it added to the rules. A survey of a well-formed tree thus is the
listing of its root (`listing_survey`).
-/

namespace RepoAtlas.Walk

open Ignore RepoAtlas.Path

variable {fs : FileSystem} {artifacts : List Bytes} {place : Place}

/-! ### One directory -/

section Entries

variable {scopes : List Scope} {directory : Bytes} {depth : Nat} {entries : Entries} {x : Seen}

/-- What is seen of a node, and the rules after that. -/
def visitNode (fs : FileSystem) (path : Bytes) (depth : Nat) (kind : Kind) (node : Node)
    (scopes : List Scope) : List Sight × List Scope :=
  let (sights, scopes) := below fs scopes path (depth + 1) node
  (⟨path, depth, kind⟩ :: sights, scopes)

/-- What is seen of an entry alone. -/
def entrySeen (fs : FileSystem) (scopes : List Scope) (directory : Bytes) (depth : Nat)
    (name : Bytes) (node : Node) : List Seen :=
  match seenAs? fs (join directory name) node with
  | none => []
  | some kind =>
    if isIgnored scopes (join directory name) (kind = .directory) then []
    else [⟨name, kind, visitNode fs (join directory name) depth kind node⟩]

theorem entriesSeen_cons (name : Bytes) (node : Node) (rest : Entries) :
    entriesSeen fs scopes directory depth (.cons name node rest) =
      entrySeen fs scopes directory depth name node ++
        entriesSeen fs scopes directory depth rest := by
  rw [entriesSeen, entrySeen]
  cases seenAs? fs (join directory name) node with
  | none => rfl
  | some kind =>
    dsimp only
    split <;> rfl

theorem mem_entrySeen_iff {name : Bytes} {node : Node} :
    x ∈ entrySeen fs scopes directory depth name node ↔
      x.name = name ∧ IsSeenAs fs (join directory name) node x.kind ∧
        isIgnored scopes (join directory name) (x.kind = .directory) = false ∧
        x.visit = visitNode fs (join directory name) depth x.kind node := by
  rw [← seenAs?_eq_some_iff, entrySeen]
  cases seenAs? fs (join directory name) node with
  | none => simp
  | some kind =>
    dsimp only
    constructor
    · intro h
      split at h
      · cases h
      · rename_i hkept
        cases List.mem_singleton.1 h
        exact ⟨rfl, rfl, Bool.eq_false_iff.2 hkept, rfl⟩
    · obtain ⟨_, _, _⟩ := x
      dsimp only
      rintro ⟨rfl, hkind, hkept, rfl⟩
      cases hkind
      rw [hkept]
      exact List.mem_singleton_self _

/-- The names of the entries that are seen are names of the directory. -/
theorem names_entriesSeen_sublist :
    ((entriesSeen fs scopes directory depth entries).map (·.name)).Sublist entries.names := by
  induction entries with
  | nil => exact List.Sublist.refl _
  | cons name node rest ih =>
    rw [entriesSeen_cons, List.map_append, Entries.names, entrySeen]
    split
    · exact ih.cons _
    · split
      · exact ih.cons _
      · exact ih.cons_cons _

theorem nodup_names (hwf : entries.WellFormed) : entries.names.Nodup := by
  induction entries with
  | nil => exact List.nodup_nil
  | cons name node rest ih =>
    obtain ⟨_, hnew, _, hrest⟩ := hwf
    exact List.nodup_cons.2 ⟨hnew, ih hrest⟩

/-- An entry is seen if it is seen as something and not ignored. -/
theorem mem_entriesSeen_iff (hwf : entries.WellFormed) :
    x ∈ entriesSeen fs scopes directory depth entries ↔
      ∃ node, entries.find? x.name = some node ∧
        IsSeenAs fs (join directory x.name) node x.kind ∧
        isIgnored scopes (join directory x.name) (x.kind = .directory) = false ∧
        x.visit = visitNode fs (join directory x.name) depth x.kind node := by
  induction entries with
  | nil => simp [entriesSeen, Entries.find?]
  | cons name node rest ih =>
    obtain ⟨_, hnew, _, hrest⟩ := hwf
    rw [entriesSeen_cons, List.mem_append, mem_entrySeen_iff, ih hrest, Entries.find?]
    by_cases hname : name = x.name
    · -- The entry itself: no other one has its name.
      have hnone : rest.find? x.name = none := by
        by_contra hfound
        obtain ⟨other, hother⟩ := Option.ne_none_iff_exists'.1 hfound
        exact hnew (hname ▸ Entries.mem_names_of_find? hother)
      simp [hname, hnone]
    · simp [hname, Ne.symm hname]

end Entries

/-! ### The order of one directory -/

section Order

variable {kind : Kind} {seen : List Seen}

theorem mem_byName_iff {x : Seen} : x ∈ byName kind seen ↔ x ∈ seen ∧ x.kind = kind := by
  rw [byName, List.mem_mergeSort, List.mem_filter, decide_eq_true_iff]

/-- Entries of different names are sorted into the order of the bytes. -/
theorem inByteOrder_byName (h : (seen.map (·.name)).Nodup) :
    InByteOrder ((byName kind seen).map (·.name)) := by
  have hsorted : (byName kind seen).Pairwise fun a b => a.name ≤ b.name :=
    (@List.pairwise_mergeSort Seen (fun a b => decide (a.name ≤ b.name))
      (fun a b c hab hbc => decide_eq_true (List.le_trans (of_decide_eq_true hab)
        (of_decide_eq_true hbc)))
      (fun a b => by simpa using List.le_total a.name b.name) _).imp of_decide_eq_true
  have hnodup : ((byName kind seen).map (·.name)).Nodup :=
    ((List.mergeSort_perm _ _).map _).nodup_iff.2 (h.sublist (List.filter_sublist.map _))
  refine (List.pairwise_map.2 hsorted).imp₂ (fun a b hle hne => ?_) hnodup
  exact List.not_le.1 fun hge => hne (List.le_antisymm hle hge)

end Order

/-! ### Rules that stay -/

section Agree

variable (place) in
/-- Whether two lists of rules are the same for all that lies below the directory
    that names lead to. -/
def Agree (names : List Bytes) (scopes others : List Scope) : Prop :=
  ∀ further, further ≠ [] → (∀ s ∈ place ++ (names ++ further), IsName s) →
    scopes.filter (·.contains (ofNames (place ++ (names ++ further)))) =
      others.filter (·.contains (ofNames (place ++ (names ++ further))))

variable (place) in
/-- Whether rules come from the directory that names lead to, or from directories
    below it. -/
def ComeFrom (names : List Bytes) (scopes : List Scope) : Prop :=
  ∀ scope ∈ scopes, ∃ further, scope.root = ofNames (place ++ (names ++ further)) ∧
    ∀ s ∈ place ++ (names ++ further), IsName s

variable {names : List Bytes} {s t : Bytes} {scopes others added : List Scope}

theorem Agree.refl (scopes : List Scope) : Agree place names scopes scopes := fun _ _ _ => rfl

/-- What the same rules are added to stays the same. -/
theorem Agree.append (h : Agree place names scopes others) (added : List Scope) :
    Agree place names (scopes ++ added) (others ++ added) := by
  intro further hne hnames
  rw [List.filter_append, List.filter_append, h further hne hnames]

/-- What is the same below a directory is so below each of its subdirectories. -/
theorem Agree.subdirectory (h : Agree place names scopes others) (s : Bytes) :
    Agree place (names ++ [s]) scopes others := by
  intro further hne hnames
  rw [List.append_assoc] at hnames ⊢
  exact h _ (List.append_ne_nil_of_right_ne_nil _ hne) hnames

/-- Rules that come from one subdirectory say nothing of what lies below
    another. -/
theorem Agree.sibling (h : Agree place (names ++ [s]) scopes others)
    (hadded : ComeFrom place (names ++ [t]) added) (hne : t ≠ s) :
    Agree place (names ++ [s]) (scopes ++ added) others := by
  intro further hfurther hnames
  rw [List.filter_append, h further hfurther hnames, List.append_right_eq_self,
    List.filter_eq_nil_iff]
  intro scope hscope hcontains
  obtain ⟨more, hroot, hfront⟩ := hadded scope hscope
  obtain ⟨hbefore, _⟩ := (contains_ofNames hroot hfront hnames).1 hcontains
  rw [List.prefix_append_right_inj, List.append_assoc, List.append_assoc,
    List.prefix_append_right_inj] at hbefore
  exact hne (List.cons_prefix_cons.1 hbefore).1

/-- By rules that are the same, the same is ignored. -/
theorem Agree.isIgnored_eq (h : Agree place names scopes others)
    (hnames : ∀ t ∈ place ++ (names ++ [s]), IsName t) (isDirectory : Bool) :
    isIgnored scopes (ofNames (place ++ (names ++ [s]))) isDirectory =
      isIgnored others (ofNames (place ++ (names ++ [s]))) isDirectory := by
  rw [isIgnored, isIgnored, scopesFor, scopesFor, h [s] (List.cons_ne_nil _ _) hnames]

theorem ComeFrom.append (h : ComeFrom place names scopes) (hothers : ComeFrom place names others) :
    ComeFrom place names (scopes ++ others) := by
  intro scope hscope
  exact (List.mem_append.1 hscope).elim (h scope) (hothers scope)

theorem ComeFrom.directory (h : ComeFrom place (names ++ [s]) scopes) :
    ComeFrom place names scopes := by
  intro scope hscope
  obtain ⟨further, hroot, hisName⟩ := h scope hscope
  rw [List.append_assoc] at hroot hisName
  exact ⟨_, hroot, hisName⟩

/-- The rules of a rule file come from its directory. -/
theorem comeFrom_scopeOf? (hnames : ∀ s ∈ place ++ names, IsName s) :
    ComeFrom place names (scopeOf? fs (ofNames (place ++ names))).toList := by
  intro scope hscope
  refine ⟨[], ?_, ?_⟩
  · rw [List.append_nil]
    exact root_of_scopeOf? (Option.mem_toList.1 hscope)
  · rwa [List.append_nil]

end Agree

/-! ### The survey as a listing -/

section Visits

variable {names : List Bytes} {seen : List Seen} {scopes : List Scope}

theorem visitSeen_cons {x : Seen} :
    visitSeen (x :: seen) scopes =
      ((x.visit scopes).1 ++ (visitSeen seen (x.visit scopes).2).1,
        (visitSeen seen (x.visit scopes).2).2) := rfl

theorem visitSeen_append (others : List Seen) :
    visitSeen (seen ++ others) scopes =
      ((visitSeen seen scopes).1 ++ (visitSeen others (visitSeen seen scopes).2).1,
        (visitSeen others (visitSeen seen scopes).2).2) := by
  induction seen generalizing scopes with
  | nil => rfl
  | cons x seen ih =>
    rw [List.cons_append, visitSeen_cons, ih, visitSeen_cons, List.append_assoc]

/-- Of files nothing is seen but themselves, and they add no rules. -/
theorem visitSeen_files
    (hvisit : ∀ x ∈ seen, x.visit scopes = ([sightOf place (names ++ [x.name]) .file], scopes)) :
    visitSeen seen scopes =
      ((seen.map (·.name)).map (fun s => sightOf place (names ++ [s]) .file), scopes) := by
  induction seen with
  | nil => rfl
  | cons x seen ih =>
    rw [visitSeen_cons, hvisit x (List.mem_cons_self ..),
      ih fun y hy => hvisit y (List.mem_cons_of_mem _ hy)]
    rfl

variable (fs artifacts place) in
/-- Whether a visit of a subdirectory sees its listing, as long as the rules
    before agree with the rules for what is below it; it adds rules that come
    from there. -/
def Lists (names : List Bytes) (sub : List Sight)
    (visit : List Scope → List Sight × List Scope) : Prop :=
  ∀ scopes, Agree place names scopes (rulesFor fs artifacts place names) →
    ∃ added, visit scopes = (sightOf place names .directory :: sub, scopes ++ added) ∧
      ComeFrom place names added

/-- A visit of a subdirectory lists it, if what is seen below it is its listing. -/
theorem exists_lists {node : Node} (hne : names ≠ [])
    (hbelow : ∀ scopes, Agree place names scopes (rulesFor fs artifacts place names) →
      ∃ l added, below fs scopes (ofNames (place ++ names)) names.length node =
          (l, scopes ++ added) ∧
        Listing fs artifacts place names l ∧ ComeFrom place names added) :
    ∃ sub, Listing fs artifacts place names sub ∧ Lists fs artifacts place names sub
      (visitNode fs (ofNames (place ++ names)) (names.length - 1) .directory node) := by
  obtain ⟨sub, _, _, hsub, _⟩ := hbelow _ (.refl _)
  refine ⟨sub, hsub, fun scopes hscopes => ?_⟩
  obtain ⟨l, added, hl, hlisting, hadded⟩ := hbelow scopes hscopes
  have hdepth : names.length - 1 + 1 = names.length :=
    Nat.sub_add_cancel (List.length_pos_of_ne_nil hne)
  refine ⟨added, ?_, hadded⟩
  rw [visitNode, hdepth, hl, hlisting.unique hsub]
  rfl

/-- The subdirectories are listed one after the other: the rules that one of them
    adds make no difference to the others. -/
theorem visitSeen_directories {sub : Bytes → List Sight} (hnodup : (seen.map (·.name)).Nodup)
    (hvisit : ∀ x ∈ seen, Lists fs artifacts place (names ++ [x.name]) (sub x.name) x.visit)
    (hscopes : ∀ x ∈ seen, Agree place (names ++ [x.name]) scopes
      (rulesFor fs artifacts place (names ++ [x.name]))) :
    ∃ added, visitSeen seen scopes =
      ((seen.map (·.name)).flatMap fun s => sightOf place (names ++ [s]) .directory :: sub s,
        scopes ++ added) ∧ ComeFrom place names added := by
  induction seen generalizing scopes with
  | nil => exact ⟨[], by rw [List.append_nil]; rfl, fun _ hscope => absurd hscope List.not_mem_nil⟩
  | cons x seen ih =>
    rw [List.map_cons, List.nodup_cons] at hnodup
    -- What the first one adds comes from there, while the others lie elsewhere: for
    -- them, the rules are as good as before.
    obtain ⟨added, hx, hadded⟩ := hvisit x (List.mem_cons_self ..) scopes
      (hscopes x (List.mem_cons_self ..))
    have hrest (y : Seen) (hy : y ∈ seen) : Agree place (names ++ [y.name]) (scopes ++ added)
        (rulesFor fs artifacts place (names ++ [y.name])) := by
      refine (hscopes y (List.mem_cons_of_mem _ hy)).sibling hadded fun heq => hnodup.1 ?_
      exact heq ▸ List.mem_map_of_mem hy
    obtain ⟨further, hseen, hfurther⟩ := ih hnodup.2
      (fun y hy => hvisit y (List.mem_cons_of_mem _ hy)) hrest
    refine ⟨added ++ further, ?_, hadded.directory.append hfurther⟩
    rw [visitSeen_cons, hx, hseen, List.append_assoc]
    rfl

end Visits

variable (fs place) in
/-- The entries that are seen of the directory that names lead to. -/
def seenIn (scopes : List Scope) (names : List Bytes) (entries : Entries) : List Seen :=
  entriesSeen fs scopes (ofNames (place ++ names)) names.length entries

section Directory

variable (hfs : fs.WellFormed) {names : List Bytes} {entries : Entries}
  (h : fs.nodeAt? (place ++ names) = some (.directory entries))
  (hlisted : fs.isListed (ofNames (place ++ names)) = true)

include h hlisted

/-- An entry of a directory that tells its entries survives by what it is there. -/
theorem survives_append_iff {s : Bytes} {kind : Kind} :
    Survives fs artifacts place (names ++ [s]) kind ↔
      ∃ node, entries.find? s = some node ∧
        IsSeenAs fs (ofNames (place ++ (names ++ [s]))) node kind ∧
        isIgnored (rulesFor fs artifacts place (names ++ [s])) (ofNames (place ++ (names ++ [s])))
          (kind = .directory) = false := by
  have hnode (node : Node) : fs.nodeAt? (place ++ (names ++ [s])) = some node ↔
      entries.find? s = some node := by
    rw [← List.append_assoc, FileSystem.nodeAt?_append_singleton, h]
    exact ⟨fun ⟨_, hentries, hs⟩ => by cases hentries; exact hs, fun hs => ⟨entries, rfl, hs⟩⟩
  simp only [Survives, hnode, List.dropLast_concat, hlisted, true_and]

variable {scopes : List Scope}
  (hscopes : Agree place names scopes
    (rulesFor fs artifacts place names ++ (scopeOf? fs (ofNames (place ++ names))).toList))

include hfs hscopes

/-- The entries of a directory that are seen are those that survive. -/
theorem mem_seenIn_iff {x : Seen} :
    x ∈ seenIn fs place scopes names entries ↔
      Survives fs artifacts place (names ++ [x.name]) x.kind ∧
        ∃ node, entries.find? x.name = some node ∧
          x.visit =
            visitNode fs (ofNames (place ++ (names ++ [x.name]))) names.length x.kind node := by
  have hnames := FileSystem.isName_of_nodeAt? hfs h
  have hwf := FileSystem.wellFormed_of_nodeAt? hfs h
  have hpath (node : Node) (hfound : entries.find? x.name = some node) :
      join (ofNames (place ++ names)) x.name = ofNames (place ++ (names ++ [x.name])) := by
    rw [join_ofNames hnames (Entries.WellFormed.of_find? hwf hfound).1, List.append_assoc]
  have hignored (node : Node) (hfound : entries.find? x.name = some node) (isDirectory : Bool) :
      isIgnored scopes (ofNames (place ++ (names ++ [x.name]))) isDirectory =
        isIgnored (rulesFor fs artifacts place (names ++ [x.name]))
          (ofNames (place ++ (names ++ [x.name]))) isDirectory := by
    rw [rulesFor_append]
    refine hscopes.isIgnored_eq (fun t ht => ?_) isDirectory
    rw [← List.append_assoc] at ht
    rcases List.mem_append.1 ht with ht | ht
    · exact hnames t ht
    · exact List.mem_singleton.1 ht ▸ (Entries.WellFormed.of_find? hwf hfound).1
  rw [seenIn, mem_entriesSeen_iff hwf, survives_append_iff h hlisted]
  -- The same test on both sides, with the path joined or of names, and by the rules
  -- that were gathered or those for the entry.
  constructor
  · rintro ⟨node, hfound, hseen, hkept, hvisit⟩
    rw [hpath node hfound] at hseen hkept hvisit
    rw [hignored node hfound] at hkept
    exact ⟨⟨node, hfound, hseen, hkept⟩, node, hfound, hvisit⟩
  · rintro ⟨⟨node, hfound, hseen, hkept⟩, other, hother, hvisit⟩
    cases hfound.symm.trans hother
    rw [← hignored node hfound] at hkept
    rw [hpath node hfound]
    exact ⟨node, hfound, hseen, hkept, hvisit⟩

theorem mem_names_byName_iff {s : Bytes} {kind : Kind} :
    s ∈ (byName kind (seenIn fs place scopes names entries)).map (·.name) ↔
      Survives fs artifacts place (names ++ [s]) kind := by
  rw [List.mem_map]
  constructor
  · rintro ⟨x, hx, rfl⟩
    obtain ⟨hseen, rfl⟩ := mem_byName_iff.1 hx
    exact ((mem_seenIn_iff hfs h hlisted hscopes).1 hseen).1
  · intro hs
    obtain ⟨node, hfound, _⟩ := (survives_append_iff h hlisted).1 hs
    let x : Seen :=
      ⟨s, kind, visitNode fs (ofNames (place ++ (names ++ [s]))) names.length kind node⟩
    have hx : x ∈ seenIn fs place scopes names entries :=
      (mem_seenIn_iff hfs h hlisted hscopes).2 ⟨hs, node, hfound, rfl⟩
    exact ⟨x, mem_byName_iff.2 ⟨hx, rfl⟩, rfl⟩

/-- A file that is seen is seen alone. -/
theorem visit_file {x : Seen}
    (hx : x ∈ byName .file (seenIn fs place scopes names entries)) (before : List Scope) :
    x.visit before = ([sightOf place (names ++ [x.name]) .file], before) := by
  obtain ⟨hx, hkind⟩ := mem_byName_iff.1 hx
  obtain ⟨hsurvives, node, hfound, hvisit⟩ := (mem_seenIn_iff hfs h hlisted hscopes).1 hx
  obtain ⟨other, hother, hseen, _⟩ := (survives_append_iff h hlisted).1 hsurvives
  cases hfound.symm.trans hother
  rw [hkind] at hseen hvisit
  have hdepth : (names ++ [x.name]).length - 1 = names.length := by simp
  rw [hvisit, visitNode, sightOf, hdepth]
  cases node with
  | file content => rfl
  | directory below => exact absurd rfl (hseen.1 below)
  | link target => rfl

/-- What is seen of a directory is the listing of it, if that holds of its
    subdirectories. -/
theorem listing_arrange {sub : Bytes → List Sight}
    (hsub : ∀ s further, entries.find? s = some (.directory further) →
      Listing fs artifacts place (names ++ [s]) (sub s) ∧
        Lists fs artifacts place (names ++ [s]) (sub s)
          (visitNode fs (ofNames (place ++ (names ++ [s]))) names.length .directory
            (.directory further))) :
    ∃ l added, arrange (seenIn fs place scopes names entries) scopes = (l, scopes ++ added) ∧
      Listing fs artifacts place names l ∧ ComeFrom place names added := by
  have hordered (kind : Kind) :
      InByteOrder ((byName kind (seenIn fs place scopes names entries)).map (·.name)) :=
    inByteOrder_byName ((nodup_names (FileSystem.wellFormed_of_nodeAt? hfs h)).sublist
      names_entriesSeen_sublist)
  have hlists (x : Seen) (hx : x ∈ byName .directory (seenIn fs place scopes names entries)) :
      Lists fs artifacts place (names ++ [x.name]) (sub x.name) x.visit := by
    obtain ⟨hx, hkind⟩ := mem_byName_iff.1 hx
    obtain ⟨hsurvives, node, hfound, hvisit⟩ := (mem_seenIn_iff hfs h hlisted hscopes).1 hx
    obtain ⟨other, hother, hseen, _⟩ := (survives_append_iff h hlisted).1 hsurvives
    cases hfound.symm.trans hother
    rw [hkind] at hseen hvisit
    obtain ⟨further, rfl⟩ := hseen
    rw [hvisit]
    exact (hsub x.name further hfound).2
  obtain ⟨added, hdirectories, hadded⟩ :=
    visitSeen_directories (nodup_of_inByteOrder (hordered .directory)) hlists fun x _ => by
      rw [rulesFor_append]
      exact hscopes.subdirectory x.name
  have harrange : visitSeen (byName .file (seenIn fs place scopes names entries) ++
      byName .directory (seenIn fs place scopes names entries)) scopes = _ := visitSeen_append _
  rw [visitSeen_files fun x hx => visit_file hfs h hlisted hscopes hx scopes,
    hdirectories] at harrange
  refine ⟨_, added, harrange, ?_, hadded⟩
  refine .directory (hordered .file) (fun _ => mem_names_byName_iff hfs h hlisted hscopes)
    (hordered .directory) (fun _ => mem_names_byName_iff hfs h hlisted hscopes) fun s hs => ?_
  obtain ⟨node, hfound, ⟨further, rfl⟩, _⟩ :=
    (survives_append_iff h hlisted).1 ((mem_names_byName_iff hfs h hlisted hscopes).1 hs)
  exact (hsub s further hfound).1

end Directory

/-- In a directory that does not tell its entries nothing survives. -/
theorem listing_of_unlisted {names : List Bytes}
    (h : fs.isListed (ofNames (place ++ names)) = false) :
    Listing fs artifacts place names [] := by
  have hnone (s : Bytes) (kind : Kind) : ¬Survives fs artifacts place (names ++ [s]) kind := by
    rintro ⟨hlisted, -⟩
    rw [List.dropLast_concat, h] at hlisted
    cases hlisted
  exact @Listing.directory fs artifacts place names [] [] (fun _ => []) List.Pairwise.nil
    (fun s => iff_of_false List.not_mem_nil (hnone s .file)) List.Pairwise.nil
    (fun s => iff_of_false List.not_mem_nil (hnone s .directory))
    fun _ hs => absurd hs List.not_mem_nil

/-- What is seen below a directory is the listing of it, if the rules before
    agree with those for what is below it; rules are added that come from there
    alone. -/
theorem listing_below (hfs : fs.WellFormed) {names : List Bytes} {entries : Entries}
    (h : fs.nodeAt? (place ++ names) = some (.directory entries)) {scopes : List Scope}
    (hscopes : Agree place names scopes (rulesFor fs artifacts place names)) :
    ∃ l added, below fs scopes (ofNames (place ++ names)) names.length (.directory entries) =
        (l, scopes ++ added) ∧
      Listing fs artifacts place names l ∧ ComeFrom place names added := by
  have hagree := hscopes.append (scopeOf? fs (ofNames (place ++ names))).toList
  have hown := @comeFrom_scopeOf? fs place names (FileSystem.isName_of_nodeAt? hfs h)
  by_cases hlisted : fs.isListed (ofNames (place ++ names)) = true
  swap
  · refine ⟨[], _, ?_, listing_of_unlisted (Bool.eq_false_iff.2 hlisted), hown⟩
    rw [below, if_neg hlisted]
  -- By induction on the size of the directory, each subdirectory has its listing.
  have hsub (s : Bytes) : ∃ sub, ∀ further, entries.find? s = some (.directory further) →
      Listing fs artifacts place (names ++ [s]) sub ∧ Lists fs artifacts place (names ++ [s]) sub
        (visitNode fs (ofNames (place ++ (names ++ [s]))) names.length .directory
          (.directory further)) := by
    by_cases hfound : ∃ further, entries.find? s = some (.directory further)
    · obtain ⟨further, hfound⟩ := hfound
      have hnode : fs.nodeAt? (place ++ (names ++ [s])) = some (.directory further) := by
        rw [← List.append_assoc, FileSystem.nodeAt?_append_singleton]
        exact ⟨entries, h, hfound⟩
      have hlt := Entries.sizeOf_lt_of_find? hfound
      obtain ⟨sub, hlisting, hlists⟩ := exists_lists (List.concat_ne_nil _ _)
        fun scopes hscopes => listing_below hfs hnode hscopes
      have hdepth : (names ++ [s]).length - 1 = names.length := by simp
      rw [hdepth] at hlists
      refine ⟨sub, fun other hother => ?_⟩
      cases hfound.symm.trans hother
      exact ⟨hlisting, hlists⟩
    · exact ⟨[], fun further hfurther => absurd ⟨further, hfurther⟩ hfound⟩
  choose sub hsub using hsub
  obtain ⟨l, added, harrange, hlisting, hadded⟩ := listing_arrange hfs h hlisted hagree hsub
  refine ⟨l, _, ?_, hlisting, hown.append hadded⟩
  rw [below, if_pos hlisted, ← List.append_assoc]
  exact harrange
  termination_by sizeOf entries
  decreasing_by
    rw [Node.directory.sizeOf_spec] at hlt
    omega

/-- What is seen below a root is the listing of it. -/
theorem listing_survey (hfs : fs.WellFormed) {entries : Entries}
    (h : fs.nodeAt? place = some (.directory entries)) :
    Listing fs artifacts place [] (survey fs artifacts place) := by
  have hnode : fs.nodeAt? (place ++ []) = some (.directory entries) := by rwa [List.append_nil]
  obtain ⟨l, added, hbelow, hlisting, _⟩ :=
    listing_below hfs hnode (Agree.refl (rulesFor fs artifacts place []))
  rw [List.append_nil] at hbelow
  have hsurvey : survey fs artifacts place = l := by
    rw [survey, h]
    exact congrArg Prod.fst hbelow
  rwa [hsurvey]

/-! ### Entries that come in order -/

theorem byName_of_pairwise {kind : Kind} {seen : List Seen}
    (h : (seen.map (·.name)).Pairwise (· ≤ ·)) :
    byName kind seen = seen.filter (·.kind = kind) := by
  refine List.mergeSort_of_pairwise ?_
  exact ((List.pairwise_map.1 h).filter _).imp decide_eq_true

/-- What is seen of a root whose entries come in the order of their names. -/
theorem survey_of_pairwise {entries : Entries} {scopes : List Scope} {seen : List Seen}
    (hroot : fs.nodeAt? place = some (.directory entries))
    (hlisted : fs.isListed (ofNames place) = true)
    (hscopes : [builtin fs.resolveParts (ofNames place) artifacts] ++
      (scopeOf? fs (ofNames place)).toList = scopes)
    (hseen : entriesSeen fs scopes (ofNames place) 0 entries = seen)
    (h : (seen.map (·.name)).Pairwise (· ≤ ·)) :
    survey fs artifacts place =
      (visitSeen (seen.filter (·.kind = .file) ++ seen.filter (·.kind = .directory)) scopes).1 := by
  rw [survey, hroot]
  dsimp only
  rw [below, if_pos hlisted, hscopes, hseen, arrange, byName_of_pairwise h, byName_of_pairwise h]

end RepoAtlas.Walk
