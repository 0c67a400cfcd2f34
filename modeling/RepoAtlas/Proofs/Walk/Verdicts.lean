import RepoAtlas.Proofs.Ignore.Builtin
import RepoAtlas.Proofs.Walk.Listing

/-!
# Who decides about an entry

The rules for an entry are asked from the deepest rule file up, and the rules
that always hold come last (`isIgnored_rulesFor_iff`): they decide where no rule
file does. A directory of the name `.git` thus survives if a rule file keeps it,
and only then (`survives_git_iff`).

What survives in a directory that is listed is reached (`reached_iff`), and all
directories on the way to something reached are reached too
(`Reached.directory`).
-/

namespace RepoAtlas.Walk

open Ignore RepoAtlas.Path
open Utf8 (encode)

variable (fs : FileSystem) (artifacts : List Bytes) (place : Place)

/-- What the rule files decide about an entry: the deepest of those that decide
    has the say. -/
def fileVerdict? (names : List Bytes) (kind : Kind) : Option Verdict :=
  (ruleFilesFor fs place names).reverse.findSome?
    (·.verdict? (ofNames (place ++ names)) (kind = .directory))

/-- Whether the rules that always hold speak of an entry. -/
def IsCovered (names : List Bytes) (kind : Kind) : Prop :=
  (builtin fs.resolveParts (ofNames place) artifacts).verdict? (ofNames (place ++ names))
    (kind = .directory) = some .ignored

/-- Whether the directory that names lead to is listed: it is the root, or it is
    reached itself, and it tells its entries. -/
def IsListed (names : List Bytes) : Prop :=
  (names = [] ∨ Reached fs artifacts place [] names .directory) ∧
    fs.isListed (ofNames (place ++ names)) = true

variable {fs artifacts place} {names : List Bytes} {kind : Kind}

/-! ### The order of the rules -/

theorem pairwise_inits (names : List Bytes) :
    names.inits.Pairwise fun a b => a.length < b.length := by
  induction names with
  | nil => exact List.pairwise_singleton _ _
  | cons s names ih =>
    rw [List.inits_cons, List.pairwise_cons, List.pairwise_map]
    refine ⟨fun front hfront => ?_, ih.imp fun h => Nat.succ_lt_succ h⟩
    obtain ⟨rest, _, rfl⟩ := List.mem_map.1 hfront
    exact Nat.succ_pos _

/-- The directories above an entry are those that proper parts of its names lead
    to. -/
theorem prefix_of_mem_dropLast_inits {front : List Bytes} (h : front ∈ names.inits.dropLast) :
    front <+: names ∧ front ≠ names := by
  have hpairwise := pairwise_inits names
  rw [inits_eq, List.pairwise_append] at hpairwise
  have hlt := hpairwise.2.2 front h names (List.mem_singleton_self _)
  refine ⟨(List.mem_inits _ _).1 (List.dropLast_subset _ h), ?_⟩
  rintro rfl
  exact Nat.lt_irrefl _ hlt

theorem depth_of_root {scope : Scope} {front : List Bytes} (hroot : scope.root = ofNames front)
    (hfront : ∀ s ∈ front, IsName s) : scope.depth = front.length + 1 := by
  rw [Scope.depth, hroot, parts_ofNames hfront, List.length_cons, List.length_map]

section Order

variable (hnames : ∀ s ∈ place ++ names, IsName s)

include hnames

/-- A rule file stands in a directory above the entry. -/
theorem exists_root_of_mem {scope : Scope} (h : scope ∈ ruleFilesFor fs place names) :
    ∃ front ∈ names.inits.dropLast, scope.root = ofNames (place ++ front) ∧
      ∀ s ∈ place ++ front, IsName s := by
  obtain ⟨front, hfront, hscope⟩ := List.mem_filterMap.1 h
  refine ⟨front, hfront, root_of_scopeOf? hscope, fun s hs => ?_⟩
  have hsub := (prefix_of_mem_dropLast_inits hfront).1.subset
  rcases List.mem_append.1 hs with hs | hs
  · exact hnames s (List.mem_append_left _ hs)
  · exact hnames s (List.mem_append_right _ (hsub hs))

theorem contains_of_mem_rulesFor (hne : names ≠ []) {scope : Scope}
    (h : scope ∈ rulesFor fs artifacts place names) :
    scope.contains (ofNames (place ++ names)) = true := by
  rcases List.mem_cons.1 h with rfl | h
  · refine (contains_ofNames rfl (fun s hs => hnames s (List.mem_append_left _ hs)) hnames).2
      ⟨List.prefix_append _ _, fun heq => hne ?_⟩
    exact List.append_right_eq_self.1 heq.symm
  · obtain ⟨front, hfront, hroot, hisName⟩ := exists_root_of_mem hnames h
    obtain ⟨hbefore, hproper⟩ := prefix_of_mem_dropLast_inits hfront
    refine (contains_ofNames hroot hisName hnames).2
      ⟨(List.prefix_append_right_inj _).2 hbefore, fun heq => hproper ?_⟩
    exact List.append_cancel_left heq

theorem pairwise_depth_rulesFor :
    (rulesFor fs artifacts place names).Pairwise fun a b => a.depth ≤ b.depth := by
  have hplace (s : Bytes) (hs : s ∈ place) : IsName s := hnames s (List.mem_append_left _ hs)
  rw [rulesFor, List.pairwise_cons]
  constructor
  · intro scope hscope
    obtain ⟨front, _, hroot, hisName⟩ := exists_root_of_mem hnames hscope
    rw [depth_of_root rfl hplace, depth_of_root hroot hisName, List.length_append]
    omega
  · -- The directories above an entry lie one below the other.
    rw [ruleFilesFor, List.pairwise_filterMap]
    refine ((pairwise_inits names).sublist (List.dropLast_sublist _)).imp_of_mem ?_
    intro a b ha hb hlt scope hscope other hother
    have hisName {front : List Bytes} (hfront : front ∈ names.inits.dropLast) :
        ∀ s ∈ place ++ front, IsName s := fun s hs =>
      (List.mem_append.1 hs).elim (hplace s) fun hs =>
        hnames s (List.mem_append_right _ ((prefix_of_mem_dropLast_inits hfront).1.subset hs))
    rw [depth_of_root (root_of_scopeOf? hscope) (hisName ha),
      depth_of_root (root_of_scopeOf? hother) (hisName hb), List.length_append, List.length_append]
    omega

/-- All rules for an entry are asked, in their order. -/
theorem scopesFor_rulesFor (hne : names ≠ []) :
    scopesFor (rulesFor fs artifacts place names) (ofNames (place ++ names)) =
      rulesFor fs artifacts place names := by
  rw [scopesFor, List.filter_eq_self.2 fun _ h => contains_of_mem_rulesFor hnames hne h]
  exact List.mergeSort_of_pairwise
    ((pairwise_depth_rulesFor hnames).imp fun h => decide_eq_true h)

/-- An entry is ignored if the deepest rule file that decides says so, or if none
    decides and the rules that always hold speak of it. -/
theorem isIgnored_rulesFor_iff (hne : names ≠ []) :
    isIgnored (rulesFor fs artifacts place names) (ofNames (place ++ names))
        (kind = .directory) = true ↔
      fileVerdict? fs place names kind = some .ignored ∨
        fileVerdict? fs place names kind = none ∧ IsCovered fs artifacts place names kind := by
  rw [isIgnored, scopesFor_rulesFor hnames hne, rulesFor, List.reverse_cons,
    List.findSome?_append, ← fileVerdict?, beq_iff_eq]
  cases fileVerdict? fs place names kind with
  | none => simp [IsCovered]
  | some verdict => simp

end Order

/-- An entry survives if it is seen, and is not ignored by who decides about it. -/
theorem survives_iff (hfs : fs.WellFormed) (hne : names ≠ []) :
    Survives fs artifacts place names kind ↔
      fs.isListed (ofNames (place ++ names.dropLast)) = true ∧
        ∃ node, fs.nodeAt? (place ++ names) = some node ∧
          IsSeenAs fs (ofNames (place ++ names)) node kind ∧
          fileVerdict? fs place names kind ≠ some .ignored ∧
          (fileVerdict? fs place names kind = none →
            ¬IsCovered fs artifacts place names kind) := by
  refine and_congr_right fun _ => exists_congr fun node => and_congr_right fun hnode =>
    and_congr_right fun _ => ?_
  have hnames := FileSystem.isName_of_nodeAt? hfs hnode
  rw [← Bool.not_eq_true, isIgnored_rulesFor_iff hnames hne, not_or, not_and]

/-- The rules that always hold speak of every directory of the name `.git`. -/
theorem isCovered_git (hnames : ∀ s ∈ place ++ (names ++ [encode ".git"]), IsName s) :
    IsCovered fs artifacts place (names ++ [encode ".git"]) .directory :=
  verdict?_builtin_git fun s hs => hnames s (List.mem_append_right _ hs)

/-- In a directory that tells its entries, one of the name `.git` survives if a rule
    file keeps it, and only then. -/
theorem survives_git_iff (hfs : fs.WellFormed) :
    Survives fs artifacts place (names ++ [encode ".git"]) .directory ↔
      fs.isListed (ofNames (place ++ names)) = true ∧
        (∃ entries, fs.nodeAt? (place ++ (names ++ [encode ".git"])) =
          some (.directory entries)) ∧
        fileVerdict? fs place (names ++ [encode ".git"]) .directory = some .kept := by
  rw [survives_iff hfs (List.concat_ne_nil _ _), List.dropLast_concat]
  refine and_congr_right fun _ => ?_
  constructor
  · rintro ⟨_, hnode, ⟨entries, rfl⟩, hnot, hkept⟩
    have hcovered : IsCovered fs artifacts place (names ++ [encode ".git"]) .directory :=
      isCovered_git (FileSystem.isName_of_nodeAt? hfs hnode)
    refine ⟨⟨entries, hnode⟩, ?_⟩
    cases hverdict : fileVerdict? fs place (names ++ [encode ".git"]) .directory with
    | none => exact absurd hcovered (hkept hverdict)
    | some verdict =>
      cases verdict with
      | ignored => exact absurd hverdict hnot
      | kept => rfl
  · rintro ⟨⟨entries, hnode⟩, hkept⟩
    rw [hkept]
    exact ⟨_, hnode, ⟨entries, rfl⟩, by decide, fun h => by cases h⟩

/-- Rule files in which every rule ignores keep nothing. -/
theorem fileVerdict?_ne_kept
    (h : ∀ scope ∈ ruleFilesFor fs place names, ∀ r ∈ scope.rules, r.verdict = .ignored) :
    fileVerdict? fs place names kind ≠ some .kept := by
  intro hkept
  obtain ⟨scope, hscope, hverdict⟩ := List.exists_of_findSome?_eq_some hkept
  obtain ⟨r, hr, hkept⟩ := Option.map_eq_some_iff.1 hverdict
  have hmem := List.mem_reverse.1 (List.mem_of_find?_eq_some hr)
  cases (h scope (List.mem_reverse.1 hscope) r hmem).symm.trans hkept

/-! ### The way to an entry -/

variable {further : List Bytes} {s : Bytes}

theorem reached_append_singleton :
    Reached fs artifacts place names (further ++ [s]) kind ↔
      (further = [] ∨ Reached fs artifacts place names further .directory) ∧
        Survives fs artifacts place (names ++ (further ++ [s])) kind := by
  induction further generalizing names with
  | nil => simp [Reached]
  | cons t further ih =>
    rw [List.cons_append, reached_cons_iff, reached_cons_iff, ih, List.append_cons names t (_ ++ _)]
    simp only [List.append_eq_nil_iff, List.cons_ne_nil, and_false, false_and, false_or]
    constructor
    · rintro ⟨ht, rfl | hfurther, hs⟩
      · exact ⟨.inl ⟨rfl, ht⟩, hs⟩
      · exact ⟨.inr ⟨ht, hfurther⟩, hs⟩
    · rintro ⟨⟨rfl, ht⟩ | ⟨ht, hfurther⟩, hs⟩
      · exact ⟨ht, .inl rfl, hs⟩
      · exact ⟨ht, .inr hfurther, hs⟩

/-- What survives in a directory that is listed is reached, and nothing else. -/
theorem reached_iff :
    Reached fs artifacts place [] (names ++ [s]) kind ↔
      IsListed fs artifacts place names ∧ Survives fs artifacts place (names ++ [s]) kind := by
  rw [reached_append_singleton, IsListed, and_assoc]
  refine and_congr_right fun _ => (and_iff_right_of_imp fun hs => ?_).symm
  have hlisted := hs.1
  rwa [List.nil_append, List.dropLast_concat] at hlisted

/-- A directory on the way to something reached is reached. -/
theorem Reached.directory (h : Reached fs artifacts place [] (names ++ s :: further) kind)
    (hkind : further = [] → kind = .directory) :
    Reached fs artifacts place [] (names ++ [s]) .directory := by
  induction further using List.reverseRecOn generalizing kind with
  | nil => exact hkind rfl ▸ h
  | append_singleton further t ih =>
    rw [← List.cons_append, ← List.append_assoc, reached_iff] at h
    refine ih (h.1.1.resolve_left ?_) fun _ => rfl
    exact List.append_ne_nil_of_right_ne_nil _ (List.cons_ne_nil _ _)

end RepoAtlas.Walk
