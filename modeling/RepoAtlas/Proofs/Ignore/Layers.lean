import RepoAtlas.Proofs.Precedence
import RepoAtlas.Proofs.Walk.Listing

/-!
# Layers of rule files

Rules that hold below a root, and the rule files of directories at or below it
that are added to them in some order (`addFiles`). Of the directories above a
path, the deepest one whose rule file decides about the path has the last word,
and the rules of the root have it where no rule file decides (`HasLastWord`).

The scopes of a path are asked in the order of their depths, and no two of them
are equally deep (`pairwise_depth_scopesFor`), but for the rules of the root, which
come before all rule files (`scopesFor_cons`). So it makes no difference in which
order the rule files came, nor what rule files stand in other directories
(`isIgnored_addFiles`).
-/

namespace RepoAtlas.Ignore

open RepoAtlas.Path

/-- Whether a directory lies above a path. -/
def IsAbove (directory path : Bytes) : Prop :=
  parts directory <+: parts path ∧ parts directory ≠ parts path

instance (directory path : Bytes) : Decidable (IsAbove directory path) :=
  inferInstanceAs (Decidable (_ ∧ _))

/-- The rules after the rule files of directories have been added one by one. -/
def addFiles (fs : FileSystem) (scopes : List Scope) (directories : List Bytes) : List Scope :=
  directories.foldl (fun scopes directory => scopes ++ (Walk.scopeOf? fs directory).toList) scopes

/-- What the rule file of a directory decides about a path. -/
def ownVerdict? (fs : FileSystem) (path : Bytes) (isDirectory : Bool) (directory : Bytes) :
    Option Verdict :=
  (Walk.scopeOf? fs directory).bind (·.verdict? path isDirectory)

/-- Who decides about a path: of the directories above it, the deepest one with a
    rule file that decides; and where there is none, the rules of the root. -/
inductive HasLastWord (fs : FileSystem) (base : Scope) (directories : List Bytes) (path : Bytes)
    (isDirectory : Bool) : Verdict → Prop
  | file {directory : Bytes} {verdict : Verdict} :
    directory ∈ directories → IsAbove directory path →
    ownVerdict? fs path isDirectory directory = some verdict →
    (∀ other ∈ directories, IsAbove other path → ownVerdict? fs path isDirectory other ≠ none →
      parts other <+: parts directory) →
    HasLastWord fs base directories path isDirectory verdict
  | root {verdict : Verdict} :
    (∀ directory ∈ directories, IsAbove directory path →
      ownVerdict? fs path isDirectory directory = none) →
    IsAbove base.root path → base.verdict? path isDirectory = some verdict →
    HasLastWord fs base directories path isDirectory verdict

variable {fs : FileSystem} {base : Scope} {files : List Scope} {directories others : List Bytes}
  {path : Bytes} {isDirectory : Bool} {verdict : Verdict}

theorem contains_iff {scope : Scope} : scope.contains path = true ↔ IsAbove scope.root path := by
  rw [Scope.contains, Bool.and_eq_true, List.isPrefixOf_iff_prefix, bne_iff_ne, IsAbove, ne_comm]

/-! ### The order of scopes -/

theorem depth_trans (a b c : Scope) (hab : decide (a.depth ≤ b.depth) = true)
    (hbc : decide (b.depth ≤ c.depth) = true) : decide (a.depth ≤ c.depth) = true := by
  rw [decide_eq_true_iff] at *
  exact hab.trans hbc

theorem depth_total (a b : Scope) :
    (decide (a.depth ≤ b.depth) || decide (b.depth ≤ a.depth)) = true := by
  rw [Bool.or_eq_true, decide_eq_true_iff, decide_eq_true_iff]
  exact Nat.le_total _ _

theorem mem_scopesFor_iff {scope : Scope} :
    scope ∈ scopesFor files path ↔ scope ∈ files ∧ IsAbove scope.root path := by
  rw [scopesFor, List.mem_mergeSort, List.mem_filter, contains_iff]

/-- Rules that are no deeper than all others come first, if they speak of the path
    at all. -/
theorem scopesFor_cons (h : ∀ scope ∈ files, base.depth ≤ scope.depth) :
    scopesFor (base :: files) path =
      if base.contains path then base :: scopesFor files path else scopesFor files path := by
  rw [scopesFor, List.filter_cons]
  split
  · obtain ⟨before, after, hsorted, hfiles, hbefore⟩ := List.mergeSort_cons depth_trans depth_total
      base (files.filter (·.contains path))
    -- Nothing is sorted in front of the first, since nothing is less deep.
    have hnil : before = [] := by
      refine List.eq_nil_iff_forall_not_mem.2 fun scope hscope => ?_
      have hmem : scope ∈ files.filter (·.contains path) := by
        rw [← List.mem_mergeSort, hfiles]
        exact List.mem_append_left _ hscope
      simpa [h scope (List.mem_filter.1 hmem).1] using hbefore scope hscope
    rw [hsorted, hnil, List.nil_append, scopesFor, hfiles, hnil, List.nil_append]
  · rfl

/-- Of different directories above a path, no two are equally deep. -/
theorem pairwise_depth_scopesFor (h : (files.map fun scope => parts scope.root).Nodup) :
    (scopesFor files path).Pairwise fun a b => a.depth < b.depth := by
  have hdistinct : (scopesFor files path).Pairwise fun a b => parts a.root ≠ parts b.root := by
    rw [List.nodup_iff_pairwise_ne, List.pairwise_map] at h
    exact (h.filter _).perm (List.mergeSort_perm ..).symm fun hne => hne.symm
  have hsorted : (scopesFor files path).Pairwise fun a b => a.depth ≤ b.depth :=
    (List.pairwise_mergeSort depth_trans depth_total _).imp of_decide_eq_true
  -- Both lie above the path, so equally deep ones would be the same.
  refine (hsorted.and hdistinct).imp_of_mem fun {a b} ha hb ⟨hle, hne⟩ => ?_
  have haPath := (mem_scopesFor_iff.1 ha).2.1
  have hbPath := (mem_scopesFor_iff.1 hb).2.1
  refine lt_of_le_of_ne hle fun heq => hne ?_
  exact (List.prefix_of_prefix_length_le haPath hbPath hle).eq_of_length heq

/-- The last of the scopes that decides is the deepest one. -/
theorem findSome?_scopesFor_iff (h : (files.map fun scope => parts scope.root).Nodup) :
    (scopesFor files path).reverse.findSome? (·.verdict? path isDirectory) = some verdict ↔
      ∃ scope ∈ files, IsAbove scope.root path ∧ scope.verdict? path isDirectory = some verdict ∧
        ∀ other ∈ files, IsAbove other.root path → other.verdict? path isDirectory ≠ none →
          other.depth ≤ scope.depth := by
  rw [findSome?_ranked_iff (List.pairwise_reverse.2 (pairwise_depth_scopesFor h))]
  simp only [List.mem_reverse, mem_scopesFor_iff, and_assoc, and_imp]

/-! ### Rule files of directories -/

theorem addFiles_eq (scopes : List Scope) (directories : List Bytes) :
    addFiles fs scopes directories = scopes ++ directories.filterMap (Walk.scopeOf? fs) := by
  induction directories generalizing scopes with
  | nil => exact (List.append_nil _).symm
  | cons directory directories ih =>
    rw [addFiles, List.foldl_cons, ← addFiles, ih, List.append_assoc, List.filterMap_cons]
    cases Walk.scopeOf? fs directory <;> rfl

theorem mem_files_iff {scope : Scope} :
    scope ∈ directories.filterMap (Walk.scopeOf? fs) ↔
      scope.root ∈ directories ∧ Walk.scopeOf? fs scope.root = some scope := by
  rw [List.mem_filterMap]
  constructor
  · rintro ⟨directory, hdirectory, hscope⟩
    rw [Walk.root_of_scopeOf? hscope]
    exact ⟨hdirectory, hscope⟩
  · rintro ⟨hroot, hscope⟩
    exact ⟨scope.root, hroot, hscope⟩

theorem nodup_roots (h : (directories.map parts).Nodup) :
    ((directories.filterMap (Walk.scopeOf? fs)).map fun scope => parts scope.root).Nodup := by
  rw [List.nodup_iff_pairwise_ne, List.pairwise_map] at h
  rw [List.nodup_iff_pairwise_ne, List.pairwise_map, List.pairwise_filterMap]
  refine h.imp fun {a b} hne scope hscope other hother => ?_
  rw [Walk.root_of_scopeOf? hscope, Walk.root_of_scopeOf? hother]
  exact hne

theorem ownVerdict?_eq {directory : Bytes} {scope : Scope}
    (h : Walk.scopeOf? fs directory = some scope) :
    ownVerdict? fs path isDirectory directory = scope.verdict? path isDirectory := by
  rw [ownVerdict?, h, Option.bind_some]

theorem exists_scope {directory : Bytes} (h : ownVerdict? fs path isDirectory directory ≠ none) :
    ∃ scope, Walk.scopeOf? fs directory = some scope ∧ scope.root = directory := by
  cases hscope : Walk.scopeOf? fs directory with
  | none => exact absurd (by rw [ownVerdict?, hscope, Option.bind_none]) h
  | some scope => exact ⟨scope, rfl, Walk.root_of_scopeOf? hscope⟩

/-- Of two directories above a path, one that is no deeper lies above the other, or is
    the other. -/
theorem depth_le_iff {a b : Scope} (ha : IsAbove a.root path) (hb : IsAbove b.root path) :
    a.depth ≤ b.depth ↔ parts a.root <+: parts b.root :=
  ⟨List.prefix_of_prefix_length_le ha.1 hb.1, List.IsPrefix.length_le⟩

/-- The deepest of the scopes that decide is that of the deepest rule file that does. -/
theorem exists_deepest_iff :
    (∃ scope ∈ directories.filterMap (Walk.scopeOf? fs), IsAbove scope.root path ∧
        scope.verdict? path isDirectory = some verdict ∧
        ∀ other ∈ directories.filterMap (Walk.scopeOf? fs), IsAbove other.root path →
          other.verdict? path isDirectory ≠ none → other.depth ≤ scope.depth) ↔
      ∃ directory ∈ directories, IsAbove directory path ∧
        ownVerdict? fs path isDirectory directory = some verdict ∧
        ∀ other ∈ directories, IsAbove other path → ownVerdict? fs path isDirectory other ≠ none →
          parts other <+: parts directory := by
  constructor
  · rintro ⟨scope, hscope, habove, hverdict, hdeepest⟩
    obtain ⟨hroot, hscopeOf⟩ := mem_files_iff.1 hscope
    refine ⟨scope.root, hroot, habove, (ownVerdict?_eq hscopeOf).trans hverdict, ?_⟩
    intro directory hdirectory hother hne
    obtain ⟨other, hotherOf, rfl⟩ := exists_scope hne
    rw [ownVerdict?_eq hotherOf] at hne
    rw [← depth_le_iff hother habove]
    exact hdeepest other (mem_files_iff.2 ⟨hdirectory, hotherOf⟩) hother hne
  · rintro ⟨directory, hdirectory, habove, hverdict, hdeepest⟩
    obtain ⟨scope, hscopeOf, rfl⟩ := exists_scope (hverdict ▸ Option.some_ne_none _)
    rw [ownVerdict?_eq hscopeOf] at hverdict
    refine ⟨scope, mem_files_iff.2 ⟨hdirectory, hscopeOf⟩, habove, hverdict, ?_⟩
    intro other hother habove' hne
    obtain ⟨hroot, hotherOf⟩ := mem_files_iff.1 hother
    rw [depth_le_iff habove' habove]
    exact hdeepest _ hroot habove' ((ownVerdict?_eq hotherOf).trans_ne hne)

/-- No scope decides if no rule file does. -/
theorem findSome?_eq_none_iff_own :
    (scopesFor (directories.filterMap (Walk.scopeOf? fs)) path).reverse.findSome?
        (·.verdict? path isDirectory) = none ↔
      ∀ directory ∈ directories, IsAbove directory path →
        ownVerdict? fs path isDirectory directory = none := by
  rw [List.findSome?_eq_none_iff]
  constructor
  · intro h directory hdirectory habove
    by_contra hne
    obtain ⟨scope, hscopeOf, rfl⟩ := exists_scope hne
    refine hne ((ownVerdict?_eq hscopeOf).trans (h scope ?_))
    rw [List.mem_reverse, mem_scopesFor_iff, mem_files_iff]
    exact ⟨⟨hdirectory, hscopeOf⟩, habove⟩
  · intro h scope hscope
    rw [List.mem_reverse, mem_scopesFor_iff, mem_files_iff] at hscope
    rw [← ownVerdict?_eq hscope.1.2]
    exact h _ hscope.1.1 hscope.2

/-! ### The last word -/

/-- One verdict at most has the last word. -/
theorem HasLastWord.unique {other : Verdict} (hdistinct : (directories.map parts).Nodup)
    (h : HasLastWord fs base directories path isDirectory verdict)
    (hother : HasLastWord fs base directories path isDirectory other) : verdict = other := by
  rcases h with ⟨hd, habove, hverdict, hdeepest⟩ | ⟨hnone, _, hverdict⟩
  · rcases hother with ⟨hd', habove', hverdict', hdeepest'⟩ | ⟨hnone, _, _⟩
    · -- Each lies at or above the other.
      have hle := hdeepest' _ hd habove (hverdict ▸ Option.some_ne_none _)
      have hge := hdeepest _ hd' habove' (hverdict' ▸ Option.some_ne_none _)
      have hparts := hle.eq_of_length (le_antisymm hle.length_le hge.length_le)
      rw [List.inj_on_of_nodup_map hdistinct hd hd' hparts] at hverdict
      exact Option.some_inj.1 (hverdict.symm.trans hverdict')
    · exact absurd (hnone _ hd habove) (hverdict ▸ Option.some_ne_none _)
  · rcases hother with ⟨hd', habove', hverdict', _⟩ | ⟨_, _, hverdict'⟩
    · exact absurd (hnone _ hd' habove') (hverdict' ▸ Option.some_ne_none _)
    · exact Option.some_inj.1 (hverdict.symm.trans hverdict')

/-- The last word depends on the directories above the path alone. -/
theorem HasLastWord.of_above
    (hsame : ∀ directory, IsAbove directory path → (directory ∈ others ↔ directory ∈ directories))
    (h : HasLastWord fs base directories path isDirectory verdict) :
    HasLastWord fs base others path isDirectory verdict := by
  rcases h with ⟨hd, habove, hverdict, hdeepest⟩ | ⟨hnone, habove, hverdict⟩
  · exact .file ((hsame _ habove).2 hd) habove hverdict fun other hother habove' =>
      hdeepest other ((hsame _ habove').1 hother) habove'
  · exact .root (fun other hother habove' => hnone other ((hsame _ habove').1 hother) habove')
      habove hverdict

theorem hasLastWord_iff (hdistinct : (directories.map parts).Nodup) :
    HasLastWord fs base directories path isDirectory verdict ↔
      (scopesFor (directories.filterMap (Walk.scopeOf? fs)) path).reverse.findSome?
          (·.verdict? path isDirectory) = some verdict ∨
        (scopesFor (directories.filterMap (Walk.scopeOf? fs)) path).reverse.findSome?
            (·.verdict? path isDirectory) = none ∧
          IsAbove base.root path ∧ base.verdict? path isDirectory = some verdict := by
  rw [findSome?_scopesFor_iff (nodup_roots hdistinct), exists_deepest_iff,
    findSome?_eq_none_iff_own]
  constructor
  · rintro (⟨hd, habove, hverdict, hdeepest⟩ | ⟨hnone, habove, hverdict⟩)
    · exact .inl ⟨_, hd, habove, hverdict, hdeepest⟩
    · exact .inr ⟨hnone, habove, hverdict⟩
  · rintro (⟨_, hd, habove, hverdict, hdeepest⟩ | ⟨hnone, habove, hverdict⟩)
    · exact .file hd habove hverdict hdeepest
    · exact .root hnone habove hverdict

/-- Who is asked last and decides is who has the last word. -/
theorem isIgnored_addFiles_iff (base : Scope)
    (hbelow : ∀ directory ∈ directories, parts base.root <+: parts directory)
    (hdistinct : (directories.map parts).Nodup) :
    isIgnored (addFiles fs [base] directories) path isDirectory = true ↔
      HasLastWord fs base directories path isDirectory .ignored := by
  have hdepth : ∀ scope ∈ directories.filterMap (Walk.scopeOf? fs), base.depth ≤ scope.depth :=
    fun scope hscope => (hbelow _ (mem_files_iff.1 hscope).1).length_le
  rw [isIgnored, addFiles_eq, List.singleton_append, scopesFor_cons hdepth, beq_iff_eq,
    hasLastWord_iff hdistinct]
  split
  · rename_i habove
    rw [List.reverse_cons, List.findSome?_append, List.findSome?_singleton, Option.or_eq_some_iff]
    simp only [contains_iff.1 habove, true_and]
  · rename_i habove
    rw [contains_iff] at habove
    simp only [habove, false_and, and_false, or_false]

/-- Whatever the order in which rule files are added to the rules of a root, a path is
    ignored if the deepest directory above it with a rule file that decides says so,
    or the rules of the root where there is none. This is one verdict at most, and rule
    files in other directories make no difference. -/
theorem isIgnored_addFiles (fs : FileSystem) (root : Bytes) (patterns : List String)
    (hbelow : ∀ directory ∈ directories, parts root <+: parts directory)
    (hdistinct : (directories.map parts).Nodup) (path : Bytes) (isDirectory : Bool) :
    (isIgnored (addFiles fs [⟨root, rulesOf patterns⟩] directories) path isDirectory = true ↔
        HasLastWord fs ⟨root, rulesOf patterns⟩ directories path isDirectory .ignored) ∧
      (∀ verdict other,
        HasLastWord fs ⟨root, rulesOf patterns⟩ directories path isDirectory verdict →
          HasLastWord fs ⟨root, rulesOf patterns⟩ directories path isDirectory other →
            verdict = other) ∧
      ∀ others : List Bytes, (∀ directory ∈ others, parts root <+: parts directory) →
        (others.map parts).Nodup →
        (∀ directory, IsAbove directory path → (directory ∈ others ↔ directory ∈ directories)) →
          isIgnored (addFiles fs [⟨root, rulesOf patterns⟩] others) path isDirectory =
            isIgnored (addFiles fs [⟨root, rulesOf patterns⟩] directories) path isDirectory := by
  refine ⟨isIgnored_addFiles_iff ⟨root, rulesOf patterns⟩ hbelow hdistinct,
    fun verdict other h hother => h.unique hdistinct hother,
    fun others hbelow' hdistinct' hsame => ?_⟩
  rw [Bool.eq_iff_iff, isIgnored_addFiles_iff ⟨root, rulesOf patterns⟩ hbelow' hdistinct',
    isIgnored_addFiles_iff ⟨root, rulesOf patterns⟩ hbelow hdistinct]
  constructor
  · intro h
    exact h.of_above fun directory habove => (hsame directory habove).symm
  · intro h
    exact h.of_above hsame

/-! ### Rule files that take back what others ignore -/

/-- A file system in which logs are ignored but for one directory, and all files of a
    further one. -/
def logs : FileSystem where
  entries :=
    .cons "repo" (.directory
      (.cons ".gitignore" (.file (.bytes (Utf8.encode "*.log\n")))
      (.cons "keep" (.directory
        (.cons ".gitignore" (.file (.bytes (Utf8.encode "!*.log\n"))) .nil))
      (.cons "other" (.directory
        (.cons ".gitignore" (.file (.bytes (Utf8.encode "*\n"))) .nil)) .nil)))) .nil

/-- Its directories with a rule file. -/
def logDirectories : List Bytes := ["/repo/other", "/repo/keep", "/repo"]

/-- What the root's own rule file ignores against the rules of the root, the rule file
    of a deeper directory keeps, though it is added first. -/
theorem isIgnored_addFiles_logs :
    (∀ directory ∈ logDirectories, parts "/repo" <+: parts directory) ∧
      (logDirectories.map parts).Nodup ∧
      isIgnored (addFiles logs [⟨"/repo", rulesOf ["!a.log"]⟩] logDirectories) "/repo/a.log"
        false = true ∧
      isIgnored (addFiles logs [⟨"/repo", rulesOf ["!a.log"]⟩] logDirectories)
        "/repo/keep/a.log" false = false := by
  have hbelow : ∀ directory ∈ logDirectories, parts "/repo" <+: parts directory := by
    decide +kernel
  have hdistinct : (logDirectories.map parts).Nodup := by decide +kernel
  have hroot : HasLastWord logs ⟨"/repo", rulesOf ["!a.log"]⟩ logDirectories "/repo/a.log" false
      .ignored := by
    have habove : IsAbove "/repo" "/repo/a.log" := by decide +kernel
    have hverdict : ownVerdict? logs "/repo/a.log" false "/repo" = some .ignored := by
      decide +kernel
    have hdeepest : ∀ other ∈ logDirectories,
        IsAbove other "/repo/a.log" → parts other <+: parts "/repo" := by decide +kernel
    exact .file (by decide +kernel) habove hverdict fun other hother hother' _ =>
      hdeepest other hother hother'
  have hkeep : HasLastWord logs ⟨"/repo", rulesOf ["!a.log"]⟩ logDirectories "/repo/keep/a.log"
      false .kept := by
    have habove : IsAbove "/repo/keep" "/repo/keep/a.log" := by decide +kernel
    have hverdict : ownVerdict? logs "/repo/keep/a.log" false "/repo/keep" = some .kept := by
      decide +kernel
    have hdeepest : ∀ other ∈ logDirectories,
        IsAbove other "/repo/keep/a.log" → parts other <+: parts "/repo/keep" := by decide +kernel
    exact .file (by decide +kernel) habove hverdict fun other hother hother' _ =>
      hdeepest other hother hother'
  refine ⟨hbelow, hdistinct, ?_, ?_⟩
  · obtain ⟨hiff, -, -⟩ := isIgnored_addFiles logs "/repo" ["!a.log"] hbelow hdistinct
      "/repo/a.log" false
    exact hiff.2 hroot
  · obtain ⟨hiff, hunique, -⟩ := isIgnored_addFiles logs "/repo" ["!a.log"] hbelow hdistinct
      "/repo/keep/a.log" false
    rw [← Bool.not_eq_true, hiff]
    intro hignored
    cases hunique _ _ hkeep hignored

end RepoAtlas.Ignore
