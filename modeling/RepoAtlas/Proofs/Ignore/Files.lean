import RepoAtlas.Proofs.FileSystem.Leads
import RepoAtlas.Proofs.Ignore.Builtin
import RepoAtlas.Proofs.Ignore.Escaped
import RepoAtlas.Proofs.Walk.Listing

/-!
# Files that a run writes, and their rules

Below a root, a run writes the map, which is named after the root, and the artifacts
that lie there, each at the place that its directory resolves to (`IsRunFile`). For
each of these files there is a rule with the names that lead to it. The rules that
always hold speak of what the fixed ones speak of, and of what the rules of these
files speak of (`exists_mem_builtin`).

* `fileCovers_iff`: the rule of a file speaks of this file alone, if the names are
  read as they are written and are what is shown of them; otherwise it never speaks
  of it;
* `isIgnored_builtin_iff`: what the rules that always hold ignore, accordingly.
-/

namespace RepoAtlas.Ignore

open RepoAtlas.Path
open Utf8 (encode)

/-! ### One scope -/

/-- Rules that ignore alone ignore what one of them speaks of. -/
theorem isIgnored_singleton {scope : Scope} {path : Bytes} {isDirectory : Bool}
    (hcontains : scope.contains path = true) (hrules : ∀ r ∈ scope.rules, r.verdict = .ignored) :
    isIgnored [scope] path isDirectory = true ↔
      ∃ r ∈ scope.rules, r.covers (scope.relative path) isDirectory = true := by
  have hscopes : scopesFor [scope] path = [scope] := by
    rw [scopesFor, List.filter_cons_of_pos (p := (Scope.contains · path)) hcontains,
      List.filter_nil, List.mergeSort_singleton]
  have hverdict : isIgnored [scope] path isDirectory = true ↔
      scope.verdict? path isDirectory = some .ignored := by
    rw [isIgnored, hscopes, List.reverse_singleton, List.findSome?_singleton, beq_iff_eq]
  rw [hverdict, Scope.verdict?, verdict?]
  cases hfound : scope.rules.reverse.find? (·.covers (scope.relative path) isDirectory) with
  | none =>
    rw [List.find?_eq_none] at hfound
    refine iff_of_false (by simp) ?_
    rintro ⟨r, hr, hcovers⟩
    exact hfound r (List.mem_reverse.2 hr) hcovers
  | some r =>
    have hr := List.mem_reverse.1 (List.mem_of_find?_eq_some hfound)
    have hcovers := List.find?_some (p := (Rule.covers · (scope.relative path) isDirectory)) hfound
    exact iff_of_true (congrArg some (hrules r hr)) ⟨r, hr, hcovers⟩

/-! ### Files of a run -/

variable (fs : FileSystem) (place : Place) (artifacts : List Bytes)

/-- Whether names below a root lead to a file that a run writes: the map that is named
    after the root, or a file behind a directory that exists, its links resolved. -/
inductive IsRunFile : List Bytes → Prop
  | map {name : Bytes} : place.getLast? = some name →
    IsRunFile [encode (text name ++ "_repo_map.md")]
  | artifact {path name : Bytes} {parent : List Part} {file : List Bytes} :
    path ∈ artifacts → fs.resolveParts (parts path).dropLast = some parent →
    fileName? path = some name → file ≠ [] →
    parent ++ [.name name] = .root :: (place ++ file).map .name → IsRunFile file

variable {fs place artifacts}

theorem names?_map (names : List Bytes) : names? (names.map .name) = some names := by
  induction names with
  | nil => rfl
  | cons s names ih => rw [List.map_cons, names?, ih, Option.map_some]

/-- The names that lead to a file behind a directory that exists. -/
theorem namesBelow?_eq_some_iff {resolve : List Part → Option (List Part)} {path : Bytes}
    {parent : List Part} {file : List Bytes} (hplace : ∀ s ∈ place, IsName s)
    (hparent : resolve (parts path).dropLast = some parent) :
    namesBelow? resolve (ofNames place) path = some file ↔
      ∃ name, fileName? path = some name ∧ file ≠ [] ∧
        parent ++ [.name name] = .root :: (place ++ file).map .name := by
  rw [namesBelow?, parts_ofNames hplace]
  cases hname : fileName? path with
  | none => simp
  | some name =>
    simp only [Option.bind_eq_bind, Option.bind_some, hparent, Option.some_inj, exists_eq_left']
    constructor
    · intro h
      obtain ⟨below, hbelow, h⟩ := Option.bind_eq_some_iff.1 h
      obtain ⟨rest, hrest, rfl⟩ := Option.map_eq_some_iff.1 hbelow
      obtain ⟨names, hnames, h⟩ := Option.bind_eq_some_iff.1 h
      split at h
      · cases h
      · rename_i hne
        cases h
        refine ⟨fun hnil => hne (hnil ▸ rfl), ?_⟩
        rw [List.map_append, ← map_of_names? hnames, ← List.cons_append, ← List.append_assoc,
          List.append_eq_of_isPrefixOf?_eq_some hrest]
    · rintro ⟨hne, h⟩
      obtain ⟨front, last, rfl⟩ := (List.eq_nil_or_concat _).resolve_left hne
      rw [List.concat_eq_append] at h ⊢
      rw [← List.append_assoc, List.map_append, ← List.cons_append, List.map_singleton] at h
      obtain ⟨rfl, hlast⟩ := List.append_inj' h rfl
      have hrest : partsBelow? (.root :: place.map .name) (.root :: (place ++ front).map .name) =
          some (front.map .name) := by
        rw [partsBelow?, List.isPrefixOf?_eq_some_iff_append_eq, List.map_append, List.cons_append]
      have hwhole : front.map Part.name ++ [.name name] = (front ++ [last]).map .name := by
        rw [hlast, List.map_append, List.map_singleton]
      rw [hrest, Option.map_some, Option.bind_some, hwhole, names?_map, Option.bind_some]
      simp

theorem IsRunFile.isName (hplace : ∀ s ∈ place, IsName s) {file : List Bytes}
    (h : IsRunFile fs place artifacts file) : ∀ s ∈ file, IsName s := by
  cases h with
  | @map name hname =>
    intro s hs
    rw [List.mem_singleton.1 hs]
    exact isName_encode_append (hplace name (List.mem_of_getLast? hname)) (by decide)
  | @artifact path name parent file hpath hparent hname hne h =>
    have hbelow := (namesBelow?_eq_some_iff hplace hparent).2 ⟨_, hname, hne, h⟩
    exact (isName_of_namesBelow? FileSystem.isName_of_resolveParts hbelow).2

/-! ### Rules of files -/

/-- Whether the rule of a line speaks of a path. -/
def LineCovers (line : String) (path : Bytes) (isDirectory : Bool) : Prop :=
  ∃ r, Rule.ofLine? line.toList = some r ∧ r.covers path isDirectory = true

/-- Whether the rule of a file speaks of names below the same root. -/
def FileCovers (file names : List Bytes) (isDirectory : Bool) : Prop :=
  LineCovers (fileRule file) ([slash].intercalate names) isDirectory

/-- Whether the names that lead to a file are what is shown of them, and that text is
    read as it is written. -/
def IsVerbatimFile (file : List Bytes) : Prop :=
  IsText ([slash].intercalate file) ∧ IsVerbatim (text ([slash].intercalate file)).toList

instance (file : List Bytes) : Decidable (IsVerbatimFile file) :=
  inferInstanceAs (Decidable (_ ∧ _))

variable {file names : List Bytes} {isDirectory : Bool}

theorem exists_mem_rulesOf {lines : List String} {path : Bytes} :
    (∃ r ∈ rulesOf lines, r.covers path isDirectory = true) ↔
      ∃ line ∈ lines, LineCovers line path isDirectory := by
  simp only [rulesOf, List.mem_filterMap, LineCovers]
  tauto

theorem verdict_of_mem_fixedRules : ∀ r ∈ rulesOf fixedRules, r.verdict = .ignored := by
  intro r hr
  obtain ⟨text, htext, hline⟩ := List.mem_filterMap.1 hr
  have hmark : ∀ text ∈ fixedRules, text.toList.head? ≠ some '!' := by decide
  exact verdict_of_ofLine? (hmark text htext) hline

theorem eq_of_intercalate (hfile : ∀ s ∈ file, IsName s) (hnames : ∀ s ∈ names, IsName s)
    (h : [slash].intercalate names = [slash].intercalate file) : names = file := by
  refine ofNames_injective hnames hfile ?_
  rw [ofNames, ofNames, h]

/-- The rule of a file does not speak of the file if the text of its names is none, or
    is not read as it is written. -/
theorem not_fileCovers_self (h : ¬IsVerbatimFile file) : ¬FileCovers file file isDirectory := by
  rintro ⟨r, hr, hcovers⟩
  rw [toList_fileRule] at hr
  -- What a rule speaks of is a text.
  obtain ⟨ds, hds, -⟩ := noBrace_of_covers hr hcovers
  have htext : IsText ([slash].intercalate file) := hds ▸ isText_encode _
  have hnot : r.covers _ isDirectory = false :=
    not_covers_of_not_isVerbatim (fun hverbatim => h ⟨htext, hverbatim⟩) hr
  rw [String.ofList_toList, htext, hcovers] at hnot
  cases hnot

/-- The rule of a file speaks of this file alone if its names are texts that are read
    as they are written, and of other files alone if not. -/
theorem fileCovers_iff (hfile : ∀ s ∈ file, IsName s) (hnames : ∀ s ∈ names, IsName s) :
    FileCovers file names isDirectory ↔
      IsVerbatimFile file ∧ names = file ∨
        ¬IsVerbatimFile file ∧ names ≠ file ∧ FileCovers file names isDirectory := by
  by_cases hverbatim : IsVerbatimFile file
  · have hcovers : FileCovers file names isDirectory ↔ names = file := by
      rw [FileCovers, LineCovers, toList_fileRule, covers_iff_of_isVerbatim hverbatim.2
        (getLast?_text_intercalate hfile hverbatim.1), String.ofList_toList, hverbatim.1]
      exact ⟨eq_of_intercalate hfile hnames, fun h => h ▸ rfl⟩
    simp [hverbatim, hcovers]
  · have hother (h : FileCovers file names isDirectory) : names ≠ file := by
      rintro rfl
      exact not_fileCovers_self hverbatim h
    simpa [hverbatim] using hother

/-- The line of the map is that of a file. -/
theorem mapLine_eq (name : String) :
    "/" ++ escape name ++ "_repo_map.md" = fileRule [encode (name ++ "_repo_map.md")] := by
  have hending : escapeChars "_repo_map.md".toList = "_repo_map.md".toList := by decide
  rw [← String.toList_inj, toList_fileRule, List.intercalate_singleton, text_encode,
    String.toList_append, String.toList_append, String.toList_append, escapeChars_append, hending,
    toList_escape, List.append_assoc]
  rfl

/-- The rule of the map speaks of the map; below the root directory, which has no
    name, it speaks of nothing. -/
theorem lineCovers_map (hplace : ∀ s ∈ place, IsName s) (hne : names ≠ [])
    (hnames : ∀ s ∈ names, IsName s) :
    LineCovers ("/" ++ escape (repositoryName (ofNames place)) ++ "_repo_map.md")
        ([slash].intercalate names) isDirectory ↔
      ∃ name, place.getLast? = some name ∧
        FileCovers [encode (text name ++ "_repo_map.md")] names isDirectory := by
  rw [mapLine_eq]
  rcases List.eq_nil_or_concat place with rfl | ⟨front, name, rfl⟩
  · have hname : repositoryName (ofNames []) = "/" := by decide +kernel
    refine iff_of_false ?_ (by simp)
    rw [hname, LineCovers, toList_fileRule, List.intercalate_singleton, text_encode,
      covers_iff_of_isVerbatim (by decide) (by decide)]
    -- No path below the root directory begins with a slash.
    obtain ⟨b, rest, hb, hwhole⟩ := exists_intercalate hne hnames
    rw [hwhole]
    exact fun heq => hb (List.cons.inj heq).1
  · rw [List.concat_eq_append] at hplace ⊢
    have hname : repositoryName (ofNames (front ++ [name])) = text name := by
      rw [repositoryName, fileName?_ofNames hplace, Option.getD_some]
    simp [hname, FileCovers]

/-- The rules that always hold speak of what the fixed ones speak of, and of what the
    rules of the files of a run speak of. -/
theorem exists_mem_builtin (hplace : ∀ s ∈ place, IsName s) (hne : names ≠ [])
    (hnames : ∀ s ∈ names, IsName s)
    (hparents : ∀ path ∈ artifacts, (fs.resolveParts (parts path).dropLast).isSome = true) :
    (∃ r ∈ (builtin fs.resolveParts (ofNames place) artifacts).rules,
        r.covers ([slash].intercalate names) isDirectory = true) ↔
      (∃ r ∈ rulesOf fixedRules, r.covers ([slash].intercalate names) isDirectory = true) ∨
        ∃ file, IsRunFile fs place artifacts file ∧ FileCovers file names isDirectory := by
  have hrules : (∃ r ∈ (builtin fs.resolveParts (ofNames place) artifacts).rules,
      r.covers ([slash].intercalate names) isDirectory = true) ↔
        ∃ line ∈ ruleTexts fs.resolveParts (ofNames place) artifacts,
          LineCovers line ([slash].intercalate names) isDirectory := exists_mem_rulesOf
  rw [hrules, exists_mem_rulesOf, ruleTexts]
  constructor
  · rintro ⟨line, hline, hcovers⟩
    rw [List.mem_append, List.mem_cons, List.mem_filterMap] at hline
    rcases hline with hfixed | rfl | ⟨path, hpath, hline⟩
    · exact .inl ⟨line, hfixed, hcovers⟩
    · obtain ⟨name, hname, hmap⟩ := (lineCovers_map hplace hne hnames).1 hcovers
      exact .inr ⟨_, .map hname, hmap⟩
    · obtain ⟨file, hbelow, rfl⟩ := Option.map_eq_some_iff.1 hline
      obtain ⟨parent, hparent⟩ := Option.isSome_iff_exists.1 (hparents path hpath)
      obtain ⟨name, hname, hfile, hparts⟩ := (namesBelow?_eq_some_iff hplace hparent).1 hbelow
      exact .inr ⟨file, .artifact hpath hparent hname hfile hparts, hcovers⟩
  · rintro (⟨line, hline, hcovers⟩ | ⟨file, hfile, hcovers⟩)
    · exact ⟨line, List.mem_append_left _ hline, hcovers⟩
    · cases hfile with
      | @map name hname =>
        have hmap := (lineCovers_map hplace hne hnames).2 ⟨name, hname, hcovers⟩
        exact ⟨_, List.mem_append_right _ (List.mem_cons_self ..), hmap⟩
      | @artifact path name parent file hpath hparent hname hfile hparts =>
        have hbelow := (namesBelow?_eq_some_iff hplace hparent).2 ⟨name, hname, hfile, hparts⟩
        refine ⟨fileRule file, List.mem_append_right _ (List.mem_cons_of_mem _ ?_), hcovers⟩
        exact List.mem_filterMap.2 ⟨path, hpath, by rw [hbelow, Option.map_some]⟩

/-- Below a root, the rules that always hold ignore what the fixed ones ignore, and
    of the files of a run those whose names are read as they are written. The rule of
    any other file ignores what it is read as, which is never the file itself. -/
theorem isIgnored_builtin_iff (hplace : ∀ s ∈ place, IsName s) (hne : names ≠ [])
    (hnames : ∀ s ∈ names, IsName s)
    (hparents : ∀ path ∈ artifacts, (fs.resolveParts (parts path).dropLast).isSome = true) :
    isIgnored [builtin fs.resolveParts (ofNames place) artifacts] (ofNames (place ++ names))
        isDirectory = true ↔
      isIgnored [⟨ofNames place, rulesOf fixedRules⟩] (ofNames (place ++ names)) isDirectory =
          true ∨
        ∃ file, IsRunFile fs place artifacts file ∧
          (IsVerbatimFile file ∧ names = file ∨
            ¬IsVerbatimFile file ∧ names ≠ file ∧ FileCovers file names isDirectory) := by
  have hcontains (scope : Scope) (hscope : scope.root = ofNames place) :
      scope.contains (ofNames (place ++ names)) = true := by
    rw [Walk.contains_ofNames hscope hplace fun s hs =>
      (List.mem_append.1 hs).elim (hplace s) (hnames s)]
    simpa using hne
  have hbuiltin := hcontains (builtin fs.resolveParts (ofNames place) artifacts) rfl
  have hfixed := hcontains ⟨ofNames place, rulesOf fixedRules⟩ rfl
  rw [isIgnored_singleton hbuiltin fun r hr => verdict_of_mem_builtin hr,
    isIgnored_singleton hfixed verdict_of_mem_fixedRules, relative_ofNames rfl hne hnames,
    relative_ofNames rfl hne hnames, exists_mem_builtin hplace hne hnames hparents]
  refine or_congr_right (exists_congr fun file => and_congr_right fun hfile => ?_)
  exact fileCovers_iff (hfile.isName hplace) hnames

/-- A file that is written through a link is ignored where it is, and a bracket in
    its name is no mark. -/
theorem isIgnored_builtin_iff_sample :
    (∀ s ∈ [encode "r"], IsName s) ∧
      (∀ path ∈ [encode "/r/sub/back/run[1].json"],
        (FileSystem.sample.resolveParts (parts path).dropLast).isSome = true) ∧
      isIgnored [builtin FileSystem.sample.resolveParts (ofNames ["r"])
        ["/r/sub/back/run[1].json"]] (ofNames (["r"] ++ ["run[1].json"])) false = true := by
  have hplace : ∀ s ∈ [encode "r"], IsName s := by decide +kernel
  have hparents : ∀ path ∈ [encode "/r/sub/back/run[1].json"],
      (FileSystem.sample.resolveParts (parts path).dropLast).isSome = true := by decide +kernel
  have hrun : IsRunFile FileSystem.sample ["r"] ["/r/sub/back/run[1].json"] ["run[1].json"] :=
    @IsRunFile.artifact _ _ _ _ "run[1].json" [.root, .name "r"] _ (List.mem_singleton_self _)
      (by decide +kernel) (by decide +kernel) (by decide) rfl
  refine ⟨hplace, hparents,
    (isIgnored_builtin_iff hplace (by decide) (by decide +kernel) hparents).2 ?_⟩
  exact .inr ⟨_, hrun, .inl ⟨by decide +kernel, rfl⟩⟩

/-- The rules that always hold below the root directory, for a run that writes a file
    with braces in its name. -/
def braced : Scope := builtin (FileSystem.resolveParts {}) "/" ["/\x7ba\x7d.db"]

/-- They ignore another file, and not the file itself. -/
theorem ignores_alternative :
    IsRunFile {} [] ["/\x7ba\x7d.db"] ["\x7ba\x7d.db"] ∧
      ¬IsRunFile {} [] ["/\x7ba\x7d.db"] ["a.db"] ∧
      isIgnored [⟨"/", rulesOf fixedRules⟩] "/a.db" false = false ∧
      isIgnored [braced] "/\x7ba\x7d.db" false = false ∧
      isIgnored [braced] "/a.db" false = true := by
  refine ⟨?_, ?_, by decide +kernel, by decide +kernel, by decide +kernel⟩
  · exact @IsRunFile.artifact _ _ _ _ "\x7ba\x7d.db" [.root] _ (List.mem_singleton_self _)
      (by decide +kernel) (by decide +kernel) (by decide) rfl
  · intro h
    generalize hfile : [encode "a.db"] = file at h
    cases h with
    | map hname => cases hname
    | @artifact path name parent _ hpath _ hname _ hparts =>
      have hlast := congrArg List.getLast? hparts
      rw [← hfile, List.getLast?_concat] at hlast
      have hfound : fileName? "/\x7ba\x7d.db" = some (encode "\x7ba\x7d.db") := by
        decide +kernel
      rw [List.mem_singleton.1 hpath, hfound, Option.some_inj] at hname
      rw [← hname] at hlast
      revert hlast
      decide +kernel

end RepoAtlas.Ignore
