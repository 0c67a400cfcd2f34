import RepoAtlas.Proofs.Ignore.Literal
import RepoAtlas.Proofs.Path.Shown

/-!
# What the rules that always hold speak of

The rules that hold below every root ignore what they speak of, and keep nothing
(`verdict?_builtin`). They speak of every directory of the name `.git`
(`verdict?_builtin_git`), and of every file that a run writes, if its names below
the root are literal (`verdict?_builtin_artifact`): a brace in a name is read as
a mark of a glob, a blank at the end of the last name is lost, and a name that is no
text is not the one that is shown.
-/

namespace RepoAtlas.Ignore

open RepoAtlas.Path
open Utf8 (encode)

/-! ### Paths as read from the root -/

/-- Names do not begin with a slash. -/
theorem exists_intercalate {names : List Bytes} (hne : names ≠ [])
    (hnames : ∀ s ∈ names, IsName s) :
    ∃ b rest, b ≠ slash ∧ [slash].intercalate names = b :: rest := by
  cases names with
  | nil => exact absurd rfl hne
  | cons s names =>
    have hs := hnames s (List.mem_cons_self ..)
    obtain ⟨b, rest, rfl⟩ := List.exists_cons_of_ne_nil hs.ne_empty
    have hb : b ≠ slash := fun heq => hs.no_slash (heq ▸ List.mem_cons_self ..)
    cases names with
    | nil => exact ⟨b, rest, hb, List.intercalate_singleton⟩
    | cons t names =>
      exact ⟨b, _, hb, by rw [List.intercalate_cons_cons, List.cons_append, List.cons_append]⟩

theorem withoutDot_ofNames (names : List Bytes) :
    Scope.withoutDot (ofNames names) = ofNames names := rfl

/-- A path is read from the root as the names below it. -/
theorem relative_ofNames {scope : Scope} {place names : List Bytes}
    (hscope : scope.root = ofNames place) (hne : names ≠ []) (hnames : ∀ s ∈ names, IsName s) :
    scope.relative (ofNames (place ++ names)) = [slash].intercalate names := by
  have hslash : (ofNames (place ++ names)).contains slash = true := by
    rw [ofNames, List.contains_cons]
    rfl
  have hparts : parts (ofNames place) ≠ [.here] := by
    rw [parts, isAbsolute_ofNames]
    simp
  rw [Scope.relative, hscope, withoutDot_ofNames, withoutDot_ofNames, hslash,
    if_neg (by simpa using hparts)]
  -- The path of the root directory ends with the slash that stands behind the path
  -- of any other one.
  rcases eq_or_ne place [] with rfl | hplace
  · obtain ⟨b, rest, hb, hwhole⟩ := exists_intercalate hne hnames
    have hrest : ofNames ([] ++ names) = ofNames [] ++ b :: rest := by
      rw [List.nil_append, ofNames, hwhole]
      rfl
    rw [hrest, List.isPrefixOf?_eq_some_iff_append_eq.2 rfl, hwhole]
    exact if_neg fun heq => hb (Option.some_inj.1 heq)
  · rw [ofNames_append hplace hne, List.isPrefixOf?_eq_some_iff_append_eq.2 rfl]
    exact if_pos rfl

/-! ### Verdicts -/

variable {resolve : List Part → Option (List Part)} {artifacts : List Bytes}
  {place names : List Bytes} {isDirectory : Bool}

theorem head?_ruleTexts {root : Bytes} {text : String}
    (h : text ∈ ruleTexts resolve root artifacts) :
    text.toList.head? ≠ some '!' := by
  rw [ruleTexts, List.mem_append, List.mem_cons] at h
  rcases h with h | rfl | h
  · revert text
    decide
  · rw [String.toList_append, String.toList_append, List.append_assoc]
    exact fun h => absurd (Option.some.inj h) (by decide)
  · obtain ⟨path, _, hpath⟩ := List.mem_filterMap.1 h
    obtain ⟨names, _, rfl⟩ := Option.map_eq_some_iff.1 hpath
    rw [fileRule, String.toList_append]
    exact fun h => absurd (Option.some.inj h) (by decide)

/-- The rules that always hold keep nothing. -/
theorem verdict_of_mem_builtin {root : Bytes} {r : Rule}
    (h : r ∈ (builtin resolve root artifacts).rules) : r.verdict = .ignored := by
  obtain ⟨text, htext, hr⟩ := List.mem_filterMap.1 h
  exact verdict_of_ofLine? (head?_ruleTexts htext) hr

theorem verdict?_builtin (root path : Bytes) :
    (builtin resolve root artifacts).verdict? path isDirectory = none ∨
      (builtin resolve root artifacts).verdict? path isDirectory = some .ignored := by
  rw [Scope.verdict?, verdict?]
  cases hfound : (builtin resolve root artifacts).rules.reverse.find?
      fun r => r.covers ((builtin resolve root artifacts).relative path) isDirectory with
  | none => exact .inl rfl
  | some r =>
    refine .inr (congrArg some ?_)
    exact verdict_of_mem_builtin (List.mem_reverse.1 (List.mem_of_find?_eq_some hfound))

/-- What one of the rules that always hold speaks of is ignored by them. -/
theorem verdict?_builtin_of_covers {root path : Bytes} {r : Rule}
    (hr : r ∈ (builtin resolve root artifacts).rules)
    (hcovers : r.covers ((builtin resolve root artifacts).relative path) isDirectory = true) :
    (builtin resolve root artifacts).verdict? path isDirectory = some .ignored := by
  refine (verdict?_builtin root path).resolve_left fun hnone => ?_
  rw [Scope.verdict?, verdict?, Option.map_eq_none_iff, List.find?_eq_none] at hnone
  exact hnone r (List.mem_reverse.2 hr) hcovers

/-- The rules that always hold speak of every directory of the name `.git`. -/
theorem verdict?_builtin_git (hnames : ∀ s ∈ names ++ [encode ".git"], IsName s) :
    (builtin resolve (ofNames place) artifacts).verdict?
      (ofNames (place ++ (names ++ [encode ".git"]))) true = some .ignored := by
  have hmem : ⟨.ancestors :: ".git".toList.map .char, .ignored, true⟩ ∈
      (builtin resolve (ofNames place) artifacts).rules :=
    List.mem_filterMap.2 ⟨".git/", List.mem_append_left _ (by decide), ofLine?_git⟩
  refine verdict?_builtin_of_covers hmem ?_
  rw [relative_ofNames rfl (List.concat_ne_nil _ _) hnames]
  rw [Rule.covers, Bool.or_true, Bool.true_and]
  have hmatches := Glob.matches_ancestors ".git".toList ([slash].intercalate names)
  rcases eq_or_ne names [] with rfl | hne
  · exact hmatches.2
  · have hwhole : [slash].intercalate (names ++ [encode ".git"]) =
        [slash].intercalate names ++ slash :: encode ".git" :=
      (List.cons.inj (ofNames_append hne (List.cons_ne_nil _ _))).2
    rw [hwhole]
    exact hmatches.1

/-! ### Files that a run writes -/

/-- Whether names are read in a rule as they are shown and are what is shown: they are
    texts, have no braces, and the last one does not end with a blank. -/
structure IsLiteral (names : List Bytes) : Prop where
  isText : IsText ([slash].intercalate names)
  no_brace : '{' ∉ (text ([slash].intercalate names)).toList ∧
    '}' ∉ (text ([slash].intercalate names)).toList
  no_blank : ∀ c, (text ([slash].intercalate names)).toList.getLast? = some c →
    Text.isBlank c = false

theorem toList_escape (s : String) : (escape s).toList = escapeChars s.toList :=
  String.toList_ofList

/-- The rule of a file is its names as they are shown, behind a slash. -/
theorem toList_fileRule (names : List Bytes) :
    (fileRule names).toList = '/' :: escapeChars (text ([slash].intercalate names)).toList := by
  rw [fileRule, String.toList_append]
  refine congrArg ('/' :: ·) ?_
  change ("/".intercalate (names.map fun name => escape (text name))).toList = _
  induction names with
  | nil => rfl
  | cons s names ih =>
    cases names with
    | nil =>
      rw [List.map_singleton, String.intercalate_singleton, List.intercalate_singleton,
        toList_escape]
    | cons t names =>
      rw [List.map_cons] at ih ⊢
      rw [List.map_cons, String.intercalate_cons_cons, List.intercalate_cons_cons,
        List.append_assoc, List.singleton_append, text_append, String.toList_append,
        String.toList_append, String.toList_append, String.toList_append, escapeChars_append,
        escapeChars_append, toList_escape, ih]
      rfl

theorem IsLiteral.isVerbatim (h : IsLiteral names) :
    IsVerbatim (text ([slash].intercalate names)).toList :=
  ⟨h.no_brace, fun c hc hblank => absurd (h.no_blank c hc) (by simp [hblank])⟩

/-- A text ends with a slash if it is shown with one at the end. -/
theorem getLast?_of_text {path : Bytes} (h : IsText path)
    (hslash : (text path).toList.getLast? = some '/') : path.getLast? = some slash := by
  obtain ⟨front, hfront⟩ := List.getLast?_eq_some_iff.1 hslash
  rw [← h, Utf8.encode_eq, hfront, List.flatMap_append]
  exact List.getLast?_concat ..

/-- Names do not end with a slash when they are shown. -/
theorem getLast?_text_intercalate (hnames : ∀ s ∈ names, IsName s)
    (htext : IsText ([slash].intercalate names)) :
    (text ([slash].intercalate names)).toList.getLast? ≠ some '/' := by
  intro hshown
  have hslash := getLast?_of_text htext hshown
  rcases List.eq_nil_or_concat names with rfl | ⟨front, last, rfl⟩
  · cases hslash
  · rw [List.concat_eq_append] at hnames hslash
    have hlast := hnames last (List.mem_append_right _ (List.mem_cons_self ..))
    have hend : (ofNames (front ++ [last])).getLast? = some slash := by
      rw [ofNames, List.getLast?_cons, hslash]
      rfl
    exact getLast?_ofNames hlast hend

/-- The rule of a file speaks of its names as they are shown, if these are read as they
    are written. -/
theorem ofLine?_fileRule (hnames : ∀ s ∈ names, IsName s)
    (htext : IsText ([slash].intercalate names))
    (hverbatim : IsVerbatim (text ([slash].intercalate names)).toList) :
    Rule.ofLine? (fileRule names).toList =
      some ⟨(text ([slash].intercalate names)).toList.map .char, .ignored, false⟩ := by
  rw [toList_fileRule, ofLine?_escapeChars hverbatim (getLast?_text_intercalate hnames htext)]

theorem map_of_names? {below : List Part} (h : names? below = some names) :
    below = names.map .name := by
  induction below generalizing names with
  | nil => cases h; rfl
  | cons part below ih =>
    cases part with
    | name s =>
      obtain ⟨rest, hrest, rfl⟩ := Option.map_eq_some_iff.1 h
      rw [ih hrest, List.map_cons]
    | root => cases h
    | here => cases h
    | up => cases h

theorem subset_of_partsBelow? {root path rest : List Part}
    (h : partsBelow? root path = some rest) : rest ⊆ path := by
  rw [← List.append_eq_of_isPrefixOf?_eq_some h]
  exact List.subset_append_right ..

/-- The names that lead to a file that a run writes are such as entries may
    have. -/
theorem isName_of_namesBelow? {root path : Bytes}
    (hresolve : ∀ {parts parent}, (∀ s, .name s ∈ parts → IsName s) →
      resolve parts = some parent → ∀ s, .name s ∈ parent → IsName s)
    (h : namesBelow? resolve root path = some names) : names ≠ [] ∧ ∀ s ∈ names, IsName s := by
  have hparts (s : Bytes) (hs : Part.name s ∈ parts path) : IsName s := isName_of_mem_parts hs
  obtain ⟨name, hname, h⟩ := Option.bind_eq_some_iff.1 h
  have hlast : Part.name name ∈ parts path := by
    rw [fileName?] at hname
    split at hname
    · rename_i s hs
      cases hname
      exact List.mem_of_getLast? hs
    · cases hname
  -- Whether the directory of the file exists or not, what leads to the file below
  -- the root is made of parts of paths.
  obtain ⟨below, hall, h⟩ : ∃ below, (∀ s, Part.name s ∈ below → IsName s) ∧
      ((names? below).bind fun names => if names.isEmpty then none else some names) =
        some names := by
    dsimp only at h
    split at h
    · rename_i parent hparent
      obtain ⟨_, hbelow, h⟩ := Option.bind_eq_some_iff.1 h
      obtain ⟨rest, hrest, rfl⟩ := Option.map_eq_some_iff.1 hbelow
      refine ⟨_, fun s hs => ?_, h⟩
      rcases List.mem_append.1 hs with hs | hs
      · exact hresolve (fun t ht => hparts t (List.dropLast_subset _ ht)) hparent s
          (subset_of_partsBelow? hrest hs)
      · cases List.mem_singleton.1 hs
        exact hparts _ hlast
    · obtain ⟨below, hbelow, h⟩ := Option.bind_eq_some_iff.1 h
      exact ⟨below, fun s hs => hparts s (subset_of_partsBelow? hbelow hs), h⟩
  obtain ⟨found, hfound, h⟩ := Option.bind_eq_some_iff.1 h
  split at h
  · cases h
  · rename_i hne
    cases h
    refine ⟨fun hnil => hne (hnil ▸ rfl), fun s hs => hall s ?_⟩
    rw [map_of_names? hfound]
    exact List.mem_map_of_mem hs

/-- The rules that always hold speak of every file that a run writes, if its
    names are literal. -/
theorem verdict?_builtin_artifact {path : Bytes} (hpath : path ∈ artifacts)
    (hbelow : namesBelow? resolve (ofNames place) path = some names) (hne : names ≠ [])
    (hnames : ∀ s ∈ names, IsName s) (hliteral : IsLiteral names) :
    (builtin resolve (ofNames place) artifacts).verdict? (ofNames (place ++ names)) isDirectory =
      some .ignored := by
  have htext : fileRule names ∈ ruleTexts resolve (ofNames place) artifacts := by
    refine List.mem_append_right _ (List.mem_cons_of_mem _ (List.mem_filterMap.2 ⟨path, hpath, ?_⟩))
    rw [hbelow]
    rfl
  have hmem : ⟨(text ([slash].intercalate names)).toList.map .char, .ignored, false⟩ ∈
      (builtin resolve (ofNames place) artifacts).rules :=
    List.mem_filterMap.2 ⟨_, htext, ofLine?_fileRule hnames hliteral.isText hliteral.isVerbatim⟩
  refine verdict?_builtin_of_covers hmem ?_
  rw [relative_ofNames rfl hne hnames, Rule.covers]
  have hmatches := Glob.matches_chars (text ([slash].intercalate names)).toList
  rw [String.ofList_toList, hliteral.isText] at hmatches
  exact hmatches

end RepoAtlas.Ignore
