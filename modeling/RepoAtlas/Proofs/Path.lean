import RepoAtlas.Path
import Mathlib.Data.List.Infix

/-!
# Paths of names

The path that names lead along from the root (`Path.ofNames`), for names that a
directory may hold (`Path.IsName`):

* `parts_ofNames`: its parts are the slash in front and the names, so that names
  and path tell the same (`ofNames_injective`);
* `join_ofNames`: a further name is joined to it by one slash;
* `fileName?_ofNames`: its file name is its last name.

Of any path, only the last part changes when something is added to it that has no
slash (`exists_segments_append`, `parts_of_segments`).
-/

namespace RepoAtlas.Path

/-- What an entry of a directory may be called: bytes that are not none, are not
    one or two dots and have no slash. -/
structure IsName (s : Bytes) : Prop where
  ne_empty : s ≠ []
  ne_here : s ≠ [dot]
  ne_up : s ≠ [dot, dot]
  no_slash : slash ∉ s

instance (s : Bytes) : Decidable (IsName s) :=
  decidable_of_iff (s ≠ [] ∧ s ≠ [dot] ∧ s ≠ [dot, dot] ∧ slash ∉ s)
    ⟨fun ⟨hempty, hhere, hup, hslash⟩ => ⟨hempty, hhere, hup, hslash⟩,
      fun ⟨hempty, hhere, hup, hslash⟩ => ⟨hempty, hhere, hup, hslash⟩⟩

theorem part?_of_isName {s : Bytes} (h : IsName s) : part? s = some (.name s) := by
  simp [part?, h.ne_empty, h.ne_here, h.ne_up]

/-- What has no slash is a name with an ending that is longer than two dots. -/
theorem isName_append {front ending : Bytes} (h : slash ∉ front)
    (hending : slash ∉ ending ∧ 2 < ending.length) : IsName (front ++ ending) := by
  have hlength : ∀ s : Bytes, s.length < 3 → front ++ ending ≠ s := by
    rintro _ hs rfl
    rw [List.length_append] at hs
    omega
  refine ⟨hlength _ (by decide), hlength _ (by decide), hlength _ (by decide), ?_⟩
  rw [List.mem_append, not_or]
  exact ⟨h, hending.1⟩

/-! ### Bytes between slashes -/

theorem segments_of_no_slash {path : Bytes} (h : slash ∉ path) : segments path = [path] := by
  induction path with
  | nil => rfl
  | cons b path ih =>
    rw [List.mem_cons, not_or] at h
    rw [segments, if_neg (Ne.symm h.1), ih h.2]

theorem segments_append {path : Bytes} (h : slash ∉ path) (rest : Bytes) :
    segments (path ++ slash :: rest) = path :: segments rest := by
  induction path with
  | nil => simp [segments]
  | cons b path ih =>
    rw [List.mem_cons, not_or] at h
    rw [List.cons_append, segments, if_neg (Ne.symm h.1), ih h.2]

/-- Names with slashes between them are taken apart again. -/
theorem segments_intercalate {names : List Bytes} (h : ∀ s ∈ names, IsName s)
    (hne : names ≠ []) : segments ([slash].intercalate names) = names := by
  induction names with
  | nil => exact absurd rfl hne
  | cons s names ih =>
    have hs : slash ∉ s := (h s (List.mem_cons_self ..)).no_slash
    cases names with
    | nil => rw [List.intercalate_singleton, segments_of_no_slash hs]
    | cons t names =>
      rw [List.intercalate_cons_cons, List.append_assoc, List.singleton_append,
        segments_append hs, ih (fun u hu => h u (List.mem_cons_of_mem _ hu))
          (List.cons_ne_nil _ _)]

/-! ### Parts -/

theorem notMem_of_mem_segments {path segment : Bytes} (h : segment ∈ segments path) :
    slash ∉ segment := by
  induction path generalizing segment with
  | nil => exact List.mem_singleton.1 h ▸ List.not_mem_nil
  | cons b path ih =>
    rw [segments] at h
    split at h
    · rcases List.mem_cons.1 h with rfl | h
      · exact List.not_mem_nil
      · exact ih h
    · rename_i hb
      split at h
      · rw [List.mem_singleton.1 h, List.mem_singleton]
        exact Ne.symm hb
      · rename_i first others hsegments
        rcases List.mem_cons.1 h with rfl | h
        · rw [List.mem_cons, not_or]
          exact ⟨Ne.symm hb, ih (hsegments ▸ List.mem_cons_self ..)⟩
        · exact ih (hsegments ▸ List.mem_cons_of_mem _ h)

/-- What is read as a name has no slash and is no dot. -/
theorem isName_of_part? {segment s : Bytes} (hslash : slash ∉ segment)
    (h : part? segment = some (.name s)) : segment = s ∧ IsName segment := by
  rw [part?] at h
  split at h
  · cases h
  · rename_i hnot
    split at h
    · cases h
    · rename_i hup
      cases h
      rw [Bool.or_eq_true, decide_eq_true_iff, decide_eq_true_iff, not_or] at hnot
      exact ⟨rfl, hnot.1, hnot.2, hup, hslash⟩

/-- The names among the parts of a path are such as entries may have. -/
theorem isName_of_mem_parts {path s : Bytes} (h : Part.name s ∈ parts path) : IsName s := by
  have hmem : Part.name s ∈ (segments path).filterMap part? := by
    rw [parts] at h
    split at h
    · exact (List.mem_cons.1 h).resolve_left (by simp)
    · split at h
      · exact (List.mem_cons.1 h).resolve_left (by simp)
      · exact h
  obtain ⟨segment, hsegment, hpart⟩ := List.mem_filterMap.1 hmem
  obtain ⟨rfl, hname⟩ := isName_of_part? (notMem_of_mem_segments hsegment) hpart
  exact hname

/-! ### The last part -/

/-- What is added to a path without a slash is added to its last segment. -/
theorem exists_segments_append {ending : Bytes} (h : slash ∉ ending) (path : Bytes) :
    ∃ front last, segments path = front ++ [last] ∧
      segments (path ++ ending) = front ++ [last ++ ending] := by
  induction path with
  | nil => exact ⟨[], [], rfl, segments_of_no_slash h⟩
  | cons b path ih =>
    obtain ⟨front, last, hpath, happend⟩ := ih
    rw [List.cons_append, segments, segments, hpath, happend]
    split
    · exact ⟨[] :: front, last, rfl, rfl⟩
    · cases front with
      | nil => exact ⟨[], b :: last, rfl, rfl⟩
      | cons s front => exact ⟨(b :: s) :: front, last, rfl, rfl⟩

/-- The parts in front of the last segment of a path. -/
def partsBefore (path : Bytes) (front : List Bytes) : List Part :=
  (if isAbsolute path then [.root] else if front.head? == some [dot] then [.here] else []) ++
    front.filterMap part?

/-- The last part of a path is read by itself. -/
theorem parts_of_segments {path last : Bytes} {front : List Bytes} {part : Part}
    (h : segments path = front ++ [last]) (hlast : part? last = some part) :
    parts path = partsBefore path front ++ [part] := by
  have hrest : (segments path).filterMap part? = front.filterMap part? ++ [part] := by
    rw [h, List.filterMap_append, List.filterMap_cons_some hlast, List.filterMap_nil]
  have hhead : (segments path).head? == some [dot] ↔ front.head? == some [dot] := by
    rw [h]
    cases front with
    | nil =>
      -- A single dot is no part.
      have hdot : last ≠ [dot] := by
        rintro rfl
        cases hlast
      simpa using hdot
    | cons s front => rfl
  rw [parts, partsBefore, hrest]
  simp only [hhead]
  split
  · rfl
  · split <;> rfl

theorem isAbsolute_append {path : Bytes} (h : path ≠ []) (ending : Bytes) :
    isAbsolute (path ++ ending) = isAbsolute path := by
  rw [isAbsolute, isAbsolute, List.head?_append_of_ne_nil _ h]

/-! ### Paths from the root -/

theorem isAbsolute_ofNames (names : List Bytes) : isAbsolute (ofNames names) = true := rfl

/-- A path of names begins with a slash. -/
theorem segments_ofNames {names : List Bytes} (h : ∀ s ∈ names, IsName s) :
    segments (ofNames names) = [] :: if names = [] then [[]] else names := by
  rw [ofNames, segments, if_pos rfl]
  split
  · subst names
    rfl
  · rename_i hne
    rw [segments_intercalate h hne]

/-- The parts of a path of names. -/
theorem parts_ofNames {names : List Bytes} (h : ∀ s ∈ names, IsName s) :
    parts (ofNames names) = .root :: names.map .name := by
  have hparts : (segments (ofNames names)).filterMap part? = names.map .name := by
    rw [segments_ofNames h, List.filterMap_cons_none rfl]
    split
    · subst names
      rfl
    · rw [← List.filterMap_eq_map]
      exact List.filterMap_congr fun s hs => part?_of_isName (h s hs)
  rw [parts, isAbsolute_ofNames, if_pos rfl, hparts]

/-- Different names lead along different paths. -/
theorem ofNames_injective {a b : List Bytes} (ha : ∀ s ∈ a, IsName s) (hb : ∀ s ∈ b, IsName s)
    (h : ofNames a = ofNames b) : a = b := by
  have hparts := congrArg parts h
  rw [parts_ofNames ha, parts_ofNames hb, List.cons.injEq] at hparts
  exact List.map_injective_iff.2 (fun _ _ => Part.name.inj) hparts.2

/-- Whether a path leads below a directory. -/
def isBelow (directory path : Bytes) : Bool :=
  (parts directory).isPrefixOf (parts path) && parts path != parts directory

/-- What is below a directory has its names in front, and more. -/
theorem isBelow_ofNames {front names : List Bytes} (hfront : ∀ s ∈ front, IsName s)
    (hnames : ∀ s ∈ names, IsName s) :
    isBelow (ofNames front) (ofNames names) = true ↔ front <+: names ∧ front ≠ names := by
  have hinjective : Function.Injective Part.name := fun _ _ => Part.name.inj
  rw [isBelow, parts_ofNames hfront, parts_ofNames hnames, Bool.and_eq_true,
    List.isPrefixOf_iff_prefix, List.cons_prefix_cons, bne_iff_ne, ne_eq, List.cons.injEq,
    List.map_inj_right hinjective, List.prefix_map_iff_of_injective hinjective]
  simp [eq_comm]

/-- The last of the names is that of the file. -/
theorem fileName?_ofNames {names : List Bytes} {s : Bytes} (h : ∀ t ∈ names ++ [s], IsName t) :
    fileName? (ofNames (names ++ [s])) = some s := by
  rw [fileName?, parts_ofNames h, List.map_append, ← List.cons_append, List.map_singleton,
    List.getLast?_concat]

theorem ofNames_append {front names : List Bytes} (hfront : front ≠ []) (hnames : names ≠ []) :
    ofNames (front ++ names) = ofNames front ++ slash :: [slash].intercalate names := by
  rw [ofNames, ofNames, List.cons_append, List.cons.injEq]
  refine ⟨rfl, ?_⟩
  induction front with
  | nil => exact absurd rfl hfront
  | cons s front ih =>
    rw [List.cons_append,
      List.intercalate_cons_of_ne_nil (List.append_ne_nil_of_right_ne_nil _ hnames)]
    cases front with
    | nil =>
      rw [List.nil_append, List.intercalate_singleton, List.append_assoc, List.singleton_append]
    | cons t front =>
      rw [ih (List.cons_ne_nil _ _), List.intercalate_cons_cons]
      simp only [List.append_assoc]

/-- A path of names does not end in a slash, unless it is that of the root. -/
theorem getLast?_ofNames {front : List Bytes} {last : Bytes} (hlast : IsName last) :
    (ofNames (front ++ [last])).getLast? ≠ some slash := by
  have hend : ∃ path, ofNames (front ++ [last]) = path ++ last := by
    cases front with
    | nil => exact ⟨[slash], by rw [List.nil_append, ofNames, List.intercalate_singleton]; rfl⟩
    | cons s front =>
      refine ⟨ofNames (s :: front) ++ [slash], ?_⟩
      rw [ofNames_append (List.cons_ne_nil _ _) (List.cons_ne_nil _ _),
        List.intercalate_singleton, List.append_assoc, List.singleton_append]
  obtain ⟨path, hpath⟩ := hend
  rw [hpath, List.getLast?_append_of_ne_nil _ hlast.ne_empty]
  exact fun hslash => hlast.no_slash (List.mem_of_getLast? hslash)

/-- A name is joined to a path of names. -/
theorem join_ofNames {names : List Bytes} (h : ∀ t ∈ names, IsName t) {s : Bytes}
    (hs : IsName s) : join (ofNames names) s = ofNames (names ++ [s]) := by
  -- A name begins with no slash, and the path does not end with one.
  have hrelative : isAbsolute s = false := by
    rw [isAbsolute, beq_eq_false_iff_ne]
    exact fun hhead => hs.no_slash (List.mem_of_mem_head? hhead)
  have hnonempty : (ofNames names).isEmpty = false := rfl
  rw [join, hrelative, hnonempty]
  rcases List.eq_nil_or_concat names with rfl | ⟨front, last, rfl⟩
  · rw [List.nil_append, ofNames, ofNames, List.intercalate_singleton]
    rfl
  · rw [List.concat_eq_append] at h ⊢
    have hlast : IsName last := h last (List.mem_append_right _ (List.mem_cons_self ..))
    have hend : ((ofNames (front ++ [last])).getLast? == some slash) = false :=
      beq_eq_false_iff_ne.2 (getLast?_ofNames hlast)
    rw [hend, ofNames_append (List.concat_ne_nil _ _) (List.cons_ne_nil _ _),
      List.intercalate_singleton]
    rfl

end RepoAtlas.Path
