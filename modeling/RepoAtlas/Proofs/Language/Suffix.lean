import RepoAtlas.Language.Suffix
import RepoAtlas.Proofs.Path.Shown
import RepoAtlas.Proofs.Precedence
import Mathlib.Data.List.DropRight

/-!
# Two ways to tell a language

A language is told by an extension (`ofExtension?`) and by a file name
(`ofName?`). A name has the language of the longest of its suffixes behind a dot
that is an extension of some language (`ofName?_eq_some_iff`). Only one extension
has a dot behind its first (`eq_backup_of_dot`), so this suffix is the text behind
the last dot, unless the name ends in that one (`ofName?_eq_ite`).

Neither way tells letters of either case apart (`ofName?_congr`,
`ofExtension?_congr`), and an extension counts with its dot and without
(`ofExtension?_dot`).
-/

namespace RepoAtlas.Language

open Text

/-- Whether a text is a suffix of a name and begins with a dot. -/
def IsDotted (suffix name : String) : Prop :=
  suffix.toList <:+ name.toList ∧ suffix.toList.head? = some '.'

/-- Whether a suffix is the longest of those of a name that begin with a dot and
    are extensions of some language. -/
structure IsLongest (suffix name : String) : Prop where
  dotted : IsDotted suffix name
  known : (ofExtension? suffix).isSome
  longest {other : String} : IsDotted other name → (ofExtension? other).isSome →
    other.toList.length ≤ suffix.toList.length

/-- The text behind the last dot of a name. -/
def behindDot (name : String) : String := String.ofList (name.toList.rtakeWhile (· ≠ '.'))

/-- The extension with a dot behind its first. -/
def backup : String := ".tfstate.backup"

variable {name other suffix text language : String} {cs front last : List Char}

/-! ### Letters of either case -/

theorem toLower_eq_dot_iff (c : Char) : c.toLower = '.' ↔ c = '.' := by
  unfold Char.toLower
  split
  · rename_i h
    -- A capital letter becomes a small one, and neither is a dot.
    have hcapital : 65 ≤ c.val.toNat ∧ c.val.toNat ≤ 90 := h
    have hshift : ('a'.val - 'A'.val).toNat = 32 := rfl
    have hdot : '.'.val.toNat = 46 := rfl
    constructor
    · intro heq
      have hval := congrArg (fun d => d.val.toNat) heq
      simp only [UInt32.toNat_add] at hval
      omega
    · rintro rfl
      omega
  · rfl

theorem toList_lowerAscii (s : String) : (lowerAscii s).toList = s.toList.map Char.toLower :=
  String.toList_ofList

theorem head?_lowerAscii_iff (s : String) :
    (lowerAscii s).toList.head? = some '.' ↔ s.toList.head? = some '.' := by
  rw [toList_lowerAscii, List.head?_map, Option.map_eq_some_iff]
  simp only [toLower_eq_dot_iff, exists_eq_right]

/-- The case of letters makes no difference to the language of a name. -/
theorem ofName?_congr (h : lowerAscii other = lowerAscii name) : ofName? other = ofName? name := by
  rw [ofName?, h, ofName?]

/-- Nor does it to that of an extension. -/
theorem ofExtension?_congr (h : lowerAscii other = lowerAscii name) :
    ofExtension? other = ofExtension? name := by
  rw [ofExtension?, h, ofExtension?]

/-! ### Extensions -/

theorem head?_dot (text : String) : ("." ++ text).toList.head? = some '.' := by
  rw [String.toList_append]
  rfl

theorem lowerAscii_dot (text : String) : lowerAscii ("." ++ text) = "." ++ lowerAscii text := by
  rw [← String.toList_inj, toList_lowerAscii, String.toList_append, String.toList_append,
    toList_lowerAscii, List.map_append]
  rfl

/-- An extension that begins with a dot is looked up as it is. -/
theorem ofExtension?_of_dot (h : text.toList.head? = some '.') :
    ofExtension? text = ofSuffix? (lowerAscii text) := by
  rw [ofExtension?, if_pos ((head?_lowerAscii_iff text).2 h)]

/-- An extension without a dot in front is looked up with one. -/
theorem ofExtension?_dot (h : text.toList.head? ≠ some '.') :
    ofExtension? ("." ++ text) = ofExtension? text := by
  rw [ofExtension?_of_dot (head?_dot text), lowerAscii_dot, ofExtension?,
    if_neg fun hhead => h ((head?_lowerAscii_iff text).1 hhead)]

theorem ofSuffix?_backup : ofSuffix? backup = some "Terraform" := by
  decide +kernel

/-- No suffix but one has a second dot. -/
theorem suffixes_dots : ∀ row ∈ suffixes, '.' ∈ row.1.toList.tail → row.1 = backup := by
  decide +kernel

theorem exists_row (h : (ofSuffix? suffix).isSome) : ∃ language, (suffix, language) ∈ suffixes := by
  obtain ⟨language, hlanguage⟩ := Option.isSome_iff_exists.1 h
  rw [ofSuffix?, List.lookup_eq_some_iff] at hlanguage
  obtain ⟨before, after, hrows, -⟩ := hlanguage
  refine ⟨language, ?_⟩
  rw [hrows]
  exact List.mem_append_right _ (List.mem_cons_self ..)

/-- An extension with a further dot is the one that has two, in letters of either
    case. -/
theorem eq_backup_of_dot (hdotted : text.toList.head? = some '.')
    (hknown : (ofExtension? text).isSome) (hdot : '.' ∈ text.toList.tail) :
    lowerAscii text = backup := by
  rw [ofExtension?_of_dot hdotted] at hknown
  obtain ⟨language, hrow⟩ := exists_row hknown
  refine suffixes_dots _ hrow ?_
  rw [toList_lowerAscii, ← List.map_tail]
  exact List.mem_map.2 ⟨'.', hdot, rfl⟩

/-! ### Suffixes of a name -/

/-- The suffixes that are tried are those that begin with a dot. -/
theorem mem_dottedSuffixes_iff {s : List Char} :
    s ∈ dottedSuffixes cs ↔ s <:+ cs ∧ s.head? = some '.' := by
  induction cs with
  | nil =>
    rw [dottedSuffixes, List.suffix_nil]
    refine iff_of_false List.not_mem_nil ?_
    rintro ⟨rfl, hhead⟩
    cases hhead
  | cons c cs ih =>
    rw [dottedSuffixes, List.suffix_cons_iff]
    split
    · rename_i hc
      rw [List.mem_cons, ih, or_and_right]
      refine or_congr ⟨?_, And.left⟩ Iff.rfl
      rintro rfl
      exact ⟨rfl, congrArg some hc⟩
    · rename_i hc
      rw [ih, or_and_right]
      refine ⟨Or.inr, fun h => h.resolve_left ?_⟩
      rintro ⟨rfl, hhead⟩
      exact hc (Option.some_inj.1 hhead)

/-- They are tried from the longest on. -/
theorem pairwise_dottedSuffixes (cs : List Char) :
    (dottedSuffixes cs).Pairwise fun s t => t.length < s.length := by
  induction cs with
  | nil => exact List.Pairwise.nil
  | cons c cs ih =>
    rw [dottedSuffixes]
    split
    · refine List.pairwise_cons.2 ⟨fun t ht => ?_, ih⟩
      exact Nat.lt_succ_of_le (mem_dottedSuffixes_iff.1 ht).1.length_le
    · exact ih

theorem dottedSuffixes_map (cs : List Char) :
    dottedSuffixes (cs.map Char.toLower) = (dottedSuffixes cs).map (List.map Char.toLower) := by
  induction cs with
  | nil => rfl
  | cons c cs ih =>
    rw [List.map_cons, dottedSuffixes, dottedSuffixes, ih]
    simp only [toLower_eq_dot_iff]
    split <;> rfl

theorem dottedSuffixes_of_no_dot (h : '.' ∉ cs) : dottedSuffixes cs = [] := by
  refine List.eq_nil_iff_forall_not_mem.2 fun s hs => ?_
  obtain ⟨hsuffix, hhead⟩ := mem_dottedSuffixes_iff.1 hs
  exact h (hsuffix.mem (List.mem_of_mem_head? hhead))

/-- The last dot begins the shortest of the suffixes. -/
theorem dottedSuffixes_append (h : '.' ∉ last) (front : List Char) :
    dottedSuffixes (front ++ '.' :: last) =
      (dottedSuffixes front).map (· ++ '.' :: last) ++ ['.' :: last] := by
  induction front with
  | nil => exact congrArg (List.cons ('.' :: last)) (dottedSuffixes_of_no_dot h)
  | cons c front ih =>
    rw [List.cons_append, dottedSuffixes, dottedSuffixes, ih]
    split <;> rfl

/-- A name is told by its suffixes as extensions, the longest first. -/
theorem ofName?_eq_findSome? (name : String) :
    ofName? name =
      (dottedSuffixes name.toList).findSome? fun s => ofExtension? (String.ofList s) := by
  rw [ofName?, toList_lowerAscii, dottedSuffixes_map, List.findSome?_map, ← List.head?_filterMap,
    ← List.head?_filterMap]
  refine congrArg _ (List.filterMap_congr fun s hs => ?_)
  have hhead : (String.ofList s).toList.head? = some '.' := by
    rw [String.toList_ofList]
    exact (mem_dottedSuffixes_iff.1 hs).2
  rw [ofExtension?_of_dot hhead, lowerAscii, String.toList_ofList]
  rfl

theorem isDotted_iff : IsDotted suffix name ↔ suffix.toList ∈ dottedSuffixes name.toList :=
  mem_dottedSuffixes_iff.symm

/-- A name has the language of its longest suffix that is an extension. -/
theorem ofName?_eq_some_iff :
    ofName? name = some language ↔
      ∃ suffix, IsLongest suffix name ∧ ofExtension? suffix = some language := by
  rw [ofName?_eq_findSome?, findSome?_ranked_iff (pairwise_dottedSuffixes name.toList)]
  constructor
  · rintro ⟨s, hs, hlanguage, hlongest⟩
    refine ⟨String.ofList s, ⟨?_, ?_, fun {other} hother hknown => ?_⟩, hlanguage⟩
    · rw [isDotted_iff, String.toList_ofList]
      exact hs
    · rw [hlanguage]
      rfl
    · rw [String.toList_ofList]
      refine hlongest _ (isDotted_iff.1 hother) ?_
      rw [String.ofList_toList]
      exact Option.isSome_iff_ne_none.1 hknown
  · rintro ⟨suffix, hsuffix, hlanguage⟩
    refine ⟨suffix.toList, isDotted_iff.1 hsuffix.dotted, ?_, fun s hs hne => ?_⟩
    · rw [String.ofList_toList]
      exact hlanguage
    · have hdotted : IsDotted (String.ofList s) name := by
        rw [isDotted_iff, String.toList_ofList]
        exact hs
      have hle := hsuffix.longest hdotted (Option.isSome_iff_ne_none.2 hne)
      rwa [String.toList_ofList] at hle

/-! ### The last dot -/

theorem exists_eq_rtakeWhile (h : '.' ∈ cs) :
    ∃ front, cs = front ++ '.' :: cs.rtakeWhile (· ≠ '.') := by
  induction cs using List.reverseRecOn with
  | nil => exact absurd h List.not_mem_nil
  | append_singleton cs c ih =>
    by_cases hc : c = '.'
    · refine ⟨cs, ?_⟩
      rw [List.rtakeWhile_concat_neg _ _ _ (by simp [hc]), hc]
    · have hcs : '.' ∈ cs := by simpa [Ne.symm hc] using h
      obtain ⟨front, hfront⟩ := ih hcs
      refine ⟨front, ?_⟩
      rw [List.rtakeWhile_concat_pos _ _ _ (by simp [hc]), ← List.cons_append, ← List.append_assoc,
        ← hfront]

theorem dot_notMem_behindDot (name : String) : '.' ∉ (behindDot name).toList := by
  rw [behindDot, String.toList_ofList]
  intro h
  simpa using List.mem_rtakeWhile_imp h

/-- A name with a dot is cut at its last one. -/
theorem exists_eq_behindDot (h : '.' ∈ name.toList) :
    ∃ front, name.toList = front ++ '.' :: (behindDot name).toList := by
  rw [behindDot, String.toList_ofList]
  exact exists_eq_rtakeWhile h

/-- A name that ends in the extension with two dots has the language of that one. -/
theorem ofName?_of_backup (h : backup.toList <:+ (lowerAscii name).toList) :
    ofName? name = some "Terraform" := by
  rw [toList_lowerAscii, List.suffix_map_iff] at h
  obtain ⟨s, hs, hbackup⟩ := h
  have hlower : lowerAscii (String.ofList s) = backup := by
    rw [lowerAscii, String.toList_ofList, ← hbackup, String.ofList_toList]
  have hhead : (String.ofList s).toList.head? = some '.' := by
    rw [← head?_lowerAscii_iff, hlower]
    rfl
  have hlanguage : ofExtension? (String.ofList s) = some "Terraform" := by
    rw [ofExtension?_of_dot hhead, hlower, ofSuffix?_backup]
  have hdotted : IsDotted (String.ofList s) name := by
    refine ⟨?_, hhead⟩
    rw [String.toList_ofList]
    exact hs
  refine ofName?_eq_some_iff.2 ⟨String.ofList s, ⟨hdotted, ?_, fun {other} hother hknown => ?_⟩,
    hlanguage⟩
  · rw [hlanguage]
    rfl
  · -- A longer extension would have the dot in front of `s` behind its first.
    by_contra hlonger
    have hlength : (String.ofList s).toList.length < other.toList.length := Nat.lt_of_not_le hlonger
    obtain ⟨c, rest, hrest⟩ : ∃ c rest, other.toList = c :: rest :=
      List.exists_cons_of_length_pos (Nat.zero_lt_of_lt hlength)
    have hsuffix : (String.ofList s).toList <:+ rest := by
      have hshorter := List.suffix_of_suffix_length_le hdotted.1 hother.1 hlength.le
      rw [hrest] at hshorter hlength
      exact (List.suffix_cons_iff.1 hshorter).resolve_left fun heq => by simp [heq] at hlength
    have hdot : '.' ∈ other.toList.tail := by
      rw [hrest]
      exact hsuffix.mem (List.mem_of_mem_head? hhead)
    have heq := eq_backup_of_dot hother.2 hknown hdot
    have hsame := congrArg (fun t => t.toList.length) (heq.trans hlower.symm)
    simp only [toList_lowerAscii, List.length_map] at hsame
    omega

/-- In a name that does not end so, an extension has no dot behind its first. -/
theorem dot_notMem_tail (h : ¬backup.toList <:+ (lowerAscii name).toList)
    (hdotted : IsDotted suffix name) (hknown : (ofExtension? suffix).isSome) :
    '.' ∉ suffix.toList.tail := by
  intro hdot
  apply h
  rw [← eq_backup_of_dot hdotted.2 hknown hdot, toList_lowerAscii, toList_lowerAscii]
  exact hdotted.1.map _

/-- A name that does not end so has the language of the text behind its last dot. -/
theorem ofName?_of_not_backup (h : ¬backup.toList <:+ (lowerAscii name).toList) :
    ofName? name = if '.' ∈ name.toList then ofExtension? (behindDot name) else none := by
  rw [ofName?_eq_findSome?]
  split
  · rename_i hdot
    have hlast := dot_notMem_behindDot name
    obtain ⟨front, hfront⟩ := exists_eq_behindDot hdot
    -- Every longer suffix has the last dot behind its first, and is no extension.
    have hlonger : ∀ s ∈ (dottedSuffixes front).map (· ++ '.' :: (behindDot name).toList),
        ofExtension? (String.ofList s) = none := by
      intro s hs
      by_contra hne
      have hmem : s ∈ dottedSuffixes name.toList := by
        rw [hfront, dottedSuffixes_append hlast]
        exact List.mem_append_left _ hs
      have hdotted : IsDotted (String.ofList s) name := by
        rw [isDotted_iff, String.toList_ofList]
        exact hmem
      have htail := dot_notMem_tail h hdotted (Option.isSome_iff_ne_none.2 hne)
      obtain ⟨t, ht, rfl⟩ := List.mem_map.1 hs
      have hnonempty : t ≠ [] := by
        rintro rfl
        cases (mem_dottedSuffixes_iff.1 ht).2
      rw [String.toList_ofList, List.tail_append_of_ne_nil hnonempty] at htail
      exact htail (List.mem_append_right _ (List.mem_cons_self ..))
    have hhead : (behindDot name).toList.head? ≠ some '.' := fun hhead =>
      hlast (List.mem_of_mem_head? hhead)
    have hwith : String.ofList ('.' :: (behindDot name).toList) = "." ++ behindDot name := by
      rw [← String.toList_inj, String.toList_ofList, String.toList_append]
      rfl
    rw [hfront, dottedSuffixes_append hlast, List.findSome?_append,
      List.findSome?_eq_none_iff.2 hlonger, List.findSome?_singleton, Option.none_or, hwith,
      ofExtension?_dot hhead]
  · rename_i hdot
    rw [dottedSuffixes_of_no_dot hdot, List.findSome?_nil]

/-- A name has the language of what stands behind its last dot, unless it ends in the
    suffix with two. -/
theorem ofName?_eq_ite (name : String) :
    ofName? name =
      if backup.toList <:+ (lowerAscii name).toList then some "Terraform"
      else if '.' ∈ name.toList then ofExtension? (behindDot name) else none := by
  split
  · rename_i h
    exact ofName?_of_backup h
  · rename_i h
    exact ofName?_of_not_backup h

/-! ### Names of files -/

/-- A name is the file name of itself. -/
theorem fileName?_of_isName {name : Bytes} (h : Path.IsName name) :
    Path.fileName? name = some name := by
  have hsegments : Path.segments name = [] ++ [name] := Path.segments_of_no_slash h.no_slash
  rw [Path.fileName?, Path.parts_of_segments hsegments (Path.part?_of_isName h),
    List.getLast?_concat]

/-- A path that is a name has the language of the name. -/
theorem ofPath?_encode (h : Path.IsName (Utf8.encode name)) :
    ofPath? (Utf8.encode name) = ofName? name := by
  rw [ofPath?, fileName?_of_isName h, Option.bind_some, Utf8.decode?_encode, Option.bind_some]

/-- A language is told by a name that is a text. -/
theorem exists_name_of_ofPath? {path : Bytes} {language : String}
    (h : ofPath? path = some language) :
    ∃ name, Path.fileName? path = some (Utf8.encode name) ∧ ofName? name = some language := by
  obtain ⟨name, hname, hlanguage⟩ := Option.bind_eq_some_iff.1 h
  obtain ⟨s, hs, hdecode⟩ := Option.bind_eq_some_iff.1 hname
  exact ⟨name, Utf8.decode?_eq_some_iff.1 hdecode ▸ hs, hlanguage⟩

/-- The language that a path tells is told by what is shown of the path. -/
theorem ofPath?_text {path : Bytes} {language : String} (h : ofPath? path = some language) :
    ofPath? (Utf8.encode (Path.text path)) = some language := by
  obtain ⟨name, hname, hlanguage⟩ := exists_name_of_ofPath? h
  rw [ofPath?, Path.fileName?_text, hname, Option.map_some, Option.bind_some, Path.text_encode,
    Utf8.decode?_encode, Option.bind_some, hlanguage]

/-- Both ways to tell a language agree: a name ends in the extension with two dots, or it
    has the language of the text behind its last dot, and none without a dot; in
    general it has the language of its longest suffix that is an extension. An
    extension counts with its dot and without, and letters of either case are the
    same. -/
theorem ofName?_agrees (name : String) :
    (Path.IsName (Utf8.encode name) → ofPath? (Utf8.encode name) = ofName? name) ∧
      (ofName? name =
        if backup.toList <:+ (lowerAscii name).toList then some "Terraform"
        else if '.' ∈ name.toList then ofExtension? (behindDot name) else none) ∧
      (∀ language, ofName? name = some language ↔
        ∃ suffix, IsLongest suffix name ∧ ofExtension? suffix = some language) ∧
      (name.toList.head? ≠ some '.' → ofExtension? ("." ++ name) = ofExtension? name) ∧
      ∀ other, lowerAscii other = lowerAscii name →
        ofName? other = ofName? name ∧ ofExtension? other = ofExtension? name :=
  ⟨ofPath?_encode, ofName?_eq_ite name, fun _ => ofName?_eq_some_iff, ofExtension?_dot,
    fun _ h => ⟨ofName?_congr h, ofExtension?_congr h⟩⟩

/-- The name of a state behind another dot, in letters of both cases. -/
theorem ofName?_agrees_state :
    ofPath? (Utf8.encode "main.TFState.Backup") = some "Terraform" ∧
      ofExtension? ".main.TFState.Backup" = ofExtension? "main.TFState.Backup" ∧
      ofName? "MAIN.tfstate.backup" = some "Terraform" := by
  obtain ⟨hpath, hname, -, hdot, hcase⟩ := ofName?_agrees "main.TFState.Backup"
  have hlanguage : ofName? "main.TFState.Backup" = some "Terraform" :=
    hname.trans (if_pos (by decide +kernel))
  refine ⟨(hpath (by decide +kernel)).trans hlanguage, hdot (by decide +kernel), ?_⟩
  exact (hcase "MAIN.tfstate.backup" (by decide +kernel)).1.trans hlanguage

end RepoAtlas.Language
