import RepoAtlas.Proofs.Bytes.Decoding
import RepoAtlas.Proofs.Path

/-!
# What is shown of paths

What is shown of a path (`Path.text`) tells which path it is, as long as the path is
the bytes of a text (`IsText`, `eq_of_text_eq`); a path of names that are texts is one
(`isText_ofNames`). Of other paths two may be shown alike.

A slash is shown as it is, and what stands before and behind it apart from it
(`text_append`), so that the last name of a path can be read off what is shown.
-/

namespace RepoAtlas

open Utf8 (encode decode decodeLossy)

namespace Utf8

/-- A byte that is a character of its own ends what is said before it. -/
theorem decode_append {c : UInt8} (hc : c < 0x80) (front rest : Bytes) :
    decode (front ++ c :: rest) = decode front ++ decode (c :: rest) := by
  have htail : isTail c = false := by
    rw [← Bool.not_eq_true, isTail_iff]
    rw [UInt8.lt_iff_toNat_lt] at hc
    exact fun ⟨hlow, _⟩ => absurd hc (Nat.not_lt.2 hlow)
  have hsecond {b lo hi : UInt8} {more : Nat} (hlead : lead? b = some ((lo, hi), more)) :
      within lo hi c = false := by
    rw [← Bool.not_eq_true]
    intro hwithin
    rw [isTail_iff.2 (lead?_cases hlead hwithin).1] at htail
    cases htail
  -- What begins before the byte and is cut off by it is a fault, as it is at the end.
  fun_induction decode front with
  | case1 => rfl
  | case4 b hb lo hi more hlead =>
    rw [List.singleton_append, decode.eq_def]
    simp [hb, hlead, hsecond hlead]
  | case7 b hb lo hi more hlead d hd hmore =>
    rw [List.cons_append, List.singleton_append, decode.eq_def]
    simp_all
  | case10 b hb lo hi more hlead d hd hmore e he hmore' =>
    rw [List.cons_append, List.cons_append, List.singleton_append, decode.eq_def]
    simp_all
  | case6 b hb lo hi d others hd hlead ih =>
    rw [List.cons_append, List.cons_append, decode_two hb hlead (by simpa using hd), ih]
    rfl
  | case9 b hb lo hi d hd e others he hlead _ ih =>
    rw [List.cons_append, List.cons_append, List.cons_append,
      decode_three hb hlead (by simpa using hd) (by simpa using he), ih]
    rfl
  | case12 b hb lo hi more hlead d hd hmore e he hmore' f others hf ih =>
    rw [Bool.not_eq_true, Bool.not_eq_false'] at hd he hf
    obtain rfl : more = 2 := by
      obtain ⟨-, hcases⟩ := lead?_cases hlead hd
      omega
    rw [List.cons_append, List.cons_append, List.cons_append, List.cons_append,
      decode_four hb hlead hd he hf, ih]
    rfl
  | _ =>
    rw [List.cons_append, decode.eq_def]
    simp_all

/-- A character of one byte is said by that byte alone. -/
theorem mem_of_mem_decode {c : Char} {b : UInt8} (hc : String.utf8EncodeChar c = [b])
    {bytes : Bytes} (h : some c ∈ decode bytes) : b ∈ bytes := by
  have hne {d : Char} (hd : (String.utf8EncodeChar d).length ≠ 1) : some c ≠ some d := by
    rintro ⟨rfl⟩
    exact hd (by rw [hc]; rfl)
  fun_induction decode bytes with
  | case1 => cases h
  | case2 d rest hd ih =>
    rcases List.mem_cons.1 h with heq | h
    · rw [Option.some.inj heq, utf8EncodeChar_one hd] at hc
      exact List.singleton_inj.1 hc ▸ List.mem_cons_self
    · exact List.mem_cons_of_mem _ (ih h)
  | case6 d hd lo hi e rest he hlead ih =>
    have hlong := utf8EncodeChar_two hlead (by simpa using he)
    have hrest := (List.mem_cons.1 h).resolve_left (hne (by simp [hlong]))
    exact List.mem_cons_of_mem _ (List.mem_cons_of_mem _ (ih hrest))
  | case9 d hd lo hi e he f rest hf hlead _ ih =>
    have hlong := utf8EncodeChar_three hlead (by simpa using he) (by simpa using hf)
    have hrest := (List.mem_cons.1 h).resolve_left (hne (by simp [hlong]))
    exact List.mem_cons_of_mem _ (List.mem_cons_of_mem _ (List.mem_cons_of_mem _ (ih hrest)))
  | case12 d hd lo hi more hlead e he hmore f hf hmore' g rest hg ih =>
    rw [Bool.not_eq_true, Bool.not_eq_false'] at he hf hg
    obtain rfl : more = 2 := by
      obtain ⟨-, hcases⟩ := lead?_cases hlead he
      omega
    have hlong := utf8EncodeChar_four hlead he hf hg
    have hrest := (List.mem_cons.1 h).resolve_left (hne (by simp [hlong]))
    exact List.mem_cons_of_mem _ (List.mem_cons_of_mem _ (List.mem_cons_of_mem _
      (List.mem_cons_of_mem _ (ih hrest))))
  | _ => simp_all

end Utf8

namespace Path

/-- Whether a name or a path is the bytes of a text. -/
def IsText (path : Bytes) : Prop := encode (text path) = path

instance (path : Bytes) : Decidable (IsText path) :=
  inferInstanceAs (Decidable (encode (text path) = path))

theorem text_encode (s : String) : text (encode s) = s := by
  rw [text, decodeLossy, Utf8.decode_encode, List.map_map]
  exact (congrArg String.ofList (List.map_id _)).trans String.ofList_toList

theorem isText_encode (s : String) : IsText (encode s) := congrArg encode (text_encode s)

/-- The paths that are texts are those that spell a string. -/
theorem isText_iff {path : Bytes} : IsText path ↔ ∃ s, path = encode s :=
  ⟨fun h => ⟨text path, h.symm⟩, fun ⟨s, hs⟩ => hs ▸ isText_encode s⟩

/-- Paths that are texts are shown each as it is. -/
theorem eq_of_text_eq {path other : Bytes} (hpath : IsText path) (hother : IsText other)
    (h : text path = text other) : path = other := by
  rw [← hpath, h, hother]

theorem toList_text (path : Bytes) :
    (text path).toList = (decode path).map fun said => said.getD '\uFFFD' := String.toList_ofList

/-- A slash is shown as it is. -/
theorem text_append (front rest : Bytes) :
    text (front ++ slash :: rest) = text front ++ "/" ++ text rest := by
  have hslash : decode (slash :: rest) = some '/' :: decode rest := Utf8.decode_one (by decide)
  rw [← String.toList_inj, String.toList_append, String.toList_append, toList_text, toList_text,
    toList_text, Utf8.decode_append (by decide), hslash, List.map_append, List.map_cons,
    List.append_assoc]
  rfl

/-- What has no slash is shown without one. -/
theorem notMem_text {s : Bytes} (h : slash ∉ s) : '/' ∉ (text s).toList := by
  rw [toList_text, List.mem_map]
  rintro ⟨_ | c, hsaid, hshown⟩
  · cases hshown
  · cases hshown
    exact h (Utf8.mem_of_mem_decode rfl hsaid)

/-- There is a slash among the bytes of a text if it has one itself. -/
theorem notMem_encode {s : String} (h : '/' ∉ s.toList) : slash ∉ encode s := by
  intro hslash
  obtain ⟨front, rest, hbytes⟩ := List.append_of_mem hslash
  have hsaid := Utf8.decode_encode s
  rw [hbytes, Utf8.decode_append (by decide), Utf8.decode_one (by decide)] at hsaid
  have hmem : some '/' ∈ s.toList.map some :=
    hsaid ▸ List.mem_append_right _ List.mem_cons_self
  obtain ⟨c, hc, hchar⟩ := List.mem_map.1 hmem
  exact h (Option.some.inj hchar ▸ hc)

/-- What is shown of a name is one with an ending that is longer than two dots. -/
theorem isName_encode_append {name : Bytes} (h : IsName name) {ending : String}
    (hending : slash ∉ encode ending ∧ 2 < (encode ending).length) :
    IsName (encode (text name ++ ending)) := by
  rw [Utf8.encode_append]
  exact isName_append (notMem_encode (notMem_text h.no_slash)) hending

theorem IsText.append_slash {front rest : Bytes} (hfront : IsText front) (hrest : IsText rest) :
    IsText (front ++ slash :: rest) := by
  rw [IsText, text_append, Utf8.encode_append, Utf8.encode_append, hfront, hrest,
    List.append_assoc]
  rfl

theorem isText_intercalate {names : List Bytes} (h : ∀ s ∈ names, IsText s) :
    IsText ([slash].intercalate names) := by
  induction names with
  | nil => rfl
  | cons s names ih =>
    rw [List.forall_mem_cons] at h
    cases names with
    | nil =>
      rw [List.intercalate_singleton]
      exact h.1
    | cons t names =>
      rw [List.intercalate_cons_cons, List.append_assoc, List.singleton_append]
      exact h.1.append_slash (ih h.2)

/-- A path of names that are texts is one. -/
theorem isText_ofNames {names : List Bytes} (h : ∀ s ∈ names, IsText s) :
    IsText (ofNames names) :=
  @IsText.append_slash [] _ rfl (isText_intercalate h)

/-! ### The last name of what is shown -/

/-- What is shown without a mark is shown as it is. -/
theorem isText_of_unmarked {path : Bytes} (h : '\uFFFD' ∉ (text path).toList) : IsText path := by
  rw [toList_text, List.mem_map] at h
  have hsaid : decode path = (text path).toList.map some := by
    rw [toList_text, List.map_map]
    refine (List.map_id _).symm.trans (List.map_congr_left fun said hmem => ?_)
    cases said with
    | none => exact absurd ⟨none, hmem, rfl⟩ h
    | some c => rfl
  exact (Utf8.eq_of_decode hsaid).symm

/-- What is shown is a text without a mark only if that text was there. -/
theorem encode_text_eq_iff {path : Bytes} {s : String} (hs : '\uFFFD' ∉ s.toList) :
    encode (text path) = encode s ↔ path = encode s := by
  constructor
  · intro h
    have htext : text path = s := by rw [← text_encode (text path), h, text_encode]
    exact htext ▸ (isText_of_unmarked (htext ▸ hs)).symm
  · rintro rfl
    rw [text_encode]

/-- What is shown has its slashes where the path has them. -/
theorem segments_text (path : Bytes) :
    segments (encode (text path)) = (segments path).map fun s => encode (text s) := by
  by_cases hslash : slash ∈ path
  · obtain ⟨front, rest, rfl, hfront⟩ := List.eq_append_cons_of_mem hslash
    have hshown : slash ∉ encode (text front) := notMem_encode (notMem_text hfront)
    have hlength : rest.length < (front ++ slash :: rest).length := by
      rw [List.length_append, List.length_cons]
      omega
    rw [text_append, Utf8.encode_append, Utf8.encode_append, List.append_assoc]
    change segments (encode (text front) ++ slash :: encode (text rest)) = _
    rw [segments_append hshown, segments_append hfront, segments_text rest, List.map_cons]
  · rw [segments_of_no_slash hslash, segments_of_no_slash (notMem_encode (notMem_text hslash))]
    rfl
  termination_by path.length

/-- A part of a path as it is shown. -/
def Part.shown : Part → Part
  | .name s => .name (encode (text s))
  | part => part

theorem part?_text (segment : Bytes) :
    part? (encode (text segment)) = (part? segment).map Part.shown := by
  have hempty : encode (text segment) = [] ↔ segment = [] :=
    encode_text_eq_iff (s := "") (by decide)
  have hhere : encode (text segment) = [dot] ↔ segment = [dot] :=
    encode_text_eq_iff (s := ".") (by decide)
  have hup : encode (text segment) = [dot, dot] ↔ segment = [dot, dot] :=
    encode_text_eq_iff (s := "..") (by decide)
  simp only [part?, Bool.or_eq_true, decide_eq_true_eq, hempty, hhere, hup]
  split_ifs <;> rfl

/-- The name that a part is. -/
def Part.name? : Part → Option Bytes
  | .name s => some s
  | _ => none

/-- The file name is that of the last part between slashes, if it has one. -/
theorem fileName?_eq (path : Bytes) :
    fileName? path = ((segments path).filterMap part?).getLast?.bind Part.name? := by
  have hname : fileName? path = (parts path).getLast?.bind Part.name? := by
    rw [fileName?]
    rcases (parts path).getLast? with _ | _ | _ | _ | _ <;> rfl
  -- A slash or a dot in front is no name.
  have hfront {part : Part} (hpart : part.name? = none) (l : List Part) :
      (part :: l).getLast?.bind Part.name? = l.getLast?.bind Part.name? := by
    rw [List.getLast?_cons, Option.bind_some]
    cases l.getLast? with
    | none => exact hpart
    | some last => rfl
  rw [hname, parts]
  split
  · exact hfront rfl _
  · split
    · exact hfront rfl _
    · rfl

/-- The file name of what is shown is the file name as it is shown. -/
theorem fileName?_text (path : Bytes) :
    fileName? (encode (text path)) = (fileName? path).map fun s => encode (text s) := by
  have hparts : (segments (encode (text path))).filterMap part? =
      ((segments path).filterMap part?).map Part.shown := by
    rw [segments_text, List.filterMap_map, List.map_filterMap]
    exact congrArg (fun f => List.filterMap f _) (funext part?_text)
  rw [fileName?_eq, fileName?_eq, hparts, List.getLast?_map]
  rcases ((segments path).filterMap part?).getLast? with _ | _ | _ | _ | _ <;> rfl

end Path

end RepoAtlas
