import RepoAtlas.Text.Blank
import Mathlib.Data.List.DropRight

/-!
# Laws of trimming

Trimming takes away what a library function takes away from an end of a list
(`trimRight_eq`, and `trimLeft` by definition). Trimmed from the right, a text of
two parts is trimmed in the second, unless that is blank
(`trimRight_append_of_blank`, `trimRight_append_of_not_blank`).
-/

namespace RepoAtlas.Text

variable {c : Char} {cs ds : List Char}

/-! ### From the left -/

theorem trimLeft_cons_of_blank (h : isBlank c = true) : trimLeft (c :: cs) = trimLeft cs :=
  List.dropWhile_cons_of_pos h

theorem trimLeft_cons_of_not_blank (h : isBlank c = false) : trimLeft (c :: cs) = c :: cs :=
  List.dropWhile_cons_of_neg (Bool.not_eq_true _ ▸ h)

/-- What is trimmed from the left is blank. -/
theorem allBlank_takeWhile (cs : List Char) : allBlank (cs.takeWhile isBlank) = true :=
  List.all_takeWhile

/-- Nothing is left of a blank text alone. -/
theorem trimLeft_eq_nil_iff : trimLeft cs = [] ↔ allBlank cs = true := by
  rw [trimLeft, List.dropWhile_eq_nil_iff, allBlank, List.all_eq_true]

theorem trimLeft_append_of_blank (h : allBlank cs = true) : trimLeft (cs ++ ds) = trimLeft ds :=
  List.dropWhile_append_of_pos (List.all_eq_true.1 h)

/-- A text that is not blank is trimmed by itself. -/
theorem trimLeft_append_of_not_blank (h : allBlank cs = false) :
    trimLeft (cs ++ ds) = trimLeft cs ++ ds := by
  have hne : trimLeft cs ≠ [] := fun hnil => by rw [trimLeft_eq_nil_iff.1 hnil] at h; cases h
  rw [trimLeft, List.dropWhile_append, if_neg (by simpa [trimLeft] using hne)]
  rfl

/-- What is left of a text trimmed from the left does not begin with a blank. -/
theorem isBlank_of_trimLeft (h : trimLeft cs = c :: ds) : isBlank c = false := by
  have hne : cs.dropWhile isBlank ≠ [] := fun hnil => by rw [trimLeft, hnil] at h; cases h
  have hhead := List.head_dropWhile_not isBlank hne
  rw [trimLeft] at h
  simpa [h] using hhead

/-- What a text ends with is left when it is trimmed from the left, if that does not begin
    with a blank. -/
theorem suffix_trimLeft (h : ds <:+ cs) (hhead : ∀ c ∈ ds.head?, isBlank c = false) :
    ds <:+ trimLeft cs := by
  obtain ⟨front, rfl⟩ := h
  cases hall : allBlank front with
  | true =>
    rw [trimLeft_append_of_blank hall]
    cases ds with
    | nil => exact List.nil_suffix
    | cons c ds => simp only [trimLeft_cons_of_not_blank (hhead c rfl), List.suffix_refl]
  | false =>
    rw [trimLeft_append_of_not_blank hall]
    exact List.suffix_append ..

/-! ### From the right -/

theorem trimRight_concat_of_blank (h : isBlank c = true) :
    trimRight (cs ++ [c]) = trimRight cs := by
  induction cs with
  | nil => simp [trimRight, h]
  | cons d cs ih => rw [List.cons_append, trimRight, ih, trimRight]

theorem trimRight_concat_of_not_blank (h : isBlank c = false) :
    trimRight (cs ++ [c]) = cs ++ [c] := by
  induction cs with
  | nil => simp [trimRight, h]
  | cons d cs ih =>
    rw [List.cons_append, trimRight, ih]
    cases cs <;> rfl

/-- From the right, blanks are dropped up to the last character that is none. -/
theorem trimRight_eq (cs : List Char) : trimRight cs = cs.rdropWhile isBlank := by
  induction cs using List.reverseRecOn with
  | nil => rfl
  | append_singleton cs c ih =>
    rw [List.rdropWhile_concat]
    split
    · rename_i h
      rw [trimRight_concat_of_blank h, ih]
    · rename_i h
      exact trimRight_concat_of_not_blank (Bool.eq_false_iff.2 h)

/-- From the right too, nothing is left of a blank text alone. -/
theorem trimRight_eq_nil_iff : trimRight cs = [] ↔ allBlank cs = true := by
  rw [trimRight_eq, List.rdropWhile_eq_nil_iff, allBlank, List.all_eq_true]

theorem trimRight_cons_of_not_blank (h : allBlank (c :: cs) = false) :
    trimRight (c :: cs) = c :: trimRight cs := by
  rw [trimRight]
  split
  · rename_i hnil
    rw [hnil, if_neg]
    intro hc
    rw [allBlank, List.all_cons, hc, ← allBlank, trimRight_eq_nil_iff.1 hnil] at h
    cases h
  · rfl

theorem trimRight_append_of_blank (h : allBlank ds = true) :
    trimRight (cs ++ ds) = trimRight cs := by
  rw [trimRight_eq, trimRight_eq, List.rdropWhile, List.reverse_append,
    List.dropWhile_append_of_pos (by simpa using List.all_eq_true.1 h), List.rdropWhile]

theorem trimRight_append_of_not_blank (h : allBlank ds = false) :
    trimRight (cs ++ ds) = cs ++ trimRight ds := by
  have hne : trimRight ds ≠ [] := fun hnil => by rw [trimRight_eq_nil_iff.1 hnil] at h; cases h
  induction cs with
  | nil => rfl
  | cons c cs ih =>
    rw [List.cons_append, trimRight, ih, List.cons_append]
    split
    · rename_i hnil
      exact absurd (List.append_eq_nil_iff.1 hnil).2 hne
    · rfl

/-- A text is left as it is if it does not end in a blank. -/
theorem trimRight_eq_self_iff : trimRight cs = cs ↔ ∀ c ∈ cs.getLast?, isBlank c = false := by
  rw [trimRight_eq, List.rdropWhile_eq_self_iff]
  rcases List.eq_nil_or_concat cs with rfl | ⟨front, c, rfl⟩ <;> simp

/-- What is left is the front of the text. -/
theorem trimRight_prefix (cs : List Char) : trimRight cs <+: cs :=
  trimRight_eq cs ▸ List.rdropWhile_prefix isBlank cs

/-! ### At both ends -/

/-- Trimming from the right leaves the first character that is not blank. -/
theorem head?_trimBoth (cs : List Char) : (trimBoth cs).head? = (trimLeft cs).head? := by
  rw [trimBoth]
  cases hcs : trimLeft cs with
  | nil => rfl
  | cons c ds =>
    rw [trimRight_cons_of_not_blank (by simp [allBlank, isBlank_of_trimLeft hcs]),
      List.head?_cons, List.head?_cons]

/-- At both ends, nothing is left of a blank text alone. -/
theorem trimBoth_eq_nil_iff : trimBoth cs = [] ↔ allBlank cs = true := by
  rw [← List.head?_eq_none_iff, head?_trimBoth, List.head?_eq_none_iff, trimLeft_eq_nil_iff]

theorem trimBoth_append_of_blank (h : allBlank ds = true) : trimBoth (cs ++ ds) = trimBoth cs := by
  cases hcs : allBlank cs with
  | true =>
    rw [trimBoth, trimLeft_append_of_blank hcs, trimLeft_eq_nil_iff.2 h, trimBoth,
      trimLeft_eq_nil_iff.2 hcs]
  | false =>
    rw [trimBoth, trimLeft_append_of_not_blank hcs, trimRight_append_of_blank h, trimBoth]

/-- To trim twice is to trim once. -/
theorem trimBoth_idempotent (cs : List Char) : trimBoth (trimBoth cs) = trimBoth cs := by
  have hleft : trimLeft (trimBoth cs) = trimBoth cs := by
    cases hcs : trimBoth cs with
    | nil => rfl
    | cons c ds =>
      have hhead := head?_trimBoth cs
      rw [hcs, List.head?_cons] at hhead
      obtain ⟨es, hes⟩ := List.head?_eq_some_iff.1 hhead.symm
      exact trimLeft_cons_of_not_blank (isBlank_of_trimLeft hes)
  rw [trimBoth, hleft, trimBoth, trimRight_eq, trimRight_eq, List.rdropWhile_idempotent]

theorem trimBoth_trimLeft (cs : List Char) : trimBoth (trimLeft cs) = trimBoth cs := by
  rw [trimBoth, trimLeft, trimLeft, List.dropWhile_idempotent, trimBoth, trimLeft]

theorem length_trimBoth_le (cs : List Char) : (trimBoth cs).length ≤ (trimRight cs).length := by
  cases h : allBlank cs with
  | true => simp [trimBoth_eq_nil_iff.2 h]
  | false =>
    have hleft : allBlank (trimLeft cs) = false := Bool.eq_false_iff.2 fun hblank => by
      rw [← trimBoth_eq_nil_iff, trimBoth_trimLeft, trimBoth_eq_nil_iff, h] at hblank
      cases hblank
    have hright : trimRight cs = cs.takeWhile isBlank ++ trimBoth cs := by
      rw [trimBoth, ← trimRight_append_of_not_blank hleft, trimLeft,
        List.takeWhile_append_dropWhile]
    rw [hright, List.length_append]
    exact Nat.le_add_left _ _

/-- A text that does not end with a blank is trimmed from the left alone. -/
theorem trimBoth_of_last (h : ∀ c ∈ cs.getLast?, isBlank c = false) :
    trimBoth cs = trimLeft cs := by
  rw [trimBoth, trimRight_eq_self_iff]
  intro c hc
  obtain ⟨front, hfront⟩ := List.dropWhile_suffix isBlank (l := cs)
  refine h c ?_
  rw [← hfront, List.getLast?_append, ← trimLeft, Option.mem_def.1 hc]
  rfl

/-- A text that neither begins nor ends with a blank is not trimmed. -/
theorem trimBoth_eq_self (hhead : ∀ c ∈ cs.head?, isBlank c = false)
    (hlast : ∀ c ∈ cs.getLast?, isBlank c = false) : trimBoth cs = cs := by
  rw [trimBoth_of_last hlast]
  cases cs with
  | nil => rfl
  | cons c cs => exact trimLeft_cons_of_not_blank (hhead c rfl)

/-! ### Texts with no blanks at either end -/

/-- Whether the text begins and ends with a character that is not blank. -/
structure IsTidy (s : String) : Prop where
  head : ∃ c, s.toList.head? = some c ∧ isBlank c = false
  last : ∃ c, s.toList.getLast? = some c ∧ isBlank c = false

variable {s t : String}

/-- Texts are trimmed at both ends. -/
theorem toList_trim (s : String) : (trim s).toList = trimBoth s.toList := by
  rw [trim, String.toList_ofList]

/-- What is trimmed is tidy, unless nothing is left. -/
theorem isTidy_trim (h : trim s ≠ "") : IsTidy (trim s) := by
  have hne : trimBoth s.toList ≠ [] := by
    rw [← toList_trim]
    simpa using h
  constructor
  · obtain ⟨c, ds, hcs⟩ := List.exists_cons_of_ne_nil hne
    have hhead := head?_trimBoth s.toList
    rw [hcs, List.head?_cons] at hhead
    obtain ⟨es, hes⟩ := List.head?_eq_some_iff.1 hhead.symm
    refine ⟨c, ?_, isBlank_of_trimLeft hes⟩
    rw [toList_trim, hcs, List.head?_cons]
  · have hright : trimRight (trimBoth s.toList) = trimBoth s.toList := by
      rw [trimBoth, trimRight_eq, trimRight_eq, List.rdropWhile_idempotent]
    refine ⟨(trimBoth s.toList).getLast hne, ?_, ?_⟩
    · rw [toList_trim, List.getLast?_eq_some_getLast hne]
    · exact trimRight_eq_self_iff.1 hright _ (List.getLast?_eq_some_getLast hne)

theorem IsTidy.ne_empty (h : IsTidy s) : s ≠ "" := by
  rintro rfl
  obtain ⟨c, hc, -⟩ := h.head
  cases hc

/-- Tidy texts are tidy with anything between them. -/
theorem IsTidy.append (hs : IsTidy s) (ht : IsTidy t) (between : String) :
    IsTidy (s ++ between ++ t) := by
  obtain ⟨c, hhead, hc⟩ := hs.head
  obtain ⟨d, hlast, hd⟩ := ht.last
  refine ⟨⟨c, ?_, hc⟩, ⟨d, ?_, hd⟩⟩
  · simp [String.toList_append, hhead]
  · simp [String.toList_append, hlast]

/-- So are tidy texts in a row. -/
theorem isTidy_intercalate {l : List String} (h : ∀ s ∈ l, IsTidy s) (hne : l ≠ [])
    (between : String) : IsTidy (between.intercalate l) := by
  induction l with
  | nil => exact absurd rfl hne
  | cons s l ih =>
    have hs := h s List.mem_cons_self
    cases l with
    | nil => simpa using hs
    | cons t l =>
      rw [String.intercalate_cons_cons]
      exact hs.append (ih (fun t ht => h t (List.mem_cons_of_mem s ht)) (List.cons_ne_nil t l)) _

end RepoAtlas.Text
