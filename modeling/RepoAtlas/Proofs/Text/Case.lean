import RepoAtlas.Text.Case
import Mathlib.Data.List.Basic

/-!
# Texts in capitals

A text is in capitals if it has a capital letter, and all its letters of some case are
capital (`InCapitals`): none is small, and none is a title-case letter, which is half
capital and half small, and counts as neither (`not_isUpper_of_isTitle`). Characters
that have no case count for nothing.

The text of a name is read letter by letter up to the first small one
(`isUpperFrom_eq`). Title-case letters are passed over like characters without a case,
so that a text reads as a capitalised name exactly if it is in capitals, or would be
but for title-case letters (`isUpperText_eq_true_iff`).
-/

namespace RepoAtlas.Text

/-! ### Title-case letters -/

/-- The ranges of *Titlecase_Letter*: digraphs with a capital first half, and Greek
    capital letters with an iota beside them. -/
def titleRanges : Ranges := [
  (0x1C5, 0x1C5), (0x1C8, 0x1C8), (0x1CB, 0x1CB), (0x1F2, 0x1F2), (0x1F88, 0x1F8F),
  (0x1F98, 0x1F9F), (0x1FA8, 0x1FAF), (0x1FBC, 0x1FBC), (0x1FCC, 0x1FCC), (0x1FFC, 0x1FFC)]

/-- Whether the character is a title-case letter. -/
def isTitle (c : Char) : Bool :=
  titleRanges.contains c.toNat

theorem mem_of_contains {ranges : Ranges} {n : Nat} (h : ranges.contains n = true) :
    n ∈ ranges.flatMap fun r => List.range' r.1 (r.2 + 1 - r.1) := by
  induction ranges with
  | nil => cases h
  | cons r ranges ih =>
    rw [Ranges.contains] at h
    simp only [Bool.and_eq_true, Bool.or_eq_true, decide_eq_true_eq] at h
    rw [List.flatMap_cons, List.mem_append, List.mem_range'_1]
    exact h.2.imp (fun hlast => by omega) ih

/-- A title-case letter is neither capital nor small. -/
theorem not_isUpper_of_isTitle {c : Char} (h : isTitle c = true) :
    isUpper c = false ∧ isLower c = false := by
  have hall : ∀ n ∈ titleRanges.flatMap fun r => List.range' r.1 (r.2 + 1 - r.1),
      upperRanges.contains n = false ∧ lowerRanges.contains n = false := by
    decide +kernel
  exact hall _ (mem_of_contains h)

/-- Whether the text has a capital letter, and neither a small nor a title-case one. -/
structure InCapitals (s : String) : Prop where
  capital : ∃ c ∈ s.toList, isUpper c = true
  notSmall : ∀ c ∈ s.toList, isLower c = false
  notTitle : ∀ c ∈ s.toList, isTitle c = false

/-- Whether the text has a capital and a title-case letter, and no small one. -/
structure IsMixed (s : String) : Prop where
  capital : ∃ c ∈ s.toList, isUpper c = true
  notSmall : ∀ c ∈ s.toList, isLower c = false
  title : ∃ c ∈ s.toList, isTitle c = true

variable {s : String}

theorem inCapitals_iff :
    InCapitals s ↔
      (s.toList.any isUpper && !s.toList.any isLower && !s.toList.any isTitle) = true := by
  simp only [Bool.and_eq_true, List.any_eq_true, Bool.not_eq_true', List.any_eq_false,
    Bool.not_eq_true]
  exact ⟨fun h => ⟨⟨h.capital, h.notSmall⟩, h.notTitle⟩, fun h => ⟨h.1.1, h.1.2, h.2⟩⟩

instance : Decidable (InCapitals s) := decidable_of_iff' _ inCapitals_iff

theorem IsMixed.not_inCapitals (h : IsMixed s) : ¬InCapitals s := by
  intro hcapitals
  obtain ⟨c, hc, htitle⟩ := h.title
  rw [hcapitals.notTitle c hc] at htitle
  cases htitle

/-! ### The letters of a name -/

/-- What is read of the rest of a text: a small letter anywhere settles it, and else a
    capital letter, before or in it. -/
theorem isUpperFrom_eq (seen : Bool) (cs : List Char) :
    isUpperFrom seen cs = (!cs.any isLower && (seen || cs.any isUpper)) := by
  induction cs generalizing seen with
  | nil => simp [isUpperFrom]
  | cons c cs ih =>
    rw [isUpperFrom, List.any_cons, List.any_cons]
    cases hc : isLower c with
    | true => rfl
    | false => rw [if_neg Bool.false_ne_true, ih, Bool.false_or, Bool.or_assoc]

theorem isUpperText_iff :
    isUpperText s = true ↔
      (∃ c ∈ s.toList, isUpper c = true) ∧ ∀ c ∈ s.toList, isLower c = false := by
  rw [isUpperText, isUpperFrom_eq]
  simp [and_comm]

/-- A text reads as a capitalised name if it is in capitals, or would be but for
    title-case letters. -/
theorem isUpperText_eq_true_iff : isUpperText s = true ↔ InCapitals s ∨ IsMixed s := by
  rw [isUpperText_iff]
  constructor
  · rintro ⟨hcapital, hsmall⟩
    by_cases htitle : ∃ c ∈ s.toList, isTitle c = true
    · exact .inr ⟨hcapital, hsmall, htitle⟩
    · refine .inl ⟨hcapital, hsmall, fun c hc => ?_⟩
      rw [Bool.eq_false_iff]
      exact fun h => htitle ⟨c, hc, h⟩
  · rintro (h | h)
    · exact ⟨h.capital, h.notSmall⟩
    · exact ⟨h.capital, h.notSmall⟩

/-- A text reads as a capitalised name exactly if it is in capitals, unless it is mixed. -/
theorem isUpperText_agrees_iff : (isUpperText s = true ↔ InCapitals s) ↔ ¬IsMixed s := by
  rw [isUpperText_eq_true_iff]
  constructor
  · intro h hmixed
    exact hmixed.not_inCapitals (h.1 (.inr hmixed))
  · exact fun h => or_iff_left h

end RepoAtlas.Text
