import RepoAtlas.Proofs.Python.Indent
import RepoAtlas.Proofs.Python.Tabs

/-!
# What is seen of a docstring

Laying a docstring out adds nothing that is seen and changes no order. It keeps all
that is seen if and only if no line behind the first has an indent of fewer
characters than the margin (`flatMap_visible_shed_iff`). As the margin counts bytes,
this can fail where an indent has blanks of several bytes.
-/

namespace RepoAtlas.Python

open Text

/-- The lines that set the margin of a docstring: those behind the first that are not
    blank, with their tabs expanded. -/
def followers (doc : String) : List (List Char) :=
  filled (splitAtBreaks (expandTabs doc.toList)).tail

theorem visible_cleanDoc (doc : String) :
    visible (cleanDoc doc).toList =
      (shed (splitAtBreaks (expandTabs doc.toList))).flatMap visible := by
  rw [cleanDoc, String.toList_ofList, visible_joinWith, cleanLines_eq, flatMap_visible_core]

theorem sublist_flatMap_shed (rows : List (List Char)) :
    ((shed rows).flatMap visible).Sublist (rows.flatMap visible) := by
  cases rows with
  | nil => exact List.Sublist.refl _
  | cons first others =>
    rw [shed, List.flatMap_cons, List.flatMap_cons, visible_trimLeft, List.flatMap_map]
    exact List.Sublist.append_left
      (List.Sublist.flatMap_right others fun row _ => (sublist_shedLine _ row).filter _) _

/-- Nothing that is seen is lost if no line is cut behind its indent. -/
theorem flatMap_visible_shed_iff (first : List Char) (others : List (List Char)) :
    (shed (first :: others)).flatMap visible = (first :: others).flatMap visible ↔
      ∀ row ∈ others, allBlank row = true ∨ margin others ≤ (indent row).length := by
  rw [shed, List.flatMap_cons, List.flatMap_cons, visible_trimLeft, List.flatMap_map,
    List.append_right_inj,
    flatMap_visible_eq_iff fun row _ => (sublist_shedLine (margin others) row).filter _]
  exact forall₂_congr fun row _ => visible_shedLine_iff _ row

/-- The margin is within every indent if every indent has at least as many characters
    as some indent takes bytes. -/
theorem margin_within_iff (others : List (List Char)) :
    (∀ row ∈ others, allBlank row = true ∨ margin others ≤ (indent row).length) ↔
      ∀ row ∈ filled others, ∃ other ∈ filled others,
        Utf8.size (indent other) ≤ (indent row).length := by
  constructor
  · intro h row hrow
    obtain ⟨other, hother, hsize⟩ := exists_margin hrow
    obtain ⟨hmem, hfilled⟩ := mem_filled_iff.1 hrow
    refine ⟨other, hother, ?_⟩
    rw [← indentSize_eq, hsize]
    exact (h row hmem).resolve_left (by rw [hfilled]; exact Bool.false_ne_true)
  · intro h row hmem
    cases hblank : allBlank row with
    | true => exact .inl rfl
    | false =>
      obtain ⟨other, hother, hsize⟩ := h row (mem_filled_iff.2 ⟨hmem, hblank⟩)
      rw [← indentSize_eq] at hsize
      exact .inr ((margin_le hother).trans hsize)

/-- Of a docstring laid out is seen a part of what was seen of it, in the same order;
    and all of it, if and only if every line that sets the margin has an indent of as
    many characters as the indent of some such line takes bytes. -/
theorem visible_cleanDoc_iff (doc : String) :
    (visible (cleanDoc doc).toList).Sublist (visible doc.toList) ∧
      (visible (cleanDoc doc).toList = visible doc.toList ↔
        ∀ line ∈ followers doc, ∃ other ∈ followers doc,
          Utf8.size (indent other) ≤ (indent line).length) := by
  rw [visible_cleanDoc, ← flatMap_visible_rows]
  refine ⟨sublist_flatMap_shed _, ?_⟩
  obtain ⟨first, others, hrows⟩ :=
    List.exists_cons_of_ne_nil (splitAtBreaks_ne_nil (expandTabs doc.toList))
  rw [followers, hrows, flatMap_visible_shed_iff, margin_within_iff, List.tail_cons]

/-- A line behind the first that is indented by one blank of three bytes loses three
    characters. -/
theorem cleanDoc_wide_indent :
    visible (cleanDoc "\n\u3000ab").toList = [] ∧ visible "\n\u3000ab".toList = "ab".toList := by
  decide

end RepoAtlas.Python
