import RepoAtlas.Proofs.Python.Layout
import RepoAtlas.Proofs.Text.Returns
import Mathlib.Data.List.Forall2

/-!
# Docstrings and line ends

A return at the end of a line is a blank like others (`Trails`): it does not count in
a margin (`margin_congr`), and it is trimmed with the end of the line
(`shedLine_congr`). The first line alone is not trimmed at its end. So a docstring is
laid out the same with either kind of line ends, unless it has text on its first line
and lines below that (`startsAbove`): then the return of the first line is left
(`cleanDoc_withReturns_iff`).
-/

namespace RepoAtlas.Python

open Text

variable {line row : List Char} {lines rows : List (List Char)}

/-! ### Blanks at the ends of lines -/

/-- The row is the line with blanks behind it, or without. -/
def Trails (line row : List Char) : Prop := ∃ more, row = line ++ more ∧ allBlank more = true

theorem Trails.refl (line : List Char) : Trails line line := ⟨[], by simp, rfl⟩

/-- Returns at the ends of lines are blanks that trail. -/
theorem forall₂_trails_endInReturns (lines : List (List Char)) :
    List.Forall₂ Trails lines (endInReturns lines) := by
  induction lines with
  | nil => exact .nil
  | cons line lines ih =>
    cases lines with
    | nil => exact .cons (.refl line) .nil
    | cons next lines => exact .cons ⟨['\r'], rfl, rfl⟩ ih

theorem Trails.allBlank_eq (h : Trails line row) : allBlank row = allBlank line := by
  obtain ⟨more, rfl, hmore⟩ := h
  rw [allBlank] at hmore
  rw [allBlank, List.all_append, hmore, Bool.and_true, allBlank]

theorem Trails.indentSize_eq (h : Trails line row) (hline : allBlank line = false) :
    indentSize row = indentSize line := by
  obtain ⟨more, rfl, -⟩ := h
  rw [indentSize, trimLeft_append_of_not_blank hline, Utf8.size_append, Utf8.size_append,
    indentSize]
  omega

/-- Blanks that trail are trimmed away. -/
theorem shedLine_congr (h : Trails line row) (width : Nat) :
    shedLine width row = shedLine width line := by
  obtain ⟨more, rfl, hmore⟩ := h
  have hdrop : allBlank (more.drop (width - line.length)) = true :=
    List.all_eq_true.2 fun c hc => List.all_eq_true.1 hmore c (List.mem_of_mem_drop hc)
  rw [shedLine, List.drop_append, trimRight_append_of_blank hdrop, shedLine]

/-- They make no difference to the margin. -/
theorem margin_congr (h : List.Forall₂ Trails lines rows) : margin rows = margin lines := by
  have hsizes : (filled rows).map indentSize = (filled lines).map indentSize := by
    induction h with
    | nil => rfl
    | @cons line row lines rows hline _ ih =>
      cases hblank : allBlank line with
      | true => simpa [filled, hline.allBlank_eq, hblank] using ih
      | false => simpa [filled, hline.allBlank_eq, hblank, hline.indentSize_eq hblank] using ih
  rw [margin, ← filled, hsizes, margin, filled]

theorem map_shedLine_congr (h : List.Forall₂ Trails lines rows) (width : Nat) :
    rows.map (shedLine width) = lines.map (shedLine width) := by
  induction h with
  | nil => rfl
  | cons hline _ ih => rw [List.map_cons, List.map_cons, ih, shedLine_congr hline]

/-! ### Rows -/

theorem expandTabsFrom_addReturns (column : Nat) (cs : List Char) :
    expandTabsFrom column (addReturns cs) = addReturns (expandTabsFrom column cs) := by
  fun_induction expandTabsFrom column cs with
  | case1 => rfl
  | case2 column rest width ih =>
    have hspaces : '\n' ∉ List.replicate width ' ' := fun h =>
      absurd (List.eq_of_mem_replicate h) (by decide)
    rw [addReturns_append, addReturns_of_notMem hspaces, ← ih, addReturns_cons (by decide),
      expandTabsFrom, if_pos rfl]
  | case3 column c rest htab hbreak ih =>
    rcases hbreak with rfl | rfl
    · -- Behind the return the column is back at zero, and behind the break again.
      rw [addReturns_break, expandTabsFrom, if_neg (by decide), if_pos (.inr rfl), expandTabsFrom,
        if_neg (by decide), if_pos (.inl rfl), ih]
      rfl
    · rw [addReturns_cons (by decide), expandTabsFrom, if_neg htab, if_pos (.inr rfl), ih,
        addReturns_cons (by decide)]
  | case4 column c rest htab hbreak ih =>
    rw [addReturns_cons (not_or.1 hbreak).1, expandTabsFrom, if_neg htab, if_neg hbreak, ih,
      addReturns_cons (not_or.1 hbreak).1]

/-- The rows are the same, but that all except the last end in a return. -/
theorem rows_addReturns (cs : List Char) :
    splitAtBreaks (expandTabs (addReturns cs)) = endInReturns (splitAtBreaks (expandTabs cs)) := by
  rw [expandTabs, expandTabsFrom_addReturns, splitAtBreaks_addReturns, expandTabs]

/-- Every row behind the first loses its return with what else it loses. -/
theorem shed_endInReturns (first : List Char) (hne : lines ≠ []) :
    shed (endInReturns (first :: lines)) =
      trimLeft (first ++ ['\r']) :: lines.map (shedLine (margin lines)) := by
  have htrails := forall₂_trails_endInReturns lines
  rw [endInReturns_cons first hne, shed, margin_congr htrails, map_shedLine_congr htrails]

theorem core_cons_of_not_blank (h : allBlank line = false) (lines : List (List Char)) :
    core (line :: lines) = line :: dropBlankEnd lines := by
  have hend : dropBlankEnd (line :: lines) = line :: dropBlankEnd lines := by
    rw [dropBlankEnd, dropBlankEnd, List.reverse_cons, List.dropWhile_append]
    split
    · rename_i hnil
      rw [List.isEmpty_iff.1 hnil, List.dropWhile_cons_of_neg (by simp [h])]
      rfl
    · rw [List.reverse_append]
      rfl
  rw [core, hend, List.dropWhile_cons_of_neg (by simp [h])]

/-- Rows that begin with a blank one, or are one row, are laid out as without returns. -/
theorem cleanLines_endInReturns_of_blank (h : lines = [] ∨ allBlank line = true) :
    cleanLines (endInReturns (line :: lines)) = cleanLines (line :: lines) := by
  by_cases hne : lines = []
  · rw [hne, endInReturns]
  · have hline := h.resolve_left hne
    rw [cleanLines_eq, shed_endInReturns line hne, trimLeft_append_of_blank hline, cleanLines_eq,
      shed, trimLeft_eq_nil_iff.2 hline]
    rfl

/-- The return of a first row that is not blank is left. -/
theorem exists_cleanLines_endInReturns (hne : lines ≠ []) (h : allBlank line = false) :
    ∃ first others, cleanLines (line :: lines) = first :: others ∧
      cleanLines (endInReturns (line :: lines)) = (first ++ ['\r']) :: others := by
  have hleft : allBlank (trimLeft line) = false := by
    rw [allBlank_congr (visible_trimLeft line), h]
  have hreturn : allBlank (trimLeft line ++ ['\r']) = false := by
    rw [Trails.allBlank_eq ⟨_, rfl, rfl⟩, hleft]
  refine ⟨trimLeft line, dropBlankEnd (lines.map (shedLine (margin lines))), ?_, ?_⟩
  · rw [cleanLines_eq, shed, core_cons_of_not_blank hleft]
  · rw [cleanLines_eq, shed_endInReturns line hne, trimLeft_append_of_not_blank h,
      core_cons_of_not_blank hreturn]

/-! ### The text -/

/-- Whether a docstring has text on its first line and lines below it. -/
def startsAbove (doc : String) : Bool :=
  match splitAtBreaks doc.toList with
  | first :: _ :: _ => !allBlank first
  | _ => false

/-- With returns, the text is cleaned as its rows with a return at each end. -/
theorem cleanDoc_withReturns (doc : String) :
    cleanDoc (withReturns doc) =
      String.ofList (joinWith ['\n']
        (cleanLines (endInReturns (splitAtBreaks (expandTabs doc.toList))))) := by
  rw [cleanDoc, withReturns, String.toList_ofList, rows_addReturns]

theorem startsAbove_eq (doc : String) (h : '\r' ∉ doc.toList) {first : List Char}
    (hrows : splitAtBreaks (expandTabs doc.toList) = first :: rows) :
    startsAbove doc = (!rows.isEmpty && !allBlank first) := by
  rw [splitAtBreaks_expandTabs h] at hrows
  unfold startsAbove
  match hlines : splitAtBreaks doc.toList with
  | [] => exact absurd hlines (splitAtBreaks_ne_nil _)
  | [line] =>
    rw [hlines] at hrows
    cases hrows
    rfl
  | line :: next :: lines =>
    have hline : ∀ c ∈ line, c ≠ '\n' ∧ c ≠ '\r' := fun c hc => by
      obtain ⟨hmem, hbreak⟩ :=
        exists_mem_splitAtBreaks_iff.1 ⟨line, hlines ▸ List.mem_cons_self, hc⟩
      exact ⟨hbreak, fun hreturn => h (hreturn ▸ hmem)⟩
    rw [hlines] at hrows
    cases hrows
    rw [← expandTabs_line hline, allBlank_congr (visible_expandTabs line)]
    rfl

/-- A docstring without returns is laid out the same if each of its line breaks gets a
    return before it, unless it has text on its first line and lines below it, and only
    then. In that case the first line has a return at its end, and the others are the
    same. -/
theorem cleanDoc_withReturns_iff (doc : String) (h : '\r' ∉ doc.toList) :
    (cleanDoc (withReturns doc) = cleanDoc doc ↔ startsAbove doc = false) ∧
      (startsAbove doc = true →
        splitAtBreaks (cleanDoc (withReturns doc)).toList =
          (splitAtBreaks (cleanDoc doc).toList).modifyHead (· ++ ['\r'])) := by
  obtain ⟨line, lines, hrows⟩ :=
    List.exists_cons_of_ne_nil (splitAtBreaks_ne_nil (expandTabs doc.toList))
  have hstarts := startsAbove_eq doc h hrows
  have hleft (hstart : startsAbove doc = true) :
      ∃ first others, splitAtBreaks (cleanDoc doc).toList = first :: others ∧
        splitAtBreaks (cleanDoc (withReturns doc)).toList = (first ++ ['\r']) :: others := by
    rw [hstarts, Bool.and_eq_true, Bool.not_eq_true', Bool.not_eq_true'] at hstart
    obtain ⟨first, others, hclean, hreturns⟩ :=
      exists_cleanLines_endInReturns (List.isEmpty_eq_false_iff.1 hstart.1) hstart.2
    rw [← hrows] at hclean hreturns
    have hrows' : splitAtBreaks (expandTabs (withReturns doc).toList) =
        endInReturns (splitAtBreaks (expandTabs doc.toList)) := by
      rw [withReturns, String.toList_ofList, rows_addReturns]
    refine ⟨first, others, ?_, ?_⟩
    · rw [splitAtBreaks_cleanDoc (hclean ▸ List.cons_ne_nil _ _), hclean]
    · rw [splitAtBreaks_cleanDoc (by rw [hrows', hreturns]; exact List.cons_ne_nil _ _), hrows',
        hreturns]
  refine ⟨⟨fun heq => ?_, fun hnot => ?_⟩, fun hstart => ?_⟩
  · refine Bool.eq_false_iff.2 fun hstart => ?_
    obtain ⟨first, others, hclean, hreturns⟩ := hleft hstart
    rw [heq, hclean] at hreturns
    exact absurd (List.cons.inj hreturns).1 (by simp)
  · have hblank : lines = [] ∨ allBlank line = true := by
      rw [hstarts, Bool.and_eq_false_iff, Bool.not_eq_false', Bool.not_eq_false'] at hnot
      exact hnot.imp_left List.isEmpty_iff.1
    rw [cleanDoc_withReturns, hrows, cleanLines_endInReturns_of_blank hblank, cleanDoc, hrows]
  · obtain ⟨first, others, hclean, hreturns⟩ := hleft hstart
    rw [hreturns, hclean, List.modifyHead_cons]

/-- A docstring whose text begins below its first line, and one whose text begins on it. -/
theorem cleanDoc_withReturns_iff_indented :
    '\r' ∉ "\n  a\n\tb\n".toList ∧ cleanDoc (withReturns "\n  a\n\tb\n") = "a\n      b" ∧
      cleanDoc (withReturns "a\n  b") = "a\r\nb" := by
  refine ⟨by decide, ?_, by decide⟩
  rw [(cleanDoc_withReturns_iff "\n  a\n\tb\n" (by decide)).1.2 (by decide)]
  decide

/-- The return of the first line is left where it stands. -/
theorem cleanDoc_keeps_return :
    '\r' ∉ "a\nb".toList ∧ withReturns "a\nb" = "a\r\nb" ∧
      cleanDoc "a\nb" = "a\nb" ∧ cleanDoc (withReturns "a\nb") = "a\r\nb" := by
  decide

end RepoAtlas.Python
