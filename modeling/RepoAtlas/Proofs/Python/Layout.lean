import RepoAtlas.Proofs.Python.Indent
import RepoAtlas.Proofs.Python.Tabs

/-!
# The layout of a docstring

A text without other blanks than spaces, tabs and line breaks is laid out line by
line (`LaidOut`): of its lines with the tabs widened, the *rows*, those from the first
to the last that is not blank are left, the first row without its indent and each
other one without the margin and the blanks it ends with. No row is cut behind its
indent, because an indent of spaces takes as many bytes as it has characters.
-/

namespace RepoAtlas.Python

open Text

variable {row : List Char} {rows : List (List Char)} {width : Nat}

/-- The rows have no blanks but spaces. -/
def Spaced (rows : List (List Char)) : Prop :=
  ∀ row ∈ rows, ∀ c ∈ row, isBlank c = true → c = ' '

/-- The lines are the rows laid out: there is a line for every row from `start` on, up
    to the last that is not blank. -/
structure LaidOut (rows lines : List (List Char)) (start width : Nat) : Prop where
  /-- The first line is not blank. -/
  opens : ∀ line ∈ lines.head?, allBlank line = false
  /-- Nor is the last. -/
  closes : ∀ line ∈ lines.getLast?, allBlank line = false
  /-- The rows above the lines are blank. -/
  above : ∀ row ∈ rows.take start, allBlank row = true
  /-- So are those below. -/
  below : ∀ row ∈ rows.drop (start + lines.length), allBlank row = true
  /-- Every row behind the first that is not blank has an indent of at least the margin. -/
  least : ∀ row ∈ filled rows.tail, width ≤ (indent row).length
  /-- If there are such rows, one has an indent of that size. -/
  attained : filled rows.tail ≠ [] → ∃ row ∈ filled rows.tail, (indent row).length = width
  /-- The first row loses its indent. -/
  first : start = 0 → lines.head? = rows.head?.map trimLeft
  /-- Every other row loses the margin, and the blanks it ends with. -/
  others : ∀ i < lines.length, 0 < start + i →
    lines[i]? = rows[start + i]?.map fun row => trimRight (row.drop width)
  /-- So a row that is not blank is left with the rest of its indent. -/
  relative : ∀ i < lines.length, 0 < start + i → ∀ row ∈ rows[start + i]?,
    allBlank row = false →
      lines[i]? = some (List.replicate ((indent row).length - width) ' ' ++ trimBoth row)

/-! ### Row by row -/

/-- Of a line with an indent of spaces, what is left is what the margin leaves of it,
    and the text. -/
theorem shedLine_of_spaces (hspaces : ∀ c ∈ row, isBlank c = true → c = ' ')
    (hwidth : width ≤ (indent row).length) (h : allBlank row = false) :
    shedLine width row =
      List.replicate ((indent row).length - width) ' ' ++ trimBoth row := by
  have hdrop : row.drop width =
      List.replicate ((indent row).length - width) ' ' ++ trimLeft row := by
    conv => lhs; rw [← indent_append_trimLeft row, List.drop_append_of_le_length hwidth,
      indent_eq_replicate hspaces, List.drop_replicate]
  have hleft : allBlank (trimLeft row) = false := by
    rw [allBlank_congr (visible_trimLeft row), h]
  rw [shedLine, hdrop, trimRight_append_of_not_blank hleft, trimBoth]

/-- In rows without other blanks than spaces, the margin is within every indent. -/
theorem margin_le_length_indent (hspaces : Spaced rows) (h : row ∈ filled rows) :
    margin rows ≤ (indent row).length :=
  indentSize_of_spaces (hspaces row (mem_filled_iff.1 h).1) ▸ margin_le h

theorem Spaced.tail (h : Spaced rows) : Spaced rows.tail :=
  fun row hrow => h row (List.mem_of_mem_tail hrow)

theorem head?_shed (rows : List (List Char)) : (shed rows).head? = rows.head?.map trimLeft := by
  cases rows <;> rfl

/-- Every line but the first sheds the margin. -/
theorem getElem?_shed {i : Nat} (hi : 0 < i) (rows : List (List Char)) :
    (shed rows)[i]? = rows[i]?.map (shedLine (margin rows.tail)) := by
  obtain ⟨i, rfl⟩ := Nat.exists_eq_add_of_lt hi
  cases rows with
  | nil => rfl
  | cons first others => simp [shed]

/-- A row is blank after it has lost what it loses, if and only if it was before. -/
theorem map_allBlank_shed (hspaces : Spaced rows) :
    (shed rows).map allBlank = rows.map allBlank := by
  cases rows with
  | nil => rfl
  | cons first others =>
    rw [shed, List.map_cons, List.map_cons, allBlank_congr (visible_trimLeft first), List.map_map]
    refine congrArg _ (List.map_congr_left fun row hrow => ?_)
    refine allBlank_congr ((visible_shedLine_iff _ row).2 ?_)
    cases h : allBlank row with
    | true => exact .inl rfl
    | false => exact .inr (margin_le_length_indent hspaces.tail (mem_filled_iff.2 ⟨hrow, h⟩))

theorem forall_allBlank_congr {lines : List (List Char)}
    (h : lines.map allBlank = rows.map allBlank) (hlines : ∀ line ∈ lines, allBlank line = true) :
    ∀ row ∈ rows, allBlank row = true := by
  intro row hrow
  have hmem : allBlank row ∈ lines.map allBlank := h ▸ List.mem_map_of_mem hrow
  obtain ⟨line, hline, heq⟩ := List.mem_map.1 hmem
  exact heq ▸ hlines line hline

/-! ### All rows -/

theorem laidOut_of_shed {above lines below : List (List Char)} (hspaces : Spaced rows)
    (hshed : shed rows = above ++ lines ++ below) (hne : lines ≠ [])
    (hopens : ∀ line ∈ lines.head?, allBlank line = false)
    (hcloses : ∀ line ∈ lines.getLast?, allBlank line = false)
    (habove : ∀ line ∈ above, allBlank line = true)
    (hbelow : ∀ line ∈ below, allBlank line = true) :
    LaidOut rows lines above.length (margin rows.tail) := by
  have hblank := map_allBlank_shed hspaces
  rw [hshed] at hblank
  have hothers {i : Nat} (hi : i < lines.length) (hpos : 0 < above.length + i) :
      lines[i]? = rows[above.length + i]?.map (shedLine (margin rows.tail)) := by
    rw [← getElem?_shed hpos, hshed, List.append_assoc,
      List.getElem?_append_right (Nat.le_add_right _ i), Nat.add_sub_cancel_left,
      List.getElem?_append_left hi]
  refine ⟨hopens, hcloses, ?above, ?below, fun row => margin_le_length_indent hspaces.tail,
    ?attained, ?first, fun i => hothers, ?relative⟩
  case above =>
    refine forall_allBlank_congr ?_ habove
    rw [List.map_take, ← hblank, ← List.map_take, List.append_assoc, List.take_left]
  case below =>
    refine forall_allBlank_congr ?_ hbelow
    rw [List.map_drop, ← hblank, ← List.map_drop, ← List.length_append, List.drop_left]
  case attained =>
    intro hsome
    obtain ⟨row, hrow⟩ := List.exists_mem_of_ne_nil _ hsome
    obtain ⟨other, hother, hsize⟩ := exists_margin hrow
    refine ⟨other, hother, ?_⟩
    rw [← indentSize_of_spaces (hspaces.tail other (mem_filled_iff.1 hother).1), hsize]
  case first =>
    intro hstart
    rw [← head?_shed, hshed, List.eq_nil_of_length_eq_zero hstart, List.nil_append,
      List.head?_append_of_ne_nil _ hne]
  case relative =>
    intro i hi hpos row hrow h
    -- The row is not the first, so its indent is one of those the margin is taken from.
    have htail : row ∈ rows.tail := by
      obtain ⟨k, hk⟩ := Nat.exists_add_one_eq.2 hpos
      rw [← hk, ← List.getElem?_tail] at hrow
      exact List.mem_of_getElem? hrow
    have hwidth := margin_le_length_indent hspaces.tail (mem_filled_iff.2 ⟨htail, h⟩)
    rw [hothers hi hpos, hrow, Option.map_some,
      shedLine_of_spaces (hspaces.tail row htail) hwidth h]

/-- The lines that are left are laid out, if any is. -/
theorem laidOut_cleanLines (hspaces : Spaced rows) (h : cleanLines rows ≠ []) :
    ∃ start width, LaidOut rows (cleanLines rows) start width := by
  rw [cleanLines_eq] at h ⊢
  obtain ⟨above, below, hshed, habove, hbelow⟩ := exists_core (shed rows)
  exact ⟨_, _, laidOut_of_shed hspaces hshed h (fun _ => head?_core) (fun _ => getLast?_core)
    habove hbelow⟩

/-- No line is left if all rows are blank, and only then. -/
theorem cleanLines_eq_nil_iff (hspaces : Spaced rows) :
    cleanLines rows = [] ↔ ∀ row ∈ rows, allBlank row = true := by
  have hblank := map_allBlank_shed hspaces
  rw [cleanLines_eq]
  constructor
  · intro hnil
    obtain ⟨above, below, hshed, habove, hbelow⟩ := exists_core (shed rows)
    rw [hnil, List.append_nil] at hshed
    refine forall_allBlank_congr hblank ?_
    rw [hshed]
    exact List.forall_mem_append.2 ⟨habove, hbelow⟩
  · exact fun hrows => core_eq_nil (forall_allBlank_congr hblank.symm hrows)

/-! ### The text -/

/-- What a line of a docstring is made of is in a row. -/
theorem exists_of_mem_cleanLines {line : List Char} (h : line ∈ cleanLines rows) :
    ∃ row ∈ rows, line.Sublist row := by
  rw [cleanLines_eq] at h
  obtain ⟨above, below, hshed, -, -⟩ := exists_core (shed rows)
  exact exists_of_mem_shed (hshed ▸ List.mem_append_left _ (List.mem_append_right _ h))

/-- The lines of a text that is cleaned are the clean ones. -/
theorem splitAtBreaks_cleanDoc {doc : String}
    (h : cleanLines (splitAtBreaks (expandTabs doc.toList)) ≠ []) :
    splitAtBreaks (cleanDoc doc).toList =
      cleanLines (splitAtBreaks (expandTabs doc.toList)) := by
  rw [cleanDoc, String.toList_ofList]
  refine splitAtBreaks_joinWith h fun line hline hbreak => ?_
  obtain ⟨row, hrow, hsub⟩ := exists_of_mem_cleanLines hline
  exact (exists_mem_splitAtBreaks_iff.1 ⟨row, hrow, hsub.subset hbreak⟩).2 rfl

/-- No tab is left in a text that is cleaned. -/
theorem tab_notMem_cleanDoc {doc : String}
    (h : cleanLines (splitAtBreaks (expandTabs doc.toList)) ≠ []) :
    '\t' ∉ (cleanDoc doc).toList := by
  intro htab
  obtain ⟨line, hline, hmem⟩ := exists_mem_splitAtBreaks_iff.2 ⟨htab, by decide⟩
  rw [splitAtBreaks_cleanDoc h] at hline
  obtain ⟨row, hrow, hsub⟩ := exists_of_mem_cleanLines hline
  have hexpanded := (exists_mem_splitAtBreaks_iff.1 ⟨row, hrow, hsub.subset hmem⟩).1
  rcases mem_expandTabsFrom hexpanded with hspace | hnot
  · exact absurd hspace (by decide)
  · exact hnot.2 rfl

/-- Where all blanks are spaces, tabs and breaks, the rows have no blanks but spaces. -/
theorem spaced_rows {cs : List Char}
    (h : ∀ c ∈ cs, isBlank c = true → c = ' ' ∨ c = '\t' ∨ c = '\n') :
    Spaced (splitAtBreaks (expandTabs cs)) := by
  intro row hrow c hc hblank
  obtain ⟨hexpanded, hbreak⟩ := exists_mem_splitAtBreaks_iff.1 ⟨row, hrow, hc⟩
  rcases mem_expandTabsFrom hexpanded with hspace | ⟨hmem, htab⟩
  · exact hspace
  · exact (h c hmem hblank).resolve_right (not_or.2 ⟨htab, hbreak⟩)

/-- A text whose blanks are spaces, tabs and line breaks is laid out: nothing is left of
    it if it is blank, and only then; otherwise no tab is, and the lines are those of
    the text with their tabs widened, laid out. -/
theorem cleanDoc_laidOut (doc : String)
    (h : ∀ c ∈ doc.toList, isBlank c = true → c = ' ' ∨ c = '\t' ∨ c = '\n') :
    (cleanDoc doc = "" ↔ isBlankText doc = true) ∧
      (isBlankText doc = false → '\t' ∉ (cleanDoc doc).toList ∧
        ∃ start width, LaidOut ((splitAtBreaks doc.toList).map widened)
          (splitAtBreaks (cleanDoc doc).toList) start width) := by
  have hrows : splitAtBreaks (expandTabs doc.toList) = (splitAtBreaks doc.toList).map widened :=
    splitAtBreaks_expandTabs fun hreturn => by simpa using h _ hreturn (by decide)
  have hspaces := spaced_rows h
  have hnil : cleanLines (splitAtBreaks (expandTabs doc.toList)) = [] ↔ isBlankText doc = true :=
    (cleanLines_eq_nil_iff hspaces).trans (forall_allBlank_rows_iff doc.toList)
  have hlaid (hfilled : isBlankText doc = false) : '\t' ∉ (cleanDoc doc).toList ∧
      ∃ start width, LaidOut ((splitAtBreaks doc.toList).map widened)
        (splitAtBreaks (cleanDoc doc).toList) start width := by
    have hne : cleanLines (splitAtBreaks (expandTabs doc.toList)) ≠ [] := by
      rw [Ne, hnil, hfilled]
      exact Bool.false_ne_true
    refine ⟨tab_notMem_cleanDoc hne, ?_⟩
    rw [splitAtBreaks_cleanDoc hne, ← hrows]
    exact laidOut_cleanLines hspaces hne
  refine ⟨⟨fun hempty => ?_, fun hblank => ?_⟩, hlaid⟩
  · -- A text of nothing has one line, which is blank, so it is not laid out.
    by_contra hfilled
    obtain ⟨-, start, width, hlines⟩ := hlaid (Bool.eq_false_iff.2 hfilled)
    rw [hempty] at hlines
    exact absurd (hlines.opens [] rfl) (by decide)
  · rw [cleanDoc, hnil.2 hblank]
    rfl

/-- A first line with an indent of its own, and two with tabs about a blank one. -/
theorem cleanDoc_laidOut_tabbed :
    (∀ c ∈ " a\n\tb\n \n\t  c\td \n".toList, isBlank c = true → c = ' ' ∨ c = '\t' ∨ c = '\n') ∧
      cleanDoc " a\n\tb\n \n\t  c\td \n" = "a\nb\n\n  c     d" ∧
      ∃ start width, LaidOut ((splitAtBreaks " a\n\tb\n \n\t  c\td \n".toList).map widened)
        (splitAtBreaks (cleanDoc " a\n\tb\n \n\t  c\td \n").toList) start width := by
  have hall : (" a\n\tb\n \n\t  c\td \n".toList.all fun c =>
      !isBlank c || c == ' ' || c == '\t' || c == '\n') = true := rfl
  have h : ∀ c ∈ " a\n\tb\n \n\t  c\td \n".toList,
      isBlank c = true → c = ' ' ∨ c = '\t' ∨ c = '\n' := fun c hc hblank => by
    simpa [hblank, or_assoc] using List.all_eq_true.1 hall c hc
  exact ⟨h, by decide, ((cleanDoc_laidOut _ h).2 (by decide)).2⟩

end RepoAtlas.Python
