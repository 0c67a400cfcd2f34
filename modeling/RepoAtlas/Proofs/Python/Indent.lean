import RepoAtlas.Proofs.Bytes.Utf8
import RepoAtlas.Proofs.Text.Visible
import RepoAtlas.Python.Docstring

/-!
# Margins and blank ends

What becomes of the lines of a docstring. Each of them loses blanks, and behind the
first as many characters as the margin has (`shed`); then the blank lines at either
end are left out (`core`).

The margin is the smallest number of *bytes* that an indent takes (`margin_le`,
`exists_margin`), whereas a line keeps all that is seen of it if its indent has at
least so many *characters* (`allBlank_take_iff`). Both are the same for an indent of
spaces (`indentSize_of_spaces`).
-/

namespace RepoAtlas.Python

open Text

variable {c : Char} {line row : List Char} {lines rows : List (List Char)}

/-! ### Indents -/

/-- The blanks that a line begins with. -/
def indent (line : List Char) : List Char := line.takeWhile isBlank

theorem indent_append_trimLeft (line : List Char) : indent line ++ trimLeft line = line :=
  List.takeWhile_append_dropWhile

/-- The size of an indent is counted in bytes. -/
theorem indentSize_eq (line : List Char) : indentSize line = Utf8.size (indent line) := by
  have hline := Utf8.size_append (indent line) (trimLeft line)
  rw [indent_append_trimLeft] at hline
  rw [indentSize, hline, Nat.add_sub_cancel]

theorem indent_eq_replicate (h : ∀ c ∈ line, isBlank c = true → c = ' ') :
    indent line = List.replicate (indent line).length ' ' :=
  List.eq_replicate_of_mem fun c hc =>
    h c ((List.takeWhile_prefix isBlank).subset hc) (List.mem_takeWhile_imp hc)

/-- An indent of spaces takes as many bytes as it has characters. -/
theorem indentSize_of_spaces (h : ∀ c ∈ line, isBlank c = true → c = ' ') :
    indentSize line = (indent line).length := by
  rw [indentSize_eq, indent_eq_replicate h, Utf8.size_replicate, List.length_replicate]
  exact Nat.mul_one _

/-- What is cut off a line is blank if it lies within the indent. -/
theorem allBlank_take_iff (n : Nat) (line : List Char) :
    allBlank (line.take n) = true ↔ allBlank line = true ∨ n ≤ (indent line).length := by
  induction line generalizing n with
  | nil => simp [allBlank]
  | cons c line ih =>
    cases n with
    | zero => simp [allBlank]
    | succ n =>
      cases hc : isBlank c with
      | true => simpa [allBlank, indent, hc] using ih n
      | false => simp [allBlank, indent, hc]

/-! ### The margin -/

/-- The lines that are not blank. -/
def filled (lines : List (List Char)) : List (List Char) := lines.filter fun line => !allBlank line

theorem mem_filled_iff : line ∈ filled lines ↔ line ∈ lines ∧ allBlank line = false := by
  rw [filled, List.mem_filter, Bool.not_eq_true']

/-- The margin is no wider than the indent of any line that is not blank. -/
theorem margin_le (h : line ∈ filled lines) : margin lines ≤ indentSize line :=
  List.min?_getD_le_of_mem (List.mem_map_of_mem h)

/-- The margin is the indent of some line, if not all are blank. -/
theorem exists_margin (h : line ∈ filled lines) :
    ∃ other ∈ filled lines, indentSize other = margin lines := by
  cases hmin : ((filled lines).map indentSize).min? with
  | none =>
    rw [List.min?_eq_none_iff, List.map_eq_nil_iff] at hmin
    rw [hmin] at h
    exact absurd h List.not_mem_nil
  | some width =>
    obtain ⟨other, hother, hsize⟩ := List.mem_map.1 (List.min?_eq_some_iff.1 hmin).1
    refine ⟨other, hother, ?_⟩
    rw [margin, ← filled, hmin, hsize, Option.getD_some]

/-! ### Between the blank ends -/

/-- The lines from the first to the last that is not blank. -/
def core (lines : List (List Char)) : List (List Char) :=
  (dropBlankEnd lines).dropWhile allBlank

/-- The core of lines has nothing but blank lines about it. -/
theorem exists_core (lines : List (List Char)) :
    ∃ above below, lines = above ++ core lines ++ below ∧
      (∀ line ∈ above, allBlank line = true) ∧ ∀ line ∈ below, allBlank line = true := by
  refine ⟨(dropBlankEnd lines).takeWhile allBlank, lines.rtakeWhile allBlank, ?_,
    fun line => List.mem_takeWhile_imp, fun line => List.mem_rtakeWhile_imp⟩
  rw [core, List.takeWhile_append_dropWhile]
  exact List.rdropWhile_append_rtakeWhile.symm

theorem core_eq_nil (h : ∀ line ∈ lines, allBlank line = true) : core lines = [] := by
  have hend : dropBlankEnd lines = [] := List.rdropWhile_eq_nil_iff.2 h
  rw [core, hend, List.dropWhile_nil]

theorem head?_core (h : line ∈ (core lines).head?) : allBlank line = false := by
  have hne : core lines ≠ [] := fun hnil => by rw [hnil] at h; cases h
  rw [Option.mem_def, List.head?_eq_some_head hne] at h
  rw [← Option.some_inj.1 h]
  exact List.head_dropWhile_not allBlank hne

theorem getLast?_core (h : line ∈ (core lines).getLast?) : allBlank line = false := by
  have hne : core lines ≠ [] := fun hnil => by rw [hnil] at h; cases h
  -- The last line is also that of the lines whose blank end alone is left out.
  have hsuffix : core lines <:+ dropBlankEnd lines := List.dropWhile_suffix allBlank
  rw [Option.mem_def, List.getLast?_eq_some_getLast hne, hsuffix.getLast hne] at h
  rw [← Option.some_inj.1 h]
  exact Bool.eq_false_iff.2 (List.rdropWhile_last_not allBlank lines _)

/-- Of all lines is seen what is seen of their core. -/
theorem flatMap_visible_core (lines : List (List Char)) :
    (core lines).flatMap visible = lines.flatMap visible := by
  obtain ⟨above, below, hlines, habove, hbelow⟩ := exists_core lines
  conv => rhs; rw [hlines]
  rw [List.flatMap_append, List.flatMap_append, flatMap_visible_of_blank habove,
    flatMap_visible_of_blank hbelow, List.nil_append, List.append_nil]

/-! ### Line by line -/

/-- A line behind the first, without the margin and the blanks it ends with. -/
def shedLine (width : Nat) (row : List Char) : List Char := trimRight (row.drop width)

/-- The lines, each without the blanks it loses. -/
def shed : List (List Char) → List (List Char)
  | [] => []
  | first :: others => trimLeft first :: others.map (shedLine (margin others))

/-- What is left of the lines is what stands between the blank ones at both ends. -/
theorem cleanLines_eq (rows : List (List Char)) : cleanLines rows = core (shed rows) := by
  cases rows <;> rfl

/-- A line loses nothing that is seen if its indent has as many characters as are taken
    away. -/
theorem visible_shedLine_iff (width : Nat) (row : List Char) :
    visible (shedLine width row) = visible row ↔
      allBlank row = true ∨ width ≤ (indent row).length := by
  rw [shedLine, visible_trimRight, visible_drop_iff, allBlank_take_iff]

theorem sublist_shedLine (width : Nat) (row : List Char) : (shedLine width row).Sublist row :=
  (List.IsPrefix.sublist <| trimRight_prefix _).trans (List.drop_sublist width row)

theorem exists_of_mem_shed (h : line ∈ shed rows) : ∃ row ∈ rows, line.Sublist row := by
  cases rows with
  | nil => exact absurd h List.not_mem_nil
  | cons first others =>
    rcases List.mem_cons.1 h with rfl | h
    · exact ⟨first, List.mem_cons_self, List.dropWhile_sublist isBlank⟩
    · obtain ⟨row, hrow, rfl⟩ := List.mem_map.1 h
      exact ⟨row, List.mem_cons_of_mem _ hrow, sublist_shedLine _ row⟩

end RepoAtlas.Python
