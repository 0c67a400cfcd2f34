import RepoAtlas.Text.Lines
import Mathlib.Data.List.Basic

/-!
# Laws of lines

The lines of a text are what the library cuts it into (`splitAtBreaks_eq_splitOn`),
and lines are put together as the library does it (`joinWith_eq_intercalate`). So a
text is taken apart and put together again without a change
(`joinWith_splitAtBreaks`), and so are lines that have no break of their own
(`splitAtBreaks_joinWith`).
-/

namespace RepoAtlas.Text

variable {c : Char} {cs line separator : List Char} {lines : List (List Char)}

/-! ### Taking apart -/

theorem splitAtBreaks_eq_splitOn (cs : List Char) : splitAtBreaks cs = cs.splitOn '\n' := by
  induction cs with
  | nil => rfl
  | cons c cs ih =>
    rw [splitAtBreaks, ih, List.splitOn_cons_eq_if_modifyHead]
    simp only [beq_iff_eq]
    obtain ⟨line, lines, hcs⟩ := List.exists_cons_of_ne_nil (List.splitOn_ne_nil '\n' cs)
    rw [hcs, List.modifyHead_cons]

theorem splitAtBreaks_ne_nil (cs : List Char) : splitAtBreaks cs ≠ [] :=
  splitAtBreaks_eq_splitOn cs ▸ List.splitOn_ne_nil '\n' cs

/-- At a break, the lines before it end and those behind it begin. -/
theorem splitAtBreaks_append (front cs : List Char) :
    splitAtBreaks (front ++ '\n' :: cs) = splitAtBreaks front ++ splitAtBreaks cs := by
  rw [splitAtBreaks_eq_splitOn, splitAtBreaks_eq_splitOn, splitAtBreaks_eq_splitOn,
    List.splitOn_append_cons_self]

/-- What has no break of its own stands in front of the first line. -/
theorem splitAtBreaks_append_of_notMem (h : '\n' ∉ line) (cs : List Char) :
    splitAtBreaks (line ++ cs) = (splitAtBreaks cs).modifyHead (line ++ ·) := by
  induction line with
  | nil =>
    obtain ⟨first, others, hcs⟩ := List.exists_cons_of_ne_nil (splitAtBreaks_ne_nil cs)
    rw [List.nil_append, hcs]
    rfl
  | cons c line ih =>
    rw [List.mem_cons, not_or] at h
    rw [List.cons_append, splitAtBreaks, if_neg (Ne.symm h.1), ih h.2]
    obtain ⟨first, others, hcs⟩ := List.exists_cons_of_ne_nil (splitAtBreaks_ne_nil cs)
    rw [hcs]
    rfl

theorem splitAtBreaks_of_notMem (h : '\n' ∉ line) : splitAtBreaks line = [line] := by
  have hline := splitAtBreaks_append_of_notMem h []
  rw [List.append_nil] at hline
  exact hline.trans (congrArg ([·]) (List.append_nil line))

/-- The lines of texts each of which is ended by a break. -/
theorem splitAtBreaks_flatMap (texts : List (List Char)) :
    splitAtBreaks (texts.flatMap (· ++ ['\n'])) = texts.flatMap splitAtBreaks ++ [[]] := by
  induction texts with
  | nil => rfl
  | cons text texts ih =>
    rw [List.flatMap_cons, List.append_assoc, List.singleton_append, splitAtBreaks_append, ih,
      List.flatMap_cons, List.append_assoc]

/-- Lines have all of a text but its breaks. -/
theorem flatten_splitAtBreaks (cs : List Char) :
    (splitAtBreaks cs).flatten = cs.filter (· ≠ '\n') := by
  fun_induction splitAtBreaks cs with
  | case1 => rfl
  | case2 rest ih => simpa using ih
  | case3 c rest hc hnil ih => exact absurd hnil (splitAtBreaks_ne_nil rest)
  | case4 c rest hc line lines hrest ih =>
    rw [hrest] at ih
    rw [List.filter_cons_of_pos (by simpa using hc), ← ih]
    rfl

/-- The characters of the lines are those of the text, without the breaks. -/
theorem exists_mem_splitAtBreaks_iff :
    (∃ line ∈ splitAtBreaks cs, c ∈ line) ↔ c ∈ cs ∧ c ≠ '\n' := by
  rw [← List.mem_flatten, flatten_splitAtBreaks, List.mem_filter, decide_eq_true_iff]

/-! ### Putting together -/

theorem joinWith_cons (separator line : List Char) (hne : lines ≠ []) :
    joinWith separator (line :: lines) = line ++ separator ++ joinWith separator lines := by
  obtain ⟨next, lines, rfl⟩ := List.exists_cons_of_ne_nil hne
  rfl

theorem joinWith_eq_intercalate (separator : List Char) (lines : List (List Char)) :
    joinWith separator lines = separator.intercalate lines := by
  fun_induction joinWith separator lines with
  | case1 => rfl
  | case2 part => exact (List.append_nil part).symm
  | case3 part rest hne ih =>
    obtain ⟨next, rest, rfl⟩ := List.exists_cons_of_ne_nil hne
    rw [List.intercalate_cons_cons, ih]

/-- Lines put together again are the text. -/
theorem joinWith_splitAtBreaks (cs : List Char) : joinWith ['\n'] (splitAtBreaks cs) = cs := by
  rw [joinWith_eq_intercalate, splitAtBreaks_eq_splitOn, List.intercalate_splitOn]

/-- Lines without breaks that are put together are taken apart again. -/
theorem splitAtBreaks_joinWith (hne : lines ≠ []) (h : ∀ line ∈ lines, '\n' ∉ line) :
    splitAtBreaks (joinWith ['\n'] lines) = lines := by
  rw [joinWith_eq_intercalate, splitAtBreaks_eq_splitOn, List.splitOn_intercalate _ h hne]

end RepoAtlas.Text
