import RepoAtlas.Python.Docstring
import RepoAtlas.Proofs.Text.Visible

/-!
# Tab stops

A line is widened one character after the other: a tab brings what is written up to
the next multiple of `tabSize`, and any other character is written behind it
(`widened`). A text without carriage returns has its tabs expanded line by line
(`splitAtBreaks_expandTabs`). No tab is left of any text (`mem_expandTabsFrom`), and
nothing that is seen is lost (`visible_expandTabs`).
-/

namespace RepoAtlas.Python

open Text

variable {c : Char} {cs line : List Char}

/-- What is written of a line, with one more character. -/
def widen (out : List Char) (c : Char) : List Char :=
  if c = '\t' then out.rightpad (tabSize * (out.length / tabSize + 1)) ' ' else out ++ [c]

/-- The line with each tab widened up to the next stop. -/
def widened (line : List Char) : List Char := line.foldl widen []

/-! ### Any text -/

/-- No tab is left, and nothing but spaces comes in. -/
theorem mem_expandTabsFrom {column : Nat} (h : c ∈ expandTabsFrom column cs) :
    c = ' ' ∨ c ∈ cs ∧ c ≠ '\t' := by
  fun_induction expandTabsFrom column cs with
  | case1 => exact absurd h List.not_mem_nil
  | case2 column rest width ih =>
    rcases List.mem_append.1 h with h | h
    · exact .inl (List.eq_of_mem_replicate h)
    · exact (ih h).imp_right fun hc => ⟨List.mem_cons_of_mem _ hc.1, hc.2⟩
  | case3 column d rest hd hbreak ih | case4 column d rest hd hbreak ih =>
    rcases List.mem_cons.1 h with rfl | h
    · exact .inr ⟨List.mem_cons_self, hd⟩
    · exact (ih h).imp_right fun hc => ⟨List.mem_cons_of_mem _ hc.1, hc.2⟩

/-- Nothing that is seen changes. -/
theorem visible_expandTabsFrom (column : Nat) (cs : List Char) :
    visible (expandTabsFrom column cs) = visible cs := by
  fun_induction expandTabsFrom column cs with
  | case1 => rfl
  | case2 column rest width ih =>
    have hwidth : visible (List.replicate width ' ') = [] :=
      visible_eq_nil_iff.2 (List.all_eq_true.2 fun c hc => List.eq_of_mem_replicate hc ▸ rfl)
    rw [visible_append, hwidth, List.nil_append, ih, visible_cons_of_blank rfl]
  | case3 column d rest hd hbreak ih | case4 column d rest hd hbreak ih =>
    rw [← List.singleton_append, visible_append, ih, ← visible_append, List.singleton_append]

/-- A tab is not seen, nor are the blanks in its place. -/
theorem visible_expandTabs (cs : List Char) : visible (expandTabs cs) = visible cs :=
  visible_expandTabsFrom 0 cs

/-! ### Line by line -/

/-- Behind what is written of a line, the column is the number of its characters. -/
theorem append_expandTabsFrom (out rest : List Char) (h : ∀ c ∈ line, c ≠ '\n' ∧ c ≠ '\r') :
    out ++ expandTabsFrom out.length (line ++ rest) =
      line.foldl widen out ++ expandTabsFrom (line.foldl widen out).length rest := by
  induction line generalizing out with
  | nil => rfl
  | cons c line ih =>
    rw [List.forall_mem_cons] at h
    rw [List.foldl_cons, ← ih (widen out c) h.2, List.cons_append, expandTabsFrom]
    by_cases hc : c = '\t'
    · have hstop : tabSize * (out.length / tabSize + 1) - out.length =
          tabSize - out.length % tabSize := by
        unfold tabSize
        omega
      rw [if_pos hc, widen, if_pos hc, List.rightpad, hstop, List.length_append,
        List.length_replicate, List.append_assoc]
    · rw [if_neg hc, if_neg (not_or.2 h.1), widen, if_neg hc, List.length_append,
        List.length_singleton, List.append_assoc, List.singleton_append]

theorem expandTabs_append (rest : List Char) (h : ∀ c ∈ line, c ≠ '\n' ∧ c ≠ '\r') :
    expandTabs (line ++ rest) = widened line ++ expandTabsFrom (widened line).length rest :=
  append_expandTabsFrom [] rest h

theorem expandTabs_line (h : ∀ c ∈ line, c ≠ '\n' ∧ c ≠ '\r') :
    expandTabs line = widened line := by
  have hline := expandTabs_append [] h
  rwa [List.append_nil, expandTabsFrom, List.append_nil] at hline

/-- Each line is widened by itself. -/
theorem expandTabs_joinWith {lines : List (List Char)}
    (h : ∀ line ∈ lines, ∀ c ∈ line, c ≠ '\n' ∧ c ≠ '\r') :
    expandTabs (joinWith ['\n'] lines) = joinWith ['\n'] (lines.map widened) := by
  induction lines with
  | nil => rfl
  | cons line lines ih =>
    rw [List.forall_mem_cons] at h
    by_cases hlast : lines = []
    · rw [hlast]
      exact expandTabs_line h.1
    · rw [joinWith_cons _ _ hlast, List.map_cons, joinWith_cons _ _ (by simpa using hlast),
        ← ih h.2, List.append_assoc, expandTabs_append _ h.1, List.append_assoc]
      -- The column is back at zero behind the break.
      rfl

theorem notMem_of_mem_map_widened {lines : List (List Char)}
    (h : ∀ line ∈ lines, ∀ c ∈ line, c ≠ '\n' ∧ c ≠ '\r') {row : List Char}
    (hrow : row ∈ lines.map widened) : '\n' ∉ row := by
  obtain ⟨line, hline, rfl⟩ := List.mem_map.1 hrow
  intro hbreak
  rw [← expandTabs_line (h line hline)] at hbreak
  rcases mem_expandTabsFrom hbreak with hspace | hmem
  · exact absurd hspace (by decide)
  · exact (h line hline _ hmem.1).1 rfl

/-- The lines of a text with its tabs expanded are its lines, each of them widened. -/
theorem splitAtBreaks_expandTabs (h : '\r' ∉ cs) :
    splitAtBreaks (expandTabs cs) = (splitAtBreaks cs).map widened := by
  have hlines (line) (hline : line ∈ splitAtBreaks cs) (c) (hc : c ∈ line) :
      c ≠ '\n' ∧ c ≠ '\r' := by
    obtain ⟨hcs, hbreak⟩ := exists_mem_splitAtBreaks_iff.1 ⟨line, hline, hc⟩
    exact ⟨hbreak, fun hreturn => h (hreturn ▸ hcs)⟩
  conv => lhs; rw [← joinWith_splitAtBreaks cs, expandTabs_joinWith hlines]
  exact splitAtBreaks_joinWith (by simpa using splitAtBreaks_ne_nil cs)
    fun row hrow => notMem_of_mem_map_widened hlines hrow

example : widened "a\tbc\t\td".toList = "a       bc              d".toList := rfl

/-- Of a text is seen what is seen of its lines with the tabs expanded. -/
theorem flatMap_visible_rows (cs : List Char) :
    (splitAtBreaks (expandTabs cs)).flatMap visible = visible cs := by
  rw [← visible_joinWith, joinWith_splitAtBreaks, visible_expandTabs]

/-- The rows are blank if the text is. -/
theorem forall_allBlank_rows_iff (cs : List Char) :
    (∀ row ∈ splitAtBreaks (expandTabs cs), allBlank row = true) ↔ allBlank cs = true := by
  rw [← visible_eq_nil_iff, ← flatMap_visible_rows, List.flatMap_eq_nil_iff]
  exact forall₂_congr fun row _ => visible_eq_nil_iff.symm

end RepoAtlas.Python
