import RepoAtlas.Proofs.Text.Blank
import RepoAtlas.Proofs.Text.Lines

/-!
# Line ends of two characters

A text with a carriage return before each line break (`addReturns`). Its lines are
those of the text, each but the last with a return at its end
(`splitAtBreaks_addReturns`); as the lines of a file they are the same
(`fileLines_addReturns`). A return is blank, so that trimming does not tell the two
kinds of line ends apart (`trimLeft_addReturns`, `trimRight_addReturns`).
-/

namespace RepoAtlas.Text

/-- The characters with a carriage return before each line break. -/
def addReturns (cs : List Char) : List Char :=
  cs.flatMap fun c => if c = '\n' then ['\r', '\n'] else [c]

/-- The text with a carriage return before each line break. -/
def withReturns (s : String) : String := String.ofList (addReturns s.toList)

/-- The lines, each but the last with a carriage return at its end. -/
def endInReturns : List (List Char) → List (List Char)
  | [] => []
  | [last] => [last]
  | line :: rest => (line ++ ['\r']) :: endInReturns rest

variable {c : Char} {cs line : List Char} {lines : List (List Char)}

/-! ### Characters -/

theorem addReturns_break (cs : List Char) :
    addReturns ('\n' :: cs) = '\r' :: '\n' :: addReturns cs := rfl

theorem addReturns_cons (h : c ≠ '\n') (cs : List Char) :
    addReturns (c :: cs) = c :: addReturns cs := by
  rw [addReturns, List.flatMap_cons, if_neg h, addReturns, List.singleton_append]

/-- Returns are added to each part of a text alone. -/
theorem addReturns_append (cs ds : List Char) :
    addReturns (cs ++ ds) = addReturns cs ++ addReturns ds :=
  List.flatMap_append

/-- A text on one line gets no return. -/
theorem addReturns_of_notMem (h : '\n' ∉ cs) : addReturns cs = cs := by
  induction cs with
  | nil => rfl
  | cons c cs ih =>
    rw [List.mem_cons, not_or] at h
    rw [addReturns_cons (Ne.symm h.1), ih h.2]

/-- No break is added or lost. -/
theorem break_mem_addReturns_iff : '\n' ∈ addReturns cs ↔ '\n' ∈ cs := by
  induction cs with
  | nil => rfl
  | cons c cs ih =>
    by_cases hc : c = '\n'
    · rw [hc, addReturns_break]
      simp
    · rw [addReturns_cons hc, List.mem_cons, List.mem_cons, ih]

/-! ### Lines -/

/-- Each line but the last ends in a return. -/
theorem endInReturns_cons (line : List Char) (hne : lines ≠ []) :
    endInReturns (line :: lines) = (line ++ ['\r']) :: endInReturns lines := by
  obtain ⟨next, lines, rfl⟩ := List.exists_cons_of_ne_nil hne
  rfl

/-- With the returns, the lines are the same but that all except the last end in one. -/
theorem splitAtBreaks_addReturns (cs : List Char) :
    splitAtBreaks (addReturns cs) = endInReturns (splitAtBreaks cs) := by
  induction cs with
  | nil => rfl
  | cons c cs ih =>
    by_cases hc : c = '\n'
    · rw [hc, addReturns_break, splitAtBreaks, if_neg (by decide), splitAtBreaks, if_pos rfl, ih,
        splitAtBreaks, if_pos rfl, endInReturns_cons _ (splitAtBreaks_ne_nil cs)]
      rfl
    · rw [addReturns_cons hc, splitAtBreaks, if_neg hc, ih, splitAtBreaks, if_neg hc]
      obtain ⟨line, lines, hlines⟩ := List.exists_cons_of_ne_nil (splitAtBreaks_ne_nil cs)
      rw [hlines]
      cases lines <;> rfl

theorem dropReturn_concat (line : List Char) : dropReturn (line ++ ['\r']) = line := by
  rw [dropReturn, List.getLast?_concat, if_pos rfl, List.dropLast_concat]

theorem dropReturn_of_notMem (h : '\r' ∉ line) : dropReturn line = line :=
  if_neg fun hlast => h (List.mem_of_getLast? hlast)

/-- Lines of a file are told without the returns at their ends. -/
theorem fileLinesOf_endInReturns (h : ∀ line ∈ lines, '\r' ∉ line) :
    fileLinesOf (endInReturns lines) = fileLinesOf lines := by
  induction lines with
  | nil => rfl
  | cons line lines ih =>
    rw [List.forall_mem_cons] at h
    cases lines with
    | nil => rfl
    | cons next lines =>
      have hne : endInReturns (next :: lines) ≠ [] := by cases lines <;> exact List.cons_ne_nil _ _
      rw [endInReturns_cons line (List.cons_ne_nil next lines), fileLinesOf.eq_3 _ _ hne, ih h.2,
        fileLinesOf.eq_3 _ _ (List.cons_ne_nil next lines), dropReturn_concat,
        dropReturn_of_notMem h.1]

/-- A return before a break is not a part of the line of a file. -/
theorem fileLines_addReturns (h : '\r' ∉ cs) : fileLines (addReturns cs) = fileLines cs := by
  rw [fileLines, splitAtBreaks_addReturns, fileLinesOf_endInReturns, fileLines]
  exact fun line hline hmem => h (exists_mem_splitAtBreaks_iff.1 ⟨line, hline, hmem⟩).1

/-! ### Blanks -/

/-- As returns and breaks are blanks alike, trimming leaves the same of the text. -/
theorem trimLeft_addReturns (cs : List Char) :
    trimLeft (addReturns cs) = addReturns (trimLeft cs) := by
  induction cs with
  | nil => rfl
  | cons c cs ih =>
    by_cases hbreak : c = '\n'
    · rw [hbreak, addReturns_break, trimLeft_cons_of_blank rfl, trimLeft_cons_of_blank rfl, ih,
        trimLeft_cons_of_blank rfl]
    · rw [addReturns_cons hbreak]
      cases hc : isBlank c with
      | true => rw [trimLeft_cons_of_blank hc, ih, trimLeft_cons_of_blank hc]
      | false =>
        rw [trimLeft_cons_of_not_blank hc, trimLeft_cons_of_not_blank hc, addReturns_cons hbreak]

/-- A text is blank with returns if it is blank without. -/
theorem allBlank_addReturns (cs : List Char) : allBlank (addReturns cs) = allBlank cs := by
  have hnil : addReturns (trimLeft cs) = [] ↔ trimLeft cs = [] := by
    rw [addReturns, List.flatMap_eq_nil_iff, List.eq_nil_iff_forall_not_mem]
    exact forall₂_congr fun c _ => by split <;> simp
  rw [Bool.eq_iff_iff, ← trimLeft_eq_nil_iff, trimLeft_addReturns, hnil, trimLeft_eq_nil_iff]

/-- No return is left over at the end, since each stands before a break. -/
theorem trimRight_addReturns (cs : List Char) :
    trimRight (addReturns cs) = addReturns (trimRight cs) := by
  induction cs using List.reverseRecOn with
  | nil => rfl
  | append_singleton cs c ih =>
    rw [addReturns_append]
    cases hc : isBlank c with
    | true =>
      have hblank : allBlank (addReturns [c]) = true := by
        rw [allBlank_addReturns, allBlank, List.all_cons, hc]
        rfl
      rw [trimRight_append_of_blank hblank, ih, trimRight_concat_of_blank hc]
    | false =>
      have hbreak : c ≠ '\n' := fun h => by rw [h] at hc; cases hc
      rw [addReturns_cons hbreak, trimRight_concat_of_not_blank hc, addReturns_append,
        addReturns_cons hbreak]
      exact trimRight_concat_of_not_blank hc

theorem trimBoth_addReturns (cs : List Char) :
    trimBoth (addReturns cs) = addReturns (trimBoth cs) := by
  rw [trimBoth, trimLeft_addReturns, trimRight_addReturns, trimBoth]

end RepoAtlas.Text
