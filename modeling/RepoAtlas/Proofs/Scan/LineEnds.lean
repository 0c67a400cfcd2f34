import RepoAtlas.Language.Analysis
import RepoAtlas.Proofs.Scan.Reading
import RepoAtlas.Proofs.Text.Returns

/-!
# Line grammars and line ends

A source says the same whether its lines end with a break, or with a carriage
return and a break (`Method.analyze_withReturns`). The outline and the imports are
read from the lines of a file, which are the same.

Documentation is not: comments are looked for in the text as it stands, where the
return belongs to the text of a comment that ends with its line, and to the blanks
that reach over a line break. The comments of the two texts begin one by one on the
same lines (`opening?_addReturns`), say the same but for blanks around it, and end
on the same line (`read?_addReturns`).
-/

namespace RepoAtlas.Scan

open Text (isBlank trimLeft trimRight trimBoth allBlank addReturns)

variable {style : CommentStyle} {word cs : List Char}

/-! ### Lines -/

/-- The lines behind the first are the same, with their returns. -/
theorem behindLine_addReturns (cs : List Char) :
    behindLine (addReturns cs) = addReturns (behindLine cs) := by
  induction cs with
  | nil => rfl
  | cons c cs ih =>
    cases hc : Piece.onLine c with
    | true =>
      have hbreak : c ≠ '\n' := fun h => by rw [onLine_eq_false_iff.2 h] at hc; cases hc
      rw [Text.addReturns_cons hbreak, behindLine_cons hc, behindLine_cons hc, ih]
    | false => rw [onLine_eq_false_iff.1 hc]; rfl

/-- The first line has at most a return more at its end. -/
theorem exists_lineOf_addReturns (cs : List Char) :
    ∃ more, lineOf (addReturns cs) = lineOf cs ++ more ∧ allBlank more = true := by
  induction cs with
  | nil => exact ⟨[], rfl, rfl⟩
  | cons c cs ih =>
    cases hc : Piece.onLine c with
    | true =>
      have hbreak : c ≠ '\n' := fun h => by rw [onLine_eq_false_iff.2 h] at hc; cases hc
      obtain ⟨more, hline, hmore⟩ := ih
      refine ⟨more, ?_, hmore⟩
      rw [Text.addReturns_cons hbreak, lineOf_cons hc, lineOf_cons hc, hline, List.cons_append]
    | false =>
      rw [onLine_eq_false_iff.1 hc]
      exact ⟨['\r'], rfl, rfl⟩

/-- The first line is the same up to blanks at its end. -/
theorem trimBoth_lineOf_addReturns (cs : List Char) :
    trimBoth (lineOf (addReturns cs)) = trimBoth (lineOf cs) := by
  obtain ⟨more, hline, hmore⟩ := exists_lineOf_addReturns cs
  rw [hline, Text.trimBoth_append_of_blank hmore]

/-! ### Marks -/

/-- A word without blanks stands where it stood. -/
theorem dropWord?_addReturns (h : ∀ c ∈ word, isBlank c = false) (cs : List Char) :
    dropWord? word (addReturns cs) = (dropWord? word cs).map addReturns := by
  induction word generalizing cs with
  | nil => rfl
  | cons w word ih =>
    rw [List.forall_mem_cons] at h
    cases cs with
    | nil => rfl
    | cons c cs =>
      by_cases hbreak : c = '\n'
      · have hne {d : Char} (hd : isBlank d = true) : w ≠ d := fun heq => by
          rw [heq, hd] at h
          cases h.1
        rw [hbreak, Text.addReturns_break, dropWord?, if_neg (hne rfl), dropWord?, if_neg (hne rfl)]
        rfl
      · rw [Text.addReturns_cons hbreak, dropWord?, dropWord?]
        split
        · exact ih h.2 cs
        · rfl

theorem behind?_addReturns (h : IsMarker word) (cs : List Char) :
    behind? word (addReturns cs) = (behind? word cs).map addReturns := by
  rw [behind?, Text.trimLeft_addReturns, dropWord?_addReturns h.2, behind?]

/-- A mark is found at the same place, as no mark begins with a break or a return. -/
theorem cutAt?_addReturns (h : IsMarker word) (cs : List Char) :
    cutAt? word (addReturns cs) =
      (cutAt? word cs).map fun (front, rest) => (addReturns front, addReturns rest) := by
  induction cs with
  | nil =>
    obtain ⟨w, word, rfl⟩ := List.exists_cons_of_ne_nil h.1
    rfl
  | cons c cs ih =>
    cases hdrop : dropWord? word (c :: cs) with
    | some rest =>
      -- A mark does not begin with a break, so that nothing comes before it.
      have hbreak : c ≠ '\n' := fun heq => by
        rw [heq, h.dropWord? rfl] at hdrop
        cases hdrop
      have hreturns := dropWord?_addReturns h.2 (c :: cs)
      rw [hdrop, Text.addReturns_cons hbreak] at hreturns
      rw [Text.addReturns_cons hbreak, cutAt?, hreturns, cutAt?, hdrop]
      rfl
    | none =>
      rw [cutAt?_cons_of_none hdrop, Option.map_map]
      by_cases hbreak : c = '\n'
      · rw [hbreak, Text.addReturns_break, cutAt?_cons_of_none (h.dropWord? rfl _),
          cutAt?_cons_of_none (h.dropWord? rfl _), ih, Option.map_map, Option.map_map]
        rfl
      · have hreturns := dropWord?_addReturns h.2 (c :: cs)
        rw [hdrop, Text.addReturns_cons hbreak] at hreturns
        rw [Text.addReturns_cons hbreak, cutAt?_cons_of_none hreturns, ih, Option.map_map]
        refine congrFun (congrArg _ (funext fun cut => ?_)) _
        exact congrArg (·, _) (Text.addReturns_cons hbreak cut.1).symm

/-! ### Comments -/

/-- An opening with the text behind its mark changed. -/
def Opening.map (f : List Char → List Char) : Opening → Opening
  | .toLineEnd rest => .toLineEnd (f rest)
  | .enclosed rest => .enclosed (f rest)

/-- What counts of a comment: its text without the blanks around it, and what stands
    below the line on which it ends. -/
def Match.told (m : Match) : List Char × List Char := (trimBoth m.kept, behindLine m.rest)

/-- Comments begin at the same places. -/
theorem opening?_addReturns (cs : List Char) :
    style.opening? (addReturns cs) = (style.opening? cs).map (.map addReturns) := by
  cases style with
  | ignored => rfl
  | slashes =>
    rw [CommentStyle.opening?, CommentStyle.opening?, behind?_addReturns (by decide),
      behind?_addReturns (by decide)]
    cases behind? "//".toList cs <;> cases behind? "/**".toList cs <;> rfl
  | hash =>
    rw [CommentStyle.opening?, CommentStyle.opening?, behind?_addReturns (by decide)]
    cases behind? "#".toList cs <;> rfl

/-- A comment says the same, and the same stands below it. -/
theorem read?_addReturns (o : Opening) :
    (o.map addReturns).read?.map Match.told =
      o.read?.map fun m => (m.told.1, addReturns m.told.2) := by
  cases o with
  | toLineEnd rest =>
    refine congrArg some (Prod.ext ?_ ?_)
    · rw [Text.trimLeft_addReturns]
      exact trimBoth_lineOf_addReturns (trimLeft rest)
    · simp only [Match.told]
      rw [behindLine_dropWhile, behindLine_dropWhile, Text.trimLeft_addReturns,
        behindLine_addReturns]
  | enclosed rest =>
    rw [Opening.map, Opening.read?, cutAt?_addReturns isMarker_closer, Opening.read?]
    cases cutAt? closer rest with
    | none => rfl
    | some cut =>
      obtain ⟨front, after⟩ := cut
      have hbreak : '\n' ∈ addReturns (trimBoth front) ↔ '\n' ∈ trimBoth front :=
        Text.break_mem_addReturns_iff
      simp only [Option.map_some, Option.bind_some, Text.trimBoth_addReturns, all_onLine_iff,
        hbreak]
      split
      · rename_i hline
        rw [Option.map_some, Option.map_some, Text.addReturns_of_notMem hline]
        exact congrArg some (Prod.ext rfl (behindLine_addReturns after))
      · rfl

theorem read_eq (cs : List Char) :
    style.read cs =
      match ((style.opening? cs).bind Opening.read?).map Match.told with
      | some (text, below) => (saying [text]).filter style.keeps ++ style.read below
      | none => style.read (behindLine cs) := by
  cases hread : (style.opening? cs).bind Opening.read? with
  | none => rw [read_of_none hread, Option.map_none]
  | some m =>
    rw [read_of_some hread, ← saying_trimBoth m.kept]
    rfl

/-- A text says the same with returns before its line breaks. -/
theorem read_addReturns (cs : List Char) : style.read (addReturns cs) = style.read cs := by
  induction hlen : cs.length using Nat.strong_induction_on generalizing cs with
  | _ n ih =>
    subst hlen
    have hreturns : ((style.opening? (addReturns cs)).bind Opening.read?).map Match.told =
        ((style.opening? cs).bind Opening.read?).map fun m => (m.told.1, addReturns m.told.2) := by
      rw [opening?_addReturns]
      cases style.opening? cs with
      | none => rfl
      | some o => exact read?_addReturns o
    rw [read_eq, hreturns, read_eq cs]
    cases hread : (style.opening? cs).bind Opening.read? with
    | none =>
      by_cases hnil : cs = []
      · rw [hnil]
        rfl
      · simp only [Option.map_none, behindLine_addReturns]
        exact ih _ (length_behindLine_lt hnil) _ rfl
    | some m =>
      have hlt : (behindLine m.rest).length < cs.length :=
        (length_behindLine_le m.rest).trans_lt (length_comment_lt hread)
      simp only [Option.map_some, Match.told, ih _ hlt _ rfl]

/-! ### Grammars -/

namespace LineGrammar

variable (g : LineGrammar) {source : List Char}

theorem outline_addReturns (h : '\r' ∉ source) :
    g.outline (addReturns source) = g.outline source := by
  rw [outline, Text.fileLines_addReturns h, outline]

theorem imports_addReturns (h : '\r' ∉ source) :
    g.imports (addReturns source) = g.imports source := by
  rw [imports, Text.fileLines_addReturns h, imports]

/-- The documentation is the same, whatever returns there were before. -/
theorem doc_addReturns (source : List Char) : g.doc (addReturns source) = g.doc source := by
  rw [doc, doc_eq, read_addReturns, doc, doc_eq]

end LineGrammar

end RepoAtlas.Scan

namespace RepoAtlas.Language

/-- A source in a language that is read line by line, whatever the rules of its
    grammar, tells the same if each of its line breaks gets a return before it. -/
theorem Method.analyze_withReturns (g : Scan.LineGrammar) (source : String)
    (h : '\r' ∉ source.toList) :
    (Method.scanned g).analyze (Text.withReturns source) = (Method.scanned g).analyze source := by
  have hchars : (Text.withReturns source).toList = Text.addReturns source.toList :=
    String.toList_ofList
  rw [analyze, hchars, g.outline_addReturns h, g.doc_addReturns, g.imports_addReturns h, analyze]

/-- A source with a comment that takes the import below it, and one on two lines. -/
def commented : String := "//\nimport a.b;\n/** Kept\n */\nclass A \x7b\n  // All.\n\x7d"

theorem Method.analyze_withReturns_commented :
    '\r' ∉ commented.toList ∧
      Text.withReturns commented =
        "//\r\nimport a.b;\r\n/** Kept\r\n */\r\nclass A \x7b\r\n  // All.\r\n\x7d" ∧
      (Method.scanned java).analyze (Text.withReturns commented) =
        .ok ⟨⟨[⟨"A", []⟩], [], []⟩, "import a.b; Kept All.", ["a.b"]⟩ := by
  refine ⟨by decide, by decide, ?_⟩
  rw [analyze_withReturns java commented (by decide)]
  decide

end RepoAtlas.Language
