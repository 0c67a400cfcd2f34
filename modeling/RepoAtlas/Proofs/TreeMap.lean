import RepoAtlas.Proofs.Text.Lines
import RepoAtlas.TreeMap

/-!
# The shape of a map

Between the heading and the footer of a map stand, record after record, the line of the
record (`recordLine`) and the lines of its details (`below`). A detail takes one line
for each line of its text; the first of them begins with the columns and the branch of a
detail (`detailFront`). The others are *loose* (`loose`): they are written as they are.

So a map keeps its shape if and only if every loose line begins like a line of a detail,
and the fence around the tree is closed as often as a loose line is a fence, and once
more at the end (`treeMap_shaped_iff`).
-/

namespace RepoAtlas.TreeMap

open Text (splitAtBreaks)

/-! ### Lines -/

/-- What stands in front of a record: a column for each directory, and its branch. -/
def recordFront (r : Record) (last : Bool) : List Char :=
  (columns r.depth ++ if last then lastBranch else branch).toList

/-- What stands in front of a detail of a record: one column more, and a branch. -/
def detailFront (r : Record) (last : Bool) : List Char :=
  (columns r.depth ++ (if last then gap else pipe) ++ branch).toList

/-- What is written of a record behind its branch. -/
def label (r : Record) : List Char :=
  match r.kind with
  | .directory => r.name.toList ++ ['/']
  | .file => r.name.toList ++ [' ', '('] ++ (r.language.getD "None").toList ++ [')']

/-- The line of a record. -/
def recordLine (r : Record) (last : Bool) : List Char := recordFront r last ++ label r

/-- The details that are written below a record. -/
def noted (r : Record) : List String :=
  match r.kind with
  | .directory => []
  | .file => details r

/-- The lines below the line of a record, up to the next record. -/
def below (r : Record) (last : Bool) : List (List Char) :=
  (noted r).flatMap fun d => splitAtBreaks (detailFront r last ++ d.toList)

/-- The lines of the details of a record that stand behind a break of a text. -/
def loose (r : Record) : List (List Char) :=
  (noted r).flatMap fun d => (splitAtBreaks d.toList).tail

/-- The records, each with whether it is the last. -/
def marked : List Record → List (Record × Bool)
  | [] => []
  | [r] => [(r, true)]
  | r :: rest => (r, false) :: marked rest

/-- The lines between the heading and the footer. -/
def body (records : List Record) : List (List Char) :=
  (marked records).flatMap fun (r, last) => recordLine r last :: below r last

/-- The mark that opens and closes the tree. -/
def fence : List Char := ['`', '`', '`']

/-- The lines above the tree. -/
def heading (repository : String) : List (List Char) :=
  ["# Repository Map".toList, [], fence ++ "markdown".toList,
    ['/', ' ', '('] ++ repository.toList ++ [')']]

/-- The names in a record have no line break. -/
def IsPlain (r : Record) : Prop :=
  '\n' ∉ r.name.toList ∧ ∀ language ∈ r.language, '\n' ∉ language.toList

variable {r : Record} {last : Bool} {records : List Record} {line : List Char}

theorem map_fst_marked (records : List Record) : (marked records).map (·.1) = records := by
  fun_induction marked records with
  | case1 => rfl
  | case2 => rfl
  | case3 r rest hne ih => rw [List.map_cons, ih]

/-- Each record has its own lines, by whether it is the last. -/
theorem treeLines_eq (records : List Record) :
    treeLines records = (marked records).flatMap fun (r, last) => recordLines r last := by
  fun_induction marked records with
  | case1 => rfl
  | case2 r => simp [treeLines]
  | case3 r rest hne ih => rw [treeLines.eq_3 _ _ hne, ih, List.flatMap_cons]

/-! ### Fronts -/

theorem mem_columns {c : Char} {depth : Nat} (h : c ∈ (columns depth).toList) :
    c ∈ pipe.toList := by
  rw [columns, String.toList_join] at h
  obtain ⟨column, hcolumn, hc⟩ := List.mem_flatMap.1 h
  rwa [List.eq_of_mem_replicate hcolumn] at hc

/-- No front of a line has a break. -/
theorem break_notMem_recordFront (r : Record) (last : Bool) : '\n' ∉ recordFront r last := by
  rw [recordFront, String.toList_append, List.mem_append, not_or]
  exact ⟨fun h => absurd (mem_columns h) (by decide), by cases last <;> decide⟩

theorem break_notMem_detailFront (r : Record) (last : Bool) : '\n' ∉ detailFront r last := by
  rw [detailFront, String.toList_append, String.toList_append, List.mem_append, List.mem_append,
    not_or, not_or]
  exact ⟨⟨fun h => absurd (mem_columns h) (by decide), by cases last <;> decide⟩, by decide⟩

/-- A line with the dash of a branch is no fence. -/
theorem ne_fence (h : '─' ∈ line) : line ≠ fence := by
  rintro rfl
  exact absurd h (by decide)

/-- Every front has a dash, so that no line behind one is a fence. -/
theorem dash_mem_recordFront (r : Record) (last : Bool) : '─' ∈ recordFront r last := by
  rw [recordFront, String.toList_append]
  exact List.mem_append_right _ (by cases last <;> decide)

theorem dash_mem_detailFront (r : Record) (last : Bool) : '─' ∈ detailFront r last := by
  rw [detailFront, String.toList_append]
  exact List.mem_append_right _ (by decide)

/-! ### Records -/

/-- A record of plain texts has its line to itself. -/
theorem break_notMem_recordLine (h : IsPlain r) (last : Bool) : '\n' ∉ recordLine r last := by
  have hlabel : '\n' ∉ label r := by
    unfold label
    cases r.kind with
    | directory => simpa using h.1
    | file =>
      have hlanguage : '\n' ∉ (r.language.getD "None").toList := by
        cases hr : r.language with
        | none => decide
        | some language => exact h.2 language hr
      simp [h.1, hlanguage]
  exact List.not_mem_append (break_notMem_recordFront r last) hlabel

/-- A record takes its line, and the lines of its details. -/
theorem flatMap_recordLines (h : IsPlain r) (last : Bool) :
    (recordLines r last).flatMap (fun text => splitAtBreaks text.toList) =
      recordLine r last :: below r last := by
  have hline := Text.splitAtBreaks_of_notMem (break_notMem_recordLine h last)
  rw [← List.singleton_append, ← hline]
  unfold recordLine label recordLines below noted recordFront detailFront
  cases r.kind with
  | directory => simp [String.toList_append]
  | file => simp [String.toList_append, List.flatMap_map]

/-- The lines of a map. -/
theorem splitAtBreaks_treeMap {repository : String} (hrecords : ∀ r ∈ records, IsPlain r)
    (hrepository : '\n' ∉ repository.toList) :
    splitAtBreaks (treeMap records repository).toList =
      heading repository ++ body records ++ [footer.toList, fence, []] := by
  have htexts : (treeMap records repository).toList =
      ((lines records repository).map String.toList).flatMap (· ++ ['\n']) := by
    rw [treeMap, String.toList_join, List.flatMap_map, List.flatMap_map]
    simp [String.toList_append]
  have hbody : (treeLines records).flatMap (fun text => splitAtBreaks text.toList) =
      body records := by
    rw [treeLines_eq, body, List.flatMap_assoc]
    refine List.flatMap_congr fun (r, last) hr => ?_
    exact flatMap_recordLines (hrecords r (map_fst_marked records ▸ List.mem_map_of_mem hr)) last
  have hroot : splitAtBreaks ("/ (" ++ repository ++ ")").toList =
      [['/', ' ', '('] ++ repository.toList ++ [')']] := by
    rw [Text.splitAtBreaks_of_notMem] <;> simp [String.toList_append, hrepository]
  have hheading : ["# Repository Map", "", "```markdown", "/ (" ++ repository ++ ")"].flatMap
      (fun text => splitAtBreaks text.toList) = heading repository := by
    simp only [List.flatMap_cons, List.flatMap_nil, hroot]
    rfl
  rw [htexts, Text.splitAtBreaks_flatMap, List.flatMap_map, lines, List.flatMap_append,
    List.flatMap_append, hbody, hheading, List.append_assoc _ _ [[]]]
  rfl

/-! ### Shape -/

/-- Below a record, fences stand only on lines without a front. -/
theorem count_fence_below (r : Record) (last : Bool) :
    (below r last).count fence = (loose r).count fence := by
  rw [below, loose, List.count_flatMap, List.count_flatMap]
  refine congrArg List.sum (List.map_congr_left fun d _ => ?_)
  rw [Function.comp_apply, Function.comp_apply,
    Text.splitAtBreaks_append_of_notMem (break_notMem_detailFront r last)]
  obtain ⟨first, others, hd⟩ := List.exists_cons_of_ne_nil (Text.splitAtBreaks_ne_nil d.toList)
  have hfirst := ne_fence (List.mem_append_left first (dash_mem_detailFront r last))
  rw [hd, List.modifyHead_cons, List.count_cons_of_ne hfirst, List.tail_cons]

theorem count_fence_body (records : List Record) :
    (body records).count fence = (records.flatMap loose).count fence := by
  conv => rhs; rw [← map_fst_marked records, List.flatMap_map]
  rw [body, List.count_flatMap, List.count_flatMap]
  refine congrArg List.sum (List.map_congr_left fun (r, last) _ => ?_)
  have hline := ne_fence (List.mem_append_left (label r) (dash_mem_recordFront r last))
  exact (List.count_cons_of_ne hline).trans (count_fence_below r last)

/-- The heading has no fence of its own. -/
theorem count_fence_heading (repository : String) : (heading repository).count fence = 0 := by
  simp [heading, fence]

/-- The lines below a record begin with the front of its details if its loose lines do,
    and only then. -/
theorem forall_mem_below_iff (r : Record) (last : Bool) :
    (∀ line ∈ below r last, detailFront r last <+: line) ↔
      ∀ line ∈ loose r, detailFront r last <+: line := by
  simp only [below, loose, List.mem_flatMap, forall_exists_index, and_imp]
  refine ⟨fun h line d hd hline => ?_, fun h line d hd hline => ?_⟩
  all_goals
    have hlines := Text.splitAtBreaks_append_of_notMem (break_notMem_detailFront r last) d.toList
    obtain ⟨first, others, hd'⟩ := List.exists_cons_of_ne_nil (Text.splitAtBreaks_ne_nil d.toList)
    rw [hd', List.modifyHead_cons] at hlines
  · refine h line d hd ?_
    rw [hd', List.tail_cons] at hline
    rw [hlines]
    exact List.mem_cons_of_mem _ hline
  · rw [hlines] at hline
    rcases List.mem_cons.1 hline with rfl | hline
    · exact List.prefix_append _ _
    · exact h line d hd (by rwa [hd', List.tail_cons])

/-- If no name has a line break, a map is its heading, for each record in order the
    record's line and the lines below it, and the footer and the closing fence. All lines
    below records begin as lines of details do if all loose ones do, and only then; and
    besides the closing fence, the fences among the lines are the loose lines that are
    fences. -/
theorem treeMap_shaped_iff (records : List Record) (repository : String)
    (hrecords : ∀ r ∈ records, IsPlain r) (hrepository : '\n' ∉ repository.toList) :
    splitAtBreaks (treeMap records repository).toList =
        heading repository ++ body records ++ [footer.toList, fence, []] ∧
      ((∀ p ∈ marked records, ∀ line ∈ below p.1 p.2, detailFront p.1 p.2 <+: line) ↔
        ∀ p ∈ marked records, ∀ line ∈ loose p.1, detailFront p.1 p.2 <+: line) ∧
      (splitAtBreaks (treeMap records repository).toList).count fence =
        (records.flatMap loose).count fence + 1 := by
  have hlines := splitAtBreaks_treeMap hrecords hrepository
  refine ⟨hlines, forall₂_congr fun p _ => forall_mem_below_iff p.1 p.2, ?_⟩
  have hclosing : [footer.toList, fence, []].count fence = 1 := by decide
  rw [hlines, List.count_append, List.count_append, count_fence_heading, count_fence_body,
    hclosing, Nat.zero_add]

/-- A file in a directory, with a note on two lines. -/
def nested : List Record := [
  .directory "/shop/src" 0,
  { Record.file "/shop/src/app.py" 1 (some "Python") with
    description := some "Entry.", consideration := some "Slow.\n│       ├── Keep." }]

theorem isPlain_nested : ∀ r ∈ nested, IsPlain r := by
  simp only [nested, IsPlain, List.forall_mem_cons]
  decide +kernel

theorem treeMap_shaped_iff_nested :
    (∀ r ∈ nested, IsPlain r) ∧ '\n' ∉ "shop".toList ∧
      splitAtBreaks (treeMap nested "shop").toList = [
        "# Repository Map", "", "```markdown", "/ (shop)", "├── src/", "│   └── app.py (Python)",
        "│       ├── Description: Entry.", "│       ├── Developer Consideration: \"Slow.",
        "│       ├── Keep.\"", "└────────────── ", "```", ""].map String.toList ∧
      (∀ p ∈ marked nested, ∀ line ∈ below p.1 p.2, detailFront p.1 p.2 <+: line) ∧
      (splitAtBreaks (treeMap nested "shop").toList).count fence = 1 := by
  obtain ⟨hlines, hshape, hfences⟩ :=
    treeMap_shaped_iff nested "shop" isPlain_nested (by decide)
  exact ⟨isPlain_nested, by decide, hlines.trans (by decide +kernel), hshape.2 (by decide +kernel),
    hfences.trans (by decide +kernel)⟩

/-- A file whose description has a block of code. -/
def fenced : Record :=
  { Record.file "/r/a.py" 0 (some "Python") with description := some "Use:\n```\nrun()" }

theorem isPlain_fenced : ∀ r ∈ [fenced], IsPlain r := by
  simp only [fenced, IsPlain, List.forall_mem_cons]
  decide +kernel

/-- The description closes the fence around the tree. -/
theorem treeMap_closes_fence :
    (∀ r ∈ [fenced], IsPlain r) ∧ '\n' ∉ "r".toList ∧
      splitAtBreaks (treeMap [fenced] "r").toList = [
        "# Repository Map", "", "```markdown", "/ (r)", "└── a.py (Python)",
        "    ├── Description: Use:", "```", "run()", "└────────────── ", "```",
        ""].map String.toList :=
  ⟨isPlain_fenced, by decide,
    (splitAtBreaks_treeMap isPlain_fenced (by decide)).trans (by decide +kernel)⟩

end RepoAtlas.TreeMap
