import RepoAtlas.Database
import Mathlib.Data.List.Basic

/-!
# Tables that grow

What the cells of a table are after a column was added, and after a column was
copied into another. Both need rows that have a cell for each column
(`Table.IsFull`), and keep them so.

* `cell_addColumns`: added columns leave every cell as it was, and hold nothing;
* `cell_copyRow`: a copy fills the target where it held nothing, and no other
  cell;
* `copied_addColumns`: a copy may be made before or after columns are added.
-/

namespace RepoAtlas.Table

variable {t : Table} {row : List Cell} {column source target : String}

/-- Whether every row has a cell for each column. -/
def IsFull (t : Table) : Prop := ∀ row ∈ t.rows, row.length = t.columns.length

instance (t : Table) : Decidable t.IsFull :=
  inferInstanceAs (Decidable (∀ row ∈ t.rows, row.length = t.columns.length))

theorem cell_of_notMem (row : List Cell) (h : column ∉ t.columns) : t.cell row column = .null := by
  rw [cell, List.idxOf?_eq_none_iff.2 h]

/-- The index of a column stays when others are added behind. -/
theorem idxOf?_append_of_mem {columns : List String} (names : List String) (h : column ∈ columns) :
    (columns ++ names).idxOf? column = columns.idxOf? column := by
  rw [List.idxOf?, List.findIdx?_append, ← List.idxOf?]
  cases hindex : columns.idxOf? column with
  | none => exact absurd h (List.idxOf?_eq_none_iff.1 hindex)
  | some i => rfl

/-! ### Columns added -/

/-- The table with more columns, in which no row has anything. -/
def addColumns (t : Table) (names : List String) : Table :=
  { t with
    columns := t.columns ++ names
    rows := t.rows.map (· ++ List.replicate names.length .null) }

theorem addColumns_nil : t.addColumns [] = t := by
  have hrows : t.rows.map (· ++ List.replicate 0 .null) = t.rows := by simp
  rw [addColumns, List.append_nil, List.length_nil, hrows]

/-- Columns are added one after the other. -/
theorem addColumns_append (names others : List String) :
    t.addColumns (names ++ others) = (t.addColumns names).addColumns others := by
  have hrow (row : List Cell) : row ++ List.replicate (names ++ others).length .null =
      row ++ List.replicate names.length .null ++ List.replicate others.length .null := by
    rw [List.length_append, List.replicate_add, List.append_assoc]
  simp only [addColumns, List.map_map, Function.comp_def, hrow, List.append_assoc]

theorem isFull_addColumns (h : t.IsFull) (names : List String) : (t.addColumns names).IsFull := by
  intro row hrow
  obtain ⟨old, hold, rfl⟩ := List.mem_map.1 hrow
  rw [addColumns, List.length_append, List.length_append, List.length_replicate, h old hold]

/-- Added columns leave the cells of the others as they were, and hold nothing. -/
theorem cell_addColumns (h : row.length = t.columns.length) (names : List String)
    (column : String) :
    (t.addColumns names).cell (row ++ List.replicate names.length .null) column =
      t.cell row column := by
  rw [cell, cell, addColumns]
  by_cases hold : column ∈ t.columns
  · rw [idxOf?_append_of_mem names hold]
    cases hindex : t.columns.idxOf? column with
    | none => rfl
    | some i =>
      obtain ⟨hi, _⟩ := List.idxOf?_eq_some_iff.1 hindex
      dsimp only
      rw [List.getD_eq_getElem?_getD, List.getElem?_append_left (h ▸ hi),
        List.getD_eq_getElem?_getD]
  · rw [List.idxOf?_eq_none_iff.2 hold]
    cases hindex : (t.columns ++ names).idxOf? column with
    | none => rfl
    | some i =>
      -- A name that was not there stands behind the old columns, where each cell is empty.
      obtain ⟨hi, hname, _⟩ := List.idxOf?_eq_some_iff.1 hindex
      have hbehind : t.columns.length ≤ i := by
        by_contra hlt
        rw [List.getElem_append_left (Nat.not_le.1 hlt)] at hname
        exact hold (hname ▸ List.getElem_mem _)
      dsimp only
      rw [List.getD_eq_getElem?_getD, List.getElem?_append_right (h ▸ hbehind),
        List.getElem?_replicate]
      split <;> rfl

/-- Tables that are the same after columns were added were the same before. -/
theorem addColumns_injective (names : List String) : Function.Injective (addColumns · names) := by
  intro t t' h
  obtain ⟨hcolumns, hkeyed, hrows⟩ := Table.mk.inj h
  have hcells : Function.Injective (· ++ List.replicate names.length Cell.null) :=
    fun _ _ => List.append_cancel_right
  cases t
  cases t'
  exact Table.mk.injEq .. ▸
    ⟨List.append_cancel_right hcolumns, hkeyed, List.map_injective_iff.2 hcells hrows⟩

/-! ### A column copied -/

/-- The row with a column set to the cell of another one, if it has nothing. -/
def copyRow (t : Table) (source target : String) (row : List Cell) : List Cell :=
  if t.cell row target = .null then t.setCell row target (t.cell row source) else row

/-- The table with a column copied into another, where that has nothing. -/
def copied (t : Table) (source target : String) : Table :=
  { t with rows := t.rows.map (t.copyRow source target) }

theorem length_setCell (c : Cell) : (t.setCell row target c).length = row.length := by
  rw [setCell]
  split
  · exact List.length_set
  · rfl

theorem length_copyRow : (t.copyRow source target row).length = row.length := by
  rw [copyRow]
  split
  · exact length_setCell _
  · rfl

/-- Setting a cell changes that one alone. -/
theorem cell_setCell (h : row.length = t.columns.length) (htarget : target ∈ t.columns) (c : Cell)
    (column : String) :
    t.cell (t.setCell row target c) column = if column = target then c else t.cell row column := by
  obtain ⟨i, hi⟩ := Option.ne_none_iff_exists'.1 fun hnone =>
    List.idxOf?_eq_none_iff.1 hnone htarget
  obtain ⟨hlt, hname, _⟩ := List.idxOf?_eq_some_iff.1 hi
  rw [setCell, hi]
  by_cases hcolumn : column = target
  · rw [if_pos hcolumn, hcolumn, cell, hi]
    dsimp only
    rw [List.getD_eq_getElem?_getD, List.getElem?_set_self (h ▸ hlt)]
    rfl
  · rw [if_neg hcolumn, cell, cell]
    cases hj : t.columns.idxOf? column with
    | none => rfl
    | some j =>
      obtain ⟨_, hother, _⟩ := List.idxOf?_eq_some_iff.1 hj
      have hne : i ≠ j := fun heq => hcolumn (by subst heq; exact hother.symm.trans hname)
      dsimp only
      rw [List.getD_eq_getElem?_getD, List.getD_eq_getElem?_getD, List.getElem?_set_ne hne]

/-- A copy fills the target where it held nothing, and no other cell. -/
theorem cell_copyRow (h : row.length = t.columns.length) (htarget : target ∈ t.columns)
    (column : String) :
    t.cell (t.copyRow source target row) column =
      if column = target ∧ t.cell row target = .null then t.cell row source
      else t.cell row column := by
  rw [copyRow]
  split
  · rename_i hnull
    rw [cell_setCell h htarget]
    simp [hnull]
  · rename_i hsome
    simp [hsome]

theorem setCell_cell (row : List Cell) (column : String) :
    t.setCell row column (t.cell row column) = row := by
  rw [setCell, cell]
  cases hindex : t.columns.idxOf? column with
  | none => rfl
  | some i =>
    dsimp only
    by_cases hi : i < row.length
    · rw [List.getD_eq_getElem?_getD, List.getElem?_eq_getElem hi, Option.getD_some,
        List.set_getElem_self]
    · exact List.set_eq_of_length_le (Nat.not_lt.1 hi)

/-- A copy into an empty column changes nothing only if there is nothing to copy. -/
theorem copied_eq_self_iff (h : t.IsFull) (htarget : target ∈ t.columns)
    (hempty : ∀ row ∈ t.rows, t.cell row target = .null) :
    t.copied source target = t ↔ ∀ row ∈ t.rows, t.cell row source = .null := by
  constructor
  · intro hsame row hrow
    have hrows : t.rows.map (t.copyRow source target) = t.rows.map id :=
      (congrArg Table.rows hsame).trans (List.map_id _).symm
    have hkept : t.copyRow source target row = row := List.map_inj_left.1 hrows row hrow
    have hcell : t.cell (t.copyRow source target row) target = _ :=
      cell_copyRow (h row hrow) htarget target
    rw [hkept, if_pos ⟨rfl, hempty row hrow⟩] at hcell
    exact hcell.symm.trans (hempty row hrow)
  · intro hnull
    have hrows : t.rows.map (t.copyRow source target) = t.rows := by
      refine (List.map_congr_left fun row hrow => ?_).trans (List.map_id _)
      rw [copyRow, if_pos (hempty row hrow), hnull row hrow, ← hempty row hrow, setCell_cell]
      rfl
    rw [copied, hrows]

/-- A copy may be made before or after columns are added. -/
theorem copied_addColumns (h : t.IsFull) (htarget : target ∈ t.columns) (names : List String) :
    (t.addColumns names).copied source target = (t.copied source target).addColumns names := by
  have hrow (row : List Cell) (hrow : row.length = t.columns.length) :
      (t.addColumns names).copyRow source target (row ++ List.replicate names.length .null) =
        t.copyRow source target row ++ List.replicate names.length .null := by
    rw [copyRow, copyRow, cell_addColumns hrow, cell_addColumns hrow]
    split
    · rw [setCell, setCell, addColumns, idxOf?_append_of_mem names htarget]
      cases hindex : t.columns.idxOf? target with
      | none => rfl
      | some i =>
        obtain ⟨hi, _⟩ := List.idxOf?_eq_some_iff.1 hindex
        exact List.set_append_left _ _ (hrow ▸ hi)
    · rfl
  rw [copied, copied, addColumns, addColumns, List.map_map, List.map_map]
  refine congrArg (Table.mk _ _) (List.map_congr_left fun row hmem => hrow row (h row hmem))

end RepoAtlas.Table
