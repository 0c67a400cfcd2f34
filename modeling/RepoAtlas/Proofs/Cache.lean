import RepoAtlas.Cache
import RepoAtlas.Proofs.Json.Strings

/-!
# Laws of the cache

A cache *works* if its table has a key and every column, no cell of a row holds
bytes, and rows may be added (`Cache.Working`). Of such a cache:

* `lookup_eq`: every look-up succeeds, and tells what the first row of the path
  holds;
* `exists_insert`: every entry is taken in, and the cache goes on working;
* `lookup_insert`: the entry that was taken in is found under its path;
* `rowsApart_insert`: the rows of other paths stay, in their order.

Of any cache, working or not, `lookup_insert_of_ne`: once an entry was taken in,
a look-up of another path ends as it did before.
-/

namespace RepoAtlas

/-! ### Tables -/

/-- Whether the cell holds text or nothing. -/
def Cell.isTextual : Cell → Bool
  | .blob _ => false
  | _ => true

/-- The text of a cell; empty if it holds nothing. -/
def Cell.asText : Cell → String
  | .text s => s
  | _ => ""

namespace Table

variable (t : Table)

theorem cell_map_columns {column : String} (h : column ∈ t.columns) (f : String → Cell) :
    t.cell (t.columns.map f) column = f column := by
  cases hindex : t.columns.idxOf? column with
  | none => exact absurd h (List.idxOf?_eq_none_iff.1 hindex)
  | some i =>
    obtain ⟨hi, hcolumn, _⟩ := List.idxOf?_eq_some_iff.1 hindex
    simp [cell, hindex, List.getD_eq_getElem?_getD, hi, hcolumn]

theorem isTextual_cell {row : List Cell} (h : ∀ c ∈ row, c.isTextual) (column : String) :
    (t.cell row column).isTextual := by
  unfold cell
  split
  · rename_i i _
    rw [List.getD_eq_getElem?_getD]
    cases hget : row[i]? with
    | none => rfl
    | some c => exact h c (List.mem_of_getElem? hget)
  · rfl

/-- The rows whose path is none of the given ones. -/
def rowsApart (paths : List String) : List (List Cell) :=
  t.rows.filter fun row => paths.all fun path => t.cell row "path" ≠ .text path

end Table

namespace Cache

open Json

/-- The cells of an entry by their columns. -/
def cellsOf (e : Entry) : List (String × Cell) := [
  ("path", .text e.path), ("hash", .text e.hash), ("description", .text e.description),
  ("enrichment", .text e.consideration), ("imports", .text (encodeList e.imports)),
  ("functions", .text (encodeList e.functions)), ("enriched_hash", .text e.describedHash)]

/-- What a row holds under a path, if no cell of it holds bytes. -/
def entryOf (t : Table) (path : String) (row : List Cell) : Entry where
  path := path
  hash := (t.cell row "hash").asText
  description := (t.cell row "description").asText
  consideration := (t.cell row "enrichment").asText
  imports := decodeList (t.cell row "imports").asText
  functions := decodeList (t.cell row "functions").asText
  describedHash := (t.cell row "enriched_hash").asText

/-- A list is what its text stands for. -/
theorem decodeList_encodeList (l : List String) : decodeList (encodeList l) = l := by
  have hopen : ∃ rest, (encodeList l).toList = '[' :: rest :=
    ⟨_, by rw [encodeList, Value.compact, String.toList_ofList, Value.strings,
      Value.compactChars]; rfl⟩
  obtain ⟨rest, hrest⟩ := hopen
  have hblank : Text.isBlankText (encodeList l) = false := by
    rw [Text.isBlankText, Text.allBlank, hrest]
    rfl
  rw [decodeList, hblank, encodeList, run_list_strings]
  rfl

/-! ### Working caches -/

/-- The table of a cache that works: it has a key and every column, and its
    cells hold text or nothing. -/
structure Sound (t : Table) : Prop where
  keyed : t.keyed = true
  columns : ∀ column ∈ Migration.columns, column ∈ t.columns
  textual : ∀ row ∈ t.rows, ∀ c ∈ row, c.isTextual

/-- A cache that works. -/
def Working (db : Database) : Prop :=
  db.writable = true ∧ ∃ t, db.cache = some t ∧ Sound t

theorem textOf_eq {c : Cell} (h : c.isTextual) (index : Nat) (column : String) :
    textOf index column c = .ok c.asText := by
  cases c with
  | null => rfl
  | text => rfl
  | blob => cases h

variable {db : Database} {t : Table}

/-- A look-up tells what the first row of the path holds, if no cell it looks at
    holds bytes. -/
theorem lookup_of_textual (hcache : db.cache = some t) {path : String} {row : List Cell}
    (hrow : t.find? path = some row)
    (htext : ∀ column ∈ Migration.columns, (t.cell row column).isTextual) :
    lookup db path = .ok (some (entryOf t path row)) := by
  simp only [lookup, table, hcache, hrow, bind, Except.bind, textOf_eq (htext "hash" (by decide)),
    textOf_eq (htext "description" (by decide)), textOf_eq (htext "enrichment" (by decide)),
    textOf_eq (htext "imports" (by decide)), textOf_eq (htext "functions" (by decide)),
    textOf_eq (htext "enriched_hash" (by decide))]
  rfl

theorem lookup_of_none (hcache : db.cache = some t) {path : String} (hrow : t.find? path = none) :
    lookup db path = .ok none := by
  simp [lookup, table, hcache, hrow, bind, Except.bind, pure, Except.pure]

/-- A look-up in a cache that works. -/
theorem lookup_eq (hcache : db.cache = some t) (ht : Sound t) (path : String) :
    lookup db path = .ok ((t.find? path).map (entryOf t path)) := by
  cases hrow : t.find? path with
  | none => exact lookup_of_none hcache hrow
  | some row =>
    exact lookup_of_textual hcache hrow fun column _ =>
      t.isTextual_cell (ht.textual row (List.mem_of_find?_eq_some hrow)) column

/-- The row of an entry. -/
def newRow (t : Table) (e : Entry) : List Cell :=
  t.columns.map fun column => ((cellsOf e).lookup column).getD .null

theorem cell_newRow (ht : Migration.columns ⊆ t.columns) (e : Entry) {column : String}
    (h : column ∈ Migration.columns) :
    t.cell (newRow t e) column = ((cellsOf e).lookup column).getD .null :=
  t.cell_map_columns (ht h) _

/-- The row of an entry holds the entry. -/
theorem entryOf_newRow (ht : Migration.columns ⊆ t.columns) (e : Entry) :
    entryOf t e.path (newRow t e) = e := by
  simp only [entryOf]
  rw [cell_newRow ht e (by decide : "hash" ∈ Migration.columns),
    cell_newRow ht e (by decide : "description" ∈ Migration.columns),
    cell_newRow ht e (by decide : "enrichment" ∈ Migration.columns),
    cell_newRow ht e (by decide : "imports" ∈ Migration.columns),
    cell_newRow ht e (by decide : "functions" ∈ Migration.columns),
    cell_newRow ht e (by decide : "enriched_hash" ∈ Migration.columns)]
  simp [cellsOf, List.lookup_cons, Cell.asText, decodeList_encodeList]

/-- The path of an entry stands in its row. -/
theorem cell_path_newRow (ht : Migration.columns ⊆ t.columns) (e : Entry) :
    t.cell (newRow t e) "path" = .text e.path := by
  rw [cell_newRow ht e (by decide)]
  rfl

theorem isTextual_newCell (e : Entry) (column : String) :
    (((cellsOf e).lookup column).getD .null).isTextual := by
  cases hcell : (cellsOf e).lookup column with
  | none => rfl
  | some c =>
    obtain ⟨k, hk⟩ : ∃ k, (k, c) ∈ cellsOf e := by
      obtain ⟨before, after, hmem, _⟩ := List.lookup_eq_some_iff.1 hcell
      exact ⟨column, hmem ▸ List.mem_append_right _ (List.mem_cons_self ..)⟩
    simp only [cellsOf, List.mem_cons, Prod.mk.injEq, List.not_mem_nil, or_false] at hk
    rcases hk with ⟨_, rfl⟩ | ⟨_, rfl⟩ | ⟨_, rfl⟩ | ⟨_, rfl⟩ | ⟨_, rfl⟩ | ⟨_, rfl⟩ | ⟨_, rfl⟩ <;>
      rfl

theorem Sound.insert (ht : Sound t) (e : Entry) : Sound (t.insert e.path (cellsOf e)) := by
  refine ⟨ht.keyed, ht.columns, fun row hrow c hc => ?_⟩
  rw [Table.insert, if_pos ht.keyed] at hrow
  rcases List.mem_append.1 hrow with hold | hnew
  · exact ht.textual row (List.mem_filter.1 hold).1 c hc
  · rw [List.mem_singleton.1 hnew] at hc
    obtain ⟨column, _, rfl⟩ := List.mem_map.1 hc
    exact isTextual_newCell e column

/-- A working cache takes an entry in. -/
theorem insert_eq (hwritable : db.writable = true) (hcache : db.cache = some t) (e : Entry) :
    insert db e = .ok { db with cache := some (t.insert e.path (cellsOf e)) } := by
  simp [insert, table, hcache, hwritable, bind, Except.bind, pure, Except.pure, cellsOf]

/-- Every entry is taken into a cache that works, which goes on working. -/
theorem exists_insert (h : Working db) (e : Entry) :
    ∃ next, insert db e = .ok next ∧ Working next := by
  obtain ⟨hwritable, t, hcache, ht⟩ := h
  exact ⟨_, insert_eq hwritable hcache e, hwritable, _, rfl, ht.insert e⟩

/-! ### What is found after an entry was taken in -/

/-- The rows of a table with a key, after an entry was taken in. -/
theorem rows_insert (ht : t.keyed = true) (e : Entry) :
    (t.insert e.path (cellsOf e)).rows =
      (t.rows.filter fun row => t.cell row "path" ≠ .text e.path) ++ [newRow t e] := by
  rw [Table.insert, if_pos ht]
  rfl

/-- The first row of a path, after an entry was taken in. -/
theorem find?_insert_eq (ht : t.keyed = true) (e : Entry) (path : String) :
    (t.insert e.path (cellsOf e)).find? path =
      ((t.rows.filter fun row => t.cell row "path" ≠ .text e.path) ++ [newRow t e]).find?
        fun row => t.cell row "path" = .text path := by
  rw [← rows_insert ht]
  rfl

theorem find?_insert (ht : t.keyed = true) (hcolumns : Migration.columns ⊆ t.columns) (e : Entry) :
    (t.insert e.path (cellsOf e)).find? e.path = some (newRow t e) := by
  -- No old row of the path is left, so that the new one is the first.
  have hold : (t.rows.filter fun row => t.cell row "path" ≠ .text e.path).find?
      (fun row => t.cell row "path" = .text e.path) = none := by
    rw [List.find?_eq_none]
    intro row hrow
    simpa using (List.mem_filter.1 hrow).2
  rw [find?_insert_eq ht, List.find?_append, hold,
    List.find?_cons_of_pos (by simpa using cell_path_newRow hcolumns e)]
  rfl

/-- The row of an entry stands under no other path, whatever the table. -/
theorem cell_path_newRow_ne (t : Table) (e : Entry) {path : String} (h : path ≠ e.path) :
    t.cell (newRow t e) "path" ≠ .text path := by
  by_cases hcolumn : "path" ∈ t.columns
  · have hcell : t.cell (newRow t e) "path" = .text e.path := t.cell_map_columns hcolumn _
    rw [hcell]
    simpa using Ne.symm h
  · simp [Table.cell, List.idxOf?_eq_none_iff.2 hcolumn]

/-- Under any other path, the first row stays, whatever the table. -/
theorem find?_insert_of_ne (t : Table) (e : Entry) {path : String} (h : path ≠ e.path) :
    (t.insert e.path (cellsOf e)).find? path = t.find? path := by
  have hold : (if t.keyed then t.rows.filter fun row => t.cell row "path" ≠ .text e.path
      else t.rows).find? (fun row => t.cell row "path" = .text path) = t.find? path := by
    split
    · rw [List.find?_filter, Table.find?]
      congr 1
      funext row
      by_cases hrow : t.cell row "path" = .text path
      · simp [hrow, h]
      · simp [hrow]
    · rfl
  change ((if t.keyed then t.rows.filter fun row => t.cell row "path" ≠ .text e.path
      else t.rows) ++ [newRow t e]).find? (fun row => t.cell row "path" = .text path) = _
  rw [List.find?_append, hold,
    List.find?_cons_of_neg (by simpa using cell_path_newRow_ne t e h)]
  simp

variable {next : Database} {e : Entry}

/-- The entry that was taken into a table is found under its path. -/
theorem lookup_inserted (ht : t.keyed = true) (hcolumns : Migration.columns ⊆ t.columns)
    (hcache : next.cache = some (t.insert e.path (cellsOf e))) :
    lookup next e.path = .ok (some e) := by
  have htext (column : String) (hcolumn : column ∈ Migration.columns) :
      (t.cell (newRow t e) column).isTextual := by
    rw [cell_newRow hcolumns e hcolumn]
    exact isTextual_newCell e column
  rw [lookup_of_textual hcache (find?_insert ht hcolumns e) htext]
  exact congrArg (fun e => Except.ok (some e)) (entryOf_newRow hcolumns e)

/-- The entry that was taken in is found under its path. -/
theorem lookup_insert (h : Working db) (he : insert db e = .ok next) :
    lookup next e.path = .ok (some e) := by
  obtain ⟨hwritable, t, hcache, ht⟩ := h
  rw [insert_eq hwritable hcache] at he
  cases he
  exact lookup_inserted ht.keyed ht.columns rfl

/-- A cache that takes an entry in has a table, which gets the row of the entry. -/
theorem exists_of_insert (he : insert db e = .ok next) :
    ∃ t, db.cache = some t ∧ next = { db with cache := some (t.insert e.path (cellsOf e)) } := by
  rw [insert, table] at he
  cases hcache : db.cache with
  | none => rw [hcache] at he; cases he
  | some t =>
    rw [hcache] at he
    cases hwritable : db.writable with
    | false => simp [hwritable, bind, Except.bind] at he
    | true =>
      simp only [hwritable, bind, Except.bind] at he
      cases he
      exact ⟨t, rfl, rfl⟩

/-- Under any other path, what was found before is found. -/
theorem lookup_insert_of_ne (he : insert db e = .ok next) {path : String}
    (hpath : path ≠ e.path) : lookup next path = lookup db path := by
  obtain ⟨t, hcache, rfl⟩ := exists_of_insert he
  simp only [lookup, table, hcache, bind, Except.bind, find?_insert_of_ne t e hpath]
  rfl

/-- The columns of a cache, and the rows whose path is none of the given ones, in
    their order. -/
def rowsApart (db : Database) (paths : List String) : Option (List String × List (List Cell)) :=
  db.cache.map fun t => (t.columns, t.rowsApart paths)

/-- The rows of other paths stay, in their order. -/
theorem rowsApart_insert (h : Working db) (he : insert db e = .ok next)
    {paths : List String} (hpath : e.path ∈ paths) : rowsApart next paths = rowsApart db paths := by
  obtain ⟨hwritable, t, hcache, ht⟩ := h
  rw [insert_eq hwritable hcache] at he
  cases he
  -- The row that makes way, if there is one, is of a path that is left out, and so
  -- is the row that comes in.
  have hold : (t.rows.filter fun row => t.cell row "path" ≠ .text e.path).filter
      (fun row => paths.all fun path => t.cell row "path" ≠ .text path) = t.rowsApart paths := by
    rw [List.filter_filter, Table.rowsApart]
    refine List.filter_congr fun row _ => ?_
    rw [Bool.and_eq_left_iff_imp, List.all_eq_true]
    exact fun hall => hall _ hpath
  have hnew : ¬(paths.all fun path => t.cell (newRow t e) "path" ≠ .text path) = true := by
    rw [cell_path_newRow ht.columns, List.all_eq_true]
    exact fun hall => absurd (hall _ hpath) (by simp)
  have hrows : (t.insert e.path (cellsOf e)).rowsApart paths = t.rowsApart paths := by
    change List.filter (fun row => paths.all fun path => t.cell row "path" ≠ .text path)
      (t.insert e.path (cellsOf e)).rows = _
    rw [rows_insert ht.keyed, List.filter_append, hold, List.filter_singleton,
      Bool.eq_false_iff.2 hnew, cond_false, List.append_nil]
  rw [rowsApart, rowsApart, hcache, Option.map_some, Option.map_some, hrows]
  rfl

/-! ### What is known of a path -/

/-- The entry of a path, as far as a look-up succeeds. -/
def known? (db : Database) (path : String) : Option Entry :=
  match lookup db path with
  | .ok e => e
  | .error _ => none

theorem lookup_eq_known? (h : Working db) (path : String) :
    lookup db path = .ok (known? db path) := by
  obtain ⟨_, t, hcache, ht⟩ := h
  rw [known?, lookup_eq hcache ht]

/-- What is known of a path carries the path. -/
theorem path_of_known? (h : Working db) {path : String} (he : known? db path = some e) :
    e.path = path := by
  obtain ⟨_, t, hcache, ht⟩ := h
  rw [known?, lookup_eq hcache ht] at he
  obtain ⟨row, _, rfl⟩ := Option.map_eq_some_iff.1 he
  rfl

theorem known?_insert (h : Working db) (he : insert db e = .ok next) :
    known? next e.path = some e := by
  rw [known?, lookup_insert h he]

theorem known?_insert_of_ne (he : insert db e = .ok next) {path : String}
    (hpath : path ≠ e.path) : known? next path = known? db path := by
  rw [known?, lookup_insert_of_ne he hpath, known?]

/-! ### Empty caches -/

/-- A cache that works and has no entries. -/
def Blank (db : Database) : Prop := Working db ∧ size db = .ok 0

theorem blank_empty : Blank empty := by
  refine ⟨⟨rfl, _, rfl, rfl, by decide, ?_⟩, rfl⟩
  rintro row ⟨⟩

theorem known?_of_blank (h : Blank db) (path : String) : known? db path = none := by
  obtain ⟨⟨_, t, hcache, ht⟩, hsize⟩ := h
  have hrows : t.rows = [] := by
    rw [size, table, hcache] at hsize
    exact List.length_eq_zero_iff.1 (Except.ok.inj hsize)
  rw [known?, lookup_eq hcache ht, Table.find?, hrows]
  rfl

end Cache

end RepoAtlas
