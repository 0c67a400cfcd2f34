import RepoAtlas.Proofs.Cache

/-!
# Caches that agree under some paths

Two caches may have been written to under different paths and still be told apart by
no look-up under the others. They agree there (`AgreeUnder`) if they are of one form and
have the same rows under those paths. It stays so when both take in the same entry
(`AgreeUnder.insert`), and when one of them takes in an entry of another path
(`AgreeUnder.insert_left`), whatever the form of their tables.
-/

namespace RepoAtlas.Cache

/-- The rows of a path, in their order. -/
def rowsOf (t : Table) (path : String) : List (List Cell) :=
  t.rows.filter fun row => t.cell row "path" = .text path

/-- Whether two tables have the same columns, as keys or not, and the same rows under some
    paths. -/
structure AlikeUnder (P : String → Prop) (t u : Table) : Prop where
  columns : t.columns = u.columns
  keyed : t.keyed = u.keyed
  rows : ∀ path, P path → rowsOf t path = rowsOf u path

/-- Whether two caches are alike under some paths, or both have no table. -/
structure AgreeUnder (P : String → Prop) (db other : Database) : Prop where
  writable : db.writable = other.writable
  tables : db.cache = none ∧ other.cache = none ∨
    ∃ t u, db.cache = some t ∧ other.cache = some u ∧ AlikeUnder P t u

variable {P : String → Prop} {t u : Table} {db other next : Database} {path : String} {e : Entry}

theorem find?_eq_head?_rowsOf : t.find? path = (rowsOf t path).head? := List.head?_filter.symm

/-- The rows of a path after an entry was taken in. -/
theorem rowsOf_insert (t : Table) (e : Entry) (path : String) :
    rowsOf (t.insert e.path (cellsOf e)) path =
      (if t.keyed ∧ path = e.path then [] else rowsOf t path) ++
        [newRow t e].filter fun row => t.cell row "path" = .text path := by
  change List.filter (fun row => t.cell row "path" = .text path)
    ((if t.keyed then t.rows.filter fun row => t.cell row "path" ≠ .text e.path else t.rows) ++
      [newRow t e]) = _
  rw [List.filter_append]
  refine congrArg (· ++ _) ?_
  cases t.keyed with
  | false => simp [rowsOf]
  | true =>
    rw [if_pos rfl, List.filter_filter]
    by_cases hpath : path = e.path
    · simp [hpath]
    · rw [if_neg fun h => hpath h.2]
      refine List.filter_congr fun row _ => ?_
      by_cases hrow : t.cell row "path" = .text path <;> simp [hrow, hpath]

namespace AlikeUnder

variable (h : AlikeUnder P t u)

include h

theorem cell_eq : t.cell = u.cell := by
  funext row column
  rw [Table.cell, Table.cell, h.columns]

/-- Under the paths, the same row is found. -/
theorem find?_eq (hpath : P path) : t.find? path = u.find? path := by
  rw [find?_eq_head?_rowsOf, find?_eq_head?_rowsOf, h.rows path hpath]

theorem insert (e : Entry) :
    AlikeUnder P (t.insert e.path (cellsOf e)) (u.insert e.path (cellsOf e)) := by
  have hrow : newRow t e = newRow u e := by rw [newRow, newRow, h.columns]
  refine ⟨h.columns, h.keyed, fun path hpath => ?_⟩
  rw [rowsOf_insert, rowsOf_insert, h.rows path hpath, h.keyed, h.cell_eq, hrow]

/-- A row of another path makes no difference to what is under the paths. -/
theorem insert_left (he : ¬P e.path) : AlikeUnder P (t.insert e.path (cellsOf e)) u := by
  refine ⟨h.columns, h.keyed, fun path hpath => ?_⟩
  have hne : path ≠ e.path := fun heq => he (heq ▸ hpath)
  rw [rowsOf_insert, if_neg fun h => hne h.2, h.rows path hpath,
    List.filter_cons_of_neg (by simpa using cell_path_newRow_ne t e hne), List.filter_nil,
    List.append_nil]

end AlikeUnder

/-! ### Caches -/

theorem AgreeUnder.refl (db : Database) : AgreeUnder P db db := by
  refine ⟨rfl, ?_⟩
  cases hcache : db.cache with
  | none => exact .inl ⟨rfl, rfl⟩
  | some t => exact .inr ⟨t, t, rfl, rfl, rfl, rfl, fun _ _ => rfl⟩

namespace AgreeUnder

variable (h : AgreeUnder P db other)

include h

/-- The same is known of the paths. -/
theorem known?_eq (hpath : P path) : known? db path = known? other path := by
  rcases h.tables with ⟨hdb, hother⟩ | ⟨t, u, hdb, hother, halike⟩
  · simp [known?, lookup, table, hdb, hother, bind, Except.bind]
  · simp only [known?, lookup, table, hdb, hother, bind, Except.bind, halike.find?_eq hpath,
      halike.cell_eq]

/-- Caches that agree take the same entry in, or neither does. -/
theorem insert (e : Entry) :
    (∃ next next', Cache.insert db e = .ok next ∧ Cache.insert other e = .ok next' ∧
      AgreeUnder P next next') ∨
    ∃ error, Cache.insert db e = .error error ∧ Cache.insert other e = .error error := by
  rcases h.tables with ⟨hdb, hother⟩ | ⟨t, u, hdb, hother, halike⟩
  · exact .inr ⟨.noTable "cache", by rw [Cache.insert, table, hdb]; rfl,
      by rw [Cache.insert, table, hother]; rfl⟩
  · have hwritable := h.writable
    cases hdbWritable : db.writable with
    | true =>
      rw [hdbWritable] at hwritable
      exact .inl ⟨_, _, insert_eq hdbWritable hdb e, insert_eq hwritable.symm hother e,
        h.writable, .inr ⟨_, _, rfl, rfl, halike.insert e⟩⟩
    | false =>
      rw [hdbWritable] at hwritable
      exact .inr ⟨.writeRefused,
        by simp [Cache.insert, table, hdb, hdbWritable, bind, Except.bind],
        by simp [Cache.insert, table, hother, ← hwritable, bind, Except.bind]⟩

/-- An entry of another path makes no difference to what the caches agree on. -/
theorem insert_left (hinsert : Cache.insert db e = .ok next) (he : ¬P e.path) :
    AgreeUnder P next other := by
  obtain ⟨t, hcache, rfl⟩ := exists_of_insert hinsert
  rcases h.tables with ⟨hdb, -⟩ | ⟨t', u, hdb, hother, halike⟩
  · cases hdb.symm.trans hcache
  · cases hdb.symm.trans hcache
    exact ⟨h.writable, .inr ⟨_, u, rfl, hother, halike.insert_left he⟩⟩

end AgreeUnder

end RepoAtlas.Cache
