import RepoAtlas.Proofs.Cache.Failure
import RepoAtlas.Proofs.Json.Arrays
import RepoAtlas.Proofs.Migration.Upgrade

/-!
# The rows of a cache

The table of a cache has a key and every column, and no path has two rows
(`Cache.Intact`), whatever the cells hold. So it is after a migration
(`Cache.intact_run`), and so it stays when an entry is offered to the cache, which takes
it in or not (`Cache.Intact.offered`); walks and rounds of descriptions do no more to it
(`Walk.intact_collect`, `Round.intact_run`).

* `Cache.isListOf_decodeList`: a text stands for the list that it spells, and for the
  empty one if it spells none;
* `Cache.exists_lookup_of_mem`: a row whose cells hold text or nothing is found, and tells
  what they hold;
* `Cache.round_trip_rows`: an entry that was taken in is found as it is, in the place of
  the one before, and nothing else changes.
-/

namespace RepoAtlas

/-! ### Rows of one path -/

namespace Table

variable {t : Table} {path : String} {row : List Cell}

/-- What the rows hold in the column `path`. -/
def pathCells (t : Table) : List Cell := t.rows.map fun row => t.cell row "path"

/-- Whether no two rows have the same text in the column `path`. -/
def IsDistinct (t : Table) : Prop :=
  t.pathCells.Pairwise fun c c' => ∀ path, c = .text path → c' ≠ .text path

/-- The row of a path is the first one. -/
theorem find?_of_mem (ht : t.IsDistinct) (hrow : row ∈ t.rows)
    (hpath : t.cell row "path" = .text path) : t.find? path = some row := by
  obtain ⟨before, after, hrows⟩ := List.append_of_mem hrow
  rw [IsDistinct, pathCells, hrows, List.map_append, List.pairwise_append] at ht
  rw [find?, List.find?_eq_some_iff_append]
  refine ⟨by simpa using hpath, before, after, hrows, fun other hother => ?_⟩
  have hne := ht.2.2 _ (List.mem_map_of_mem hother) _ (List.mem_map_of_mem List.mem_cons_self) path
  simpa using fun hsame => hne hsame hpath

/-- Without the row of a path, if there is one, a table has one row less. -/
theorem length_filter_path (ht : t.IsDistinct) (path : String) :
    (t.rows.filter fun row => t.cell row "path" ≠ .text path).length +
      (t.find? path).toList.length = t.rows.length := by
  cases hfind : t.find? path with
  | none =>
    rw [find?, List.find?_eq_none] at hfind
    rw [List.filter_eq_self.2 fun row hrow => by simpa using hfind row hrow]
    rfl
  | some row =>
    obtain ⟨hpath, before, after, hrows, hbefore⟩ := List.find?_eq_some_iff_append.1 hfind
    rw [decide_eq_true_eq] at hpath
    rw [IsDistinct, pathCells, hrows, List.map_append, List.map_cons, List.pairwise_append,
      List.pairwise_cons] at ht
    have hafter : ∀ other ∈ after, t.cell other "path" ≠ .text path := fun other hother =>
      ht.2.1.1 _ (List.mem_map_of_mem hother) path hpath
    rw [hrows, List.filter_append, List.filter_cons_of_neg (by simpa using hpath),
      List.filter_eq_self.2 fun other hother => by simpa using hbefore other hother,
      List.filter_eq_self.2 fun other hother => by simpa using hafter other hother]
    simp only [List.length_append, List.length_cons, Option.toList_some, List.length_nil]
    omega

end Table

/-! ### Tables of caches -/

namespace Cache

open Json

/-- The table of a cache, whatever its cells hold: it has a key and every column,
    and no path has two rows. -/
structure Formed (t : Table) : Prop where
  keyed : t.keyed = true
  columns : Migration.columns ⊆ t.columns
  distinct : t.IsDistinct

/-- A cache whose table, if it has one, is as it should be. -/
def Intact (db : Database) : Prop := ∀ t, db.cache = some t → Formed t

variable {db next : Database} {t wide : Table} {path : String} {row : List Cell}

/-- The cells of a new row stand behind those of the rows that are left. -/
theorem pathCells_insert (ht : Formed t) (e : Entry) :
    (t.insert e.path (cellsOf e)).pathCells =
      ((t.rows.filter fun row => t.cell row "path" ≠ .text e.path).map fun row =>
        t.cell row "path") ++ [.text e.path] := by
  rw [Table.pathCells, rows_insert ht.keyed, List.map_append, ← cell_path_newRow ht.columns e]
  rfl

theorem Formed.insert (ht : Formed t) (e : Entry) : Formed (t.insert e.path (cellsOf e)) := by
  refine ⟨ht.keyed, ht.columns, ?_⟩
  have hleft : ((t.rows.filter fun row => t.cell row "path" ≠ .text e.path).map fun row =>
      t.cell row "path").Sublist t.pathCells := List.filter_sublist.map _
  rw [Table.IsDistinct, pathCells_insert ht, List.pairwise_append]
  refine ⟨ht.distinct.sublist hleft, List.pairwise_singleton .., ?_⟩
  intro c hc c' hc' path hpath
  obtain ⟨row, hrow, rfl⟩ := List.mem_map.1 hc
  have hne : t.cell row "path" ≠ .text e.path := by simpa using (List.mem_filter.1 hrow).2
  rw [List.mem_singleton.1 hc', ← hpath]
  exact hne.symm

theorem intact_empty : Intact empty := by
  intro t ht
  cases ht
  exact ⟨rfl, by decide, .nil⟩

/-! ### Migrations -/

/-- A migration leaves the paths of the rows. -/
theorem pathCells_of_keeps {n : Nat} (hcolumns : Migration.columns ⊆ wide.columns)
    (h : Migration.Keeps n t wide) : wide.pathCells = t.pathCells := by
  have hpath : "path" ∈ wide.columns := hcolumns (by decide)
  have hrows : List.Forall₂ (fun row row' => t.cell row "path" = wide.cell row' "path") t.rows
      wide.rows := by
    refine h.rows.imp fun row row' hrow => ?_
    by_cases hthere : "path" ∈ t.columns
    · exact (hrow.1 _ hthere).symm
    · have hnew := hrow.2 _ hpath hthere
      rw [Migration.newCell, if_neg fun hcopied => absurd hcopied.2.1 (by decide)] at hnew
      rw [hnew, Table.cell_of_notMem row hthere]
  rw [eq_comm, Table.pathCells, Table.pathCells, ← List.forall₂_eq_eq_eq,
    List.forall₂_map_left_iff, List.forall₂_map_right_iff]
  exact hrows

/-- A migration leaves a cache as it should be, if its table had a key and no path had two
    rows. -/
theorem intact_run (h : Migration.Upgradable db) (hkeyed : (Migration.tableOf db).keyed = true)
    (hdistinct : (Migration.tableOf db).IsDistinct) : Intact (Migration.run db).1 := by
  obtain ⟨m, hvalues, hinfo⟩ : ∃ m, m.hasValues = true ∧
      Migration.withInfo db = { db with info := some m } := by
    cases hinfo : db.info with
    | none => exact ⟨_, rfl, Migration.withInfo_of_none hinfo⟩
    | some m => exact ⟨m, h.info m hinfo, by rw [Migration.withInfo_of_info hinfo, ← hinfo]⟩
  have hnow : ({ db with info := some m } : Database).info = some m := rfl
  obtain ⟨wide, hpass, hwide, hcolumns⟩ :=
    Migration.exists_pass_steps hnow hvalues h.fits h.there
  have hkeeps : Migration.Keeps (Migration.version db) (Migration.tableOf db) wide :=
    .of_widens h.full hwide
  rw [Migration.run_eq_pass, hinfo, hpass]
  intro t ht
  cases ht
  refine ⟨hkeeps.keyed.trans hkeyed, hcolumns, ?_⟩
  rw [Table.IsDistinct, pathCells_of_keeps hcolumns hkeeps]
  exact hdistinct

/-! ### Lists as texts -/

/-- Whether a list is the one of a text: the one that it spells, or the empty one
    if it spells none. -/
def IsListOf (s : String) (l : List String) : Prop := Spells s l ∨ l = [] ∧ ∀ l', ¬Spells s l'

/-- A blank text spells no list. -/
theorem not_spells_of_blank {s : String} (h : Text.isBlankText s = true) (l : List String) :
    ¬Spells s l := by
  rintro ⟨rest, harray, -⟩
  obtain ⟨inner, hopen⟩ : ∃ inner, Spaced s.toList ('[' :: inner) := by
    cases harray with
    | empty hopen => exact ⟨_, hopen⟩
    | items hopen => exact ⟨_, hopen⟩
  have hbracket : '[' ∈ s.toList := hopen.suffix.subset List.mem_cons_self
  exact absurd (List.all_eq_true.1 h _ hbracket) (by decide)

/-- The list that is read from a text is the list of the text. -/
theorem isListOf_decodeList (s : String) : IsListOf s (decodeList s) := by
  unfold decodeList
  split
  · rename_i hblank
    exact .inr ⟨rfl, not_spells_of_blank hblank⟩
  · split
    · rename_i l hl
      exact .inl (run_list_string_iff.1 hl)
    · rename_i error herror
      refine .inr ⟨rfl, fun l' hl' => ?_⟩
      rw [run_list_string_iff.2 hl'] at herror
      cases herror

/-! ### Look-ups -/

/-- Whether an entry is what a row tells, if its cells hold text or nothing: a cell that
    holds nothing counts as the empty text. -/
structure Tells (t : Table) (row : List Cell) (e : Entry) : Prop where
  path : t.cell row "path" = .text e.path
  hash : e.hash = (t.cell row "hash").asText
  description : e.description = (t.cell row "description").asText
  consideration : e.consideration = (t.cell row "enrichment").asText
  imports : IsListOf (t.cell row "imports").asText e.imports
  functions : IsListOf (t.cell row "functions").asText e.functions
  describedHash : e.describedHash = (t.cell row "enriched_hash").asText

theorem tells_entryOf (h : t.cell row "path" = .text path) : Tells t row (entryOf t path row) where
  path := h
  hash := rfl
  description := rfl
  consideration := rfl
  imports := isListOf_decodeList _
  functions := isListOf_decodeList _
  describedHash := rfl

/-- A row whose cells hold text or nothing is found, and tells what they hold. -/
theorem exists_lookup_of_mem (hcache : db.cache = some t) (ht : Formed t) (hrow : row ∈ t.rows)
    (hpath : t.cell row "path" = .text path)
    (htext : ∀ column ∈ Migration.columns, (t.cell row column).isTextual) :
    ∃ e, lookup db path = .ok (some e) ∧ Tells t row e :=
  ⟨_, lookup_of_textual hcache (Table.find?_of_mem ht.distinct hrow hpath) htext,
    tells_entryOf hpath⟩

/-- A look-up tells nothing only where the path has no row. -/
theorem lookup_eq_none_iff (hcache : db.cache = some t) :
    lookup db path = .ok none ↔ t.find? path = none := by
  refine ⟨fun h => ?_, lookup_of_none hcache⟩
  cases hrow : t.find? path with
  | none => rfl
  | some row =>
    -- Of a row, each cell in turn is an error or is read, up to the entry.
    simp only [lookup, table, hcache, hrow, bind, Except.bind] at h
    repeat' split at h
    all_goals cases h

/-! ### Entries offered -/

/-- The cache after an entry was offered to it. -/
def offered (db : Database) (e : Entry) : Database :=
  match insert db e with
  | .ok next => next
  | .error _ => db

theorem Intact.insert (h : Intact db) {e : Entry} (he : insert db e = .ok next) : Intact next := by
  obtain ⟨t, hcache, rfl⟩ := exists_of_insert he
  intro t' ht'
  cases ht'
  exact (h t hcache).insert e

/-- A cache stays as it should be, whether it takes an entry in or not. -/
theorem Intact.offered (h : Intact db) (e : Entry) : Intact (offered db e) := by
  unfold Cache.offered
  cases hinsert : Cache.insert db e with
  | error => exact h
  | ok next => exact h.insert hinsert

theorem Intact.getD_offered (h : Intact db) (e : Option Entry) :
    Intact ((e.map (Cache.offered db)).getD db) := by
  cases e with
  | none => exact h
  | some e => exact h.offered e

/-- A cache takes an entry in if rows may be added to it and it has its table. -/
theorem exists_insert_iff (e : Entry) :
    (∃ next, insert db e = .ok next) ↔ db.writable = true ∧ db.cache.isSome := by
  constructor
  · rintro ⟨next, hnext⟩
    obtain ⟨t, hcache, -⟩ := exists_of_insert hnext
    refine ⟨?_, by rw [hcache]; rfl⟩
    by_contra hwritable
    obtain ⟨error, herror⟩ := refuses_of_not_writable (Bool.eq_false_iff.2 hwritable) e
    rw [hnext] at herror
    cases herror
  · rintro ⟨hwritable, htable⟩
    obtain ⟨t, hcache⟩ := Option.isSome_iff_exists.1 htable
    exact ⟨_, insert_eq hwritable hcache e⟩

/-- The number of entries grows by one if the path had no row, and else stays. -/
theorem exists_size_insert (h : Intact db) {e : Entry} (he : insert db e = .ok next) :
    ∃ n, size db = .ok n ∧
      size next = .ok (if lookup db e.path = .ok none then n + 1 else n) := by
  obtain ⟨t, hcache, rfl⟩ := exists_of_insert he
  have ht := h t hcache
  have hlength := Table.length_filter_path ht.distinct e.path
  refine ⟨t.rows.length, by rw [size, table, hcache]; rfl, ?_⟩
  change Except.ok (t.insert e.path (cellsOf e)).rows.length = _
  rw [rows_insert ht.keyed, List.length_append, List.length_singleton]
  simp only [lookup_eq_none_iff hcache]
  cases hrow : t.find? e.path with
  | none =>
    rw [hrow, Option.toList_none, List.length_nil] at hlength
    rw [if_pos rfl, ← hlength]
  | some row =>
    rw [hrow, Option.toList_some, List.length_singleton] at hlength
    rw [if_neg (Option.some_ne_none row), hlength]

/-- What a cache holds of the entries that it is offered, and of its rows. It takes an
    entry in if it can be written at all; then the entry is found as it is, look-ups of
    all other paths end as before, and the number of entries grows by one if the path had
    no row. If it does not take the entry in, nothing changes. A row whose cells hold
    text or nothing is found, whatever the text. -/
theorem round_trip_rows (h : Intact db) (e : Entry) :
    ((∃ next, insert db e = .ok next) ↔ db.writable = true ∧ db.cache.isSome) ∧
    (∀ next, insert db e = .ok next →
      offered db e = next ∧ Intact next ∧
      lookup next e.path = .ok (some e) ∧
      (∀ path, path ≠ e.path → lookup next path = lookup db path) ∧
      ∃ n, size db = .ok n ∧
        size next = .ok (if lookup db e.path = .ok none then n + 1 else n)) ∧
    (∀ error, insert db e = .error error →
      (∀ path, lookup (offered db e) path = lookup db path) ∧ size (offered db e) = size db) ∧
    ∀ t path, ∀ row ∈ t.rows, db.cache = some t → t.cell row "path" = .text path →
      (∀ column ∈ Migration.columns, (t.cell row column).isTextual) →
        ∃ found, lookup db path = .ok (some found) ∧ Tells t row found := by
  refine ⟨exists_insert_iff e, fun next hnext => ?_, fun error herror => ?_,
    fun t path row hrow hcache hpath htext =>
      exists_lookup_of_mem hcache (h t hcache) hrow hpath htext⟩
  · have hoffered : offered db e = next := by rw [offered, hnext]
    refine ⟨hoffered, hoffered ▸ h.offered e, ?_, fun path hpath => lookup_insert_of_ne hnext hpath,
      exists_size_insert h hnext⟩
    obtain ⟨t, hcache, rfl⟩ := exists_of_insert hnext
    exact lookup_inserted (h t hcache).keyed (h t hcache).columns rfl
  · rw [offered, herror]
    exact ⟨fun _ => rfl, rfl⟩

/-- A cache with two rows: one in which much is missing, and one with bytes. -/
def mixed : Database :=
  { cache := some ⟨Migration.columns, true, [
      [.text "/r/a.py", .text "h1", .null, .null, .text "not json", .text " ", .null],
      [.text "/r/b.py", .blob [0], .null, .null, .null, .null, .null]]⟩ }

theorem intact_mixed : Intact mixed := by
  intro t ht
  cases ht
  refine ⟨rfl, List.Subset.refl _, ?_⟩
  change [Cell.text "/r/a.py", Cell.text "/r/b.py"].Pairwise _
  simp

/-- An entry takes the place of the row with bytes. In the other row, a text that is no
    array and a blank one stand for empty lists. -/
theorem round_trip_rows_mixed :
    Intact mixed ∧
    lookup mixed "/r/b.py" = .error (.notText 0 "hash") ∧
    ∃ next, insert mixed ⟨"/r/b.py", "h2", "", "", ["a\"", "]"], [], "h2"⟩ = .ok next ∧
      lookup next "/r/b.py" = .ok (some ⟨"/r/b.py", "h2", "", "", ["a\"", "]"], [], "h2"⟩) ∧
      size next = .ok 2 ∧
      ∃ found, lookup next "/r/a.py" = .ok (some found) ∧ found.hash = "h1" ∧
        found.functions = [] := by
  obtain ⟨htakes, htaken, -, hrows⟩ :=
    round_trip_rows intact_mixed ⟨"/r/b.py", "h2", "", "", ["a\"", "]"], [], "h2"⟩
  obtain ⟨next, hnext⟩ := htakes.2 ⟨rfl, rfl⟩
  obtain ⟨-, -, hfound, hothers, n, hn, hsize⟩ := htaken next hnext
  obtain ⟨found, hlookup, htells⟩ :=
    hrows _ "/r/a.py" _ List.mem_cons_self rfl rfl (by decide)
  have hfunctions : found.functions = [] := by
    rcases htells.functions with hspells | ⟨hempty, -⟩
    · exact absurd hspells (not_spells_of_blank (by decide) _)
    · exact hempty
  refine ⟨intact_mixed, rfl, next, hnext, hfound, ?_, found, ?_, htells.hash, hfunctions⟩
  · cases hn
    exact hsize
  · rw [hothers _ (by decide), hlookup]

end Cache

/-! ### Walks and rounds -/

namespace Walk

variable {fs : FileSystem} {s : State} {x : Sight} {sights : List Sight}

/-- What a walk remembers is offered to the cache. -/
theorem cache_remember (r : Record) :
    (remember s r).cache = ((Entry.ofRecord? r).map (Cache.offered s.cache)).getD s.cache := by
  unfold remember
  cases Entry.ofRecord? r with
  | none => rfl
  | some e =>
    rw [Option.map_some, Option.getD_some, Cache.offered]
    dsimp only
    cases Cache.insert s.cache e <;> rfl

theorem intact_remember (h : Cache.Intact s.cache) (r : Record) :
    Cache.Intact (remember s r).cache := by
  rw [cache_remember]
  exact h.getD_offered _

theorem intact_visit (h : Cache.Intact s.cache) : Cache.Intact (visit fs s x).1.cache := by
  cases hcontent : x.content? fs with
  | none => rwa [visit_of_unread hcontent, cache_passed]
  | some content =>
    rw [visit_of_read hcontent, fill]
    dsimp only
    split
    · exact h
    · exact intact_remember (by exact h) _

theorem intact_visitAll (h : Cache.Intact s.cache) :
    Cache.Intact (visitAll fs s sights).1.cache := by
  induction sights generalizing s with
  | nil => exact h
  | cons x sights ih => exact ih (intact_visit h)

/-- A walk leaves a cache as it should be. -/
theorem intact_collect {cache : Database} (h : Cache.Intact cache) (artifacts : List String)
    (place : Place) : Cache.Intact (collect fs cache artifacts place).cache :=
  intact_visitAll h

end Walk

namespace Round

variable {σ : Type} {d : Describer σ} {model : String} {p : Policy} {s next : State σ}

/-- What a round remembers is offered to the cache. -/
theorem cache_remember (r : Record) :
    (remember s r).cache = ((Entry.ofRecord? r).map (Cache.offered s.cache)).getD s.cache := by
  unfold remember
  cases Entry.ofRecord? r with
  | none => rfl
  | some e =>
    rw [Option.map_some, Option.getD_some, Cache.offered]
    dsimp only
    cases Cache.insert s.cache e <;> rfl

theorem intact_remember (h : Cache.Intact s.cache) (r : Record) :
    Cache.Intact (remember s r).cache := by
  rw [cache_remember]
  exact h.getD_offered _

theorem intact_visit (h : Cache.Intact s.cache) {index : Nat} {r : Record}
    (hvisit : visit d model p s index r = some next) : Cache.Intact next.cache := by
  obtain ⟨⟨outcome, attempts, describer⟩, -, rfl⟩ := Option.map_eq_some_iff.1 hvisit
  cases outcome with
  | described reply => exact intact_remember (by exact h) _
  | skipped => exact h

theorem intact_visitAll (h : Cache.Intact s.cache) {index : Nat} {records : List Record}
    (hvisit : visitAll d model p s index records = some next) : Cache.Intact next.cache := by
  induction records generalizing s index with
  | nil =>
    cases hvisit
    exact h
  | cons r records ih =>
    rw [visitAll] at hvisit
    split at hvisit
    · obtain ⟨between, hbetween, hvisit⟩ := Option.bind_eq_some_iff.1 hvisit
      exact ih (intact_visit (by exact h) hbetween) hvisit
    · exact ih h hvisit

/-- A round of descriptions leaves a cache as it should be. -/
theorem intact_run {records : List Record} {cache : Database} {describer : σ} {result : Result σ}
    (h : Cache.Intact cache) (hrun : run d model p records cache describer = some result) :
    Cache.Intact result.cache := by
  obtain ⟨next, hvisit, rfl⟩ := Option.map_eq_some_iff.1 hrun
  exact intact_visitAll (by exact h) hvisit

end Round

end RepoAtlas
