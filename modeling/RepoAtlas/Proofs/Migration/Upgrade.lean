import RepoAtlas.Proofs.Migration.Pass
import Mathlib.Data.List.Forall2

/-!
# What a migration leaves

A migration of a database that it may add to (`Upgradable`) succeeds, and every
expected column is there afterwards. It adds no rows and removes none; a cell that
was there keeps what it holds, and a new one holds nothing, but for the
considerations, which come from the older column (`Keeps`). A second migration
finds nothing to do.

* `exists_pass_steps`: what the steps from any version on come to;
* `Keeps.of_widens`: what is kept where columns were added;
* `run_upgrades`: the whole of it.
-/

namespace RepoAtlas.Migration

variable {db : Database} {t wide : Table} {m : Meta}

/-! ### Where the steps lead -/

/-- The table of a database, or the new one that a migration makes. -/
def tableOf (db : Database) : Table := db.cache.getD ⟨Database.firstColumns, true, []⟩

/-- The record of the version, after the steps from one on. -/
def infoAfter (n : Nat) (db : Database) : Option Meta :=
  if n < 3 then some ⟨true, some (toString 3)⟩ else db.info

theorem exists_pass_three (hcache : db.cache = some t) (hfits : Fits t) {n : Nat} (hn : 3 ≤ n) :
    ∃ wide, pass (steps n) db = ({ db with cache := some wide }, none) ∧ Widens t wide ∧
      columns ⊆ wide.columns := by
  rw [steps_of_three_le hn]
  exact pass_ensureColumns hcache hfits (List.Subset.refl _)

theorem exists_pass_two (hinfo : db.info = some m) (hvalues : m.hasValues = true)
    (hcache : db.cache = some t) (hfits : Fits t) :
    ∃ wide, pass (steps 2) db = ({ recorded 3 db with cache := some wide }, none) ∧
      Widens t wide ∧ columns ⊆ wide.columns := by
  obtain ⟨between, hstep, hwidens, _⟩ :=
    perform_ensureColumn hcache hfits (by decide : "enriched_hash" ∈ columns)
  have hnext : (recorded 3 { db with cache := some between }).cache = some between := rfl
  obtain ⟨wide, hpass, hwide, hcolumns⟩ :=
    exists_pass_three hnext (hwidens.fits hfits) (Nat.le_refl 3)
  refine ⟨wide, ?_, hwidens.trans hwide, hcolumns⟩
  rw [steps_two, pass_cons hstep, pass_cons (perform_recordVersion (by exact hinfo) hvalues 3),
    hpass]
  rfl

theorem exists_pass_one (hinfo : db.info = some m) (hvalues : m.hasValues = true)
    (hcache : db.cache = some t) (hfits : Fits t) :
    ∃ wide, pass (steps 1) db = ({ recorded 3 db with cache := some wide }, none) ∧
      Widens (considered t) wide ∧ columns ⊆ wide.columns := by
  have hnext : (recorded 2 { db with cache := some (considered t) }).cache = some (considered t) :=
    rfl
  obtain ⟨wide, hpass, hwide, hcolumns⟩ := exists_pass_two rfl rfl hnext hfits.considered
  refine ⟨wide, ?_, hwide, hcolumns⟩
  rw [steps_one, pass_cons (perform_addConsiderations hcache hfits),
    pass_cons (perform_recordVersion (by exact hinfo) hvalues 2), hpass]
  rfl

theorem exists_pass_zero (hinfo : db.info = some m) (hvalues : m.hasValues = true)
    (hfits : Fits (tableOf db)) :
    ∃ wide, pass (steps 0) db = ({ recorded 3 db with cache := some wide }, none) ∧
      Widens (considered (tableOf db)) wide ∧ columns ⊆ wide.columns := by
  have hcreate : perform db [.createCache] = ({ db with cache := some (tableOf db) }, none) := by
    rw [perform, Database.apply, tableOf]
    cases hcache : db.cache with
    | none => rfl
    | some t =>
      rw [Option.isSome_some, if_pos rfl, Option.getD_some, ← hcache]
      rfl
  have hnext : (recorded 1 { db with cache := some (tableOf db) }).cache = some (tableOf db) := rfl
  obtain ⟨wide, hpass, hwide, hcolumns⟩ := exists_pass_one rfl rfl hnext hfits
  refine ⟨wide, ?_, hwide, hcolumns⟩
  rw [steps_zero, pass_cons hcreate,
      pass_cons (perform_recordVersion (by exact hinfo) hvalues 1), hpass]
  rfl

/-- What the steps from any version on come to, if the table is there wherever
    they do not make it. -/
theorem exists_pass_steps (hinfo : db.info = some m) (hvalues : m.hasValues = true)
    (hfits : Fits (tableOf db)) {n : Nat} (hthere : 1 ≤ n → db.cache.isSome) :
    ∃ wide, pass (steps n) db = ({ db with info := infoAfter n db, cache := some wide }, none) ∧
      Widens (if n < 2 then considered (tableOf db) else tableOf db) wide ∧
      columns ⊆ wide.columns := by
  have hcache (hn : 1 ≤ n) : db.cache = some (tableOf db) := by
    obtain ⟨t, ht⟩ := Option.isSome_iff_exists.1 (hthere hn)
    rw [tableOf, ht, Option.getD_some]
  match n, hcache with
  | 0, _ => exact exists_pass_zero hinfo hvalues hfits
  | 1, hcache => exact exists_pass_one hinfo hvalues (hcache (Nat.le_refl 1)) hfits
  | 2, hcache => exact exists_pass_two hinfo hvalues (hcache (by decide)) hfits
  | n + 3, hcache =>
    obtain ⟨wide, hpass, hwide, hcolumns⟩ :=
      exists_pass_three (hcache (by omega)) hfits (Nat.le_add_left 3 n)
    refine ⟨wide, ?_, ?_, hcolumns⟩
    · rw [hpass, infoAfter, if_neg (by omega)]
    · rwa [if_neg (by omega)]

/-! ### What is kept -/

/-- What a migration from a version puts into a new column of a row: the
    considerations of the older column, and nothing else. -/
def newCell (version : Nat) (t : Table) (row : List Cell) (column : String) : Cell :=
  if version < 2 ∧ column = "enrichment" ∧ olderColumn ∈ t.columns then t.cell row olderColumn
  else .null

/-- Whether a migration from a version may have made the second table of the
    first: the rows are the same, in their order, and so is all that they held. -/
structure Keeps (version : Nat) (t wide : Table) : Prop where
  keyed : wide.keyed = t.keyed
  columns : t.columns <+: wide.columns
  rows : List.Forall₂ (fun row row' =>
    (∀ c ∈ t.columns, wide.cell row' c = t.cell row c) ∧
      ∀ c ∈ wide.columns, c ∉ t.columns → wide.cell row' c = newCell version t row c)
    t.rows wide.rows

/-- The considerations are in the row of the table that has them. -/
theorem exists_considered (hfull : t.IsFull) :
    ∃ f : List Cell → List Cell, (considered t).rows = t.rows.map f ∧
      ∀ row ∈ t.rows, (f row).length = (considered t).columns.length ∧
        ∀ c, (considered t).cell (f row) c =
          if c ∈ t.columns then t.cell row c else newCell 0 t row c := by
  have hnone (row : List Cell) (c : String) (h : c ∉ t.columns) : t.cell row c = .null :=
    Table.cell_of_notMem row h
  rw [considered]
  split_ifs with hthere holder
  · refine ⟨id, (List.map_id _).symm, fun row hrow => ⟨hfull row hrow, fun c => ?_⟩⟩
    split_ifs with hc
    · rfl
    · have hne : c ≠ "enrichment" := fun heq => hc (heq ▸ hthere)
      rw [newCell, if_neg (fun h => hne h.2.1)]
      exact hnone row c hc
  all_goals
    have hwide := Table.isFull_addColumns hfull ["enrichment"]
    have hcell (row : List Cell) (hrow : row ∈ t.rows) :=
      Table.cell_addColumns (hfull row hrow) ["enrichment"]
  · refine ⟨_, List.map_map, fun row hrow => ?_⟩
    have hrow' := hwide _ (List.mem_map_of_mem hrow)
    refine ⟨Table.length_copyRow.trans hrow', fun c => ?_⟩
    refine (Table.cell_copyRow hrow' (List.mem_append_right _ (List.mem_singleton_self _)) c).trans
      ?_
    rw [hcell row hrow, hcell row hrow, hcell row hrow, hnone row _ hthere]
    by_cases hc : c ∈ t.columns
    · have hne : c ≠ "enrichment" := fun heq => hthere (heq ▸ hc)
      rw [if_pos hc, if_neg (fun h => hne h.1)]
    · rw [if_neg hc, newCell, hnone row c hc]
      simp [holder]
  · refine ⟨_, rfl, fun row hrow => ⟨hwide _ (List.mem_map_of_mem hrow), fun c => ?_⟩⟩
    rw [hcell row hrow]
    split_ifs with hc
    · rfl
    · rw [newCell, if_neg (fun h => holder h.2.2)]
      exact hnone row c hc

/-- A migration keeps what it finds where it only adds columns to it. -/
theorem Keeps.of_widens (hfull : t.IsFull) {n : Nat}
    (hwide : Widens (if n < 2 then considered t else t) wide) : Keeps n t wide := by
  obtain ⟨names, _, hnew, rfl⟩ := hwide
  -- Whether or not the considerations were seen to, the rows are those of the table,
  -- and hold what they should.
  obtain ⟨f, hrows, hcells⟩ : ∃ f : List Cell → List Cell,
      (if n < 2 then considered t else t).rows = t.rows.map f ∧
      ∀ row ∈ t.rows, (f row).length = (if n < 2 then considered t else t).columns.length ∧
        ∀ c, (if n < 2 then considered t else t).cell (f row) c =
          if c ∈ t.columns then t.cell row c else newCell n t row c := by
    split_ifs with hn
    · obtain ⟨f, hrows, hcells⟩ := exists_considered hfull
      refine ⟨f, hrows, fun row hrow => ⟨(hcells row hrow).1, fun c => ?_⟩⟩
      rw [(hcells row hrow).2, newCell, newCell]
      simp [hn]
    · refine ⟨id, (List.map_id _).symm, fun row hrow => ⟨hfull row hrow, fun c => ?_⟩⟩
      split_ifs with hc
      · rfl
      · rw [newCell, if_neg (fun h => hn h.1)]
        exact Table.cell_of_notMem row hc
  have hprefix : t.columns <+: (if n < 2 then considered t else t).columns := by
    split_ifs
    · rw [columns_considered]
      split_ifs
      · exact List.prefix_refl _
      · exact List.prefix_append ..
    · exact List.prefix_refl _
  have hkeyed : (if n < 2 then considered t else t).keyed = t.keyed := by
    rw [considered]
    split_ifs <;> rfl
  refine ⟨hkeyed, hprefix.trans (List.prefix_append ..), ?_⟩
  change List.Forall₂ _ t.rows
    ((if n < 2 then considered t else t).rows.map (· ++ List.replicate names.length .null))
  rw [hrows, List.map_map, List.forall₂_map_right_iff, List.forall₂_same]
  intro row hrow
  obtain ⟨hlength, hcell⟩ := hcells row hrow
  refine ⟨fun c hc => ?_, fun c _ hc => ?_⟩
  · rw [Function.comp_apply, Table.cell_addColumns hlength, hcell, if_pos hc]
  · rw [Function.comp_apply, Table.cell_addColumns hlength, hcell, if_neg hc]

/-! ### The whole migration -/

/-- Whether a migration can bring a database up to date: every row of the table
    has a cell for each column, no column has the name of an expected one up to
    case alone, the version can be recorded, and the table is there unless there
    is no version. -/
structure Upgradable (db : Database) : Prop where
  full : (tableOf db).IsFull
  fits : Fits (tableOf db)
  info : ∀ m, db.info = some m → m.hasValues = true
  there : 1 ≤ version db → db.cache.isSome

/-- A migration of a database with all columns, of no older version, does nothing. -/
theorem run_of_current (hinfo : db.info = some m) (hversion : 3 ≤ version db)
    (hcache : db.cache = some t) (hcolumns : columns ⊆ t.columns) : run db = (db, none) := by
  have hsettled (names : List String) (hnames : names ⊆ columns) :
      pass (names.map ensureColumn) db = (db, none) := by
    induction names with
    | nil => rfl
    | cons name names ih =>
      obtain ⟨hname, hrest⟩ := List.cons_subset.1 hnames
      rw [List.map_cons, pass_cons_of_settled (ensureColumn_of_mem hcache (hcolumns hname)),
        ih hrest]
  rw [run_eq_pass, withInfo_of_info hinfo, steps_of_three_le hversion,
    hsettled _ (List.Subset.refl _)]

/-- A migration succeeds, after which all columns are there. No row comes or goes,
    and every cell keeps what it held; a new one holds nothing, unless it is that
    of a consideration and the older column has one. The version is the larger
    of the recorded one and 3, and a second migration changes nothing. -/
theorem run_upgrades (h : Upgradable db) :
    ∃ next wide, run db = (next, none) ∧ next.cache = some wide ∧ columns ⊆ wide.columns ∧
      (db.cache = none → wide.rows = []) ∧
      (∀ t, db.cache = some t → Keeps (version db) t wide) ∧
      version next = max (version db) 3 ∧ run next = (next, none) := by
  obtain ⟨m, hinfo, hvalues, hdb⟩ : ∃ m, (withInfo db).info = some m ∧ m.hasValues = true ∧
      withInfo db = { db with info := some m } := by
    cases hnone : db.info with
    | none => exact ⟨_, by rw [withInfo_of_none hnone], rfl, withInfo_of_none hnone⟩
    | some m =>
      refine ⟨m, (withInfo_of_info hnone).symm ▸ hnone, h.info m hnone, ?_⟩
      rw [withInfo_of_info hnone, ← hnone]
  have hcache : (withInfo db).cache = db.cache := by rw [hdb]
  have htable : tableOf (withInfo db) = tableOf db := by rw [tableOf, hcache, tableOf]
  obtain ⟨wide, hpass, hwide, hcolumns⟩ := exists_pass_steps hinfo hvalues (htable ▸ h.fits)
    (hcache ▸ h.there)
  rw [htable] at hwide
  have hkeeps : Keeps (version db) (tableOf db) wide := .of_widens h.full hwide
  have hversion : version { withInfo db with
      info := infoAfter (version db) (withInfo db), cache := some wide } =
      max (version db) 3 := by
    rw [infoAfter]
    split_ifs with hlow
    · rw [Nat.max_eq_right (Nat.le_of_lt hlow)]
      have hthree : (versionOf? (toString 3)).getD 0 = 3 := by decide
      exact (version_recorded 3 { withInfo db with cache := some wide }).trans hthree
    · rw [Nat.max_eq_left (Nat.not_lt.1 hlow), ← version_withInfo db]
      rfl
  refine ⟨_, wide, (run_eq_pass db).trans hpass, rfl, hcolumns, fun hnone => ?_, fun t ht => ?_,
    hversion, ?_⟩
  · -- A new table has no rows.
    have hrows : (tableOf db).rows = [] := by rw [tableOf, hnone]; rfl
    have hlength := hkeeps.rows.length_eq
    rw [hrows] at hlength
    exact List.length_eq_zero_iff.1 hlength.symm
  · have heq : tableOf db = t := by rw [tableOf, ht]; rfl
    exact heq ▸ hkeeps
  · have hafter : ∃ m, infoAfter (version db) (withInfo db) = some m := by
      rw [infoAfter]
      split_ifs
      · exact ⟨_, rfl⟩
      · exact ⟨m, hinfo⟩
    obtain ⟨m', hm'⟩ := hafter
    exact run_of_current (t := wide) hm' (hversion ▸ Nat.le_max_right ..) rfl hcolumns

/-- A cache of an older release with one row. -/
def older : Database where
  cache := some {
    columns := ["path", "hash", "description", "developer_consideration", "imports", "functions"]
    keyed := true
    rows := [[.text "/r/a.py", .text "h1", .text "doc", .text "watch out", .text "[]", .null]] }

theorem run_upgrades_older :
    Upgradable older ∧ ∃ next wide, run older = (next, none) ∧ next.cache = some wide ∧
      columns ⊆ wide.columns ∧ Keeps 0 (tableOf older) wide ∧ version next = 3 ∧
      run next = (next, none) := by
  have h : Upgradable older :=
    ⟨by decide, by decide, (fun _ hm => by cases hm), fun hversion => absurd hversion (by decide)⟩
  obtain ⟨next, wide, hrun, hcache, hcolumns, _, hkeeps, hversion, hagain⟩ := run_upgrades h
  exact ⟨h, next, wide, hrun, hcache, hcolumns, hkeeps _ rfl, hversion, hagain⟩

end RepoAtlas.Migration
