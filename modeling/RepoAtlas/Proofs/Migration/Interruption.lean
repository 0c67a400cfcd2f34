import RepoAtlas.Proofs.Migration.Upgrade

/-!
# Interrupted migrations

A migration may be stopped between two statements and run again from its
beginning (`interrupted`). As every step first looks at what is there, the second
run goes on where the first one stopped (`Restarts`), with one exception: the
column of the considerations is added by one statement and filled by the next,
and once it is there no run fills it any more.

* `restarts_two`, `restarts_one`: from which states the steps may start again;
* `exists_pass_rows`: how the steps behind the considerations change rows does not
  depend on the rows;
* `run_interrupted_iff`: an interrupted migration ends like another one unless it
  was stopped between those two statements and there was something to fill in, and
  then the filling in is all that is missing;
* `loses_considerations`: an older release's cache whose considerations are lost.
-/

namespace RepoAtlas.Migration

open Database (foldCase)

variable {db next : Database} {t : Table} {m : Meta} {name : String} {step : Step}
  {rest : List Step} {s : Statement} {e : DatabaseError}

/-- The database after so many statements of a migration. -/
def interrupted (db : Database) (k : Nat) : Database :=
  (perform db ((statements db).take k)).1

/-! ### Steps that start again -/

/-- Whether steps may be stopped after any statement: a new migration ends like
    the rest of them would have. -/
def Restarts (l : List Step) (db : Database) : Prop :=
  ∀ k, run (perform db ((issue l db).take k)).1 = pass l db

theorem run_of_version (hinfo : db.info = some m) {n : Nat} (hversion : version db = n) :
    run db = pass (steps n) db := by
  rw [run_eq_pass, withInfo_of_info hinfo, hversion]

theorem Restarts.settled (h : step db = []) (hrest : Restarts rest db) :
    Restarts (step :: rest) db := by
  intro k
  rw [issue_cons_of_settled h, pass_cons_of_settled h]
  exact hrest k

theorem Restarts.performed (hrun : run db = pass (step :: rest) db) (hstep : step db = [s])
    (happly : db.apply s = .ok next) (hrest : Restarts rest next) : Restarts (step :: rest) db := by
  have hperform : perform db (step db) = (next, none) := by rw [hstep, perform, happly]; rfl
  intro k
  cases k with
  | zero => exact hrun
  | succ k =>
    rw [issue, hperform, hstep, List.singleton_append, List.take_succ_cons, perform, happly,
      pass_cons hperform]
    exact hrest k

theorem Restarts.failed (hrun : run db = pass (step :: rest) db) {more : List Statement}
    (hstep : step db = s :: more) (happly : db.apply s = .error e) :
    Restarts (step :: rest) db := by
  intro k
  cases k with
  | zero => exact hrun
  | succ k =>
    rw [issue, hstep, List.cons_append, List.take_succ_cons, perform, happly]
    exact hrun

/-- A step that adds a column may be stopped if those behind it may be, wherever
    the column is there. -/
theorem Restarts.ensure (hcache : db.cache = some t)
    (hrun : run db = pass (ensureColumn name :: rest) db)
    (hrest : ∀ wide : Table, t.columns ⊆ wide.columns → name ∈ wide.columns →
      Restarts rest { db with cache := some wide }) :
    Restarts (ensureColumn name :: rest) db := by
  by_cases hname : name ∈ t.columns
  · refine .settled (ensureColumn_of_mem hcache hname) ?_
    have hsame := hrest t (List.Subset.refl _) hname
    rwa [← hcache] at hsame
  · have hstep := ensureColumn_of_notMem hcache hname
    have happly := apply_addColumn hcache name
    split at happly
    · exact .failed hrun hstep happly
    · exact .performed hrun hstep happly
        (hrest _ (List.subset_append_left ..) (List.mem_append_right _ (List.mem_singleton_self _)))

/-- Recording a version is a step that may be stopped if those behind it may be. -/
theorem Restarts.record (hinfo : db.info = some m) (hvalues : m.hasValues = true) {n : Nat}
    (hrun : run db = pass ((fun _ => [.recordVersion n]) :: rest) db)
    (hrest : Restarts rest (recorded n db)) :
    Restarts ((fun _ => [.recordVersion n]) :: rest) db := by
  refine .performed hrun rfl ?_ hrest
  rw [Database.apply, hinfo]
  obtain ⟨_, version⟩ := m
  cases hvalues
  rfl

/-- Columns that are there make no difference. -/
theorem pass_ensured {done todo : List String} (hcache : db.cache = some t)
    (hdone : ∀ name ∈ done, name ∈ t.columns) :
    pass ((done ++ todo).map ensureColumn) db = pass (todo.map ensureColumn) db := by
  induction done with
  | nil => rfl
  | cons name done ih =>
    obtain ⟨hname, hrest⟩ := List.forall_mem_cons.1 hdone
    rw [List.cons_append, List.map_cons,
      pass_cons_of_settled (ensureColumn_of_mem hcache hname), ih hrest]

/-- The steps that add what is missing may be stopped. `done` are the columns that
    were seen to before. -/
theorem restarts_columns {done todo : List String} (hsplit : done ++ todo = columns)
    (hinfo : db.info = some m) (hversion : 3 ≤ version db) (hcache : db.cache = some t)
    (hdone : ∀ name ∈ done, name ∈ t.columns) : Restarts (todo.map ensureColumn) db := by
  induction todo generalizing done db t with
  | nil =>
    intro k
    change run (perform db (List.take k [])).1 = _
    rw [List.take_nil, perform, run_of_version hinfo rfl, steps_of_three_le hversion, ← hsplit,
      pass_ensured hcache hdone]
  | cons name todo ih =>
    have hrun : run db = pass (ensureColumn name :: todo.map ensureColumn) db := by
      rw [run_of_version hinfo rfl, steps_of_three_le hversion, ← hsplit,
        pass_ensured hcache hdone, List.map_cons]
    refine .ensure hcache hrun fun wide hsub hname => ?_
    have hsplit' : (done ++ [name]) ++ todo = columns := by rw [List.append_assoc]; exact hsplit
    refine ih hsplit' hinfo hversion rfl fun other hother => ?_
    rcases List.mem_append.1 hother with hother | hother
    · exact hsub (hdone other hother)
    · exact List.mem_singleton.1 hother ▸ hname

theorem restarts_three (hcache : db.cache = some t) : Restarts (steps 3) (recorded 3 db) := by
  rw [steps_of_three_le (Nat.le_refl 3)]
  have hversion : 3 ≤ version (recorded 3 db) := by
    rw [version_recorded]
    decide
  exact restarts_columns (List.nil_append _) rfl hversion hcache
    fun _ h => absurd h List.not_mem_nil

theorem restarts_two (hcache : db.cache = some t) : Restarts (steps 2) (recorded 2 db) := by
  have hversion : version (recorded 2 db) = 2 := (version_recorded 2 db).trans (by decide)
  rw [steps_two]
  refine .ensure hcache (run_of_version rfl hversion) fun wide _ hname => ?_
  have hrest : Restarts (steps 3) (recorded 3 { db with cache := some wide }) := restarts_three rfl
  refine .record rfl rfl ?_ hrest
  rw [run_of_version rfl (by exact hversion), steps_two]
  exact pass_cons_of_settled (ensureColumn_of_mem rfl hname)

/-- Once the column of the considerations is there, all behind it may be stopped. -/
theorem restarts_behind (hcache : db.cache = some t) (h : "enrichment" ∈ t.columns) :
    Restarts ((fun _ => [.recordVersion 2]) :: steps 2) (recorded 1 db) := by
  have hversion : version (recorded 1 db) = 1 := (version_recorded 1 db).trans (by decide)
  refine .record rfl rfl ?_ (by exact restarts_two hcache)
  rw [run_of_version rfl hversion, steps_one]
  exact pass_cons_of_settled (addConsiderations_of_mem hcache h)

/-! ### Steps that do not look at rows -/

/-- Whether a step adds a column or records a version. -/
def IsBlind (step : Step) : Prop :=
  (∃ name, step = ensureColumn name) ∨ ∃ n, step = fun _ => [.recordVersion n]

/-- Such steps add the same columns to all tables of the same columns. -/
theorem exists_pass_rows {l : List Step} (hl : ∀ step ∈ l, IsBlind step) (hinfo : db.info = some m)
    (hvalues : m.hasValues = true) (columns : List String) :
    ∃ names info error, ∀ t : Table, t.columns = columns →
      pass l { db with cache := some t } =
        ({ db with info, cache := some (t.addColumns names) }, error) := by
  induction l generalizing db m columns with
  | nil =>
    refine ⟨[], db.info, none, fun t _ => ?_⟩
    rw [Table.addColumns_nil]
    rfl
  | cons step l ih =>
    obtain ⟨hstep, hrest⟩ := List.forall_mem_cons.1 hl
    rcases hstep with ⟨name, rfl⟩ | ⟨n, rfl⟩
    · by_cases hname : name ∈ columns
      · obtain ⟨names, info, error, hpass⟩ := ih hrest hinfo hvalues columns
        refine ⟨names, info, error, fun t ht => ?_⟩
        rw [← hpass t ht]
        exact pass_cons_of_settled (ensureColumn_of_mem rfl (ht ▸ hname))
      have hissue {t : Table} (ht : t.columns = columns) :
          ensureColumn name { db with cache := some t } = [.addColumn name] :=
        ensureColumn_of_notMem rfl (ht ▸ hname)
      have happly (t : Table) : { db with cache := some t }.apply (.addColumn name) = _ :=
        apply_addColumn rfl name
      by_cases hclash : ∃ c ∈ columns, foldCase c = foldCase name
      · refine ⟨[], db.info, some (.duplicateColumn name), fun t ht => ?_⟩
        rw [Table.addColumns_nil, pass, issue, hissue ht, List.singleton_append, perform, happly,
          if_pos (ht ▸ hclash)]
      · obtain ⟨names, info, error, hpass⟩ := ih hrest hinfo hvalues (columns ++ [name])
        refine ⟨name :: names, info, error, fun t ht => ?_⟩
        have hperform : perform { db with cache := some t }
            (ensureColumn name { db with cache := some t }) =
            ({ db with cache := some (t.addColumns [name]) }, none) := by
          rw [hissue ht, perform, happly, if_neg (ht ▸ hclash)]
          rfl
        rw [pass_cons hperform, hpass (t.addColumns [name]) (congrArg (· ++ [name]) ht),
          ← Table.addColumns_append, List.singleton_append]
    · have hrecorded : (recorded n db).info = some ⟨true, some (toString n)⟩ := rfl
      obtain ⟨names, info, error, hpass⟩ := ih hrest hrecorded rfl columns
      refine ⟨names, info, error, fun t ht => ?_⟩
      rw [pass_cons (perform_recordVersion (by exact hinfo) hvalues n)]
      exact hpass t ht

/-! ### Older caches -/

/-- The version of an older release's cache is recorded before anything is added. -/
theorem statements_older (hinfo : db.info = none) (hcache : db.cache = some t) :
    statements db =
      .createInfo :: .createCache :: .recordVersion 1 :: issue (steps 1) (recorded 1 db) := by
  have hversion : version db = 0 := by rw [version, hinfo]; rfl
  have hcreate : perform (withInfo db) [.createCache] = (withInfo db, none) := by
    rw [withInfo_of_none hinfo, perform, Database.apply, hcache]
    rfl
  have hrecord : perform (withInfo db) [.recordVersion 1] = (recorded 1 db, none) := by
    rw [withInfo_of_none hinfo]
    rfl
  rw [statements, version_withInfo, hversion, steps_zero, issue_cons hcreate, issue_cons hrecord]
  rfl

theorem perform_older (hinfo : db.info = none) (hcache : db.cache = some t)
    (l : List Statement) :
    perform db (.createInfo :: .createCache :: .recordVersion 1 :: l) =
      perform (recorded 1 db) l := by
  simp only [perform, Database.apply, hinfo, hcache, Option.isSome_none, Option.isSome_some,
    if_true, Bool.false_eq_true, if_false]
  rw [recorded, hcache]

/-- A migration of an older release's cache goes on from there. -/
theorem run_older (hinfo : db.info = none) (hcache : db.cache = some t) :
    run db = pass (steps 1) (recorded 1 db) := by
  rw [run, statements_older hinfo hcache, perform_older hinfo hcache, pass]

/-- As long as nothing was added, a second run does what the first would have done. -/
theorem run_interrupted_early (hinfo : db.info = none) (hcache : db.cache = some t) {k : Nat}
    (hk : k < 3) : run (interrupted db k) = run db := by
  have hwith : run (withInfo db) = run db := by
    have hthere : (withInfo db).info = some ⟨true, none⟩ := by rw [withInfo_of_none hinfo]
    rw [run_eq_pass, run_eq_pass db, version_withInfo, withInfo_of_info hthere]
  have hcreate : interrupted db 2 = withInfo db := by
    rw [interrupted, statements_older hinfo hcache, withInfo_of_none hinfo]
    simp only [List.take_succ_cons, List.take_zero, perform, Database.apply, hinfo, hcache,
      Option.isSome_none, Option.isSome_some, if_true, Bool.false_eq_true, if_false]
  obtain rfl | rfl | rfl : k = 0 ∨ k = 1 ∨ k = 2 := by omega
  · rfl
  · exact hwith
  · rw [hcreate, hwith]

theorem interrupted_add_three (hinfo : db.info = none) (hcache : db.cache = some t) (k : Nat) :
    interrupted db (k + 3) =
      (perform (recorded 1 db) ((issue (steps 1) (recorded 1 db)).take k)).1 := by
  rw [interrupted, statements_older hinfo hcache, List.take_succ_cons, List.take_succ_cons,
    List.take_succ_cons, perform_older hinfo hcache]

/-- Whether the column of the considerations is to be added and filled. -/
def Fills (t : Table) : Prop :=
  (∀ c ∈ t.columns, foldCase c ≠ foldCase "enrichment") ∧ olderColumn ∈ t.columns

/-- Where there is nothing to fill in, all steps behind the first version may be
    stopped. -/
theorem restarts_one (hcache : db.cache = some t) (h : ¬Fills t) :
    Restarts (steps 1) (recorded 1 db) := by
  have hrun : run (recorded 1 db) = pass (steps 1) (recorded 1 db) :=
    run_of_version rfl ((version_recorded 1 db).trans (by decide))
  rw [steps_one] at hrun ⊢
  by_cases hthere : "enrichment" ∈ t.columns
  · exact .settled (addConsiderations_of_mem hcache hthere) (restarts_behind hcache hthere)
  · have hrecorded : (recorded 1 db).cache = some t := hcache
    have hstep := addConsiderations_of_notMem hrecorded hthere
    have happly := apply_addColumn hrecorded "enrichment"
    split at happly
    · exact .failed hrun hstep happly
    · rename_i hfree
      have holder : olderColumn ∉ t.columns := fun holder =>
        h ⟨fun c hc heq => hfree ⟨c, hc, heq⟩, holder⟩
      rw [if_neg holder] at hstep
      have hbehind : Restarts _
          (recorded 1 { db with cache := some (t.addColumns ["enrichment"]) }) :=
        restarts_behind rfl (List.mem_append_right _ (List.mem_singleton_self _))
      exact .performed hrun hstep happly hbehind

/-! ### The filling in -/

/-- The table with an empty column for the considerations. -/
def bare (t : Table) : Table := t.addColumns ["enrichment"]

/-- The table with the considerations of the older column in it. -/
def filled (t : Table) : Table := (bare t).copied olderColumn "enrichment"

theorem enrichment_mem_bare (t : Table) : "enrichment" ∈ (bare t).columns :=
  List.mem_append_right _ (List.mem_singleton_self _)

theorem Fills.notMem (h : Fills t) : "enrichment" ∉ t.columns := fun hthere => h.1 _ hthere rfl

/-- The column is added by one statement and filled by the next. -/
theorem issue_one_of_fills (hcache : db.cache = some t) (h : Fills t) :
    (recorded 1 db).apply (.addColumn "enrichment") =
        .ok (recorded 1 { db with cache := some (bare t) }) ∧
      perform (recorded 1 db) (addConsiderations (recorded 1 db)) =
        (recorded 1 { db with cache := some (filled t) }, none) ∧
      addConsiderations (recorded 1 db) =
        [.addColumn "enrichment", .copyColumn olderColumn "enrichment"] := by
  have hthere : (recorded 1 db).cache = some t := hcache
  have hstep := addConsiderations_of_notMem hthere h.notMem
  rw [if_pos h.2] at hstep
  have hadd := apply_addColumn hthere "enrichment"
  rw [if_neg (by rintro ⟨c, hc, heq⟩; exact h.1 c hc heq)] at hadd
  refine ⟨hadd, ?_, hstep⟩
  rw [hstep, perform, hadd]
  dsimp only
  rw [perform, apply_copyColumn rfl]
  rfl

/-- Behind the filling in, all may be stopped. -/
theorem run_interrupted_late (hinfo : db.info = none) (hcache : db.cache = some t) (h : Fills t)
    {k : Nat} (hk : k ≠ 1) : run (interrupted db (k + 3)) = run db := by
  obtain ⟨_, hperform, hstep⟩ := issue_one_of_fills hcache h
  have hrest : Restarts _ (recorded 1 { db with cache := some (filled t) }) :=
    restarts_behind rfl (enrichment_mem_bare t)
  rw [interrupted_add_three hinfo hcache, run_older hinfo hcache]
  match k, hk with
  | 0, _ => exact run_of_version rfl ((version_recorded 1 db).trans (by decide))
  | k + 2, _ =>
    have htake (l : List Statement) : (addConsiderations (recorded 1 db) ++ l).take (k + 2) =
        addConsiderations (recorded 1 db) ++ l.take k := by
      rw [hstep]
      rfl
    rw [steps_one, issue_cons hperform, htake, perform_append, hperform, pass_cons hperform]
    exact hrest k

/-- A migration that is stopped before the filling in, and an uninterrupted one,
    end alike but for what is filled in. -/
theorem exists_run_torn (hinfo : db.info = none) (hcache : db.cache = some t) (h : Fills t) :
    ∃ names info error,
      run (interrupted db 4) =
        ({ db with info, cache := some ((bare t).addColumns names) }, error) ∧
      run db = ({ db with info, cache := some ((filled t).addColumns names) }, error) := by
  obtain ⟨hadd, hperform, hstep⟩ := issue_one_of_fills hcache h
  have hblind : ∀ step ∈ (fun _ => [.recordVersion 2]) :: steps 2, IsBlind step := by
    rw [steps_two, steps_of_three_le (Nat.le_refl 3)]
    simp only [List.forall_mem_cons, List.forall_mem_map]
    exact ⟨.inr ⟨2, rfl⟩, .inl ⟨_, rfl⟩, .inr ⟨3, rfl⟩, fun name _ => .inl ⟨name, rfl⟩⟩
  have hrecorded : (recorded 1 db).info = some ⟨true, some (toString 1)⟩ := rfl
  obtain ⟨names, info, error, hpass⟩ := exists_pass_rows hblind hrecorded rfl (bare t).columns
  refine ⟨names, info, error, ?_, ?_⟩
  · have hstopped : interrupted db 4 = recorded 1 { db with cache := some (bare t) } := by
      rw [interrupted_add_three hinfo hcache 1, steps_one, issue_cons hperform, hstep]
      simp only [List.cons_append, List.take_succ_cons, List.take_zero, perform, hadd]
    have hversion : version (interrupted db 4) = 1 := by
      rw [hstopped, version_recorded]
      decide
    rw [run_of_version (by rw [hstopped]; exact hrecorded) hversion, hstopped, steps_one]
    exact (pass_cons_of_settled (addConsiderations_of_mem rfl (enrichment_mem_bare t))).trans
      (hpass (bare t) rfl)
  · rw [run_older hinfo hcache, steps_one, pass_cons hperform]
    exact hpass (filled t) rfl

/-- Whether a migration that is stopped after so many statements leaves
    considerations behind: the column for them has just been added, and some row
    has one in the older column. -/
def IsTorn (t : Table) (k : Nat) : Prop :=
  k = 4 ∧ Fills t ∧ ∃ row ∈ t.rows, t.cell row olderColumn ≠ .null

/-- The filling in changes the table only if a row has something in the older
    column. -/
theorem filled_eq_bare_iff (hfull : t.IsFull) (h : Fills t) :
    filled t = bare t ↔ ∀ row ∈ t.rows, t.cell row olderColumn = .null := by
  have hcell (row : List Cell) (hrow : row ∈ t.rows) :=
    Table.cell_addColumns (hfull row hrow) ["enrichment"]
  have hbare : (bare t).IsFull := Table.isFull_addColumns hfull _
  rw [filled, Table.copied_eq_self_iff hbare (enrichment_mem_bare t)]
  · refine List.forall_mem_map.trans (forall₂_congr fun row hrow => ?_)
    rw [bare, hcell row hrow]
  · intro row' hrow'
    obtain ⟨row, hrow, rfl⟩ := List.mem_map.1 hrow'
    rw [bare, hcell row hrow]
    exact Table.cell_of_notMem row h.notMem

/-- A migration of an older release's cache that is stopped after any number of
    statements and run again leaves what an uninterrupted one leaves, unless it
    was torn. Then both end alike, and what is missing is the copy of the
    considerations alone. -/
theorem run_interrupted_iff (hinfo : db.info = none) (hcache : db.cache = some t)
    (hfull : t.IsFull) (k : Nat) :
    (run (interrupted db k) = run db ↔ ¬IsTorn t k) ∧
      (IsTorn t k → (run (interrupted db k)).2 = (run db).2 ∧
        (run (interrupted db k)).1.apply (.copyColumn olderColumn "enrichment") =
          .ok (run db).1) := by
  by_cases hlate : k = 4 ∧ Fills t
  · obtain ⟨rfl, hfills⟩ := hlate
    obtain ⟨names, info, error, hstopped, hrun⟩ := exists_run_torn hinfo hcache hfills
    have hwhole : ¬IsTorn t 4 ↔ filled t = bare t := by
      rw [filled_eq_bare_iff hfull hfills]
      simp [IsTorn, hfills]
    rw [hstopped, hrun, hwhole]
    refine ⟨⟨fun heq => ?_, fun heq => by rw [heq]⟩, fun _ => ⟨rfl, ?_⟩⟩
    · have hcaches := congrArg (fun r => r.1.cache) heq
      exact (Table.addColumns_injective names (Option.some.inj hcaches)).symm
    · have hbare : (bare t).IsFull := Table.isFull_addColumns hfull _
      rw [apply_copyColumn rfl, Table.copied_addColumns hbare (enrichment_mem_bare t)]
      rfl
  · have hnot : ¬IsTorn t k := fun h => hlate ⟨h.1, h.2.1⟩
    have hsame : run (interrupted db k) = run db := by
      by_cases hearly : k < 3
      · exact run_interrupted_early hinfo hcache hearly
      obtain ⟨j, rfl⟩ := Nat.exists_eq_add_of_le' (Nat.not_lt.1 hearly)
      by_cases hfills : Fills t
      · exact run_interrupted_late hinfo hcache hfills fun hj => hlate ⟨by rw [hj], hfills⟩
      · rw [interrupted_add_three hinfo hcache, run_older hinfo hcache]
        exact restarts_one hcache hfills j
    exact ⟨⟨fun _ => hnot, fun _ => hsame⟩, fun h => absurd h hnot⟩

theorem run_interrupted_iff_older :
    older.info = none ∧ (tableOf older).IsFull ∧ IsTorn (tableOf older) 4 ∧
      run (interrupted older 4) ≠ run older ∧ run (interrupted older 5) = run older := by
  have hfull : (tableOf older).IsFull := by decide
  have htorn : IsTorn (tableOf older) 4 := by
    refine ⟨rfl, ⟨by decide, by decide⟩, _, List.mem_singleton_self _, ?_⟩
    decide
  have hwhole : ¬IsTorn (tableOf older) 5 := fun h => absurd h.1 (by decide)
  exact ⟨rfl, hfull, htorn,
    fun hsame => (run_interrupted_iff rfl rfl hfull 4).1.1 hsame htorn,
    (run_interrupted_iff rfl rfl hfull 5).1.2 hwhole⟩

/-- What the rows hold in a column. -/
def cellsIn (db : Database) (column : String) : List Cell :=
  (tableOf db).rows.map fun row => (tableOf db).cell row column

/-- The considerations of an older release's cache are lost when its migration is
    stopped behind the fourth statement. -/
theorem loses_considerations :
    older.info = none ∧ (statements older)[3]? = some (.addColumn "enrichment") ∧
      cellsIn (run older).1 "enrichment" = [.text "watch out"] ∧
      cellsIn (run (interrupted older 4)).1 "enrichment" = [.null] := by
  decide +kernel

end RepoAtlas.Migration
