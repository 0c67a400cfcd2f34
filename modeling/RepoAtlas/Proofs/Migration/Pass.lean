import RepoAtlas.Database.Migration
import RepoAtlas.Proofs.Database.Table

/-!
# Steps of a migration

A migration carries its steps out one after the other, each on the database that
the steps before left (`pass`). What a step issues depends on the columns of the
cache alone, and each statement changes one thing.

* `run_eq_pass`: a migration is the pass of the steps from the recorded version on;
* `pass_ensureColumns`: columns that are missing are added, in order;
* `pass_considerations`: the column of the considerations is added and filled;
* `cache_run`: a table that has all columns is left alone.
-/

namespace RepoAtlas.Migration

open Database (foldCase)

variable {db next : Database} {t : Table} {m : Meta} {name : String} {step : Step}
  {l rest : List Step}

/-! ### Passes -/

/-- Carries steps out, up to the first statement that fails. -/
def pass (l : List Step) (db : Database) : Database × Option DatabaseError :=
  perform db (issue l db)

/-- Statements are carried out one part after the other, the second if the first
    succeeds. -/
theorem perform_append (db : Database) (first second : List Statement) :
    perform db (first ++ second) =
      match perform db first with
      | (next, none) => perform next second
      | failed => failed := by
  induction first generalizing db with
  | nil => rfl
  | cons s first ih =>
    rw [List.cons_append, perform, perform]
    cases db.apply s with
    | ok next => exact ih next
    | error e => rfl

/-- What is issued goes on from the database that the first step leaves. -/
theorem issue_cons (h : perform db (step db) = (next, none)) :
    issue (step :: rest) db = step db ++ issue rest next := by
  rw [issue, h]

/-- What a step does comes first. -/
theorem pass_cons (h : perform db (step db) = (next, none)) :
    pass (step :: rest) db = pass rest next := by
  rw [pass, issue_cons h, perform_append, h]
  rfl

/-- A step that issues nothing may be left out. -/
theorem issue_cons_of_settled (h : step db = []) : issue (step :: rest) db = issue rest db := by
  rw [issue_cons (by rw [h]; rfl), h, List.nil_append]

/-- A step with nothing to do is passed over. -/
theorem pass_cons_of_settled (h : step db = []) : pass (step :: rest) db = pass rest db :=
  pass_cons (by rw [h]; rfl)

/-! ### The recorded version -/

theorem withInfo_of_info (h : db.info = some m) : withInfo db = db := by
  rw [withInfo, perform, Database.apply, h]
  rfl

theorem withInfo_of_none (h : db.info = none) :
    withInfo db = { db with info := some ⟨true, none⟩ } := by
  rw [withInfo, perform, Database.apply, h]
  rfl

/-- A table of the version that was added records none. -/
theorem version_withInfo (db : Database) : version (withInfo db) = version db := by
  cases h : db.info with
  | none => rw [withInfo_of_none h, version, version, h]; rfl
  | some m => rw [withInfo_of_info h]

/-- A migration is the pass of the steps from the recorded version on. -/
theorem run_eq_pass (db : Database) : run db = pass (steps (version db)) (withInfo db) := by
  rw [run, statements, version_withInfo, ← List.singleton_append, perform_append, pass]
  rfl

/-- The database with a version recorded. -/
def recorded (n : Nat) (db : Database) : Database :=
  { db with info := some ⟨true, some (toString n)⟩ }

/-- The version that is recorded is the one that is read. -/
theorem version_recorded (n : Nat) (db : Database) :
    version (recorded n db) = (versionOf? (toString n)).getD 0 := rfl

/-- A version is recorded where there is a column for it. -/
theorem perform_recordVersion (h : db.info = some m) (hvalues : m.hasValues = true) (n : Nat) :
    perform db [.recordVersion n] = (recorded n db, none) := by
  obtain ⟨_, version⟩ := m
  cases hvalues
  rw [perform, Database.apply, h]
  rfl

theorem steps_zero :
    steps 0 = (fun _ => [.createCache]) :: (fun _ => [.recordVersion 1]) :: steps 1 := rfl

theorem steps_one : steps 1 = addConsiderations :: (fun _ => [.recordVersion 2]) :: steps 2 := rfl

theorem steps_two :
    steps 2 = ensureColumn "enriched_hash" :: (fun _ => [.recordVersion 3]) :: steps 3 := rfl

/-- From the third version on, nothing is left but to make sure of the columns. -/
theorem steps_of_three_le {n : Nat} (h : 3 ≤ n) : steps n = columns.map ensureColumn := by
  rw [steps, if_neg (by omega), if_neg (by omega), if_neg (by omega)]
  rfl

/-! ### Columns -/

/-- The cache has just the columns of its table. -/
theorem hasColumn_cache (hcache : db.cache = some t) (name : String) :
    db.hasColumn "cache" name = true ↔ name ∈ t.columns := by
  have hfold : foldCase "cache" = "cache" := by decide
  rw [Database.hasColumn, hfold, Database.columnsOf, if_pos rfl, hcache]
  exact List.contains_iff_mem

/-- A column that is there is not added. -/
theorem ensureColumn_of_mem (hcache : db.cache = some t) (h : name ∈ t.columns) :
    ensureColumn name db = [] :=
  if_pos ((hasColumn_cache hcache name).2 h)

/-- A column that is missing is added. -/
theorem ensureColumn_of_notMem (hcache : db.cache = some t) (h : name ∉ t.columns) :
    ensureColumn name db = [.addColumn name] :=
  if_neg fun hhas => h ((hasColumn_cache hcache name).1 hhas)

/-- A table that has the column for considerations is left alone. -/
theorem addConsiderations_of_mem (hcache : db.cache = some t) (h : "enrichment" ∈ t.columns) :
    addConsiderations db = [] :=
  if_pos ((hasColumn_cache hcache _).2 h)

/-- The column for considerations is added, and filled from the older one, if there is
    one. -/
theorem addConsiderations_of_notMem (hcache : db.cache = some t) (h : "enrichment" ∉ t.columns) :
    addConsiderations db = .addColumn "enrichment" ::
      if olderColumn ∈ t.columns then [.copyColumn olderColumn "enrichment"] else [] := by
  rw [addConsiderations, if_neg fun hhas => h ((hasColumn_cache hcache _).1 hhas)]
  simp only [hasColumn_cache hcache]

/-- A column is added unless there is one of the same name up to case. -/
theorem apply_addColumn (hcache : db.cache = some t) (name : String) :
    db.apply (.addColumn name) =
      if ∃ c ∈ t.columns, foldCase c = foldCase name then .error (.duplicateColumn name)
      else .ok { db with cache := some (t.addColumns [name]) } := by
  simp only [Database.apply, hcache, List.any_eq_true, decide_eq_true_eq]
  rfl

/-- To copy a column never fails. -/
theorem apply_copyColumn (hcache : db.cache = some t) (source target : String) :
    db.apply (.copyColumn source target) =
      .ok { db with cache := some (t.copied source target) } := by
  rw [Database.apply, hcache]
  rfl

/-- Whether no column has the name of an expected one up to case alone. -/
def Fits (t : Table) : Prop :=
  ∀ c ∈ t.columns, ∀ name ∈ columns, foldCase c = foldCase name → c = name

instance (t : Table) : Decidable (Fits t) :=
  inferInstanceAs
    (Decidable (∀ c ∈ t.columns, ∀ name ∈ columns, foldCase c = foldCase name → c = name))

/-- Columns of the last version may be added to a table that fits. -/
theorem Fits.addColumns (h : Fits t) {names : List String} (hnames : names ⊆ columns) :
    Fits (t.addColumns names) := by
  have hdistinct : ∀ a ∈ columns, ∀ b ∈ columns, foldCase a = foldCase b → a = b := by decide
  intro c hc name hname
  rcases List.mem_append.1 hc with hold | hnew
  · exact h c hold name hname
  · exact hdistinct c (hnames hnew) name hname

/-- An expected column that is missing can be added. -/
theorem perform_addColumn (hcache : db.cache = some t) (hfits : Fits t) (hname : name ∈ columns)
    (h : name ∉ t.columns) :
    perform db [.addColumn name] = ({ db with cache := some (t.addColumns [name]) }, none) := by
  rw [perform, apply_addColumn hcache, if_neg]
  · rfl
  · rintro ⟨c, hc, heq⟩
    exact h (hfits c hc name hname heq ▸ hc)

/-- Whether a table is another one with expected columns added. -/
def Widens (t wide : Table) : Prop :=
  ∃ names ⊆ columns, (∀ name ∈ names, name ∉ t.columns) ∧ wide = t.addColumns names

theorem Widens.refl (t : Table) : Widens t t :=
  ⟨[], List.nil_subset _, fun _ h => absurd h List.not_mem_nil, Table.addColumns_nil.symm⟩

/-- To be widened twice is to be widened. -/
theorem Widens.trans {wide wider : Table} (h : Widens t wide) (h' : Widens wide wider) :
    Widens t wider := by
  obtain ⟨names, hsub, hnew, rfl⟩ := h
  obtain ⟨others, hothers, hnew', rfl⟩ := h'
  refine ⟨names ++ others, List.append_subset.2 ⟨hsub, hothers⟩, fun name hname => ?_,
    (Table.addColumns_append ..).symm⟩
  rcases List.mem_append.1 hname with hname | hname
  · exact hnew name hname
  · exact fun hold => hnew' name hname (List.mem_append_left _ hold)

/-- A table that is widened keeps its columns. -/
theorem Widens.subset {wide : Table} (h : Widens t wide) : t.columns ⊆ wide.columns := by
  obtain ⟨names, _, _, rfl⟩ := h
  exact List.subset_append_left ..

/-- A table that is widened fits if it did before. -/
theorem Widens.fits {wide : Table} (h : Widens t wide) (hfits : Fits t) : Fits wide := by
  obtain ⟨names, hsub, _, rfl⟩ := h
  exact hfits.addColumns hsub

/-- A column is there after its step. -/
theorem perform_ensureColumn (hcache : db.cache = some t) (hfits : Fits t)
    (hname : name ∈ columns) :
    ∃ wide, perform db (ensureColumn name db) = ({ db with cache := some wide }, none) ∧
      Widens t wide ∧ name ∈ wide.columns := by
  by_cases h : name ∈ t.columns
  · refine ⟨t, ?_, .refl t, h⟩
    rw [ensureColumn_of_mem hcache h, perform, ← hcache]
  · refine ⟨_, ?_, ⟨[name], List.cons_subset.2 ⟨hname, List.nil_subset _⟩, ?_, rfl⟩,
      List.mem_append_right _ (List.mem_singleton_self _)⟩
    · rw [ensureColumn_of_notMem hcache h, perform_addColumn hcache hfits hname h]
    · exact fun _ hmem => List.mem_singleton.1 hmem ▸ h

/-- Columns that are missing are added, and all are there afterwards. -/
theorem pass_ensureColumns {names : List String} (hcache : db.cache = some t) (hfits : Fits t)
    (hnames : names ⊆ columns) :
    ∃ wide, pass (names.map ensureColumn) db = ({ db with cache := some wide }, none) ∧
      Widens t wide ∧ names ⊆ wide.columns := by
  induction names generalizing db t with
  | nil => exact ⟨t, by rw [← hcache]; rfl, .refl t, List.nil_subset _⟩
  | cons name names ih =>
    obtain ⟨hname, hrest⟩ := List.cons_subset.1 hnames
    obtain ⟨between, hstep, hwidens, hmem⟩ := perform_ensureColumn hcache hfits hname
    have hnext : { db with cache := some between }.cache = some between := rfl
    obtain ⟨wide, hpass, hwide, hthere⟩ := ih hnext (hwidens.fits hfits) hrest
    refine ⟨wide, ?_, hwidens.trans hwide, List.cons_subset.2 ⟨hwide.subset hmem, hthere⟩⟩
    rw [List.map_cons, pass_cons hstep, hpass]

/-! ### Considerations -/

/-- The table with a column for the considerations. A new one is filled from the
    older one, if that is there. -/
def considered (t : Table) : Table :=
  if "enrichment" ∈ t.columns then t
  else if olderColumn ∈ t.columns then
    (t.addColumns ["enrichment"]).copied olderColumn "enrichment"
  else t.addColumns ["enrichment"]

theorem columns_considered (t : Table) :
    (considered t).columns =
      if "enrichment" ∈ t.columns then t.columns else t.columns ++ ["enrichment"] := by
  rw [considered]
  split_ifs <;> rfl

/-- The column for considerations fits. -/
theorem Fits.considered (h : Fits t) : Fits (considered t) := by
  have hadd : Fits (t.addColumns ["enrichment"]) := h.addColumns (by decide)
  rw [Migration.considered]
  split_ifs
  · exact h
  · exact hadd
  · exact hadd

/-- The considerations are there after their step. -/
theorem perform_addConsiderations (hcache : db.cache = some t) (hfits : Fits t) :
    perform db (addConsiderations db) = ({ db with cache := some (considered t) }, none) := by
  rw [considered]
  split_ifs with hthere holder
  · rw [addConsiderations_of_mem hcache hthere, perform, ← hcache]
  all_goals
    have hadd := perform_addColumn hcache hfits (by decide) hthere
    rw [addConsiderations_of_notMem hcache hthere, ← List.singleton_append, perform_append, hadd]
  · rw [if_pos holder]
    dsimp only
    rw [perform, apply_copyColumn rfl]
    rfl
  · rw [if_neg holder]
    rfl

/-! ### A migration with nothing to add -/

/-- Whether a statement does nothing to a cache that is there. -/
def Spares (s : Statement) : Prop := s = .createCache ∨ ∃ n, s = .recordVersion n

/-- Statements that spare the table of the cache leave it as it is. -/
theorem cache_perform {statements : List Statement} (hcache : db.cache = some t)
    (h : ∀ s ∈ statements, Spares s) :
    (perform db statements).1.cache = some t ∧
      (perform db statements).1.writable = db.writable := by
  induction statements generalizing db with
  | nil => exact ⟨hcache, rfl⟩
  | cons s rest ih =>
    obtain ⟨hs, hrest⟩ := List.forall_mem_cons.1 h
    rw [perform]
    cases happly : db.apply s with
    | error e => exact ⟨hcache, rfl⟩
    | ok next =>
      have hnext : next.cache = some t ∧ next.writable = db.writable := by
        rcases hs with rfl | ⟨n, rfl⟩
        · rw [Database.apply, hcache] at happly
          cases happly
          exact ⟨hcache, rfl⟩
        · rw [Database.apply] at happly
          split at happly
          · cases happly
          · split at happly
            · cases happly
              exact ⟨hcache, rfl⟩
            · cases happly
      obtain ⟨hafter, hwritable⟩ := ih hnext.1 hrest
      exact ⟨hafter, hwritable.trans hnext.2⟩

/-- On a table with all columns, steps issue only what spares it. -/
theorem spares_of_mem_steps (hcolumns : columns ⊆ t.columns) {n : Nat} (hstep : step ∈ steps n)
    (hcache : db.cache = some t) : ∀ s ∈ step db, Spares s := by
  have hensure (name : String) (hname : name ∈ columns) : ensureColumn name db = [] :=
    ensureColumn_of_mem hcache (hcolumns hname)
  have hconsider : addConsiderations db = [] :=
    addConsiderations_of_mem hcache (hcolumns (by decide))
  have hrecord (n : Nat) : ∀ s ∈ [Statement.recordVersion n], Spares s := fun s hs =>
    .inr ⟨n, List.mem_singleton.1 hs⟩
  simp only [steps, List.mem_append, List.mem_map] at hstep
  rcases hstep with ((hstep | hstep) | hstep) | ⟨name, hname, rfl⟩
  · split_ifs at hstep
    · rcases List.mem_pair.1 hstep with rfl | rfl
      · exact fun s hs => .inl (List.mem_singleton.1 hs)
      · exact hrecord 1
    · cases hstep
  · split_ifs at hstep
    · rcases List.mem_pair.1 hstep with rfl | rfl
      · rw [hconsider]
        exact fun s hs => absurd hs List.not_mem_nil
      · exact hrecord 2
    · cases hstep
  · split_ifs at hstep
    · rcases List.mem_pair.1 hstep with rfl | rfl
      · rw [hensure _ (by decide)]
        exact fun s hs => absurd hs List.not_mem_nil
      · exact hrecord 3
    · cases hstep
  · rw [hensure name hname]
    exact fun s hs => absurd hs List.not_mem_nil

/-- Steps that spare the table of the cache issue no statement that does not. -/
theorem spares_of_mem_issue (hl : ∀ step ∈ l, ∀ db : Database, db.cache = some t →
    ∀ s ∈ step db, Spares s) (hcache : db.cache = some t) : ∀ s ∈ issue l db, Spares s := by
  induction l generalizing db with
  | nil => exact fun s hs => absurd hs List.not_mem_nil
  | cons step l ih =>
    obtain ⟨hstep, hrest⟩ := List.forall_mem_cons.1 hl
    intro s hs
    rcases List.mem_append.1 hs with hs | hs
    · exact hstep db hcache s hs
    · have hnext := (cache_perform hcache (hstep db hcache)).1
      cases hperform : perform db (step db) with
      | mk next error =>
        rw [hperform] at hs hnext
        cases error with
        | none => exact ih hrest hnext s hs
        | some e => cases hs

/-- A migration leaves a table with all columns alone. -/
theorem cache_run (hcache : db.cache = some t) (hcolumns : columns ⊆ t.columns) :
    (run db).1.cache = some t ∧ (run db).1.writable = db.writable := by
  have hinfo : (withInfo db).cache = db.cache ∧ (withInfo db).writable = db.writable := by
    cases h : db.info with
    | none => rw [withInfo_of_none h]; exact ⟨rfl, rfl⟩
    | some m => rw [withInfo_of_info h]; exact ⟨rfl, rfl⟩
  rw [run_eq_pass, ← hinfo.2]
  have hthere : (withInfo db).cache = some t := hinfo.1.trans hcache
  exact cache_perform hthere (spares_of_mem_issue
    (fun _ hstep _ hcache => spares_of_mem_steps hcolumns hstep hcache) hthere)

end RepoAtlas.Migration
