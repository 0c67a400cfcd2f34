import RepoAtlas.Proofs.Describe.Inquiry
import RepoAtlas.Proofs.Walk.Mirror

/-!
# Caches that fail

A cache may refuse every write (`Cache.Refuses`), or fail at all that is asked of
it (`Cache.Fails`). Nobody is told: a walk with a cache that refuses every write
is the walk with a cache of the same rows that takes them, and a walk with a cache
that fails is the walk with an empty one. The counts of writes alone tell them
apart (`Walk.Result.unwritten`), and so it is in a round of descriptions.

* `Walk.visit_unwritten`, `Round.visit_unwritten`: one step of two runs side by
  side, with a cache that refuses every write and with another one;
* `Walk.run_unwritten`, `Round.run_unwritten`: the two runs as a whole.

A visit asks for its own path on record alone, and writes under no other. Where
visits do not disturb each other (`Walk.Undisturbed`), none of them misses what an
earlier one could not write. Where they do, the walks tell apart which cache they had
(`Walk.twins_tell_apart`).
-/

namespace RepoAtlas

namespace Cache

/-- A cache that takes no entry in. -/
def Refuses (db : Database) : Prop := ∀ e, ∃ error, insert db e = .error error

/-- A cache that fails at all that is asked of it. -/
structure Fails (db : Database) : Prop where
  lookup : ∀ path, ∃ error, lookup db path = .error error
  size : ∃ error, size db = .error error
  refuses : Refuses db

variable {db other : Database}

/-- A look-up depends on the rows alone. -/
theorem known?_of_rows (h : other.cache = db.cache) (path : String) :
    known? other path = known? db path := by
  rw [known?, known?, lookup, lookup, table, table, h]

theorem Fails.known? (h : Fails other) (path : String) : known? other path = none := by
  obtain ⟨error, herror⟩ := h.lookup path
  rw [Cache.known?, herror]

theorem refuses_of_not_writable (h : db.writable = false) : Refuses db := by
  intro e
  cases hcache : db.cache with
  | none => exact ⟨.noTable "cache", by rw [insert, table, hcache]; rfl⟩
  | some t => exact ⟨.writeRefused, by simp [insert, table, hcache, h, bind, Except.bind]⟩

theorem fails_of_no_table (h : db.cache = none) : Fails db where
  lookup path := ⟨.noTable "cache", by rw [lookup, table, h]; rfl⟩
  size := ⟨.noTable "cache", by rw [size, table, h]; rfl⟩
  refuses e := ⟨.noTable "cache", by rw [insert, table, h]; rfl⟩

end Cache

/-! ### Walks -/

namespace Walk

open RepoAtlas.Path (text)

/-- The counts if nothing that was analyzed could be written. -/
def Stats.unwritten (t : Stats) : Stats :=
  { t with cacheWrites := 0, cacheWriteFailures := t.extractions }

/-- The state with a cache into which nothing could be written. -/
def State.unwritten (s : State) (cache : Database) : State := ⟨cache, s.stats.unwritten⟩

/-- The result with a cache into which nothing could be written. -/
def Result.unwritten (w : Result) (cache : Database) : Result :=
  ⟨w.records, w.stats.unwritten, cache⟩

variable {fs : FileSystem} {s : State} {cache other : Database} {x : Sight} {sights : List Sight}
  {r : Record} {content : Bytes} {artifacts : List Bytes} {path : Bytes}

/-- A record that cannot be written is counted, and that is all. -/
theorem remember_of_refuses (hother : Cache.Refuses other)
    (hr : r.contentHash = some (Sha256.hash content)) (t : Stats) :
    remember ⟨other, t⟩ r = ⟨other, { t with cacheWriteFailures := t.cacheWriteFailures + 1 }⟩ := by
  obtain ⟨error, herror⟩ := hother _
  rw [remember, Entry.ofRecord?_eq hr]
  dsimp only
  rw [herror]

/-- Whatever becomes of a write, it changes no other count. -/
theorem unwritten_remember (s : State) (r : Record) :
    (remember s r).stats.unwritten = s.stats.unwritten := by
  rw [remember]
  split
  · rfl
  · split <;> rfl

/-- Content is made a record of in the same way, if as much is known of it. -/
theorem fill_unwritten (hother : Cache.Refuses other)
    (hknown : Cache.known? other r.path = Cache.known? s.cache r.path)
    (method : Option Language.Method) :
    fill (s.unwritten other) method content r =
      ((fill s method content r).1.unwritten other, (fill s method content r).2) := by
  have hremembered (hash : String) :
      remembered? other r.path hash = remembered? s.cache r.path hash := by
    rw [remembered?_eq, remembered?_eq, hknown]
  rw [fill, fill]
  dsimp only [State.unwritten]
  rw [hremembered]
  cases remembered? s.cache r.path (Sha256.hash content) with
  | some e => rfl
  | none =>
    rw [remember_of_refuses hother rfl, unwritten_remember]
    rfl

/-- A visit is told alike with a cache that refuses every write, and knows as much of
    what is read. -/
theorem visit_unwritten (hother : Cache.Refuses other)
    (hknown : (x.content? fs).isSome →
      Cache.known? other (text x.path) = Cache.known? s.cache (text x.path)) :
    visit fs (s.unwritten other) x =
      ((visit fs s x).1.unwritten other, (visit fs s x).2) := by
  cases hcontent : x.content? fs with
  | none =>
    rw [visit_of_unread hcontent, visit_of_unread hcontent, State.passed, State.passed]
    cases x.kind <;> rfl
  | some content =>
    rw [visit_of_read hcontent, visit_of_read hcontent]
    exact fill_unwritten (s := s.opened x) hother
      (by rw [path_bare]; exact hknown (by rw [hcontent]; rfl)) _

/-- Visits that do not disturb each other are told alike, if as much is known of each
    before the first. -/
theorem visitAll_unwritten (hother : Cache.Refuses other) (h : Undisturbed fs s.cache sights)
    (hknown : ∀ x ∈ sights, (x.content? fs).isSome →
      Cache.known? other (text x.path) = Cache.known? s.cache (text x.path)) :
    visitAll fs (s.unwritten other) sights =
      ((visitAll fs s sights).1.unwritten other, (visitAll fs s sights).2) := by
  induction sights generalizing s with
  | nil => rfl
  | cons x sights ih =>
    rw [visitAll_cons, visitAll_cons, visit_unwritten hother (hknown x List.mem_cons_self),
      ih h.visit fun y hy hread => ?_]
    rw [h.known?_visit hy hread, hknown y (List.mem_cons_of_mem _ hy) hread]

/-- A walk with a cache that refuses every write is told like one with a cache
    that knows as much, if no record that is outdated shares its path with another one
    that was read. -/
theorem run_unwritten (hother : Cache.Refuses other)
    (hknown : ∀ path, Cache.known? other path = Cache.known? cache path)
    (hapart : ∀ w, run fs cache artifacts path = .ok w → KeepsApart cache w.records) :
    run fs other artifacts path = (run fs cache artifacts path).map (·.unwritten other) := by
  cases hroot : rootPlace fs path with
  | error e => rw [run, run, hroot]; rfl
  | ok place =>
    have hundisturbed : Undisturbed fs cache (survey fs artifacts place) :=
      keepsApart_visitAll_iff.1 (hapart _ (run_eq _ _ hroot))
    have hvisits : visitAll fs { cache := other } (survey fs artifacts place) =
        ((visitAll fs { cache } (survey fs artifacts place)).1.unwritten other,
          (visitAll fs { cache } (survey fs artifacts place)).2) :=
      visitAll_unwritten (s := { cache }) hother hundisturbed fun x _ _ => hknown (text x.path)
    rw [run_eq _ _ hroot, run_eq _ _ hroot, collect, hvisits]
    rfl

/-- With a cache that refuses every write, all that is not known is analyzed. -/
theorem visit_of_refuses (h : Cache.Refuses s.cache) :
    (visit fs s x).1.cache = s.cache ∧ (visit fs s x).1.stats.extractions =
      s.stats.extractions + if x.isStale fs s.cache then 1 else 0 := by
  cases hcontent : x.content? fs with
  | none =>
    rw [visit_of_unread hcontent, Sight.isStale, hcontent]
    exact ⟨cache_passed, congrArg (·.2.1) tally_passed⟩
  | some content =>
    rw [visit_of_read hcontent, fill, remembered?_eq, path_bare, Sight.isStale, Sight.fresh?,
      hcontent, Option.bind_some]
    dsimp only [State.opened]
    cases (Cache.known? s.cache (text x.path)).filter
      fun e => e.isFreshFor (Sha256.hash content) with
    | some e => exact ⟨rfl, rfl⟩
    | none =>
      dsimp only
      rw [remember_of_refuses h rfl]
      exact ⟨rfl, rfl⟩

theorem extractions_of_refuses (h : Cache.Refuses s.cache) :
    (visitAll fs s sights).1.stats.extractions =
      s.stats.extractions + sights.countP (·.isStale fs s.cache) := by
  induction sights generalizing s with
  | nil => rfl
  | cons x sights ih =>
    obtain ⟨hcache, hextractions⟩ := @visit_of_refuses fs s x h
    rw [visitAll_cons, ih (by rwa [hcache]), hcache, hextractions, List.countP_cons]
    omega

/-- Of two files with one path on record and one content, a walk with an empty cache
    analyzes the first alone. With a cache that fails it analyzes both. -/
theorem twins_tell_apart :
    twins.WellFormed ∧ Cache.Blank Cache.empty ∧ Cache.Fails Cache.lost ∧
      run twins Cache.lost [] "/r" ≠
        (run twins Cache.empty [] "/r").map (·.unwritten Cache.lost) := by
  have hlost : Cache.Fails Cache.lost := Cache.fails_of_no_table rfl
  refine ⟨by decide, Cache.blank_empty, hlost, fun h => ?_⟩
  have hagree : AgreeOnPaths twins (survey twins [] ["r"]) := by
    intro x _ y _ hx hy _
    have hempty (z : Sight) (hz : (z.content? twins).isSome) : z.content? twins = some [] := by
      obtain ⟨c, hc⟩ := Option.isSome_iff_exists.1 hz
      have hmem : c ∈ [[], []] := mem_contents_of_content? hc
      rw [hc]
      simpa using hmem
    rw [hempty x hx, hempty y hy]
  have hstale : (survey twins [] ["r"]).countP (·.isStale twins Cache.lost) =
      (survey twins [] ["r"]).countP (·.isStale twins Cache.empty) := by
    refine List.countP_congr fun x _ => ?_
    rw [Sight.isStale, Sight.isStale, Sight.fresh?, Sight.fresh?, hlost.known?,
      Cache.known?_of_blank Cache.blank_empty]
  have hless := (extractions_visitAll (s := { cache := Cache.empty }) Cache.blank_empty.1
    hagree).2 twins_disturbed
  have hall := @extractions_of_refuses twins { cache := Cache.lost } (survey twins [] ["r"])
    hlost.refuses
  rw [run_eq _ _ rootPlace_twins, run_eq _ _ rootPlace_twins] at h
  have hsame := congrArg (·.stats.extractions) (Except.ok.inj h)
  rw [← hstale, ← hall] at hless
  exact absurd hsame hless.ne'

end Walk

/-! ### Rounds -/

namespace Round

variable {σ : Type} {d : Describer σ} {model : String} {p : Policy} {other : Database}
  {records : List Record}

/-- The state with a cache into which nothing could be written. -/
def State.unwritten (s : State σ) (cache : Database) : State σ :=
  { s with cache, stats := { s.stats with cacheWrites := 0 } }

/-- The result with a cache into which nothing could be written. -/
def Result.unwritten (o : Result σ) (cache : Database) : Result σ :=
  { o with cache, stats := { o.stats with cacheWrites := 0 } }

/-- Whatever becomes of a write, it changes the cache and the count of writes
    alone. -/
theorem remember_unwritten (hother : Cache.Refuses other) (s : State σ) (r : Record) :
    remember (s.unwritten other) r = (remember s r).unwritten other := by
  rw [remember, remember]
  split
  · rfl
  next e _ =>
    obtain ⟨error, herror⟩ := hother e
    dsimp only [State.unwritten]
    rw [herror]
    cases Cache.insert s.cache e <;> rfl

theorem accept_unwritten (hother : Cache.Refuses other) (s : State σ) (index : Nat) (r : Record)
    (reply : Reply) :
    accept (s.unwritten other) index r reply = (accept s index r reply).unwritten other := by
  rw [accept, accept]
  dsimp only
  rw [remember_unwritten hother]
  rfl

/-- The describer is asked alike with a cache that refuses every write, and its
    answer is taken alike. -/
theorem visit_unwritten (hother : Cache.Refuses other) (s : State σ) (index : Nat) (r : Record) :
    visit d model p (s.unwritten other) index r =
      (visit d model p s index r).map (·.unwritten other) := by
  rw [visit, visit, Option.map_map]
  refine congrArg (fun f => Option.map f _) (funext fun told => ?_)
  obtain ⟨outcome, attempts, describer⟩ := told
  cases outcome with
  | described reply =>
    let asked := { s with describer, attempts := s.attempts ++ attempts }
    exact accept_unwritten hother asked index r reply
  | skipped failures reason => rfl

theorem visitAll_unwritten (hother : Cache.Refuses other) (s : State σ) (index : Nat) :
    visitAll d model p (s.unwritten other) index records =
      (visitAll d model p s index records).map (·.unwritten other) := by
  induction records generalizing s index with
  | nil => rfl
  | cons r records ih =>
    rw [visitAll, visitAll]
    split
    · let counted := { s with stats := { s.stats with eligible := s.stats.eligible + 1 } }
      change (visit d model p (counted.unwritten other) index r).bind _ =
        ((visit d model p counted index r).bind _).map _
      rw [visit_unwritten hother, Option.bind_map, Option.map_bind]
      exact congrArg _ (funext fun next => ih next (index + 1))
    · exact ih s (index + 1)

/-- A round with a cache that refuses every write is told like one with any
    cache. -/
theorem run_unwritten (hother : Cache.Refuses other) (cache : Database) (describer : σ) :
    run d model p records other describer =
      (run d model p records cache describer).map (·.unwritten other) := by
  have hvisits : visitAll d model p { describer, cache := other } 0 records =
      (visitAll d model p { describer, cache } 0 records).map (·.unwritten other) :=
    visitAll_unwritten hother { describer, cache } 0
  rw [run, run, hvisits, Option.map_map, Option.map_map]
  rfl

end Round

namespace Cache

variable {fs : FileSystem} {db other : Database}

end Cache

end RepoAtlas
