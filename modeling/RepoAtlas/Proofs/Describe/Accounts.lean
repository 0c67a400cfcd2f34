import RepoAtlas.Proofs.Describe.Patches

/-!
# What a round accounts for

A round is told by its inquiries (`Round.visitAll_eq`): each of them leads to a
patch at the position of its record if there was an answer, and to none
otherwise, and each answer is remembered at once. What a round returns agrees
with them in all its parts (`Round.Accounts`, `Round.run_accounted`):

* everybody who is worth a question is asked about, in order, as often as the
  policy allows at most;
* the records come back as they were but for what was told at the patched
  positions, and none of those is worth a question any more;
* the cache has the entry of each patched record as it comes back, though it was
  written before the records were patched, and keeps its other rows.
-/

namespace RepoAtlas

/-! ### Questions -/

namespace Describer

variable {σ : Type} {d : Describer σ} {p : Policy} {question : Question} {s next : σ}
  {outcome : Outcome} {attempts : List Attempt}

/-- To ask again is to ask the same question, no more often than allowed. -/
theorem questions_askFrom {more failures : Nat}
    (h : d.askFrom p question more failures s = some (outcome, attempts, next)) :
    ∃ n ≤ more, attempts.filterMap Attempt.question? = List.replicate (n + 1) question := by
  induction more generalizing failures s attempts with
  | zero =>
    rw [askFrom] at h
    split at h <;> cases h <;> exact ⟨0, Nat.le_refl _, rfl⟩
  | succ more ih =>
    rw [askFrom] at h
    split at h
    · cases h
      exact ⟨0, Nat.zero_le _, rfl⟩
    · obtain ⟨wait, -, h⟩ := Option.bind_eq_some_iff.1 h
      obtain ⟨⟨later, further, last⟩, hlater, h⟩ := Option.map_eq_some_iff.1 h
      cases h
      obtain ⟨n, hn, hquestions⟩ := ih hlater
      exact ⟨n + 1, Nat.succ_le_succ hn, congrArg (question :: ·) hquestions⟩

/-- A question is asked once at least, and not more often than the policy allows. -/
theorem questions_ask (h : d.ask p question s = some (outcome, attempts, next)) :
    ∃ n, 1 ≤ n ∧ n ≤ max 1 p.attempts ∧
      attempts.filterMap Attempt.question? = List.replicate n question := by
  obtain ⟨n, hn, hquestions⟩ := questions_askFrom h
  exact ⟨n + 1, by omega, by omega, hquestions⟩

end Describer

namespace Round

variable {σ : Type} {d : Describer σ} {model : String} {p : Policy} {s : State σ}
  {cache : Database} {records : List Record} {r : Record} {reply : Reply} {i : Inquiry}
  {is : List Inquiry}

/-! ### What a round comes to -/

/-- The state after inquiries about the records at positions, in a cache that
    works. -/
def State.after (s : State σ) (is : List Inquiry) (positions : List Nat) (describer : σ) :
    State σ where
  describer
  cache := is.foldl (fun cache i => i.remember cache) s.cache
  patches := s.patches ++ patchesOf is positions
  attempts := s.attempts ++ is.flatMap (·.attempts)
  stats :=
    { eligible := s.stats.eligible + is.length
      enriched := s.stats.enriched + is.countP (·.isDescribed)
      skipped := s.stats.skipped + is.countP (!·.isDescribed)
      cacheWrites := s.stats.cacheWrites + is.countP (·.isDescribed) }

theorem after_nil (s : State σ) : s.after [] [] s.describer = s := by
  simp [State.after, patchesOf]

theorem after_after (s : State σ) (i : Inquiry) (is : List Inquiry) (index : Nat)
    (positions : List Nat) (describer last : σ) :
    (s.after [i] [index] describer).after is positions last =
      s.after (i :: is) (index :: positions) last := by
  have hpatches : patchesOf [i] [index] = (i.patch? index).toList :=
    (patchesOf_cons i [] index []).trans (List.append_nil _)
  have hcount (n : Nat) (b : Inquiry → Bool) :
      n + [i].countP b + is.countP b = n + (i :: is).countP b := by
    rw [List.countP_cons, List.countP_cons, List.countP_nil]
    omega
  simp only [State.after, hpatches, patchesOf_cons, hcount, List.foldl_cons, List.foldl_nil,
    List.flatMap_cons, List.flatMap_nil, List.append_nil, List.append_assoc, List.length_cons,
    List.length_nil]
  congr 2
  omega

/-- What was told about a record that is worth a question is taken into a cache that
    works. -/
theorem remember_of_described (hcache : Cache.Working cache) (heligible : i.record.isEligible)
    (hreply : i.outcome = .described reply) :
    ∃ e, Entry.ofRecord? (i.told reply) = some e ∧ e.path = i.record.path ∧
      Cache.insert cache e = .ok (i.remember cache) := by
  obtain ⟨e, he, hpath, -⟩ := exists_entry_told heligible reply
  obtain ⟨next, hinsert, -⟩ := Cache.exists_insert hcache e
  refine ⟨e, he, hpath, ?_⟩
  simp only [Inquiry.remember, hreply, he, hinsert]
  rfl

theorem visit_eq (hcache : Cache.Working s.cache) (hr : r.isEligible) (index : Nat) :
    visit d model p { s with stats := { s.stats with eligible := s.stats.eligible + 1 } } index r =
      (d.ask p ⟨Summary.ofRecord r, model⟩ s.describer).map fun (outcome, attempts, describer) =>
        s.after [⟨r, attempts, outcome⟩] [index] describer := by
  rw [visit]
  refine congrArg (Option.map · _) (funext fun x => ?_)
  obtain ⟨outcome, attempts, describer⟩ := x
  cases outcome with
  | skipped failures reason =>
    simp [State.after, patchesOf, Inquiry.patch?, Inquiry.isDescribed, Inquiry.remember]
  | described reply =>
    obtain ⟨e, he, -, hinsert⟩ :=
      remember_of_described (i := ⟨r, attempts, .described reply⟩) hcache hr rfl
    have htold : Entry.ofRecord? (Patch.apply ⟨index, reply.description, reply.consideration⟩ r) =
      some e := he
    simp [State.after, patchesOf, Inquiry.patch?, Inquiry.isDescribed, accept, remember, htold,
      hinsert]

theorem working_remember (hcache : Cache.Working cache) (i : Inquiry) :
    Cache.Working (i.remember cache) := by
  rw [Inquiry.remember]
  split
  · exact hcache
  · split
    · exact hcache
    · rename_i e _
      obtain ⟨next, hinsert, hnext⟩ := Cache.exists_insert hcache e
      rw [hinsert]
      exact hnext

/-- A round is told by its inquiries. -/
theorem visitAll_eq (hcache : Cache.Working s.cache) (index : Nat) (records : List Record) :
    visitAll d model p s index records =
      (inquiries? d model p s.describer records).map fun (is, describer) =>
        s.after is (eligibleFrom index records) describer := by
  induction records generalizing s index with
  | nil => exact congrArg some (after_nil s).symm
  | cons r records ih =>
    rw [visitAll, inquiries?]
    split
    next heligible =>
      dsimp only
      rw [visit_eq hcache heligible, eligibleFrom_of_eligible heligible, Option.bind_map,
        Option.map_bind]
      refine congrArg _ (funext fun x => ?_)
      obtain ⟨outcome, attempts, describer⟩ := x
      dsimp only [Function.comp_apply]
      rw [ih (working_remember hcache _), Option.map_map]
      refine congrArg (Option.map · _) (funext fun y => ?_)
      obtain ⟨is, last⟩ := y
      exact after_after s _ is index _ describer last
    next heligible =>
      rw [ih hcache, eligibleFrom_of_not_eligible heligible]

/-! ### The cache of a round -/

/-- Under the path of a record that was told about, the cache has what was told. -/
theorem lookup_remember (hcache : Cache.Working cache) (heligible : i.record.isEligible)
    (hreply : i.outcome = .described reply) :
    Cache.lookup (i.remember cache) i.record.path = .ok (Entry.ofRecord? (i.told reply)) := by
  obtain ⟨e, he, hpath, hinsert⟩ := remember_of_described hcache heligible hreply
  rw [he, ← hpath, Cache.lookup_insert hcache hinsert]

theorem lookup_remember_of_ne (hcache : Cache.Working cache) (heligible : i.record.isEligible)
    {path : String} (hne : path ≠ i.record.path) :
    Cache.lookup (i.remember cache) path = Cache.lookup cache path := by
  cases houtcome : i.outcome with
  | skipped failures reason => rw [Inquiry.remember, houtcome]
  | described reply =>
    obtain ⟨e, -, hpath, hinsert⟩ := remember_of_described hcache heligible houtcome
    exact Cache.lookup_insert_of_ne hinsert (hpath ▸ hne)

/-- Rows of other paths stay. -/
theorem rowsApart_remember (hcache : Cache.Working cache) (heligible : i.record.isEligible)
    {paths : List String} (hpaths : i.isDescribed → i.record.path ∈ paths) :
    Cache.rowsApart (i.remember cache) paths = Cache.rowsApart cache paths := by
  cases houtcome : i.outcome with
  | skipped failures reason => rw [Inquiry.remember, houtcome]
  | described reply =>
    obtain ⟨e, -, hpath, hinsert⟩ := remember_of_described hcache heligible houtcome
    refine Cache.rowsApart_insert hcache hinsert (hpath ▸ hpaths ?_)
    rw [Inquiry.isDescribed, Inquiry.patch?, houtcome]
    rfl

theorem working_inquiries (hcache : Cache.Working cache) (is : List Inquiry) :
    Cache.Working (is.foldl (fun cache i => i.remember cache) cache) := by
  induction is generalizing cache with
  | nil => exact hcache
  | cons i is ih => exact ih (working_remember hcache i)

/-- Inquiries about other paths leave the row of a path. -/
theorem lookup_inquiries_of_notMem (hcache : Cache.Working cache)
    (heligible : ∀ i ∈ is, i.record.isEligible) {path : String}
    (hpath : path ∉ is.map (·.record.path)) :
    Cache.lookup (is.foldl (fun cache i => i.remember cache) cache) path =
      Cache.lookup cache path := by
  induction is generalizing cache with
  | nil => rfl
  | cons i is ih =>
    rw [List.map_cons, List.mem_cons, not_or] at hpath
    rw [List.foldl_cons, ih (working_remember hcache i)
      (fun j hj => heligible j (List.mem_cons_of_mem _ hj)) hpath.2,
      lookup_remember_of_ne hcache (heligible i List.mem_cons_self) hpath.1]

/-- Inquiries about different paths leave the row of each that was answered. -/
theorem lookup_inquiries (hcache : Cache.Working cache)
    (heligible : ∀ i ∈ is, i.record.isEligible) (hnodup : (is.map (·.record.path)).Nodup)
    (hi : i ∈ is) (hreply : i.outcome = .described reply) :
    Cache.lookup (is.foldl (fun cache i => i.remember cache) cache) i.record.path =
      .ok (Entry.ofRecord? (i.told reply)) := by
  induction is generalizing cache with
  | nil => cases hi
  | cons j is ih =>
    rw [List.map_cons, List.nodup_cons] at hnodup
    have hrest : ∀ i ∈ is, i.record.isEligible := fun i hi =>
      heligible i (List.mem_cons_of_mem _ hi)
    rw [List.foldl_cons]
    rcases List.mem_cons.1 hi with rfl | hi
    · rw [lookup_inquiries_of_notMem (working_remember hcache i) hrest hnodup.1,
        lookup_remember hcache (heligible i List.mem_cons_self) hreply]
    · exact ih (working_remember hcache j) hrest hnodup.2 hi

/-- Inquiries leave the rows of the paths that nothing was answered about. -/
theorem rowsApart_inquiries (hcache : Cache.Working cache)
    (heligible : ∀ i ∈ is, i.record.isEligible) {paths : List String}
    (hpaths : ∀ i ∈ is, i.isDescribed → i.record.path ∈ paths) :
    Cache.rowsApart (is.foldl (fun cache i => i.remember cache) cache) paths =
      Cache.rowsApart cache paths := by
  induction is generalizing cache with
  | nil => rfl
  | cons i is ih =>
    rw [List.foldl_cons, ih (working_remember hcache i)
      (fun j hj => heligible j (List.mem_cons_of_mem _ hj))
      (fun j hj => hpaths j (List.mem_cons_of_mem _ hj)),
      rowsApart_remember hcache (heligible i List.mem_cons_self) (hpaths i List.mem_cons_self)]

/-! ### What a round returns -/

/-- The paths of the records that patches are about. -/
def pathsOf (records : List Record) (patches : List Patch) : List String :=
  patches.filterMap fun q => records[q.index]?.map (·.path)

/-- What a round about records returns, told by its inquiries. -/
structure Accounts (model : String) (p : Policy) (records : List Record) (cache : Database)
    (is : List Inquiry) (result : Result σ) : Prop where
  /-- Everybody who is worth a question is asked about, in order. -/
  inquired : is.map (·.record) = records.filter (·.isEligible)
  /-- The same is asked again and again, and no more often than is allowed. -/
  asked : ∀ i ∈ is, ∃ n, 1 ≤ n ∧ n ≤ max 1 p.attempts ∧
    i.attempts.filterMap Attempt.question? = List.replicate n ⟨Summary.ofRecord i.record, model⟩
  attempts : result.attempts = is.flatMap (·.attempts)
  /-- There is a patch for each answer, at the position of its record. -/
  patches : result.patches = patchesOf is (eligibleFrom 0 records)
  increasing : (result.patches.map (·.index)).Pairwise (· < ·)
  applied : result.records = applyPatches records result.patches
  length : result.records.length = records.length
  /-- Nothing of a record changes but what may be told about it. -/
  untold : result.records.map Record.untold = records.map Record.untold
  /-- Without a patch, nothing changes at all. -/
  unpatched : ∀ index, (∀ q ∈ result.patches, q.index ≠ index) →
    result.records[index]? = records[index]?
  /-- What a patch tells is in its record, which is not worth a question any more. -/
  patched : ∀ q ∈ result.patches, ∃ r, records[q.index]? = some r ∧ r.isEligible ∧
    result.records[q.index]? = some (q.apply r) ∧ (q.apply r).isEligible = false
  eligible : result.stats.eligible = records.countP (·.isEligible)
  enriched : result.stats.enriched = result.patches.length
  skipped : result.stats.enriched + result.stats.skipped = result.stats.eligible
  cacheWrites : result.stats.cacheWrites = result.stats.enriched
  working : Cache.Working result.cache
  /-- The cache has the entry of each patched record as it is returned. -/
  remembered : ∀ q ∈ result.patches, ∀ r, result.records[q.index]? = some r →
    ∃ e, Entry.ofRecord? r = some e ∧ Cache.lookup result.cache r.path = .ok (some e)
  /-- The rows of the other paths stay. -/
  others : Cache.rowsApart result.cache (pathsOf records result.patches) =
    Cache.rowsApart cache (pathsOf records result.patches)

/-- The result of a round after inquiries, in a cache that works. -/
def Result.of (records : List Record) (cache : Database) (is : List Inquiry) (describer : σ) :
    Result σ :=
  let s := State.after { describer, cache } is (eligibleFrom 0 records) describer
  { records := applyPatches records s.patches
    patches := s.patches
    attempts := s.attempts
    stats := s.stats
    cache := s.cache
    describer }

/-- A round comes to what its inquiries tell. -/
theorem run_eq (hcache : Cache.Working cache) (records : List Record) (describer : σ) :
    Round.run d model p records cache describer =
      (inquiries? d model p describer records).map fun (is, describer) =>
        Result.of records cache is describer := by
  rw [Round.run, visitAll_eq (by exact hcache), Option.map_map]
  rfl

theorem isEligible_of_mem (hrecords : is.map (·.record) = records.filter (·.isEligible)) :
    ∀ i ∈ is, i.record.isEligible := by
  intro i hi
  have hmem : i.record ∈ records.filter (·.isEligible) := hrecords ▸ List.mem_map.2 ⟨i, hi, rfl⟩
  exact (List.mem_filter.1 hmem).2

/-- No path is inquired about twice, if none has two records. -/
theorem nodup_inquiries (hrecords : is.map (·.record) = records.filter (·.isEligible))
    (hpaths : (records.map (·.path)).Nodup) : (is.map (·.record.path)).Nodup := by
  have hmap : is.map (·.record.path) = (records.filter (·.isEligible)).map (·.path) := by
    rw [← hrecords, List.map_map]
    rfl
  exact hmap ▸ hpaths.sublist (List.filter_sublist.map _)

/-- What inquiries tell about records of different paths accounts for the round. -/
theorem accounts_of (hcache : Cache.Working cache) (hpaths : (records.map (·.path)).Nodup)
    {state after : σ} (h : inquiries? d model p state records = some (is, after)) :
    Accounts model p records cache is (Result.of records cache is after) := by
  have hrecords := records_of_inquiries h
  have heligible := isEligible_of_mem hrecords
  have hlength := length_inquiries hrecords
  have hdescribed := length_patchesOf hlength
  exact {
    inquired := hrecords
    asked := fun i hi => by
      obtain ⟨s, next, hask⟩ := exists_ask_of_inquiries h hi
      exact Describer.questions_ask hask
    attempts := rfl
    patches := rfl
    increasing := pairwise_patchesOf is records
    applied := rfl
    length := length_applyPatches records _
    untold := untold_applyPatches records _
    unpatched := fun index hindex => getElem?_applyPatches_of_ne hindex
    patched := fun q hq => by
      obtain ⟨i, hi, reply, -, hrecord, htold, hreturned⟩ := getElem?_told hrecords hq
      exact ⟨i.record, hrecord, heligible i hi, htold ▸ hreturned, q.isEligible_apply _⟩
    eligible := by
      rw [List.countP_eq_length_filter, ← hrecords, List.length_map]
      exact Nat.zero_add _
    enriched := (Nat.zero_add _).trans hdescribed.symm
    skipped := by
      have htotal : is.length = is.countP (·.isDescribed) + is.countP (!·.isDescribed) := by
        simpa using List.length_eq_countP_add_countP Inquiry.isDescribed
      change 0 + is.countP (·.isDescribed) + (0 + is.countP (!·.isDescribed)) = 0 + is.length
      omega
    cacheWrites := rfl
    working := working_inquiries hcache is
    remembered := fun q hq r hr => by
      obtain ⟨i, hi, reply, hreply, -, -, hreturned⟩ := getElem?_told hrecords hq
      cases hr.symm.trans hreturned
      obtain ⟨e, he, -⟩ := exists_entry_told (heligible i hi) reply
      have hdistinct := nodup_inquiries hrecords hpaths
      exact ⟨e, he, he ▸ lookup_inquiries hcache heligible hdistinct hi hreply⟩
    others := rowsApart_inquiries hcache heligible fun i hi hanswer => by
      obtain ⟨q, hq, hrecord⟩ := exists_patch_of_isDescribed hrecords hi hanswer
      exact List.mem_filterMap.2 ⟨q, hq, by rw [hrecord]; rfl⟩ }

/-- A round ends if no wait overflows. In a cache that works, and about records of
    different paths, what it returns is told by its inquiries. -/
theorem run_accounted (hp : p.NeverOverflows) (hcache : Cache.Working cache)
    (hpaths : (records.map (·.path)).Nodup) (d : Describer σ) (model : String) (describer : σ) :
    ∃ is result, Round.run d model p records cache describer = some result ∧
      inquiries? d model p describer records = some (is, result.describer) ∧
      Accounts model p records cache is result := by
  obtain ⟨result, hrun⟩ :=
    exists_run_of_ask (fun q s => d.exists_ask q hp s) model records cache describer
  rw [run_eq hcache] at hrun
  obtain ⟨⟨is, after⟩, his, rfl⟩ := Option.map_eq_some_iff.1 hrun
  exact ⟨is, _, (run_eq hcache records describer).trans (by rw [his]; rfl), his,
    accounts_of hcache hpaths his⟩

/-- A file that is not worth a question, and two that are. -/
def mixed : List Record :=
  let known (path : String) : Record :=
    { Record.file path 0 (some "Python") with contentHash := some "1f", functions := some ["f"] }
  [Record.file "/r/README" 0 none, known "/r/a.py", known "/r/b.py"]

/-- A round about them, with an answer about the first file that is worth a
    question, and none about the other. -/
theorem run_accounted_mixed :
    let p : Policy := .withoutWait 2
    let d : Describer Unit := fun _ q =>
      (if q.summary.name = "a.py" then .ok "Description: Adds." else .error .noChoice, ())
    p.NeverOverflows ∧ Cache.Working Cache.empty ∧ (mixed.map (·.path)).Nodup ∧
      (Round.run d "m" p mixed Cache.empty ()).map (·.patches) = some [⟨1, some "Adds.", none⟩] ∧
      ∃ is result, Round.run d "m" p mixed Cache.empty () = some result ∧
        inquiries? d "m" p () mixed = some (is, result.describer) ∧
        Accounts "m" p mixed Cache.empty is result := by
  intro p d
  have hp : p.NeverOverflows := by decide
  have hcache : Cache.Working Cache.empty := Cache.blank_empty.1
  have hpaths : (mixed.map (·.path)).Nodup := by decide +kernel
  exact ⟨hp, hcache, hpaths, by decide +kernel, run_accounted hp hcache hpaths d "m" ()⟩

end Round

end RepoAtlas
