import RepoAtlas.Proofs.Describe.Inquiry
import RepoAtlas.Proofs.Walk.Mirror
import Mathlib.Data.List.Forall2

/-!
# Where records and entries come from

A record is *of* a content if it has its digest, what an analysis tells about it,
and beyond that either nothing or what a describer told about this very content
(`Record.IsOf`); so is an entry (`Entry.IsOf`). A record that has been restored
from an entry, and an entry that has been made from a record, are of the same
content, whatever the file holds by now.

A cache is *faithful* to some contents if all it knows is of one of them
(`Cache.Faithful`), and a record is *traced* to them if it is of one of them or
was never read (`Record.Traced`). Walks and rounds keep it so:

* `Walk.faithful_visitAll`: walks;
* `Round.faithful_run`: rounds.
-/

namespace RepoAtlas

open Walk (analysisAt)

/-! ### Records and entries of a content -/

/-- Whether all that a record tells about its content is of the given content: it
    has the digest and the analysis, and what a describer told about it. If none
    did, there is no consideration, and the description is that of the analysis. -/
structure Record.IsOf (r : Record) (c : Bytes) : Prop where
  contentHash : r.contentHash = some (Sha256.hash c)
  imports : r.imports = some (analysisAt r.path c).imports
  functions : r.functions = some (analysisAt r.path c).outline.functions
  told : r.describedHash = some (Sha256.hash c) ∨
    r.describedHash = none ∧ r.consideration = none ∧ r.description = some (analysisAt r.path c).doc

/-- Whether all that an entry remembers is of the given content. -/
structure Entry.IsOf (e : Entry) (c : Bytes) : Prop where
  hash : e.hash = Sha256.hash c
  imports : e.imports = (analysisAt e.path c).imports
  functions : e.functions = (analysisAt e.path c).outline.functions
  told : e.describedHash = Sha256.hash c ∨
    e.describedHash = "" ∧ e.consideration = "" ∧ e.description = (analysisAt e.path c).doc

variable {r : Record} {e : Entry} {c : Bytes}

/-- The entry of a record is of the same content. -/
theorem Record.IsOf.entry (h : r.IsOf c) (he : Entry.ofRecord? r = some e) : e.IsOf c := by
  rw [Entry.ofRecord?_eq h.contentHash, h.imports, h.functions] at he
  cases he
  refine ⟨rfl, rfl, rfl, ?_⟩
  rcases h.told with htold | ⟨htold, hconsideration, hdescription⟩
  · exact .inl (by rw [htold]; rfl)
  · exact .inr ⟨by rw [htold]; rfl, by rw [hconsideration]; rfl, by rw [hdescription]; rfl⟩

/-- A record that is restored from an entry is of the same content. -/
theorem Entry.IsOf.restore (h : e.IsOf c) (hpath : e.path = r.path)
    (hhash : r.contentHash = some (Sha256.hash c)) : (r.restore e).IsOf c := by
  refine ⟨hhash, congrArg some (hpath ▸ h.imports), congrArg some (hpath ▸ h.functions), ?_⟩
  rcases h.told with htold | ⟨htold, hconsideration, hdescription⟩
  · refine .inl ?_
    dsimp only [Record.restore]
    rw [htold, Record.filled?, Sha256.isEmpty_hash]
    rfl
  · refine .inr ⟨?_, ?_, congrArg some (hpath ▸ hdescription)⟩
    · dsimp only [Record.restore]
      rw [htold]
      rfl
    · dsimp only [Record.restore]
      rw [hconsideration]
      rfl

/-- A record that a describer told about is of the same content. -/
theorem Record.IsOf.apply (h : r.IsOf c) (p : Patch) : (p.apply r).IsOf c :=
  ⟨h.contentHash, h.imports, h.functions, .inl h.contentHash⟩

/-! ### Walks -/

variable {contents : Set Bytes} {fs : FileSystem} {cache : Database} {artifacts : List Bytes}
  {path : Bytes} {place : Place} {x : Walk.Sight}

/-- Whether the cache works, and all it knows is of one of the contents. -/
structure Cache.Faithful (contents : Set Bytes) (cache : Database) : Prop where
  working : Working cache
  known : ∀ {path e}, known? cache path = some e → ∃ c ∈ contents, e.IsOf c

/-- Whether the record is of one of the contents. If it was never read, nobody
    told anything about it. -/
def Record.Traced (contents : Set Bytes) (r : Record) : Prop :=
  (r.contentHash = none ∧ r.describedHash = none ∧ r.consideration = none) ∨
    ∃ c ∈ contents, r.IsOf c

theorem Cache.faithful_of_blank (h : Blank cache) : Faithful contents cache :=
  ⟨h.1, fun he => by rw [known?_of_blank h] at he; cases he⟩

theorem Cache.Faithful.mono {others : Set Bytes} (h : Faithful contents cache)
    (hsub : contents ⊆ others) : Faithful others cache :=
  ⟨h.working, fun he => (h.known he).imp fun _ hc => ⟨hsub hc.1, hc.2⟩⟩

theorem Record.Traced.mono {others : Set Bytes} (h : r.Traced contents)
    (hsub : contents ⊆ others) : r.Traced others :=
  h.imp_right fun ⟨c, hc, hr⟩ => ⟨c, hsub hc, hr⟩

/-- What is taken into a faithful cache for a record of some content. -/
theorem Cache.Faithful.insert (h : Faithful contents cache) (he : e.IsOf c) (hc : c ∈ contents)
    {next : Database} (hinsert : Cache.insert cache e = .ok next) : Faithful contents next := by
  obtain ⟨_, hnext, hworking⟩ := exists_insert h.working e
  cases hinsert.symm.trans hnext
  refine ⟨hworking, fun {path found} hfound => ?_⟩
  by_cases hpath : path = e.path
  · rw [hpath, known?_insert h.working hinsert] at hfound
    cases hfound
    exact ⟨c, hc, he⟩
  · rw [known?_insert_of_ne hinsert hpath] at hfound
    exact h.known hfound

namespace Walk

/-- A record that was read is of content with the digest of what was read. -/
theorem isOf_recordBy (hcache : Cache.Faithful contents cache) (hread : x.content? fs = some c)
    (hc : c ∈ contents) :
    ∃ d ∈ contents, Sha256.hash d = Sha256.hash c ∧ (x.recordBy fs cache).IsOf d := by
  -- A record that is restored is of the content of its entry, which need not be the
  -- content that was read: all that is known is that they have the same digest.
  cases hknown : x.fresh? fs cache with
  | some e =>
    have hfresh := hknown
    rw [Sight.fresh?, hread, Option.bind_some] at hfresh
    obtain ⟨he, hhash⟩ := Option.filter_eq_some_iff.1 hfresh
    rw [Entry.isFreshFor, Bool.and_eq_true, decide_eq_true_iff] at hhash
    obtain ⟨d, hd, hof⟩ := hcache.known he
    have heq : Sha256.hash d = Sha256.hash c := hof.hash.symm.trans hhash.2
    refine ⟨d, hd, heq, ?_⟩
    rw [recordBy_of_fresh hread hknown]
    refine hof.restore ?_ (congrArg some heq.symm)
    rw [Cache.path_of_known? hcache.working he]
    exact path_bare.symm
  | none =>
    refine ⟨c, hc, rfl, ?_⟩
    have hbare : x.bare.describedHash = none ∧ x.bare.consideration = none := by
      obtain ⟨path, depth, kind⟩ := x
      cases kind <;> exact ⟨rfl, rfl⟩
    rw [recordBy_of_stale hread hknown, ← path_bare]
    exact ⟨rfl, rfl, rfl, .inr ⟨hbare.1, hbare.2, rfl⟩⟩

/-- What a walk makes of one thing it sees is traced to what it reads. -/
theorem traced_recordBy (hcache : Cache.Faithful contents cache)
    (hread : ∀ c, x.content? fs = some c → c ∈ contents) :
    (x.recordBy fs cache).Traced contents := by
  cases hcontent : x.content? fs with
  | none =>
    refine .inl ?_
    rw [recordBy_of_unread hcontent]
    obtain ⟨path, depth, kind⟩ := x
    cases kind <;> exact ⟨rfl, rfl, rfl⟩
  | some c =>
    obtain ⟨d, hd, _, hof⟩ := isOf_recordBy hcache hcontent (hread c hcontent)
    exact .inr ⟨d, hd, hof⟩

variable {s : State} {sights : List Sight}

theorem faithful_visit (hcache : Cache.Faithful contents s.cache)
    (hread : ∀ c, x.content? fs = some c → c ∈ contents) :
    Cache.Faithful contents (visit fs s x).1.cache := by
  rcases visit_cases fs x hcache.working with ⟨_, hnext, _⟩ | ⟨_, _, hnext, _⟩ |
    ⟨c, e, hcontent, _, he, _, hinsert, _⟩
  · rwa [hnext]
  · rwa [hnext]
  · obtain ⟨d, hd, _, hof⟩ := isOf_recordBy hcache hcontent (hread c hcontent)
    exact hcache.insert (hof.entry he) hd hinsert

/-- A walk keeps the cache faithful, and all its records are traced. -/
theorem faithful_visitAll (hcache : Cache.Faithful contents s.cache)
    (hread : ∀ c ∈ fs.contents, c ∈ contents) :
    Cache.Faithful contents (visitAll fs s sights).1.cache ∧
      ∀ r ∈ (visitAll fs s sights).2, r.Traced contents := by
  induction sights generalizing s with
  | nil => exact ⟨hcache, fun _ hr => absurd hr List.not_mem_nil⟩
  | cons x sights ih =>
    have hx (c : Bytes) (hc : x.content? fs = some c) : c ∈ contents :=
      hread c (mem_contents_of_content? hc)
    obtain ⟨hnext, hrecords⟩ := ih (faithful_visit hcache hx)
    refine ⟨hnext, fun r hr => ?_⟩
    rw [visitAll_cons] at hr
    rcases List.mem_cons.1 hr with rfl | hr
    · rw [visit_record]
      exact traced_recordBy hcache hx
    · exact hrecords r hr

end Walk

/-! ### Rounds -/

theorem Record.isSome_contentHash_of_isEligible (h : r.isEligible) : r.contentHash.isSome := by
  rw [isEligible] at h
  split at h
  · cases h
  · rename_i hash hhash
    obtain ⟨found, hfound, _⟩ := Option.bind_eq_some_iff.1 hhash
    rw [hfound]
    rfl

/-- A record that was read and is traced is of some content. -/
theorem Record.Traced.isOf (h : r.Traced contents) (hread : r.contentHash.isSome) :
    ∃ c ∈ contents, r.IsOf c := by
  rcases h with ⟨hnone, _⟩ | hof
  · rw [hnone] at hread
    cases hread
  · exact hof

namespace Round

variable {σ : Type} {d : Describer σ} {model : String} {p : Policy} {s next : State σ}
  {index : Nat} {records : List Record}

theorem faithful_remember (hcache : Cache.Faithful contents s.cache) (hr : r.IsOf c)
    (hc : c ∈ contents) : Cache.Faithful contents (remember s r).cache := by
  rw [remember]
  split
  · exact hcache
  · rename_i e he
    split
    · rename_i cache hinsert
      exact hcache.insert (hr.entry he) hc hinsert
    · exact hcache

theorem patches_remember : (remember s r).patches = s.patches := by
  rw [remember]
  split
  · rfl
  · split <;> rfl

theorem patches_accept (reply : Reply) :
    (accept s index r reply).patches =
      s.patches ++ [⟨index, reply.description, reply.consideration⟩] := by
  unfold accept
  dsimp only
  rw [patches_remember]

/-- A question about a record of some content keeps the cache faithful, and leads
    to one patch, of that record, or to none. -/
theorem faithful_visit (hcache : Cache.Faithful contents s.cache) (hr : r.IsOf c)
    (hc : c ∈ contents) (h : visit d model p s index r = some next) :
    Cache.Faithful contents next.cache ∧ ∀ q ∈ next.patches, q ∈ s.patches ∨ q.index = index := by
  obtain ⟨⟨outcome, attempts, describer⟩, _, rfl⟩ := Option.map_eq_some_iff.1 h
  cases outcome with
  | skipped attempts reason => exact ⟨hcache, fun q hq => .inl hq⟩
  | described reply =>
    refine ⟨faithful_remember (by exact hcache) (hr.apply _) hc, fun q hq => ?_⟩
    rw [patches_accept] at hq
    rcases List.mem_append.1 hq with hq | hq
    · exact .inl hq
    · exact .inr (List.mem_singleton.1 hq ▸ rfl)

/-- Questions about traced records keep the cache faithful, and lead to patches
    of records that were read. -/
theorem faithful_visitAll (hcache : Cache.Faithful contents s.cache)
    (hrecords : ∀ r ∈ records, r.Traced contents)
    (h : visitAll d model p s index records = some next) :
    Cache.Faithful contents next.cache ∧ ∀ q ∈ next.patches, q ∈ s.patches ∨
      ∃ i r, records[i]? = some r ∧ q.index = index + i ∧ r.contentHash.isSome := by
  induction records generalizing s index with
  | nil => cases h; exact ⟨hcache, fun q hq => .inl hq⟩
  | cons r records ih =>
    have hrest (r : Record) (hr : r ∈ records) : r.Traced contents :=
      hrecords r (List.mem_cons_of_mem _ hr)
    -- The positions in the rest are one less.
    have hshift {q : Patch} (hq : ∃ i r, records[i]? = some r ∧ q.index = index + 1 + i ∧
        r.contentHash.isSome) : ∃ i s, (r :: records)[i]? = some s ∧ q.index = index + i ∧
        s.contentHash.isSome := by
      obtain ⟨i, s, hs, hindex, hread⟩ := hq
      exact ⟨i + 1, s, hs, by rw [hindex, Nat.add_assoc, Nat.add_comm 1], hread⟩
    rw [visitAll] at h
    split at h
    · rename_i heligible
      obtain ⟨middle, hmiddle, hnext⟩ := Option.bind_eq_some_iff.1 h
      have hread := Record.isSome_contentHash_of_isEligible heligible
      obtain ⟨c, hc, hr⟩ := (hrecords r (List.mem_cons_self ..)).isOf hread
      obtain ⟨hcache, hpatches⟩ := faithful_visit (by exact hcache) hr hc hmiddle
      obtain ⟨hcache, hfurther⟩ := ih hcache hrest hnext
      refine ⟨hcache, fun q hq => ?_⟩
      rcases hfurther q hq with hq | hq
      · rcases hpatches q hq with hq | hq
        · exact .inl hq
        · exact .inr ⟨0, r, rfl, hq, hread⟩
      · exact .inr (hshift hq)
    · obtain ⟨hcache, hfurther⟩ := ih hcache hrest h
      exact ⟨hcache, fun q hq => (hfurther q hq).imp_right hshift⟩

end Round

/-- Patches of records that were read keep the records traced. -/
theorem traced_applyPatches {records : List Record} {patches : List Patch}
    (hrecords : ∀ r ∈ records, r.Traced contents)
    (hpatches : ∀ q ∈ patches, ∃ r, records[q.index]? = some r ∧ r.contentHash.isSome) :
    ∀ r ∈ applyPatches records patches, r.Traced contents := by
  induction patches generalizing records with
  | nil => exact hrecords
  | cons q patches ih =>
    obtain ⟨target, htarget, hread⟩ := hpatches q (List.mem_cons_self ..)
    have hmodified (i : Nat) : (records.modify q.index q.apply)[i]? =
        records[i]?.map fun r => if q.index = i then q.apply r else r := List.getElem?_modify ..
    -- A patch changes one record, which was read before and is so afterwards: the
    -- patches behind it still find records that were read.
    refine @ih (records.modify q.index q.apply) (fun r hr => ?_) fun next hnext => ?_
    · obtain ⟨i, hi⟩ := List.mem_iff_getElem?.1 hr
      rw [hmodified] at hi
      obtain ⟨old, hold, rfl⟩ := Option.map_eq_some_iff.1 hi
      have htraced := hrecords old (List.mem_of_getElem? hold)
      split
      · rename_i hindex
        cases htarget.symm.trans (hindex ▸ hold)
        obtain ⟨c, hc, hof⟩ := htraced.isOf hread
        exact .inr ⟨c, hc, hof.apply q⟩
      · exact htraced
    · obtain ⟨old, hold, hread⟩ := hpatches next (List.mem_cons_of_mem _ hnext)
      refine ⟨_, by rw [hmodified, hold]; rfl, ?_⟩
      split <;> exact hread

variable {σ : Type} {d : Describer σ} {model : String} {p : Policy} {records : List Record}
  {describer : σ}

/-- A round about traced records keeps the cache faithful and the records
    traced. -/
theorem Round.faithful_run (hcache : Cache.Faithful contents cache)
    (hrecords : ∀ r ∈ records, r.Traced contents) {result : Round.Result σ}
    (h : Round.run d model p records cache describer = some result) :
    Cache.Faithful contents result.cache ∧ ∀ r ∈ result.records, r.Traced contents := by
  obtain ⟨last, hlast, rfl⟩ := Option.map_eq_some_iff.1 h
  obtain ⟨hnext, hpatches⟩ := Round.faithful_visitAll (by exact hcache) hrecords hlast
  refine ⟨hnext, traced_applyPatches hrecords fun q hq => ?_⟩
  rcases hpatches q hq with hq | ⟨i, r, hr, hindex, hread⟩
  · cases hq
  · rw [hindex, Nat.zero_add]
    exact ⟨r, hr, hread⟩

variable (model p records cache describer) in
/-- A round comes to an end if the describer has an answer to everything. -/
theorem Round.exists_run (hd : ∀ s q, ∃ text next, d s q = (.ok text, next)) :
    ∃ result, Round.run d model p records cache describer = some result := by
  refine Round.exists_run_of_ask (fun q state => ?_) model records cache describer
  obtain ⟨text, next, hanswer⟩ := hd state q
  exact ⟨_, by rw [Describer.ask, Describer.askFrom, hanswer]⟩

end RepoAtlas
