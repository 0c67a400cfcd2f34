import RepoAtlas.Proofs.Describe.Accounts
import RepoAtlas.Proofs.Describe.Reply

/-!
# Descriptions that a round erases

What a describer tells replaces the description of a record, and a reply without the
marker of a description leaves it. A reply that ends at the marker is neither: it
tells the empty description, which replaces the one that the record had
(`Inquiry.documented_told_iff`).

So a round erases the descriptions of exactly those records that such a reply was
given about (`Round.run_erases_iff`). The cache goes with the records: the row of a
path is the entry of a record as it is returned, if something was told about one with
that path, and as it was before otherwise (`Round.lookup_inquiries_cases`).
-/

namespace RepoAtlas

/-- Whether something is said of the file. -/
def Record.Documented (r : Record) : Prop := r.description.getD "" ≠ ""

instance (r : Record) : Decidable r.Documented :=
  inferInstanceAs (Decidable (r.description.getD "" ≠ ""))

namespace Describer

variable {σ : Type} {d : Describer σ} {p : Policy} {q : Question} {s next : σ} {reply : Reply}
  {attempts : List Attempt}

theorem exists_answer_of_askFrom {more failures : Nat}
    (h : d.askFrom p q more failures s = some (.described reply, attempts, next)) :
    ∃ text before, d before q = (.ok text, next) ∧ reply = .ofText text := by
  induction more generalizing failures s attempts with
  | zero =>
    rw [askFrom] at h
    split at h
    · rename_i text last hanswer
      cases h
      exact ⟨text, s, hanswer, rfl⟩
    · cases h
  | succ more ih =>
    rw [askFrom] at h
    split at h
    · rename_i text last hanswer
      cases h
      exact ⟨text, s, hanswer, rfl⟩
    · obtain ⟨wait, -, h⟩ := Option.bind_eq_some_iff.1 h
      obtain ⟨⟨outcome, further, last⟩, hlater, h⟩ := Option.map_eq_some_iff.1 h
      cases h
      exact ih hlater

/-- What is told is what the describer answered. -/
theorem exists_answer_of_ask (h : d.ask p q s = some (.described reply, attempts, next)) :
    ∃ text before, d before q = (.ok text, next) ∧ reply = .ofText text :=
  exists_answer_of_askFrom h

end Describer

namespace Round

variable {σ : Type} {d : Describer σ} {model : String} {p : Policy} {cache : Database}
  {records : List Record} {r : Record} {reply : Reply} {i : Inquiry} {is : List Inquiry}
  {index : Nat} {text path : String} {describer : σ} {result : Result σ}

/-! ### What is told about a record -/

/-- Whether a text was answered to the question about the record at a position. -/
def Told (d : Describer σ) (model : String) (records : List Record) (is : List Inquiry)
    (index : Nat) (text : String) : Prop :=
  ∃ i, (i, index) ∈ is.zip (eligibleFrom 0 records) ∧ i.outcome = .described (.ofText text) ∧
    ∃ before next, d before ⟨Summary.ofRecord i.record, model⟩ = (.ok text, next)

/-- A reply about a record with a description erases it if it ends at the marker, and
    only then. -/
theorem Inquiry.documented_told_iff (h : i.record.Documented) :
    ¬(i.told (.ofText text)).Documented ↔ Reply.endsAtMarker text = true := by
  have htold : (i.told (.ofText text)).description =
      (Reply.ofText text).description.or i.record.description := rfl
  rw [← Reply.description_eq_empty_iff, Record.Documented, htold, not_not]
  cases (Reply.ofText text).description with
  | none => simpa [Record.Documented] using h
  | some description => simp

/-- Whoever was told about comes back with what was told. -/
theorem getElem?_of_described (hrecords : is.map (·.record) = records.filter (·.isEligible))
    (hzip : (i, index) ∈ is.zip (eligibleFrom 0 records)) (hreply : i.outcome = .described reply) :
    (applyPatches records (patchesOf is (eligibleFrom 0 records)))[index]? =
      some (i.told reply) := by
  let q : Patch := ⟨index, reply.description, reply.consideration⟩
  have hq : q ∈ patchesOf is (eligibleFrom 0 records) :=
    List.mem_filterMap.2 ⟨_, hzip, by simp only [Inquiry.patch?, hreply, q]⟩
  have hnodup := (pairwise_patchesOf is records).imp Nat.ne_of_lt
  exact (getElem?_applyPatches hnodup hq).trans
    (congrArg (Option.map q.apply) (getElem?_of_mem_zip hrecords hzip))

/-- Whoever nothing was told about comes back unchanged. -/
theorem getElem?_of_undescribed
    (h : ∀ i reply, (i, index) ∈ is.zip (eligibleFrom 0 records) → i.outcome ≠ .described reply) :
    (applyPatches records (patchesOf is (eligibleFrom 0 records)))[index]? = records[index]? := by
  refine getElem?_applyPatches_of_ne fun q hq hindex => ?_
  obtain ⟨⟨i, at'⟩, hzip, hpatch⟩ := List.mem_filterMap.1 hq
  dsimp only [Inquiry.patch?] at hpatch
  cases hreply : i.outcome with
  | skipped failures reason => rw [hreply] at hpatch; cases hpatch
  | described reply =>
    rw [hreply] at hpatch
    cases hpatch
    exact h i reply (hindex ▸ hzip) hreply

/-- What came of asking about a record was answered by the describer. -/
theorem exists_told {state after : σ}
    (his : inquiries? d model p state records = some (is, after))
    (hzip : (i, index) ∈ is.zip (eligibleFrom 0 records)) (hreply : i.outcome = .described reply) :
    ∃ text, Told d model records is index text ∧ reply = .ofText text := by
  obtain ⟨before, next, hask⟩ := exists_ask_of_inquiries his (List.of_mem_zip hzip).1
  rw [hreply] at hask
  obtain ⟨text, last, hanswer, rfl⟩ := Describer.exists_answer_of_ask hask
  exact ⟨text, ⟨i, hzip, hreply, last, next, hanswer⟩, rfl⟩

/-- A record with a description comes back without one if what was told about it ends
    at the marker, and only then. -/
theorem documented_iff_of_told (hrecords : is.map (·.record) = records.filter (·.isEligible))
    (htold : Told d model records is index text) (hr : records[index]? = some r)
    (hdocumented : r.Documented) {after : Record}
    (hafter : (applyPatches records (patchesOf is (eligibleFrom 0 records)))[index]? = some after) :
    ¬after.Documented ↔ Reply.endsAtMarker text = true := by
  obtain ⟨i, hzip, hreply, -⟩ := htold
  cases hr.symm.trans (getElem?_of_mem_zip hrecords hzip)
  cases hafter.symm.trans (getElem?_of_described hrecords hzip hreply)
  exact Inquiry.documented_told_iff hdocumented

/-! ### The rows of a round -/

theorem description_of_ofRecord? {e : Entry} (h : Entry.ofRecord? r = some e) :
    e.description = r.description.getD "" := by
  obtain ⟨hash, -, rfl⟩ := Option.map_eq_some_iff.1 h
  rfl

/-- The row of a path is of the last record with that path that was told about, or as
    it was if there is none. -/
theorem lookup_inquiries_cases (hcache : Cache.Working cache)
    (heligible : ∀ i ∈ is, i.record.isEligible) (path : String) :
    (∃ i ∈ is, ∃ reply, i.outcome = .described reply ∧ i.record.path = path ∧
        Cache.lookup (is.foldl (fun cache i => i.remember cache) cache) path =
          .ok (Entry.ofRecord? (i.told reply))) ∨
      (∀ i ∈ is, ∀ reply, i.outcome = .described reply → i.record.path ≠ path) ∧
        Cache.lookup (is.foldl (fun cache i => i.remember cache) cache) path =
          Cache.lookup cache path := by
  induction is generalizing cache with
  | nil => exact .inr ⟨fun _ hi => absurd hi List.not_mem_nil, rfl⟩
  | cons i is ih =>
    rw [List.foldl_cons]
    obtain ⟨j, hj, htold⟩ | ⟨hothers, hrest⟩ := ih (working_remember hcache i)
      fun j hj => heligible j (List.mem_cons_of_mem _ hj)
    · exact .inl ⟨j, List.mem_cons_of_mem _ hj, htold⟩
    · -- Nothing later is about the path, so the first inquiry decides.
      rw [hrest]
      have hfirst := heligible i List.mem_cons_self
      by_cases hpath : i.record.path = path
      · cases hreply : i.outcome with
        | skipped failures reason =>
          refine .inr ⟨fun j hj reply htold => ?_, by rw [Inquiry.remember, hreply]⟩
          rcases List.mem_cons.1 hj with rfl | hj
          · rw [hreply] at htold
            cases htold
          · exact hothers j hj reply htold
        | described reply =>
          refine .inl ⟨i, List.mem_cons_self, reply, hreply, hpath, ?_⟩
          rw [← hpath]
          exact lookup_remember hcache hfirst hreply
      · have hother := lookup_remember_of_ne hcache hfirst (Ne.symm hpath)
        refine .inr ⟨fun j hj reply htold => ?_, hother⟩
        rcases List.mem_cons.1 hj with rfl | hj
        · exact hpath
        · exact hothers j hj reply htold

/-- Whether the row of a path is the entry of a record as it is returned, about which
    something was told. -/
def Rewritten (d : Describer σ) (model : String) (records : List Record) (is : List Inquiry)
    (result : Result σ) (path : String) : Prop :=
  ∃ index text after e, Told d model records is index text ∧ result.records[index]? = some after ∧
    after.path = path ∧ Cache.lookup result.cache path = .ok (some e) ∧
    Entry.ofRecord? after = some e ∧ e.description = after.description.getD ""

/-- Whether nothing was told about any record with the path, and its row is what it
    was. -/
def Untouched (d : Describer σ) (model : String) (records : List Record) (cache : Database)
    (is : List Inquiry) (result : Result σ) (path : String) : Prop :=
  (∀ index text r, Told d model records is index text → records[index]? = some r → r.path ≠ path) ∧
    Cache.lookup result.cache path = Cache.lookup cache path

/-- A round erases the description of a record exactly if the reply about it ends at
    the marker of the description. The row of a path goes with a record that was told
    about, and stays otherwise. -/
theorem run_erases_iff (hcache : Cache.Working cache)
    (h : Round.run d model p records cache describer = some result) :
    ∃ is, inquiries? d model p describer records = some (is, result.describer) ∧
      (∀ index r, records[index]? = some r → r.Documented →
        ∃ after, result.records[index]? = some after ∧
          (¬after.Documented ↔
            ∃ text, Told d model records is index text ∧ Reply.endsAtMarker text = true)) ∧
      ∀ path, Rewritten d model records is result path ∨
        Untouched d model records cache is result path := by
  rw [run_eq hcache] at h
  obtain ⟨⟨is, last⟩, his, rfl⟩ := Option.map_eq_some_iff.1 h
  have hrecords := records_of_inquiries his
  have heligible := isEligible_of_mem hrecords
  refine ⟨is, his, fun index r hr hdocumented => ?_, fun path => ?_⟩
  · obtain ⟨hindex, -⟩ := List.getElem?_eq_some_iff.1 hr
    obtain ⟨after, hafter⟩ : ∃ after,
        (applyPatches records (patchesOf is (eligibleFrom 0 records)))[index]? = some after :=
      ⟨_, List.getElem?_eq_getElem ((length_applyPatches records _).symm ▸ hindex)⟩
    refine ⟨after, hafter, fun herased => ?_, fun ⟨text, htold, hends⟩ =>
      (documented_iff_of_told hrecords htold hr hdocumented hafter).2 hends⟩
    by_contra hnone
    have hsame : (applyPatches records (patchesOf is (eligibleFrom 0 records)))[index]? =
        records[index]? := getElem?_of_undescribed fun i reply hzip hreply => by
      obtain ⟨text, htold, -⟩ := exists_told his hzip hreply
      exact hnone ⟨text, htold,
        (documented_iff_of_told hrecords htold hr hdocumented hafter).1 herased⟩
    cases hafter.symm.trans (hsame.trans hr)
    exact herased hdocumented
  · rcases lookup_inquiries_cases hcache heligible path with
      ⟨i, hi, reply, hreply, hpath, hlookup⟩ | ⟨hnone, hsame⟩
    · obtain ⟨index, hzip⟩ := exists_mem_zip hrecords hi
      obtain ⟨text, htold, rfl⟩ := exists_told his hzip hreply
      obtain ⟨e, he, -⟩ := exists_entry_told (heligible i hi) (.ofText text)
      exact .inl ⟨index, text, _, e, htold, getElem?_of_described hrecords hzip hreply, hpath,
        hlookup.trans (congrArg _ he), he, description_of_ofRecord? he⟩
    · refine .inr ⟨fun index text r ⟨i, hzip, hreply, _⟩ hr hpath => ?_, hsame⟩
      cases hr.symm.trans (getElem?_of_mem_zip hrecords hzip)
      exact hnone i (List.of_mem_zip hzip).1 _ hreply hpath

/-- A file of which something is said. -/
def described (path : String) : Record :=
  { Record.file path 0 (some "Python") with
    contentHash := some "1f", functions := some ["f"], description := some "Adds." }

/-- A round about two files, with a reply about the first that ends at the marker of
    the description, and one about the second without that marker. -/
theorem run_erases_iff_first :
    let records := [described "/r/a.py", described "/r/b.py"]
    let d : Describer Unit := fun _ q =>
      (.ok (if q.summary.name = "a.py" then "Description: " else "None."), ())
    ∃ result, Cache.Working Cache.empty ∧
      Round.run d "m" (.withoutWait 1) records Cache.empty () = some result ∧
      result.records.map (·.description) = [some "", some "Adds."] ∧
      ∃ is, inquiries? d "m" (.withoutWait 1) () records = some (is, result.describer) ∧
        (∀ index r, records[index]? = some r → r.Documented →
          ∃ after, result.records[index]? = some after ∧
            (¬after.Documented ↔
              ∃ text, Told d "m" records is index text ∧ Reply.endsAtMarker text = true)) ∧
        ∀ path, Rewritten d "m" records is result path ∨
          Untouched d "m" records Cache.empty is result path := by
  intro records d
  have hcache : Cache.Working Cache.empty := Cache.blank_empty.1
  have hround : (Round.run d "m" (.withoutWait 1) records Cache.empty ()).map
      (·.records.map (·.description)) = some [some "", some "Adds."] := by decide +kernel
  obtain ⟨result, hrun, hdescriptions⟩ := Option.map_eq_some_iff.1 hround
  exact ⟨result, hcache, hrun, hdescriptions, run_erases_iff hcache hrun⟩

/-- A reply that ends at the marker erases what was said of a file, in its record and in
    its row. -/
theorem erases_description :
    let d : Describer Unit := fun _ _ => (.ok "Description:", ())
    (described "/r/a.py").Documented ∧
      (Round.run d "m" (.withoutWait 1) [described "/r/a.py"] Cache.empty ()).map (fun result =>
        (result.records.map (·.description),
          (Cache.lookup result.cache "/r/a.py").toOption.join.map (·.description))) =
        some ([some ""], some "") := by
  decide +kernel

end Round

end RepoAtlas
