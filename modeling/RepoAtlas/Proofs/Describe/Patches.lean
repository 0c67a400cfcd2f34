import RepoAtlas.Proofs.Describe.Settled

/-!
# Patches of a round

What was told about a record is a patch, and the patches are applied to the records
once the round is over (`applyPatches`). Each inquiry of the round leads to a patch at
the position of its record if there was an answer, and to none otherwise
(`Round.patchesOf`).

* `untold_applyPatches`, `getElem?_applyPatches_of_ne`: patches change nothing but
  what was told, and no record without a patch;
* `Round.exists_of_mem_patchesOf`, `Round.exists_patch_of_isDescribed`: the patches
  of a round are its answers;
* `Round.getElem?_told`: each patched record is the one that was answered about, with
  the answer.
-/

namespace RepoAtlas

/-! ### Positions -/

/-- The positions of the records that are worth a question, counted from a
    position on. -/
def eligibleFrom (index : Nat) (records : List Record) : List Nat :=
  ((records.zipIdx index).filter (·.1.isEligible)).map (·.2)

theorem eligibleFrom_of_eligible {r : Record} (h : r.isEligible) (index : Nat)
    (records : List Record) :
    eligibleFrom index (r :: records) = index :: eligibleFrom (index + 1) records := by
  rw [eligibleFrom, List.zipIdx_cons, List.filter_cons, if_pos h, List.map_cons, eligibleFrom]

theorem eligibleFrom_of_not_eligible {r : Record} (h : ¬r.isEligible) (index : Nat)
    (records : List Record) :
    eligibleFrom index (r :: records) = eligibleFrom (index + 1) records := by
  rw [eligibleFrom, List.zipIdx_cons, List.filter_cons, if_neg h, eligibleFrom]

theorem filter_eq_map_zipIdx (records : List Record) :
    records.filter (·.isEligible) = (records.zipIdx.filter (·.1.isEligible)).map (·.1) := by
  conv => lhs; rw [← List.zipIdx_map_fst 0 records, List.filter_map]
  rfl

/-- Each record that is worth a question has a position. -/
theorem length_eligibleFrom (records : List Record) :
    (eligibleFrom 0 records).length = (records.filter (·.isEligible)).length := by
  rw [filter_eq_map_zipIdx, eligibleFrom, List.length_map, List.length_map]

/-- The records that are worth a question with their positions. -/
theorem zip_eligibleFrom (records : List Record) :
    (records.filter (·.isEligible)).zip (eligibleFrom 0 records) =
      records.zipIdx.filter (·.1.isEligible) := by
  have hunzip := List.zip_unzip (records.zipIdx.filter (·.1.isEligible))
  rw [List.unzip_eq_map] at hunzip
  rw [filter_eq_map_zipIdx]
  exact hunzip

/-- The positions are in order. -/
theorem pairwise_eligibleFrom (index : Nat) (records : List Record) :
    (eligibleFrom index records).Pairwise (· < ·) := by
  have hsublist : (eligibleFrom index records).Sublist ((records.zipIdx index).map (·.2)) :=
    List.filter_sublist.map _
  rw [List.zipIdx_map_snd] at hsublist
  exact (List.pairwise_lt_range' ..).sublist hsublist

/-! ### Patches -/

/-- The record without what may be told about it. -/
def Record.untold (r : Record) : Record :=
  { r with description := none, consideration := none, describedHash := none }

variable {records : List Record} {patches : List Patch} {q : Patch}

/-- A record about which something was told is not worth a question. -/
theorem Patch.isEligible_apply (q : Patch) (r : Record) : (q.apply r).isEligible = false := by
  refine Bool.eq_false_iff.2 fun h => ?_
  obtain ⟨hash, hcontent, -, hnot⟩ := Round.exists_hash_of_isEligible h
  exact hnot hcontent

theorem length_applyPatches (records : List Record) (patches : List Patch) :
    (applyPatches records patches).length = records.length := by
  induction patches generalizing records with
  | nil => rfl
  | cons q patches ih => exact (ih _).trans (List.length_modify ..)

/-- Patches change nothing but what was told. -/
theorem untold_applyPatches (records : List Record) (patches : List Patch) :
    (applyPatches records patches).map Record.untold = records.map Record.untold := by
  induction patches generalizing records with
  | nil => rfl
  | cons q patches ih =>
    refine (ih _).trans (List.ext_getElem? fun index => ?_)
    rw [List.getElem?_map, List.getElem?_map, List.getElem?_modify, Option.map_eq_map,
      Option.map_map]
    refine congrArg (Option.map · records[index]?) (funext fun r => ?_)
    rw [Function.comp_apply]
    split <;> rfl

/-- A record that no patch is for stays as it is. -/
theorem getElem?_applyPatches_of_ne {index : Nat} (h : ∀ q ∈ patches, q.index ≠ index) :
    (applyPatches records patches)[index]? = records[index]? := by
  induction patches generalizing records with
  | nil => rfl
  | cons q patches ih =>
    exact (ih fun p hp => h p (List.mem_cons_of_mem _ hp)).trans
      (List.getElem?_modify_ne _ _ (h q List.mem_cons_self))

/-- Patches at different positions do not touch each other's record. -/
theorem getElem?_applyPatches (hnodup : (patches.map (·.index)).Nodup) (hq : q ∈ patches) :
    (applyPatches records patches)[q.index]? = records[q.index]?.map q.apply := by
  induction patches generalizing records with
  | nil => cases hq
  | cons p patches ih =>
    rw [List.map_cons, List.nodup_cons] at hnodup
    change (applyPatches (records.modify p.index p.apply) patches)[q.index]? = _
    rcases List.mem_cons.1 hq with rfl | hq
    · have hothers : ∀ p ∈ patches, p.index ≠ q.index := fun p hp heq =>
        hnodup.1 (heq ▸ List.mem_map.2 ⟨p, hp, rfl⟩)
      rw [getElem?_applyPatches_of_ne hothers, List.getElem?_modify_eq, Option.map_eq_map]
    · have hne : p.index ≠ q.index := fun heq => hnodup.1 (heq ▸ List.mem_map.2 ⟨q, hq, rfl⟩)
      rw [ih hnodup.2 hq, List.getElem?_modify_ne _ _ hne]

namespace Round

variable {i : Inquiry} {is : List Inquiry}

/-! ### Patches of inquiries -/

/-- The patch that an inquiry leads to, about the record at a position. -/
def Inquiry.patch? (index : Nat) (i : Inquiry) : Option Patch :=
  match i.outcome with
  | .described reply => some ⟨index, reply.description, reply.consideration⟩
  | .skipped _ _ => none

/-- Whether there was an answer. -/
def Inquiry.isDescribed (i : Inquiry) : Bool := (i.patch? 0).isSome

/-- The patches that inquiries lead to, about the records at positions. -/
def patchesOf (is : List Inquiry) (positions : List Nat) : List Patch :=
  (is.zip positions).filterMap fun x => x.1.patch? x.2

theorem patchesOf_cons (i : Inquiry) (is : List Inquiry) (index : Nat) (positions : List Nat) :
    patchesOf (i :: is) (index :: positions) =
      (i.patch? index).toList ++ patchesOf is positions := by
  rw [patchesOf, List.zip_cons_cons, List.filterMap_cons, patchesOf]
  dsimp only
  cases i.patch? index <;> rfl

/-- Each inquiry with an answer has a patch. -/
theorem length_patchesOf {positions : List Nat} (h : is.length = positions.length) :
    (patchesOf is positions).length = is.countP (·.isDescribed) := by
  induction is generalizing positions with
  | nil => rfl
  | cons i is ih =>
    obtain ⟨index, positions, rfl⟩ := List.exists_cons_of_length_eq_add_one h.symm
    rw [patchesOf_cons, List.length_append, ih (Nat.succ.inj h), List.countP_cons, Nat.add_comm]
    refine congrArg _ ?_
    unfold Inquiry.isDescribed Inquiry.patch?
    cases i.outcome <;> rfl

/-- Patches come in the order of the positions. -/
theorem sublist_patchesOf (is : List Inquiry) (positions : List Nat) :
    ((patchesOf is positions).map (·.index)).Sublist positions := by
  induction is generalizing positions with
  | nil => exact List.nil_sublist _
  | cons i is ih =>
    cases positions with
    | nil => exact List.nil_sublist _
    | cons index positions =>
      rw [patchesOf_cons, List.map_append]
      unfold Inquiry.patch?
      cases i.outcome with
      | described reply => exact (ih positions).cons_cons index
      | skipped failures reason => exact (ih positions).cons index

/-- Inquiries about the records that are worth a question go with their positions. -/
theorem getElem?_of_mem_zip {index : Nat}
    (hrecords : is.map (·.record) = records.filter (·.isEligible))
    (h : (i, index) ∈ is.zip (eligibleFrom 0 records)) : records[index]? = some i.record := by
  have hmem : (i.record, index) ∈ (is.map (·.record)).zip (eligibleFrom 0 records) := by
    rw [List.zip_map_left]
    exact List.mem_map.2 ⟨_, h, rfl⟩
  rw [hrecords, zip_eligibleFrom] at hmem
  exact List.mem_zipIdx_iff_getElem?.1 (List.mem_filter.1 hmem).1

/-- A patch tells what was answered about the record at its position. -/
theorem exists_of_mem_patchesOf
    (hrecords : is.map (·.record) = records.filter (·.isEligible))
    (hq : q ∈ patchesOf is (eligibleFrom 0 records)) :
    ∃ i ∈ is, ∃ reply, i.outcome = .described reply ∧
      q = ⟨q.index, reply.description, reply.consideration⟩ ∧
      records[q.index]? = some i.record := by
  obtain ⟨⟨i, index⟩, hzip, hpatch⟩ := List.mem_filterMap.1 hq
  rw [Inquiry.patch?] at hpatch
  cases hreply : i.outcome with
  | skipped failures reason => rw [hreply] at hpatch; cases hpatch
  | described reply =>
    rw [hreply] at hpatch
    cases hpatch
    exact ⟨i, (List.of_mem_zip hzip).1, reply, hreply, rfl, getElem?_of_mem_zip hrecords hzip⟩

theorem length_inquiries (hrecords : is.map (·.record) = records.filter (·.isEligible)) :
    is.length = (eligibleFrom 0 records).length := by
  rw [length_eligibleFrom, ← hrecords, List.length_map]

theorem exists_mem_zip (hrecords : is.map (·.record) = records.filter (·.isEligible))
    (hi : i ∈ is) : ∃ index, (i, index) ∈ is.zip (eligibleFrom 0 records) := by
  rw [← List.map_fst_zip (length_inquiries hrecords).le] at hi
  obtain ⟨⟨i, index⟩, hzip, rfl⟩ := List.mem_map.1 hi
  exact ⟨index, hzip⟩

/-- What was answered about a record is told by a patch at its position. -/
theorem exists_patch_of_isDescribed
    (hrecords : is.map (·.record) = records.filter (·.isEligible)) (hi : i ∈ is)
    (hdescribed : i.isDescribed) :
    ∃ q ∈ patchesOf is (eligibleFrom 0 records), records[q.index]? = some i.record := by
  obtain ⟨index, hzip⟩ := exists_mem_zip hrecords hi
  cases hreply : i.outcome with
  | skipped failures reason =>
    rw [Inquiry.isDescribed, Inquiry.patch?, hreply] at hdescribed
    cases hdescribed
  | described reply =>
    refine ⟨⟨index, reply.description, reply.consideration⟩, List.mem_filterMap.2 ⟨_, hzip, ?_⟩,
      getElem?_of_mem_zip hrecords hzip⟩
    simp only [Inquiry.patch?, hreply]

theorem pairwise_patchesOf (is : List Inquiry) (records : List Record) :
    ((patchesOf is (eligibleFrom 0 records)).map (·.index)).Pairwise (· < ·) :=
  (pairwise_eligibleFrom 0 records).sublist (sublist_patchesOf is _)

/-- What was told about a record is what a patch makes of it. -/
theorem getElem?_told
    (hrecords : is.map (·.record) = records.filter (·.isEligible))
    (hq : q ∈ patchesOf is (eligibleFrom 0 records)) :
    ∃ i ∈ is, ∃ reply, i.outcome = .described reply ∧ records[q.index]? = some i.record ∧
      q.apply i.record = i.told reply ∧
      (applyPatches records (patchesOf is (eligibleFrom 0 records)))[q.index]? =
        some (i.told reply) := by
  obtain ⟨i, hi, reply, hreply, hpatch, hrecord⟩ := exists_of_mem_patchesOf hrecords hq
  have htold : q.apply i.record = i.told reply := by
    rw [hpatch]
    rfl
  refine ⟨i, hi, reply, hreply, hrecord, htold, ?_⟩
  rw [getElem?_applyPatches ((pairwise_patchesOf is records).imp Nat.ne_of_lt) hq, hrecord,
    Option.map_some, htold]

end Round

end RepoAtlas
