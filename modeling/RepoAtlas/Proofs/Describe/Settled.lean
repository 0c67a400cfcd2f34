import RepoAtlas.Proofs.Describe.Inquiry
import RepoAtlas.Proofs.Walk.Mirror

/-!
# Settled contents

What matters to a describer happens one event after the other (`Event`): a walk
reads the content of a file, the describer is asked about a file, an answer is
accepted. A content is *settled* while the cache has an entry of it that says
that a describer told about it (`Cache.Settled`).

What each event does to the settled contents of a path is its step
(`Event.Moves`): an answer settles the content that it is about, only another content
that is read at the path unsettles it, and nobody is asked about a path with a settled
content. Walks go by such steps (`Walk.passes_visitAll`), and so do the rounds after
them, unless a walk reads two files with the path (`Round.passes_inquiries`). Thus,
between an answer and the next question about the path, another content is read there
(`Passes.exists_read`).
-/

namespace RepoAtlas

/-- What matters to a describer. -/
inductive Event where
  /-- A walk reads the content with a hash at a path. -/
  | read (path hash : String)
  /-- A describer is asked about the file at a path. -/
  | asked (path : String) (q : Question)
  /-- What a describer told about the content with a hash is accepted. -/
  | accepted (path hash : String)
  deriving DecidableEq, Repr

/-- What is asked about the file at a path, as an event. -/
def Attempt.event? (path : String) : Attempt → Option Event
  | .asked q => some (.asked path q)
  | .waited _ => none

/-- The question of an event. -/
def Event.question? : Event → Option Question
  | .asked _ q => some q
  | _ => none

/-- The question of an attempt. -/
def Attempt.question? : Attempt → Option Question
  | .asked q => some q
  | .waited _ => none

/-- Whether the cache has an entry of the content at a path, made with what a
    describer told about this very content. -/
def Cache.Settled (cache : Database) (path hash : String) : Prop :=
  ∃ e, known? cache path = some e ∧ e.hash = hash ∧ e.describedHash = hash

/-! ### Steps -/

/-- What an event may do to the settled contents of a path. -/
def Event.Moves (path : String) (S : String → Prop) : Event → (String → Prop) → Prop
  | .read p hash, S' => ∀ g, S g → (p = path → g = hash) → S' g
  | .asked p _, S' => (p = path → ∀ g, ¬S g) ∧ ∀ g, S g → S' g
  | .accepted p hash, S' => (p = path → S' hash) ∧ ∀ g, S g → S' g

/-- Whether events lead from some settled contents of a path to others. -/
inductive Passes (path : String) : (String → Prop) → List Event → (String → Prop) → Prop
  | refl (S : String → Prop) : Passes path S [] S
  | step {S S' S'' : String → Prop} {ev : Event} {events : List Event} :
    ev.Moves path S S' → Passes path S' events S'' → Passes path S (ev :: events) S''

namespace Passes

variable {S S' S'' : String → Prop} {events others before between after : List Event}
  {path hash : String} {q : Question}

theorem append (h : Passes path S events S') (h' : Passes path S' others S'') :
    Passes path S (events ++ others) S'' := by
  induction h with
  | refl => exact h'
  | step hmoves _ ih => exact .step hmoves (ih h')

theorem exists_of_append (h : Passes path S (events ++ others) S'') :
    ∃ S', Passes path S events S' ∧ Passes path S' others S'' := by
  induction events generalizing S with
  | nil => exact ⟨S, .refl S, h⟩
  | cons ev events ih =>
    obtain _ | ⟨hmoves, hrest⟩ := h
    obtain ⟨S', hevents, hothers⟩ := ih hrest
    exact ⟨S', .step hmoves hevents, hothers⟩

/-- A content stays settled as long as no other one is read at its path. -/
theorem settled (h : Passes path S events S') (hsettled : S hash)
    (hread : ∀ other, .read path other ∈ events → other = hash) : S' hash := by
  induction h with
  | refl => exact hsettled
  | @step S S' S'' ev events hmoves _ ih =>
    refine ih ?_ fun other hother => hread other (List.mem_cons_of_mem _ hother)
    cases ev with
    | read p g =>
      refine hmoves hash hsettled fun hpath => ?_
      exact (hread g (by rw [hpath]; exact List.mem_cons_self)).symm
    | asked p question => exact hmoves.2 hash hsettled
    | accepted p g => exact hmoves.2 hash hsettled

/-- Between an answer and the next question about the same path, another content
    is read there. -/
theorem exists_read
    (h : Passes path S (before ++ .accepted path hash :: (between ++ .asked path q :: after)) S') :
    ∃ other, other ≠ hash ∧ .read path other ∈ between := by
  obtain ⟨_, -, h⟩ := h.exists_of_append
  obtain _ | ⟨haccepted, h⟩ := h
  obtain ⟨_, hbetween, h⟩ := h.exists_of_append
  obtain _ | ⟨hasked, -⟩ := h
  by_contra hnone
  refine hasked.1 rfl hash (hbetween.settled (haccepted.1 rfl) fun other hother => ?_)
  by_contra hne
  exact hnone ⟨other, hne, hother⟩

end Passes

/-! ### Walks -/

namespace Walk

open RepoAtlas.Path (text)

variable {fs : FileSystem} {s : State} {x : Sight} {sights : List Sight}

/-- What is read of something seen, as an event. -/
def Sight.reading? (fs : FileSystem) (x : Sight) : Option Event :=
  (x.content? fs).map fun c => .read (text x.path) (Sha256.hash c)

theorem questions_readings (sights : List Sight) :
    (sights.filterMap (·.reading? fs)).filterMap Event.question? = [] := by
  rw [List.filterMap_eq_nil_iff]
  intro ev hev
  obtain ⟨x, -, hx⟩ := List.mem_filterMap.1 hev
  obtain ⟨c, -, rfl⟩ := Option.map_eq_some_iff.1 hx
  rfl

/-- A visit unsettles no content but another one than it reads. -/
theorem settled_visit {path hash : String} (h : Cache.Settled s.cache path hash)
    (hread : ∀ c, x.content? fs = some c → text x.path = path → hash = Sha256.hash c) :
    Cache.Settled (visit fs s x).1.cache path hash := by
  obtain ⟨e, hknown, hhash, hdescribed⟩ := h
  refine ⟨e, (known?_visit_of_stale_ne fun hstale heq => ?_).trans hknown, hhash, hdescribed⟩
  -- What is stale is read, but what is read here has the hash of the entry.
  subst heq
  obtain ⟨c, hc⟩ := Option.isSome_iff_exists.1 (content?_of_isStale hstale)
  rw [Sight.isStale, Sight.fresh?, hc, Option.bind_some, hknown, Option.filter_some,
    if_pos] at hstale
  · cases hstale
  · rw [Entry.isFreshFor, Sha256.isEmpty_hash, hhash, hread c hc rfl]
    simp

/-- A walk goes by steps. -/
theorem passes_visitAll (path : String) :
    Passes path (Cache.Settled s.cache path) (sights.filterMap (·.reading? fs))
      (Cache.Settled (visitAll fs s sights).1.cache path) := by
  induction sights generalizing s with
  | nil => exact .refl _
  | cons x sights ih =>
    have hrest := @ih (visit fs s x).1
    rw [visitAll_cons]
    cases hcontent : x.content? fs with
    | none =>
      rw [List.filterMap_cons_none (by rw [Sight.reading?, hcontent]; rfl)]
      rw [visit_of_unread hcontent] at hrest ⊢
      rwa [cache_passed] at hrest
    | some c =>
      rw [List.filterMap_cons_some (by rw [Sight.reading?, hcontent]; rfl)]
      refine .step (fun hash h hpath => ?_) hrest
      refine settled_visit h fun other hother heq => ?_
      cases hcontent.symm.trans hother
      exact hpath heq

/-- What is known of a path stays, if nothing is read there. -/
theorem known?_visitAll_of_unread {path : String}
    (h : ∀ x ∈ sights, (x.content? fs).isSome → text x.path ≠ path) :
    Cache.known? (visitAll fs s sights).1.cache path = Cache.known? s.cache path := by
  induction sights generalizing s with
  | nil => rfl
  | cons x sights ih =>
    rw [visitAll_cons, ih fun y hy => h y (List.mem_cons_of_mem _ hy),
      known?_visit_of_stale_ne fun hstale =>
        (h x List.mem_cons_self (content?_of_isStale hstale)).symm]

theorem readPaths_cons {r : Record} {records : List Record} (h : r.contentHash.isSome) :
    readPaths (r :: records) = r.path :: readPaths records := by
  simp [readPaths, h]

theorem mem_readPaths_visitAll {path : String} :
    path ∈ readPaths (visitAll fs s sights).2 ↔
      ∃ x ∈ sights, (x.content? fs).isSome ∧ text x.path = path := by
  rw [readPaths_congr (readings_visitAll s.cache), readPaths]
  simp [isSome_contentHash_recordBy, path_recordBy, and_assoc]

/-- If nothing else is read with the path of a record that was read, the cache knows its
    entry after the walk. -/
theorem known?_visitAll_of_count {r : Record} (hworking : Cache.Working s.cache)
    (hr : r ∈ (visitAll fs s sights).2) (hread : r.contentHash.isSome)
    (hcount : (readPaths (visitAll fs s sights).2).count r.path ≤ 1) :
    Cache.known? (visitAll fs s sights).1.cache r.path = Entry.ofRecord? r := by
  induction sights generalizing s with
  | nil => cases hr
  | cons x sights ih =>
    rw [visitAll_cons, visit_record] at hr hcount
    rw [visitAll_cons]
    dsimp only at hr hcount ⊢
    rcases List.mem_cons.1 hr with rfl | hr
    · -- Nothing further on is read with the path of the first.
      have hcontent : (x.content? fs).isSome := isSome_contentHash_recordBy ▸ hread
      rw [readPaths_cons hread, List.count_cons_self] at hcount
      have hlater : text x.path ∉ readPaths (visitAll fs (visit fs s x).1 sights).2 :=
        path_recordBy ▸ List.count_eq_zero.1 (Nat.le_zero.1 (Nat.le_of_succ_le_succ hcount))
      rw [mem_readPaths_visitAll] at hlater
      obtain ⟨e, he⟩ := exists_ofRecord?_recordBy s.cache hcontent
      rw [path_recordBy, known?_visitAll_of_unread fun y hy hy' heq => hlater ⟨y, hy, hy', heq⟩,
        known?_visit hworking, he, Option.some_or]
    · refine ih (working_visit hworking) hr (Nat.le_trans ?_ hcount)
      exact ((List.sublist_cons_self ..).filter _).map _ |>.count_le _

end Walk

/-! ### Rounds -/

namespace Round

variable {cache : Database} {i : Inquiry} {is : List Inquiry} {r : Record}

/-- The events of an inquiry. -/
def Inquiry.events (i : Inquiry) : List Event :=
  i.attempts.filterMap (Attempt.event? i.record.path) ++
  match i.outcome with
  | .described _ => [.accepted i.record.path (i.record.contentHash.getD "")]
  | .skipped _ _ => []

/-- The questions of inquiries are those of their attempts. -/
theorem questions_inquiries (is : List Inquiry) :
    (is.flatMap (·.events)).filterMap Event.question? =
      (is.flatMap (·.attempts)).filterMap Attempt.question? := by
  have hone (i : Inquiry) :
      i.events.filterMap Event.question? = i.attempts.filterMap Attempt.question? := by
    rw [Inquiry.events, List.filterMap_append, List.filterMap_filterMap]
    have hlast : (match i.outcome with
        | .described _ => [Event.accepted i.record.path (i.record.contentHash.getD "")]
        | .skipped _ _ => []).filterMap Event.question? = [] := by
      cases i.outcome <;> rfl
    rw [hlast, List.append_nil]
    refine List.filterMap_congr fun a _ => ?_
    cases a <;> rfl
  induction is with
  | nil => rfl
  | cons i is ih =>
    rw [List.flatMap_cons, List.flatMap_cons, List.filterMap_append, List.filterMap_append, hone,
      ih]

/-- A record that is worth a question is of a content that nobody told about. -/
theorem exists_hash_of_isEligible (h : r.isEligible) :
    ∃ hash, r.contentHash = some hash ∧ r.hash? = some hash ∧ r.describedHash ≠ some hash := by
  rw [Record.isEligible] at h
  split at h
  · cases h
  next hash hhash =>
    obtain ⟨found, hfound, hfilled⟩ := Option.bind_eq_some_iff.1 hhash
    refine ⟨hash, ?_, hhash, by simp_all⟩
    rw [Record.filled?] at hfilled
    split at hfilled
    · cases hfilled
    · cases hfilled
      exact hfound

/-- What was told about a record goes into an entry that says so. -/
theorem exists_entry_told (h : i.record.isEligible) (reply : Reply) :
    ∃ e, Entry.ofRecord? (i.told reply) = some e ∧ e.path = i.record.path ∧
      i.record.contentHash = some e.hash ∧ e.describedHash = e.hash := by
  obtain ⟨hash, hcontent, hhash, _⟩ := exists_hash_of_isEligible h
  have htold : (i.told reply).hash? = some hash := hhash
  rw [Entry.ofRecord?, htold]
  refine ⟨_, rfl, rfl, hcontent, ?_⟩
  change i.record.contentHash.getD "" = hash
  rw [hcontent]
  rfl

/-- Questions about a path with no settled content change nothing. -/
theorem passes_attempts {S : String → Prop} {path p : String} (hopen : p = path → ∀ hash, ¬S hash)
    (attempts : List Attempt) : Passes path S (attempts.filterMap (Attempt.event? p)) S := by
  induction attempts with
  | nil => exact .refl S
  | cons a attempts ih =>
    cases a with
    | asked q => exact .step ⟨hopen, fun _ h => h⟩ ih
    | waited d => exact ih

variable {path : String}

/-- An inquiry goes by steps, if it is not about a path with a settled content, and
    changes nothing under any other path. -/
theorem passes_inquiry (hworking : Cache.Working cache) (heligible : i.record.isEligible)
    (hopen : i.record.path = path → ∀ hash, ¬Cache.Settled cache path hash) :
    Passes path (Cache.Settled cache path) i.events (Cache.Settled (i.remember cache) path) ∧
      Cache.Working (i.remember cache) ∧
      (path ≠ i.record.path → Cache.known? (i.remember cache) path = Cache.known? cache path) := by
  have hasked := passes_attempts hopen i.attempts
  rw [Inquiry.events, Inquiry.remember]
  cases i.outcome with
  | skipped failures reason =>
    rw [List.append_nil]
    exact ⟨hasked, hworking, fun _ => rfl⟩
  | described reply =>
    obtain ⟨e, he, hpath, hcontent, hdescribed⟩ := exists_entry_told heligible reply
    obtain ⟨next, hinsert, hnext⟩ := Cache.exists_insert hworking e
    have hothers (hne : path ≠ i.record.path) :
        Cache.known? next path = Cache.known? cache path :=
      Cache.known?_insert_of_ne hinsert (hpath ▸ hne)
    simp only [he, hinsert]
    refine ⟨hasked.append (.step ⟨?_, fun hash hsettled => ?_⟩ (.refl _)), hnext, hothers⟩
    · rintro rfl
      rw [hcontent]
      exact ⟨e, hpath ▸ Cache.known?_insert hworking hinsert, rfl, hdescribed⟩
    · have hne : path ≠ i.record.path := fun heq => hopen heq.symm hash hsettled
      change Cache.Settled next path hash
      rwa [Cache.Settled, hothers hne]

/-- A round goes by steps, if it inquires about a path once at most, and not if the path
    has a settled content. -/
theorem passes_inquiries (hworking : Cache.Working cache)
    (heligible : ∀ i ∈ is, i.record.isEligible)
    (hcount : (is.map (·.record.path)).count path ≤ 1)
    (hopen : ∀ i ∈ is, i.record.path = path → ∀ hash, ¬Cache.Settled cache path hash) :
    Passes path (Cache.Settled cache path) (is.flatMap (·.events))
        (Cache.Settled (is.foldl (fun cache i => i.remember cache) cache) path) ∧
      Cache.Working (is.foldl (fun cache i => i.remember cache) cache) := by
  induction is generalizing cache with
  | nil => exact ⟨.refl _, hworking⟩
  | cons i is ih =>
    obtain ⟨hfirst, hnext, hothers⟩ := passes_inquiry hworking
      (heligible i List.mem_cons_self) (hopen i List.mem_cons_self)
    rw [List.map_cons] at hcount
    obtain ⟨hrest, hlast⟩ := ih hnext (fun j hj => heligible j (List.mem_cons_of_mem _ hj))
      (Nat.le_trans ((List.sublist_cons_self ..).count_le _) hcount) fun j hj hpath hash => by
        -- The first inquiry is not about the path, if another one is.
        have hne : path ≠ i.record.path := by
          rintro rfl
          rw [List.count_cons_self] at hcount
          have hnot := List.count_eq_zero.1 (Nat.le_zero.1 (Nat.le_of_succ_le_succ hcount))
          exact hnot (hpath ▸ List.mem_map.2 ⟨j, hj, rfl⟩)
        rw [Cache.Settled, hothers hne]
        exact hopen j (List.mem_cons_of_mem _ hj) hpath hash
    exact ⟨hfirst.append hrest, hlast⟩

variable {fs : FileSystem} {s : Walk.State} {sights : List Walk.Sight}

/-- After a walk that reads nothing else with its path, no content is settled of a record
    that is worth a question. -/
theorem not_settled_of_isEligible (hworking : Cache.Working s.cache)
    (hr : r ∈ (Walk.visitAll fs s sights).2) (heligible : r.isEligible)
    (hcount : (Walk.readPaths (Walk.visitAll fs s sights).2).count r.path ≤ 1) (hash : String) :
    ¬Cache.Settled (Walk.visitAll fs s sights).1.cache r.path hash := by
  rintro ⟨e, hknown, hhash, hdescribed⟩
  obtain ⟨found, hcontent, hfound, hnot⟩ := exists_hash_of_isEligible heligible
  -- The entry was made from the record, and tells of the describer what the record
  -- does.
  rw [Walk.known?_visitAll_of_count hworking hr (by rw [hcontent]; rfl) hcount, Entry.ofRecord?,
    hfound, Option.map_some] at hknown
  cases hknown
  dsimp only at hhash hdescribed
  subst hhash
  cases htold : r.describedHash with
  | some g =>
    rw [htold] at hdescribed hnot
    exact hnot (congrArg some hdescribed)
  | none =>
    rw [htold] at hdescribed
    obtain ⟨_, -, hfilled⟩ := Option.bind_eq_some_iff.1 hfound
    rw [Record.filled?] at hfilled
    split at hfilled
    · cases hfilled
    · rename_i hempty
      cases hfilled
      exact hempty (hdescribed ▸ rfl)

end Round

end RepoAtlas
