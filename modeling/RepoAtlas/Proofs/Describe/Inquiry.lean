import RepoAtlas.Describe.Round

/-!
# The inquiries of a round

A round inquires about one record after the other (`Round.Inquiry`): it asks
until there is an answer or no more attempts are allowed. All that a round does
follows from its inquiries (`Round.exists_inquiries`): the attempts are theirs,
and the cache is the one that remembers each answer.

A round comes to an end if all questions do (`Round.exists_run_of_ask`), and those
do if no wait overflows (`Describer.exists_ask`).
-/

namespace RepoAtlas

/-- Whether no wait between two attempts overflows. -/
def Policy.NeverOverflows (p : Policy) : Prop := ∀ n < p.attempts, (p.waitAfter? n).isSome

instance (p : Policy) : Decidable p.NeverOverflows :=
  inferInstanceAs (Decidable (∀ n < p.attempts, (p.waitAfter? n).isSome))

namespace Describer

variable {σ : Type} (d : Describer σ) {p : Policy} (q : Question)

theorem exists_askFrom {more failures : Nat}
    (h : ∀ n ≤ failures + more, (p.waitAfter? n).isSome) (s : σ) :
    ∃ result, d.askFrom p q more failures s = some result := by
  induction more generalizing failures s with
  | zero =>
    rw [askFrom]
    split
    · exact ⟨_, rfl⟩
    · exact ⟨_, rfl⟩
  | succ more ih =>
    rw [askFrom]
    split
    · exact ⟨_, rfl⟩
    · rename_i e next _
      -- There is a wait after this failure, and an end to the attempts after it.
      obtain ⟨wait, hwait⟩ := Option.isSome_iff_exists.1 (h (failures + 1) (by omega))
      have hlater : ∀ n ≤ failures + 1 + more, (p.waitAfter? n).isSome :=
        fun n hn => h n (by omega)
      obtain ⟨result, hresult⟩ := ih hlater next
      dsimp only
      rw [hwait, Option.bind_some, hresult]
      exact ⟨_, rfl⟩

/-- Whatever a describer answers, a question comes to an end. -/
theorem exists_ask (hp : p.NeverOverflows) (s : σ) : ∃ result, d.ask p q s = some result := by
  refine d.exists_askFrom q (fun n hn => ?_) s
  rcases Nat.eq_zero_or_pos n with rfl | hpos
  · rfl
  · exact hp n (by omega)

end Describer

end RepoAtlas

namespace RepoAtlas.Round

/-- What came of asking about a record. -/
structure Inquiry where
  record : Record
  attempts : List Attempt
  outcome : Outcome

/-- The inquiries of a round, and the state of the describer after them. There
    are none if a wait overflows. -/
def inquiries? {σ : Type} (d : Describer σ) (model : String) (p : Policy) :
    σ → List Record → Option (List Inquiry × σ)
  | state, [] => some ([], state)
  | state, r :: rest =>
    if r.isEligible then
      (d.ask p ⟨Summary.ofRecord r, model⟩ state).bind fun (outcome, attempts, state) =>
        (inquiries? d model p state rest).map fun (others, state) =>
          (⟨r, attempts, outcome⟩ :: others, state)
    else inquiries? d model p state rest

/-- The record with what was told about it. -/
def Inquiry.told (i : Inquiry) (reply : Reply) : Record :=
  Patch.apply ⟨0, reply.description, reply.consideration⟩ i.record

/-- The cache with what was told, if anything was. -/
def Inquiry.remember (i : Inquiry) (cache : Database) : Database :=
  match i.outcome with
  | .skipped _ _ => cache
  | .described reply =>
    match Entry.ofRecord? (i.told reply) with
    | none => cache
    | some e => (Cache.insert cache e).toOption.getD cache

variable {σ : Type} {d : Describer σ} {model : String} {p : Policy} {s next last : State σ}
  {index : Nat} {r : Record} {records : List Record}

theorem remember_eq (s : State σ) (r : Record) :
    (remember s r).describer = s.describer ∧ (remember s r).attempts = s.attempts ∧
      (remember s r).cache =
        match Entry.ofRecord? r with
        | none => s.cache
        | some e => (Cache.insert s.cache e).toOption.getD s.cache := by
  unfold remember
  cases Entry.ofRecord? r with
  | none => exact ⟨rfl, rfl, rfl⟩
  | some e =>
    dsimp only
    cases Cache.insert s.cache e <;> exact ⟨rfl, rfl, rfl⟩

/-- A visit is an inquiry. -/
theorem exists_ask (h : visit d model p s index r = some next) :
    ∃ outcome attempts,
      d.ask p ⟨Summary.ofRecord r, model⟩ s.describer =
        some (outcome, attempts, next.describer) ∧
      next.attempts = s.attempts ++ attempts ∧
      next.cache = Inquiry.remember ⟨r, attempts, outcome⟩ s.cache := by
  obtain ⟨⟨outcome, attempts, describer⟩, hask, rfl⟩ := Option.map_eq_some_iff.1 h
  refine ⟨outcome, attempts, ?_⟩
  cases outcome with
  | skipped failures reason => exact ⟨hask, rfl, rfl⟩
  | described reply =>
    obtain ⟨hdescriber, hattempts, hcache⟩ :=
      remember_eq { s with describer, attempts := s.attempts ++ attempts }
        (Patch.apply ⟨index, reply.description, reply.consideration⟩ r)
    refine ⟨hask.trans ?_, hattempts, hcache⟩
    exact congrArg (fun describer => some (_, _, describer)) hdescriber.symm

/-- What a round does follows from its inquiries. -/
theorem exists_inquiries (h : visitAll d model p s index records = some last) :
    ∃ is, inquiries? d model p s.describer records = some (is, last.describer) ∧
      last.attempts = s.attempts ++ is.flatMap (·.attempts) ∧
      last.cache = is.foldl (fun cache i => i.remember cache) s.cache := by
  induction records generalizing s index with
  | nil =>
    cases h
    exact ⟨[], rfl, by simp, rfl⟩
  | cons r records ih =>
    rw [visitAll] at h
    split at h
    next heligible =>
      obtain ⟨middle, hmiddle, hlast⟩ := Option.bind_eq_some_iff.1 h
      obtain ⟨outcome, attempts, hask, hattempts, hcache⟩ := exists_ask hmiddle
      obtain ⟨is, his, hfurther, hend⟩ := ih hlast
      refine ⟨⟨r, attempts, outcome⟩ :: is, ?_, ?_, ?_⟩
      · rw [inquiries?, if_pos heligible, hask, Option.bind_some]
        dsimp only
        rw [his]
        rfl
      · rw [hfurther, hattempts, List.flatMap_cons, List.append_assoc]
      · rw [hend, hcache]
        rfl
    next heligible =>
      obtain ⟨is, his, hfurther⟩ := ih h
      exact ⟨is, by rw [inquiries?, if_neg heligible, his], hfurther⟩

/-- A round comes to an end if all questions do. -/
theorem exists_run_of_ask (hask : ∀ q state, ∃ result, d.ask p q state = some result)
    (model : String) (records : List Record) (cache : Database) (describer : σ) :
    ∃ result, Round.run d model p records cache describer = some result := by
  have hvisitAll (s : State σ) (index : Nat) :
      ∃ last, visitAll d model p s index records = some last := by
    induction records generalizing s index with
    | nil => exact ⟨s, rfl⟩
    | cons r records ih =>
      rw [visitAll]
      split
      · dsimp only
        rw [visit]
        obtain ⟨result, hresult⟩ := hask ⟨Summary.ofRecord r, model⟩ s.describer
        rw [hresult]
        exact ih _ (index + 1)
      · exact ih s (index + 1)
  obtain ⟨last, hlast⟩ := hvisitAll { describer, cache } 0
  exact ⟨_, by rw [Round.run, hlast]; rfl⟩

/-- What is worth it is inquired about, in order. -/
theorem records_of_inquiries {state after : σ} {is : List Inquiry}
    (h : inquiries? d model p state records = some (is, after)) :
    is.map (·.record) = records.filter (·.isEligible) := by
  induction records generalizing state is with
  | nil =>
    cases h
    rfl
  | cons r records ih =>
    rw [inquiries?] at h
    split at h
    next heligible =>
      obtain ⟨⟨outcome, attempts, middle⟩, -, h⟩ := Option.bind_eq_some_iff.1 h
      obtain ⟨⟨others, last⟩, hothers, h⟩ := Option.map_eq_some_iff.1 h
      cases h
      rw [List.filter_cons_of_pos heligible, List.map_cons, ih hothers]
    next heligible =>
      rw [List.filter_cons_of_neg heligible, ih h]

/-- What is inquired about is worth it, and comes in order. -/
theorem sublist_of_inquiries {state after : σ} {is : List Inquiry}
    (h : inquiries? d model p state records = some (is, after)) :
    (is.map (·.record)).Sublist (records.filter (·.isEligible)) :=
  records_of_inquiries h ▸ .refl _

/-- What an inquiry tells of attempts and an outcome is what the describer did. -/
theorem exists_ask_of_inquiries {state after : σ} {is : List Inquiry}
    (h : inquiries? d model p state records = some (is, after)) {i : Inquiry} (hi : i ∈ is) :
    ∃ state next,
      d.ask p ⟨Summary.ofRecord i.record, model⟩ state = some (i.outcome, i.attempts, next) := by
  induction records generalizing state is with
  | nil =>
    cases h
    cases hi
  | cons r records ih =>
    rw [inquiries?] at h
    split at h
    next heligible =>
      obtain ⟨⟨outcome, attempts, middle⟩, hask, h⟩ := Option.bind_eq_some_iff.1 h
      obtain ⟨⟨others, last⟩, hothers, h⟩ := Option.map_eq_some_iff.1 h
      cases h
      rcases List.mem_cons.1 hi with rfl | hi
      · exact ⟨_, _, hask⟩
      · exact ih hothers hi
    next heligible => exact ih h hi

end RepoAtlas.Round
