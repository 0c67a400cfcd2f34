import RepoAtlas.Proofs.Json.Numbers

/-!
# What readers give

A property of what a reader gives, whatever text it reads (`Yields`). An array
gives values with the property of its items (`Yields.list`). An object gives a
draft with a property that the blank one has and that no field takes away
(`yields_record`), whether its fields come by name or in order.
-/

namespace RepoAtlas.Json

open Reader

variable {α β δ : Type}

/-- What a reader gives after another, it gives from what that one gave. -/
theorem exists_of_bind {x : Except Fault α} {f : α → Except Fault β} {b : β}
    (h : x >>= f = .ok b) : ∃ a, x = .ok a ∧ f a = .ok b := by
  cases x with
  | error e => cases h
  | ok a => exact ⟨a, rfl, h⟩

/-- Whether what a reader gives always has a property. -/
def Yields (r : Reader α) (P : α → Prop) : Prop :=
  ∀ ⦃cs a rest⦄, r cs = .ok (a, rest) → P a

theorem yields_true (r : Reader α) : Yields r fun _ => True := fun _ _ _ _ => trivial

theorem Yields.ite {c : Prop} [Decidable c] {r r' : Reader α} {P : α → Prop} (h : Yields r P)
    (h' : Yields r' P) : Yields (if c then r else r') P := by
  split
  · exact h
  · exact h'

/-- A natural number that is read as a value has no more than 64 bits. -/
theorem yields_natural : Yields natural (· ≤ word64) := by
  intro cs n rest h
  unfold Reader.natural at h
  split at h
  case h_1 => simp at h
  case' h_3 =>
    split at h
    case isFalse => simp at h
  -- Behind a sign or not, the number is read by the same steps.
  all_goals
    obtain ⟨⟨m, left⟩, hnumber, h⟩ := exists_of_bind h
    cases m with
    | natural m =>
      cases h
      exact number_le hnumber
    | negative m => cases h
    | fraction below value => cases h

section Arrays

variable {item : Reader α} {P : α → Prop}

/-- What holds of every item that is read holds of all items of an array. -/
theorem Yields.items (h : Yields item P) (fuel : Nat) (first : Bool) :
    Yields (Reader.items item fuel first) fun as => ∀ a ∈ as, P a := by
  induction fuel generalizing first with
  | zero =>
    intro cs as rest hitems
    cases hitems
  | succ fuel ih =>
    intro cs as rest hitems
    obtain ⟨next, -, hitems⟩ := exists_of_bind hitems
    cases next with
    | none =>
      cases hitems
      simp
    | some cs =>
      obtain ⟨⟨a, cs⟩, ha, hitems⟩ := exists_of_bind hitems
      obtain ⟨⟨others, left⟩, hothers, hitems⟩ := exists_of_bind hitems
      cases hitems
      exact List.forall_mem_cons.2 ⟨h ha, ih false hothers⟩

theorem Yields.list (h : Yields item P) : Yields (Reader.list item) fun as => ∀ a ∈ as, P a := by
  intro cs as rest hlist
  unfold Reader.list at hlist
  split at hlist
  · cases hlist
  · obtain ⟨⟨items, left⟩, hitems, hlist⟩ := exists_of_bind hlist
    obtain ⟨_, -, hlist⟩ := exists_of_bind hlist
    cases hlist
    exact h.items _ _ hitems
  · cases hlist

end Arrays

section Objects

variable {f : Reader.Fields δ} {P : δ → Prop}

/-- What every field keeps true of the draft is true at the end of an object. -/
theorem yields_namedFields (h : ∀ name d, P d → Yields (f.read name d) P) (fuel : Nat)
    (first : Bool) {d : δ} (hd : P d) : Yields (namedFields f fuel first d) P := by
  induction fuel generalizing first d with
  | zero =>
    intro cs d' rest hfields
    cases hfields
  | succ fuel ih =>
    intro cs d' rest hfields
    obtain ⟨next, -, hfields⟩ := exists_of_bind hfields
    cases next with
    | none =>
      cases hfields
      exact hd
    | some field =>
      obtain ⟨key, cs⟩ := field
      dsimp only at hfields
      split at hfields
      · split at hfields
        · cases hfields
        · obtain ⟨_, -, hfields⟩ := exists_of_bind hfields
          obtain ⟨⟨d', cs⟩, hread, hfields⟩ := exists_of_bind hfields
          exact ih false (h key d hd hread) hfields
      · -- A field of another name is skipped.
        obtain ⟨_, -, hfields⟩ := exists_of_bind hfields
        obtain ⟨_, -, hfields⟩ := exists_of_bind hfields
        exact ih false hd hfields

/-- What every field keeps true of the draft is true at the end of an array. -/
theorem yields_orderedFields (h : ∀ name d, P d → Yields (f.read name d) P) (names : List String)
    (index : Nat) {d : δ} (hd : P d) : Yields (orderedFields f names index d) P := by
  induction names generalizing index d with
  | nil =>
    intro cs d' rest hfields
    cases hfields
    exact hd
  | cons name names ih =>
    intro cs d' rest hfields
    obtain ⟨next, -, hfields⟩ := exists_of_bind hfields
    cases next with
    | none =>
      dsimp only at hfields
      split at hfields
      · cases hfields
      · exact ih _ hd hfields
    | some cs =>
      obtain ⟨⟨d', cs⟩, hread, hfields⟩ := exists_of_bind hfields
      exact ih _ (h name d hd hread) hfields

/-- What holds of the blank draft, and is kept by every field, holds of a record. -/
theorem yields_record (hblank : P f.blank) (h : ∀ name d, P d → Yields (f.read name d) P) :
    Yields (record f) P := by
  intro cs d rest hrecord
  unfold record at hrecord
  split at hrecord
  · cases hrecord
  · obtain ⟨⟨d', left⟩, hfields, hrecord⟩ := exists_of_bind hrecord
    dsimp only at hrecord
    split at hrecord
    · cases hrecord
    · split at hrecord
      · cases hrecord
        exact yields_namedFields h _ _ hblank hfields
      · cases hrecord
  · obtain ⟨⟨d', left⟩, hfields, hrecord⟩ := exists_of_bind hrecord
    obtain ⟨_, -, hrecord⟩ := exists_of_bind hrecord
    cases hrecord
    exact yields_orderedFields h _ _ hblank hfields
  · cases hrecord

end Objects

/-- What a reader yields holds of what it reads of a whole text. -/
theorem Yields.run {r : Reader α} {P : α → Prop} (h : Yields r P) {text : String} {a : α}
    (hrun : r.run text = .ok a) : P a := by
  unfold Reader.run at hrun
  dsimp only at hrun
  cases hread : r text.toList with
  | error e =>
    rw [hread] at hrun
    cases hrun
  | ok p =>
    obtain ⟨b, rest⟩ := p
    rw [hread] at hrun
    simp only [bind, Except.bind] at hrun
    split at hrun
    · cases hrun
      exact h hread
    · cases hrun

end RepoAtlas.Json
