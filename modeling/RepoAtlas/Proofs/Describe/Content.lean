import RepoAtlas.Describe.Completion
import RepoAtlas.Proofs.Json.Spelling

/-!
# Values of any kind

The content of a message is read as a value of any kind before it is known to be a message.
A value is a word, a string, a number, or an array or an object of values, in no more than
so many brackets (`valueWithin`), and this is what its reader reads
(`contentIn_eq_ok_iff`). A number is read only if it is not too large.
-/

namespace RepoAtlas.Completion

open Json

/-- A value without others in it. -/
inductive WritesScalar : List Char → Content → List Char → Prop where
  | null (rest : List Char) : WritesScalar ('n' :: 'u' :: 'l' :: 'l' :: rest) .null rest
  | isTrue (rest : List Char) :
    WritesScalar ('t' :: 'r' :: 'u' :: 'e' :: rest) (.boolean true) rest
  | isFalse (rest : List Char) :
    WritesScalar ('f' :: 'a' :: 'l' :: 's' :: 'e' :: rest) (.boolean false) rest
  | string {cs rest : List Char} {s : String} (h : SpellsString cs s.toList rest) :
    WritesScalar ('"' :: cs) (.string s) rest
  | number {cs rest : List Char} {n : Number} (h : SpellsNumber cs rest)
    (hvalue : (number false cs).map (·.1) = .ok n) : WritesScalar cs (.number n) rest
  | below {cs rest : List Char} {n : Number} (h : SpellsNumber cs rest)
    (hvalue : (number true cs).map (·.1) = .ok n) : WritesScalar ('-' :: cs) (.number n) rest

/-- A value of any kind, with the values inside it written in a given way. -/
inductive WritesNested (S : Spelling Content) : List Char → Content → List Char → Prop where
  | scalar {cs rest : List Char} {v : Content} (h : WritesScalar cs v rest) :
    WritesNested S cs v rest
  | array {cs rest : List Char} {items : List Content} (h : Items S true cs items rest) :
    WritesNested S ('[' :: cs) (.array items) rest
  | object {cs rest : List Char} {fields : List (String × Content)}
    (h : Members (fun _ => S.Spells) true cs fields rest) :
    WritesNested S ('\x7b' :: cs) (.object fields) rest

variable {S : Spelling Content} {cs rest mid : List Char} {v : Content} {depth fuel : Nat}
  {first : Bool} {items : List Content} {fields : List (String × Content)}

/-- No single value begins with space or closes an array. -/
theorem WritesScalar.starts (h : WritesScalar cs v rest) :
    ∃ c more, cs = c :: more ∧ isSpace c = false ∧ c ≠ ']' := by
  cases h with
  | number h =>
    cases cs with
    | nil => cases h.digitNext
    | cons c more =>
      have hc := isDigit_notMem h.digitNext
      simp only [List.mem_cons, List.not_mem_nil, or_false, not_or] at hc
      exact ⟨c, more, rfl, by simp [isSpace, hc], hc.2.2.2.2.1⟩
  | null | isTrue | isFalse | string | below => exact ⟨_, _, rfl, by decide, by decide⟩

theorem WritesScalar.length_lt (h : WritesScalar cs v rest) : rest.length < cs.length := by
  cases h with
  | null | isTrue | isFalse =>
    simp only [List.length_cons]
    omega
  | string h => exact Nat.lt_succ_of_lt h.length_lt
  | number h => exact h.length_lt
  | below h => exact Nat.lt_succ_of_lt h.length_lt

/-- Nor does an array or an object. -/
theorem WritesNested.starts (h : WritesNested S cs v rest) :
    ∃ c more, cs = c :: more ∧ isSpace c = false ∧ c ≠ ']' := by
  cases h with
  | scalar h => exact h.starts
  | array | object => exact ⟨_, _, rfl, by decide, by decide⟩

theorem WritesNested.length_lt (h : WritesNested S cs v rest) : rest.length < cs.length := by
  cases h with
  | scalar h => exact h.length_lt
  | array h => exact Nat.lt_succ_of_lt h.length_lt
  | object h =>
    exact Nat.lt_succ_of_lt (h.length_lt fun _ _ _ _ h => Nat.le_of_lt h.length_lt)

/-- Values in no more than so many brackets. -/
def valueWithin : Nat → Spelling Content
  | 0 => ⟨WritesScalar, WritesScalar.starts, WritesScalar.length_lt⟩
  | depth + 1 => ⟨WritesNested (valueWithin depth), WritesNested.starts, WritesNested.length_lt⟩

/-- A value without others in it may stand in any number of brackets. -/
theorem WritesScalar.within (h : WritesScalar cs v rest) (depth : Nat) :
    (valueWithin depth).Writes cs v rest := by
  cases depth with
  | zero => exact h
  | succ depth => exact .scalar h

/-! ### What is read is a value -/

/-- What is read first: a value without others in it, or what opens a bracket. -/
theorem exists_of_contentIn (h : contentIn (fuel + 1) depth cs = .ok (v, rest)) :
    WritesScalar (skipSpace cs) v rest ∨
      (∃ d inner items mid, depth = d + 1 ∧ skipSpace cs = '[' :: inner ∧ v = .array items ∧
        itemsIn fuel d true inner = .ok (items, mid) ∧ Spaced mid (']' :: rest)) ∨
      ∃ d inner fields mid, depth = d + 1 ∧ skipSpace cs = '\x7b' :: inner ∧ v = .object fields ∧
        fieldsIn fuel d true inner = .ok (fields, mid) ∧ Spaced mid ('\x7d' :: rest) := by
  rw [contentIn] at h
  split at h
  · cases h
  · rename_i heq
    obtain ⟨more, hword, h⟩ := exists_of_bind h
    cases h
    rw [heq, word_eq_ok_iff.1 hword]
    exact .inl (.null rest)
  · rename_i heq
    obtain ⟨more, hword, h⟩ := exists_of_bind h
    cases h
    rw [heq, word_eq_ok_iff.1 hword]
    exact .inl (.isTrue rest)
  · rename_i heq
    obtain ⟨more, hword, h⟩ := exists_of_bind h
    cases h
    rw [heq, word_eq_ok_iff.1 hword]
    exact .inl (.isFalse rest)
  · rename_i heq
    obtain ⟨⟨n, more⟩, hnumber, h⟩ := exists_of_bind h
    cases h
    obtain ⟨hspells, hvalue⟩ := number_eq_ok_iff.1 hnumber
    rw [heq]
    exact .inl (.below hspells hvalue)
  · rename_i heq
    obtain ⟨⟨s, more⟩, hstring, h⟩ := exists_of_bind h
    cases h
    rw [heq]
    exact .inl (.string (stringBody_eq_ok_iff.1 hstring))
  · rename_i inner heq
    split at h
    · cases h
    · rename_i hdepth
      obtain ⟨d, rfl⟩ := Nat.exists_eq_add_one_of_ne_zero hdepth
      obtain ⟨⟨items, mid⟩, hitems, h⟩ := exists_of_bind h
      obtain ⟨left, hend, h⟩ := exists_of_bind h
      cases h
      exact .inr (.inl ⟨d, inner, items, mid, rfl, heq, rfl, hitems, endArray_eq_ok_iff.1 hend⟩)
  · rename_i inner heq
    split at h
    · cases h
    · rename_i hdepth
      obtain ⟨d, rfl⟩ := Nat.exists_eq_add_one_of_ne_zero hdepth
      obtain ⟨⟨fields, mid⟩, hfields, h⟩ := exists_of_bind h
      dsimp only at h
      split at h
      · rename_i hclose
        cases h
        exact .inr (.inr ⟨d, inner, fields, mid, rfl, heq, rfl, hfields,
          (skipSpace_eq_cons_iff (by decide)).1 hclose⟩)
      · cases h
  · rename_i heq
    split at h
    · obtain ⟨⟨n, more⟩, hnumber, h⟩ := exists_of_bind h
      cases h
      obtain ⟨hspells, hvalue⟩ := number_eq_ok_iff.1 hnumber
      rw [heq]
      exact .inl (.number hspells hvalue)
    · cases h

theorem spells_of_contentIn (fuel : Nat) :
    (∀ depth cs v rest, contentIn fuel depth cs = .ok (v, rest) →
      (valueWithin depth).Spells cs v rest) ∧
    (∀ depth first cs items mid rest, itemsIn fuel depth first cs = .ok (items, mid) →
      Spaced mid (']' :: rest) → Items (valueWithin depth) first cs items rest) ∧
    ∀ depth first cs fields mid rest, fieldsIn fuel depth first cs = .ok (fields, mid) →
      Spaced mid ('\x7d' :: rest) →
      Members (fun _ => (valueWithin depth).Spells) first cs fields rest := by
  induction fuel with
  | zero =>
    refine ⟨fun _ _ _ _ h => ?_, fun _ _ _ _ _ _ h => ?_, fun _ _ _ _ _ _ h => ?_⟩
    all_goals cases h
  | succ fuel ih =>
    obtain ⟨ihcontent, ihitems, ihfields⟩ := ih
    refine ⟨fun depth cs v rest h => ?content, fun depth first cs items mid rest h hclose => ?items,
      fun depth first cs fields mid rest h hclose => ?fields⟩
    case content =>
      obtain h | ⟨d, inner, items, mid, rfl, hopen, rfl, hitems, hclose⟩ |
        ⟨d, inner, fields, mid, rfl, hopen, rfl, hfields, hclose⟩ := exists_of_contentIn h
      · exact Spelling.spells_iff.2 (h.within depth)
      · rw [Spelling.spells_iff, hopen]
        exact .array (ihitems _ _ _ _ _ _ hitems hclose)
      · rw [Spelling.spells_iff, hopen]
        exact .object (ihfields _ _ _ _ _ _ hfields hclose)
    case items =>
      obtain ⟨start, hstart, h⟩ := exists_of_bind h
      cases start with
      | none =>
        cases h
        exact .close hclose
      | some start =>
        obtain ⟨⟨v, more⟩, hv, h⟩ := exists_of_bind h
        obtain ⟨⟨others, left⟩, hothers, h⟩ := exists_of_bind h
        cases h
        obtain ⟨next, hnext, rfl⟩ := exists_next_of_nextItem hstart
        exact .item hnext (Spelling.spells_skipSpace.1 (ihcontent _ _ _ _ hv))
          (ihitems _ _ _ _ _ _ hothers hclose)
    case fields =>
      obtain ⟨found, hfound, h⟩ := exists_of_bind h
      cases found with
      | none =>
        cases h
        exact .close hclose
      | some found =>
        obtain ⟨key, more⟩ := found
        obtain ⟨value, hcolon, h⟩ := exists_of_bind h
        obtain ⟨⟨v, left⟩, hv, h⟩ := exists_of_bind h
        obtain ⟨⟨others, left'⟩, hothers, h⟩ := exists_of_bind h
        cases h
        obtain ⟨next, hnext, hkey⟩ := exists_next_of_nextKey hfound
        exact .member hnext hkey (colon_eq_ok_iff.1 hcolon) (ihcontent _ _ _ _ hv)
          (ihfields _ _ _ _ _ _ hothers hclose)

/-! ### A value is read -/

/-- A single value is read wherever it stands, however deep. -/
theorem contentIn_of_scalar (h : WritesScalar (skipSpace cs) v rest) (fuel depth : Nat) :
    contentIn (fuel + 1) depth cs = .ok (v, rest) := by
  rw [contentIn]
  generalize skipSpace cs = start at h
  cases h with
  | null | isTrue | isFalse => rfl
  | string h =>
    simp only [stringBody_eq_ok_iff.2 h, bind, Except.bind]
    rfl
  | below h hvalue =>
    simp only [number_eq_ok_iff.2 ⟨h, hvalue⟩, bind, Except.bind]
    rfl
  | number h hvalue =>
    have hread := number_eq_ok_iff.2 ⟨h, hvalue⟩
    have hdigit := h.digitNext
    split
    case h_9 =>
      simp only [hdigit, if_true, hread, bind, Except.bind]
      rfl
    -- No digit begins another value.
    all_goals cases hdigit

section Inside

/- What is inside a bracket is read with fuel for its length. -/
variable (hread : ∀ fuel cs v rest, (valueWithin depth).Spells cs v rest →
  2 * cs.length + 1 ≤ fuel → contentIn fuel depth cs = .ok (v, rest))
include hread

/-- If values are read as deep inside, so are the items of an array. -/
theorem exists_of_items (h : Items (valueWithin depth) first cs items rest)
    (hfuel : 2 * cs.length + 2 ≤ fuel) :
    ∃ mid, itemsIn fuel depth first cs = .ok (items, mid) ∧ Spaced mid (']' :: rest) := by
  induction h generalizing fuel with
  | @close first cs rest hclose =>
    obtain ⟨fuel, rfl⟩ := Nat.exists_eq_add_one_of_ne_zero (show fuel ≠ 0 by omega)
    refine ⟨cs, ?_, hclose⟩
    rw [itemsIn, nextItem_of_close hclose]
    rfl
  | @item first cs next more rest v items hnext hitem _ ih =>
    obtain ⟨fuel, rfl⟩ := Nat.exists_eq_add_one_of_ne_zero (show fuel ≠ 0 by omega)
    have hlt := hitem.length_lt
    have hle := hnext.length_le
    obtain ⟨c, behind, hopen, -, hend⟩ := Spelling.starts _ (Spelling.spells_iff.1 hitem)
    have hmore : 2 * more.length + 2 ≤ fuel := by omega
    obtain ⟨mid, hothers, hclose⟩ := ih hmore
    have hshort := (spaced_skipSpace next).suffix.length_le
    have hv := hread fuel _ _ _ (Spelling.spells_skipSpace.2 hitem) (by omega)
    refine ⟨mid, ?_, hclose⟩
    rw [itemsIn, nextItem_of_next hnext hopen hend]
    simp only [bind, Except.bind, hv, hothers]
    rfl

/-- If values are read as deep inside, so are the fields of an object. -/
theorem exists_of_members (h : Members (fun _ => (valueWithin depth).Spells) first cs fields rest)
    (hfuel : 2 * cs.length + 2 ≤ fuel) :
    ∃ mid, fieldsIn fuel depth first cs = .ok (fields, mid) ∧ Spaced mid ('\x7d' :: rest) := by
  induction h generalizing fuel with
  | @close first cs rest hclose =>
    obtain ⟨fuel, rfl⟩ := Nat.exists_eq_add_one_of_ne_zero (show fuel ≠ 0 by omega)
    refine ⟨cs, ?_, hclose⟩
    rw [fieldsIn, nextKey_of_close hclose]
    rfl
  | @member first cs next more value left rest key v fields hnext hkey hcolon hvalue _ ih =>
    obtain ⟨fuel, rfl⟩ := Nat.exists_eq_add_one_of_ne_zero (show fuel ≠ 0 by omega)
    have hnext' := hnext.length_le
    have hkey' := hkey.length_lt
    have hcolon' := hcolon.suffix.length_le
    have hvalue' := hvalue.length_lt
    rw [List.length_cons] at hcolon'
    have hleft : 2 * left.length + 2 ≤ fuel := by omega
    obtain ⟨mid, hothers, hclose⟩ := ih hleft
    have hv := hread fuel _ _ _ hvalue (by omega)
    refine ⟨mid, ?_, hclose⟩
    rw [fieldsIn, nextKey_of_next hnext hkey]
    simp only [bind, Except.bind, colon_eq_ok_iff.2 hcolon, hv, hothers]
    rfl

end Inside

/-- A value that is spelled within some depth is read, if there is enough fuel. -/
theorem contentIn_of_spells (h : (valueWithin depth).Spells cs v rest)
    (hfuel : 2 * cs.length + 1 ≤ fuel) : contentIn fuel depth cs = .ok (v, rest) := by
  induction depth generalizing cs v rest fuel with
  | zero =>
    obtain ⟨fuel, rfl⟩ := Nat.exists_eq_add_one_of_ne_zero (show fuel ≠ 0 by omega)
    exact contentIn_of_scalar (Spelling.spells_iff.1 h) fuel 0
  | succ depth ih =>
    obtain ⟨fuel, rfl⟩ := Nat.exists_eq_add_one_of_ne_zero (show fuel ≠ 0 by omega)
    have hshort := (spaced_skipSpace cs).suffix.length_le
    rw [Spelling.spells_iff] at h
    generalize hopen : skipSpace cs = start at h
    cases h with
    | scalar h => exact contentIn_of_scalar (hopen ▸ h) ..
    | @array inside _ _ h =>
      rw [hopen, List.length_cons] at hshort
      have hinside : 2 * inside.length + 2 ≤ fuel := by omega
      obtain ⟨mid, hitems, hclose⟩ := exists_of_items (fun _ _ _ _ => ih) h hinside
      rw [contentIn, hopen]
      simp only [Nat.add_one_ne_zero, if_false, Nat.add_sub_cancel, bind, Except.bind, hitems,
        endArray_eq_ok_iff.2 hclose]
      rfl
    | @object inside _ _ h =>
      rw [hopen, List.length_cons] at hshort
      have hinside : 2 * inside.length + 2 ≤ fuel := by omega
      obtain ⟨mid, hfields, hclose⟩ := exists_of_members (fun _ _ _ _ => ih) h hinside
      rw [contentIn, hopen]
      simp only [Nat.add_one_ne_zero, if_false, Nat.add_sub_cancel, bind, Except.bind, hfields,
        (skipSpace_eq_cons_iff (show isSpace '\x7d' = false by decide)).2 hclose]
      rfl

/-- What is read as a value of any kind. -/
theorem contentIn_eq_ok_iff (hfuel : 2 * cs.length + 1 ≤ fuel) :
    contentIn fuel depth cs = .ok (v, rest) ↔ (valueWithin depth).Spells cs v rest :=
  ⟨(spells_of_contentIn fuel).1 _ _ _ _, fun h => contentIn_of_spells h hfuel⟩

end RepoAtlas.Completion
