import RepoAtlas.Proofs.Json.Skipping

/-!
# Which texts are arrays and objects

A spelling says how the values of a type are written (`Spelling`): what a text begins with,
and what the rest is. It carries what its readers rely on, that a value is not empty and
that it begins with neither space nor the end of an array. The values of an array are
written with commas between them (`Items`), and so are the fields of an object (`Members`).

A reader reads a spelling if it gives a value exactly where the text spells it (`Accepts`).
A reader of arrays reads the arrays of what the reader of its items reads (`Accepts.list`),
and a whole text is read if nothing but space is around the value (`Accepts.run`).
-/

namespace RepoAtlas.Json

/-- A way to write the values of a type. -/
structure Spelling (α : Type) where
  /-- Whether a text begins with the value, and what the rest is. -/
  Writes : List Char → α → List Char → Prop
  starts {cs : List Char} {a : α} {rest : List Char} (h : Writes cs a rest) :
    ∃ c more, cs = c :: more ∧ isSpace c = false ∧ c ≠ ']'
  length_lt {cs : List Char} {a : α} {rest : List Char} (h : Writes cs a rest) :
    rest.length < cs.length

namespace Spelling

variable {α : Type} (S : Spelling α)

/-- Whether a text begins with the value, behind space. -/
def Spells (cs : List Char) (a : α) (rest : List Char) : Prop :=
  ∃ start, Spaced cs start ∧ S.Writes start a rest

/-- Whether a text is the value, with nothing but space around it. -/
def Whole (text : String) (a : α) : Prop :=
  ∃ rest, S.Spells text.toList a rest ∧ Spaced rest []

end Spelling

/-! ### Values in a row -/

/-- The text at the next value in a bracket, which stands behind a comma unless it is the
    first. -/
inductive Next : Bool → List Char → List Char → Prop where
  | first (cs : List Char) : Next true cs cs
  | comma {cs next : List Char} (h : Spaced cs (',' :: next)) : Next false cs next

/-- The items of an array from one on, and the closing bracket. -/
inductive Items {α : Type} (S : Spelling α) : Bool → List Char → List α → List Char → Prop where
  | close {first : Bool} {cs rest : List Char} (h : Spaced cs (']' :: rest)) :
    Items S first cs [] rest
  | item {first : Bool} {cs next more rest : List Char} {a : α} {l : List α}
    (hnext : Next first cs next) (hitem : S.Spells next a more) (h : Items S false more l rest) :
    Items S first cs (a :: l) rest

/-- The fields of an object from one on, and the closing bracket. How a value is written
    may depend on its key. -/
inductive Members {β : Type} (F : String → List Char → β → List Char → Prop) :
    Bool → List Char → List (String × β) → List Char → Prop where
  | close {first : Bool} {cs rest : List Char} (h : Spaced cs ('\x7d' :: rest)) :
    Members F first cs [] rest
  | member {first : Bool} {cs next more value left rest : List Char} {key : String} {b : β}
    {l : List (String × β)} (hnext : Next first cs next) (hkey : SpellsItem next key more)
    (hcolon : Spaced more (':' :: value)) (hvalue : F key value b left)
    (h : Members F false left l rest) : Members F first cs ((key, b) :: l) rest

variable {α β : Type} {S : Spelling α} {F : String → List Char → β → List Char → Prop}
  {cs next rest more : List Char} {first : Bool} {a : α} {fuel : Nat}

/-- No value begins with space. -/
theorem Spelling.skipSpace_eq_self {start : List Char} (h : S.Writes start a rest) :
    skipSpace start = start := by
  obtain ⟨c, more, rfl, hc, -⟩ := S.starts h
  exact skipSpace_of_not hc more

/-- A value is spelled behind all space before it. -/
theorem Spelling.spells_iff : S.Spells cs a rest ↔ S.Writes (skipSpace cs) a rest := by
  constructor
  · rintro ⟨start, hspace, h⟩
    rw [hspace.skipSpace_eq, Spelling.skipSpace_eq_self h]
    exact h
  · exact fun h => ⟨skipSpace cs, spaced_skipSpace cs, h⟩

theorem Spelling.spells_skipSpace : S.Spells (skipSpace cs) a rest ↔ S.Spells cs a rest := by
  rw [Spelling.spells_iff, Spelling.spells_iff, skipSpace_skipSpace]

theorem Spelling.Spells.length_lt (h : S.Spells cs a rest) : rest.length < cs.length := by
  obtain ⟨start, hspace, h⟩ := h
  exact (S.length_lt h).trans_le hspace.suffix.length_le

/-- What comes next stands behind space and, unless it is the first, a comma. -/
theorem Next.length_le (h : Next first cs next) : next.length ≤ cs.length := by
  cases h with
  | first => exact Nat.le_refl _
  | comma h => exact Nat.le_of_succ_le h.suffix.length_le

theorem Items.length_lt {l : List α} (h : Items S first cs l rest) : rest.length < cs.length := by
  induction h with
  | close h => exact h.suffix.length_le
  | item hnext hitem _ ih => exact (ih.trans hitem.length_lt).trans_le hnext.length_le

theorem Members.length_lt (hF : ∀ key cs b rest, F key cs b rest → rest.length ≤ cs.length)
    {l : List (String × β)} (h : Members F first cs l rest) : rest.length < cs.length := by
  induction h with
  | close h => exact h.suffix.length_le
  | @member _ cs next more value left rest _ _ _ hnext hkey hcolon hvalue _ ih =>
    calc rest.length
      _ < left.length := ih
      _ ≤ value.length := hF _ _ _ _ hvalue
      _ ≤ more.length := Nat.le_of_succ_le hcolon.suffix.length_le
      _ ≤ next.length := Nat.le_of_lt hkey.length_lt
      _ ≤ cs.length := hnext.length_le

/-! ### What comes next -/

/-- The first item comes next where the array does not end. -/
theorem nextItem_true_eq (h : nextItem true cs = .ok (some rest)) : rest = skipSpace cs := by
  unfold nextItem at h
  split at h
  · cases h
  · cases h
  · rename_i hopen
    cases h
    exact hopen.symm

/-- Any other item comes next behind a comma. -/
theorem exists_comma_of_nextItem (h : nextItem false cs = .ok (some rest)) :
    ∃ item, Spaced cs (',' :: item) ∧ rest = skipSpace item := by
  unfold nextItem at h
  split at h
  · cases h
  · cases h
  · rename_i c item _ hopen
    rw [if_neg (by decide)] at h
    split at h
    · rename_i hcomma
      refine ⟨item, (skipSpace_eq_cons_iff (by decide)).1 (hcomma ▸ hopen), ?_⟩
      split at h
      · cases h
      · cases h
      · cases h
        rfl
    · cases h

/-- There is no next item before the closing bracket. -/
theorem nextItem_of_close (h : Spaced cs (']' :: rest)) (first : Bool) :
    nextItem first cs = .ok none := by
  rw [nextItem, (skipSpace_eq_cons_iff (by decide)).2 h]
  rfl

/-- The next item is where one may be written. -/
theorem exists_next_of_nextItem {start : List Char} (h : nextItem first cs = .ok (some start)) :
    ∃ next, Next first cs next ∧ start = skipSpace next := by
  cases first with
  | true => exact ⟨cs, .first cs, nextItem_true_eq h⟩
  | false =>
    obtain ⟨next, hcomma, heq⟩ := exists_comma_of_nextItem h
    exact ⟨next, .comma hcomma, heq⟩

/-- Where an item may be written one is found, if no closing bracket stands there. -/
theorem nextItem_of_next {c : Char} (hnext : Next first cs next) (h : skipSpace next = c :: more)
    (hend : c ≠ ']') : nextItem first cs = .ok (some (skipSpace next)) := by
  cases hnext with
  | first =>
    rw [nextItem, h]
    split
    · cases ‹_›
    · cases ‹_›
      exact absurd rfl hend
    · rename_i heq
      rw [if_pos rfl, heq]
  | comma hcomma =>
    rw [nextItem, (skipSpace_eq_cons_iff (by decide)).2 hcomma]
    split
    · cases ‹_›
    · cases ‹_›
    · rename_i heq
      cases heq
      rw [if_neg (by decide), if_pos rfl, h]
      split
      · cases ‹_›
      · cases ‹_›
        exact absurd rfl hend
      · rfl

/-- A string behind space and a quote is spelled as an item. -/
theorem spellsItem_of_stringBody {key : String} (hopen : Spaced cs ('"' :: next))
    (h : (stringBody next).map some = .ok (some (key, rest))) : SpellsItem cs key rest := by
  cases hbody : stringBody next with
  | error f =>
    rw [hbody] at h
    cases h
  | ok p =>
    rw [hbody] at h
    cases h
    exact ⟨next, hopen, stringBody_eq_ok_iff.1 hbody⟩

theorem nextKey_of_close (h : Spaced cs ('\x7d' :: rest)) (first : Bool) :
    nextKey first cs = .ok none := by
  rw [nextKey, (skipSpace_eq_cons_iff (by decide)).2 h]
  rfl

/-- The next key is where one may be written, as a string. -/
theorem exists_next_of_nextKey {key : String} (h : nextKey first cs = .ok (some (key, more))) :
    ∃ next, Next first cs next ∧ SpellsItem next key more := by
  unfold nextKey at h
  dsimp only at h
  split at h
  · cases h
  · cases h
  · rename_i c next _ hopen
    split_ifs at h with hfirst hcomma
    · split at h
      case h_2 heq =>
        rw [heq] at hopen
        exact ⟨cs, hfirst ▸ .first cs,
          spellsItem_of_stringBody ((skipSpace_eq_cons_iff (by decide)).1 hopen) h⟩
      all_goals cases h
    · split at h
      case h_2 heq =>
        refine ⟨next, ?_, spellsItem_of_stringBody ((skipSpace_eq_cons_iff (by decide)).1 heq) h⟩
        rw [Bool.not_eq_true] at hfirst
        exact hfirst ▸ .comma ((skipSpace_eq_cons_iff (by decide)).1 (hcomma ▸ hopen))
      all_goals cases h

/-- A string where a key may be written is found as the next one. -/
theorem nextKey_of_next {key : String} (hnext : Next first cs next)
    (hkey : SpellsItem next key more) : nextKey first cs = .ok (some (key, more)) := by
  obtain ⟨body, hbody⟩ := hkey.exists_skipSpace
  have hstring : stringBody body = .ok (key, more) := by
    rw [← string_eq_ok_iff, Reader.string, hbody] at hkey
    exact hkey
  cases hnext with
  | first =>
    rw [nextKey, hbody]
    simp [hstring, Except.map]
  | comma hcomma =>
    rw [nextKey, (skipSpace_eq_cons_iff (by decide)).2 hcomma]
    simp [hbody, hstring, Except.map]

/-- An array ends with its closing bracket, behind space. -/
theorem endArray_eq_ok_iff : endArray cs = .ok rest ↔ Spaced cs (']' :: rest) := by
  rw [← skipSpace_eq_cons_iff (by decide)]
  unfold endArray
  constructor
  · intro h
    split at h
    · cases h
    · rename_i heq
      cases h
      exact heq
    · split at h <;> cases h
    · cases h
  · intro h
    rw [h]
    rfl

/-- A colon may stand behind space. -/
theorem colon_eq_ok_iff : colon cs = .ok rest ↔ Spaced cs (':' :: rest) := by
  rw [← skipSpace_eq_cons_iff (by decide)]
  unfold colon
  constructor
  · intro h
    split at h
    · cases h
    · rename_i heq
      cases h
      exact heq
    · cases h
  · intro h
    rw [h]
    rfl

/-! ### What is read -/

/-- Whether a reader gives a value exactly where a text spells it. -/
def Accepts (r : Reader α) (S : Spelling α) : Prop :=
  ∀ cs a rest, r cs = .ok (a, rest) ↔ S.Spells cs a rest

namespace Spelling

/-- Arrays of values. -/
def list (S : Spelling α) : Spelling (List α) where
  Writes cs l rest := ∃ inner, cs = '[' :: inner ∧ Items S true inner l rest
  starts := by
    rintro _ _ _ ⟨inner, rfl, -⟩
    exact ⟨'[', inner, rfl, by decide, by decide⟩
  length_lt := by
    rintro _ _ _ ⟨inner, rfl, h⟩
    exact Nat.lt_succ_of_lt h.length_lt

end Spelling

variable {r : Reader α} {l : List α} {mid : List Char}

/-- The text at the next item is read as the item. -/
theorem Accepts.at_next (h : Accepts r S) (hnext : Next first cs next)
    (hitem : S.Spells next a rest) :
    nextItem first cs = .ok (some (skipSpace next)) ∧ r (skipSpace next) = .ok (a, rest) := by
  obtain ⟨c, more, hopen, -, hend⟩ := S.starts (Spelling.spells_iff.1 hitem)
  exact ⟨nextItem_of_next hnext hopen hend,
    (h _ _ _).2 (Spelling.spells_skipSpace.2 hitem)⟩

/-- Items that are read are written one after the other, up to the closing bracket. -/
theorem Accepts.items_of_ok (h : Accepts r S) (hitems : Reader.items r fuel first cs = .ok (l, mid))
    (hend : Spaced mid (']' :: rest)) : Items S first cs l rest := by
  induction fuel generalizing first cs l with
  | zero => cases hitems
  | succ fuel ih =>
    obtain ⟨start, hstart, hitems⟩ := exists_of_bind hitems
    cases start with
    | none =>
      cases hitems
      exact .close hend
    | some start =>
      obtain ⟨⟨a, more⟩, ha, hitems⟩ := exists_of_bind hitems
      obtain ⟨⟨others, left⟩, hothers, hitems⟩ := exists_of_bind hitems
      cases hitems
      obtain ⟨next, hnext, rfl⟩ := exists_next_of_nextItem hstart
      exact .item hnext (Spelling.spells_skipSpace.1 ((h _ _ _).1 ha)) (ih hothers)

/-- Items that are written one after the other are read, if there is fuel for each. -/
theorem Accepts.exists_of_items (h : Accepts r S) (hitems : Items S first cs l rest)
    (hfuel : cs.length < fuel) :
    ∃ mid, Reader.items r fuel first cs = .ok (l, mid) ∧ Spaced mid (']' :: rest) := by
  induction hitems generalizing fuel with
  | @close first cs rest hclose =>
    obtain ⟨fuel, rfl⟩ := Nat.exists_eq_add_one_of_ne_zero (Nat.ne_of_gt (Nat.zero_lt_of_lt hfuel))
    refine ⟨cs, ?_, hclose⟩
    rw [Reader.items, nextItem_of_close hclose]
    rfl
  | @item first cs next more rest a l hnext hitem _ ih =>
    obtain ⟨fuel, rfl⟩ := Nat.exists_eq_add_one_of_ne_zero (Nat.ne_of_gt (Nat.zero_lt_of_lt hfuel))
    have hlt := hitem.length_lt
    have hle := hnext.length_le
    have hmore : more.length < fuel := by omega
    obtain ⟨mid, hothers, hclose⟩ := ih hmore
    obtain ⟨hstart, hread⟩ := h.at_next hnext hitem
    refine ⟨mid, ?_, hclose⟩
    rw [Reader.items, hstart]
    simp only [bind, Except.bind, hread, hothers]
    rfl

/-- If items are read exactly as they are written, so are lists of them. -/
theorem Accepts.list (h : Accepts r S) : Accepts (Reader.list r) S.list := by
  intro cs l rest
  rw [Spelling.spells_iff]
  constructor
  · intro hlist
    unfold Reader.list at hlist
    split at hlist
    · cases hlist
    · rename_i inner hopen
      obtain ⟨⟨items, mid⟩, hitems, hlist⟩ := exists_of_bind hlist
      obtain ⟨left, hend, hlist⟩ := exists_of_bind hlist
      cases hlist
      exact ⟨inner, hopen, h.items_of_ok hitems (endArray_eq_ok_iff.1 hend)⟩
    · cases hlist
  · rintro ⟨inner, hopen, hitems⟩
    obtain ⟨mid, hread, hclose⟩ := h.exists_of_items hitems (Nat.lt_succ_self _)
    rw [Reader.list, hopen]
    simp only [bind, Except.bind, hread, endArray_eq_ok_iff.2 hclose]
    rfl

/-- A whole text is read if it is a value, and only then. -/
theorem Accepts.run (h : Accepts r S) {text : String} : r.run text = .ok a ↔ S.Whole text a := by
  rw [Reader.run, Spelling.Whole]
  constructor
  · intro hrun
    cases hread : r text.toList with
    | error f =>
      rw [hread] at hrun
      cases hrun
    | ok p =>
      obtain ⟨b, rest⟩ := p
      rw [hread] at hrun
      simp only [bind, Except.bind] at hrun
      split at hrun
      · rename_i hend
        cases hrun
        exact ⟨rest, (h _ _ _).1 hread, skipSpace_eq_nil_iff.1 hend⟩
      · cases hrun
  · rintro ⟨rest, hspells, hend⟩
    rw [(h _ _ _).2 hspells]
    simp only [bind, Except.bind, skipSpace_eq_nil_iff.2 hend]
    rfl

end RepoAtlas.Json
