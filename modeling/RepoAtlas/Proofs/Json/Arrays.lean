import RepoAtlas.Proofs.Json.Spelling

/-!
# Which texts are arrays of strings

How an array of strings may be written, with space between its parts (`SpellsArray`). A
whole text spells an array if nothing but space stands around it (`Spells`).

The reader of such arrays gives a list if the text spells it, and only then
(`run_list_string_iff`); so a text spells no more than one list (`Spells.unique`).
-/

namespace RepoAtlas.Json

/-! ### How arrays of strings are written -/

/-- What stands behind an item of an array: the other items, and the closing bracket. -/
inductive SpellsItems : List Char → List String → List Char → Prop where
  | close {cs rest : List Char} (h : Spaced cs (']' :: rest)) : SpellsItems cs [] rest
  | comma {cs item more rest : List Char} {s : String} {l : List String}
    (hcomma : Spaced cs (',' :: item)) (hitem : SpellsItem item s more)
    (h : SpellsItems more l rest) : SpellsItems cs (s :: l) rest

/-- An array, behind space. -/
inductive SpellsArray : List Char → List String → List Char → Prop where
  | empty {cs inner rest : List Char} (hopen : Spaced cs ('[' :: inner))
    (hclose : Spaced inner (']' :: rest)) : SpellsArray cs [] rest
  | items {cs inner more rest : List Char} {s : String} {l : List String}
    (hopen : Spaced cs ('[' :: inner)) (hitem : SpellsItem inner s more)
    (h : SpellsItems more l rest) : SpellsArray cs (s :: l) rest

/-- Whether the text is an array of strings, with nothing but space around it. -/
def Spells (text : String) (l : List String) : Prop :=
  ∃ rest, SpellsArray text.toList l rest ∧ Spaced rest []

variable {cs rest : List Char} {s : String} {l : List String}

/-! ### What is read -/

/-- Strings as the items of an array are. -/
def Spelling.string : Spelling String where
  Writes cs s rest := ∃ body, cs = '"' :: body ∧ SpellsString body s.toList rest
  starts := by
    rintro _ _ _ ⟨body, rfl, -⟩
    exact ⟨'"', body, rfl, by decide, by decide⟩
  length_lt := by
    rintro _ _ _ ⟨body, rfl, h⟩
    exact Nat.lt_succ_of_lt h.length_lt

theorem Spelling.spells_string : Spelling.string.Spells cs s rest ↔ SpellsItem cs s rest := by
  constructor
  · rintro ⟨_, hspace, body, rfl, h⟩
    exact ⟨body, hspace, h⟩
  · rintro ⟨body, hspace, h⟩
    exact ⟨_, hspace, body, rfl, h⟩

/-- Strings are read exactly as they are written. -/
theorem accepts_string : Accepts Reader.string Spelling.string := fun _ _ _ =>
  string_eq_ok_iff.trans Spelling.spells_string.symm

theorem items_string_iff : Items Spelling.string false cs l rest ↔ SpellsItems cs l rest := by
  constructor
  · intro h
    generalize hfirst : false = first at h
    induction h with
    | close h => exact .close h
    | item hnext hitem _ ih =>
      subst hfirst
      cases hnext with
      | comma hcomma => exact .comma hcomma (Spelling.spells_string.1 hitem) (ih rfl)
  · intro h
    induction h with
    | close h => exact .close h
    | comma hcomma hitem _ ih => exact .item (.comma hcomma) (Spelling.spells_string.2 hitem) ih

/-- Lists of strings are written as arrays. -/
theorem spells_list_string_iff :
    (Spelling.list Spelling.string).Spells cs l rest ↔ SpellsArray cs l rest := by
  constructor
  · rintro ⟨_, hopen, inner, rfl, hitems⟩
    cases hitems with
    | close hclose => exact .empty hopen hclose
    | item hnext hitem h =>
      cases hnext
      exact .items hopen (Spelling.spells_string.1 hitem) (items_string_iff.1 h)
  · intro h
    cases h with
    | empty hopen hclose => exact ⟨_, hopen, _, rfl, .close hclose⟩
    | items hopen hitem h =>
      exact ⟨_, hopen, _, rfl,
        .item (.first _) (Spelling.spells_string.2 hitem) (items_string_iff.2 h)⟩

/-- A reader of arrays of strings gives a list if the text spells it, and only then. -/
theorem run_list_string_iff {text : String} :
    (Reader.list Reader.string).run text = .ok l ↔ Spells text l := by
  simp only [accepts_string.list.run, Spelling.Whole, Spells, spells_list_string_iff]

/-- A text spells no more than one list. -/
theorem Spells.unique {text : String} {l l' : List String} (h : Spells text l)
    (h' : Spells text l') : l = l' :=
  Except.ok.inj ((run_list_string_iff.2 h).symm.trans (run_list_string_iff.2 h'))

end RepoAtlas.Json
