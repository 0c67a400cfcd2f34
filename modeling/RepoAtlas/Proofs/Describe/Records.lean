import RepoAtlas.Describe.Completion
import RepoAtlas.Proofs.Json.Spelling

/-!
# Objects with one field of interest

How an object is written of which a single field is of interest (`Spelling.record`): the
field stands anywhere among others of other names, no more than once, and all the others
are skipped. The object may also be written as an array of its fields. The reader of such
objects reads this and nothing else (`Accepts.record`).
-/

namespace RepoAtlas.Completion

open Json

variable {α : Type}

/-- A field of such an object: the one of interest, or another one. -/
inductive FieldOf (name : String) (S : Spelling α) :
    String → List Char → Option α → List Char → Prop where
  | named {cs rest : List Char} {a : α} (h : S.Spells cs a rest) :
    FieldOf name S name cs (some a) rest
  | other {key : String} {cs rest : List Char} (hkey : key ≠ name) (h : Spans .value cs rest) :
    FieldOf name S key cs none rest

/-- Such an object. The field may be missing unless it must be there. -/
inductive WritesRecord (must : Bool) (name : String) (S : Spelling α) :
    List Char → Option α → List Char → Prop where
  | object {inner rest : List Char} {fields : List (String × Option α)} {o : Option α}
    (h : Members (FieldOf name S) true inner fields rest)
    (hone : fields.filterMap (·.2) = o.toList) (hmust : must = true → o.isSome = true) :
    WritesRecord must name S ('\x7b' :: inner) o rest
  | array {inner more rest : List Char} {a : α} (h : S.Spells inner a more)
    (hclose : Spaced more (']' :: rest)) : WritesRecord must name S ('[' :: inner) (some a) rest
  | empty {inner rest : List Char} (hmust : must = false) (hclose : Spaced inner (']' :: rest)) :
    WritesRecord must name S ('[' :: inner) none rest

variable {name key : String} {must : Bool} {S : Spelling α} {cs rest mid : List Char}
  {o draft : Option α} {fuel : Nat} {first : Bool}

/-- A field ends no earlier than it begins. -/
theorem FieldOf.length_le (h : FieldOf name S key cs o rest) : rest.length ≤ cs.length := by
  cases h with
  | named h => exact Nat.le_of_lt h.length_lt
  | other _ h => exact h.length_le

/-- A record takes at least one character. -/
theorem WritesRecord.length_lt (h : WritesRecord must name S cs o rest) :
    rest.length < cs.length := by
  cases h with
  | object h =>
    exact Nat.lt_succ_of_lt (h.length_lt fun _ _ _ _ h => h.length_le)
  | array h hclose =>
    have hlt := h.length_lt
    have hle := hclose.suffix.length_le
    simp only [List.length_cons] at hle ⊢
    omega
  | empty _ hclose => exact Nat.lt_succ_of_lt hclose.suffix.length_le

/-- Objects of which a single field is of interest. -/
def record (must : Bool) (name : String) (S : Spelling α) : Spelling (Option α) where
  Writes := WritesRecord must name S
  starts := by
    rintro _ _ _ (_ | _ | _)
    · exact ⟨_, _, rfl, by decide, by decide⟩
    · exact ⟨_, _, rfl, by decide, by decide⟩
    · exact ⟨_, _, rfl, by decide, by decide⟩
  length_lt := WritesRecord.length_lt

/-! ### What is read -/

variable {r : Reader α} {type : String}

/-- What is read of an object is written by its members, of which one at most sets the
    field. -/
theorem namedFields_sound (hr : Accepts r S)
    (h : Reader.namedFields (oneField type name must r) fuel first draft cs = .ok (o, mid))
    (hclose : Spaced mid ('\x7d' :: rest)) :
    ∃ fields, Members (FieldOf name S) first cs fields rest ∧
      draft.toList ++ fields.filterMap (·.2) = o.toList := by
  induction fuel generalizing first draft cs with
  | zero => cases h
  | succ fuel ih =>
    obtain ⟨found, hfound, h⟩ := exists_of_bind h
    cases found with
    | none =>
      cases h
      exact ⟨[], .close hclose, List.append_nil _⟩
    | some found =>
      obtain ⟨key, more⟩ := found
      obtain ⟨next, hnext, hkey⟩ := exists_next_of_nextKey hfound
      dsimp only at h
      split at h
      · rename_i hname
        obtain rfl : key = name := by simpa [oneField] using hname
        split at h
        · cases h
        · rename_i hhas
          obtain rfl : draft = none := by simpa [oneField] using hhas
          obtain ⟨value, hcolon, h⟩ := exists_of_bind h
          obtain ⟨⟨d, left⟩, hread, h⟩ := exists_of_bind h
          obtain ⟨⟨a, behind⟩, ha, hread⟩ := exists_of_bind hread
          cases hread
          obtain ⟨fields, hfields, ho⟩ := ih h
          have hnamed : FieldOf key S key value (some a) left := .named ((hr _ _ _).1 ha)
          exact ⟨_, .member hnext hkey (colon_eq_ok_iff.1 hcolon) hnamed hfields, ho⟩
      · rename_i hname
        obtain ⟨value, hcolon, h⟩ := exists_of_bind h
        obtain ⟨left, hskip, h⟩ := exists_of_bind h
        obtain ⟨fields, hfields, ho⟩ := ih h
        have hother : key ≠ name := by simpa [oneField] using hname
        exact ⟨_, .member hnext hkey (colon_eq_ok_iff.1 hcolon)
          (.other hother (skipValue_eq_ok_iff.1 hskip)) hfields, ho⟩

/-- Members of which one at most sets the field are read as an object. -/
theorem namedFields_complete (type : String) (must : Bool) (hr : Accepts r S)
    {fields : List (String × Option α)}
    (h : Members (FieldOf name S) first cs fields rest)
    (ho : draft.toList ++ fields.filterMap (·.2) = o.toList) (hfuel : cs.length < fuel) :
    ∃ mid, Reader.namedFields (oneField type name must r) fuel first draft cs = .ok (o, mid) ∧
      Spaced mid ('\x7d' :: rest) := by
  induction h generalizing draft fuel with
  | @close first cs rest hclose =>
    obtain ⟨fuel, rfl⟩ := Nat.exists_eq_add_one_of_ne_zero (Nat.ne_of_gt (Nat.zero_lt_of_lt hfuel))
    refine ⟨cs, ?_, hclose⟩
    have hdraft : draft = o := by
      rw [List.filterMap_nil, List.append_nil] at ho
      cases draft <;> cases o <;> simp_all
    rw [Reader.namedFields, nextKey_of_close hclose, hdraft]
    rfl
  | @member first cs next more value left rest key b l hnext hkey hcolon hvalue _ ih =>
    obtain ⟨fuel, rfl⟩ := Nat.exists_eq_add_one_of_ne_zero (Nat.ne_of_gt (Nat.zero_lt_of_lt hfuel))
    have hshort : left.length < fuel := by
      have hnext' := hnext.length_le
      have hkey' := hkey.length_lt
      have hcolon' := hcolon.suffix.length_le
      have hvalue' := hvalue.length_le
      rw [List.length_cons] at hcolon'
      omega
    rw [Reader.namedFields, nextKey_of_next hnext hkey]
    cases hvalue with
    | @named _ _ a hspells =>
      have hdraft : draft = none := by
        have hlength := congrArg List.length ho
        cases draft with
        | none => rfl
        | some d => cases o <;> simp at hlength
      subst hdraft
      have ho' : (some a).toList ++ l.filterMap (·.2) = o.toList := ho
      obtain ⟨mid, hread, hclose⟩ := ih ho' hshort
      refine ⟨mid, ?_, hclose⟩
      simp only [bind, Except.bind, oneField, List.contains_cons, beq_self_eq_true, Bool.true_or,
        if_true, Option.isSome_none, Bool.false_eq_true, if_false, colon_eq_ok_iff.2 hcolon,
        (hr _ _ _).2 hspells]
      exact hread
    | other hother hskip =>
      obtain ⟨mid, hread, hclose⟩ := ih ho hshort
      refine ⟨mid, ?_, hclose⟩
      have hname : [name].contains key = false := by simpa using hother
      simp only [bind, Except.bind, oneField, hname, Bool.false_eq_true, if_false,
        colon_eq_ok_iff.2 hcolon, skipValue_eq_ok_iff.2 hskip]
      exact hread

theorem oneField_names : (oneField type name must r).names = [name] := rfl

theorem oneField_blank : (oneField type name must r).blank = none := rfl

/-- Whether the field is missing although it must be there. -/
theorem find?_oneField :
    ((oneField type name must r).names.find? fun field =>
        (oneField type name must r).required field && !(oneField type name must r).has o field) =
      none ↔ (must = true → o.isSome = true) := by
  cases must <;> cases o <;> simp [oneField]

/-- A record written as an array is read by the order of its values. -/
theorem orderedFields_eq_ok_iff (type : String) (hr : Accepts r S) :
    (∃ mid, Reader.orderedFields (oneField type name must r) [name] 0 none cs = .ok (o, mid) ∧
      Spaced mid (']' :: rest)) ↔ WritesRecord must name S ('[' :: cs) o rest := by
  constructor
  · rintro ⟨mid, h, hclose⟩
    obtain ⟨found, hfound, h⟩ := exists_of_bind h
    cases found with
    | none =>
      dsimp only at h
      split at h
      · cases h
      · rename_i hmust
        cases h
        exact .empty (Bool.eq_false_iff.2 hmust) hclose
    | some start =>
      obtain ⟨⟨d, more⟩, hread, h⟩ := exists_of_bind h
      obtain ⟨⟨a, more⟩, ha, hread⟩ := exists_of_bind hread
      cases hread
      cases h
      obtain ⟨next, hnext, rfl⟩ := exists_next_of_nextItem hfound
      cases hnext
      exact .array (Spelling.spells_skipSpace.1 ((hr _ _ _).1 ha)) hclose
  · intro h
    cases h with
    | @array _ more _ a hspells hclose =>
      obtain ⟨hstart, hread⟩ := hr.at_next (.first cs) hspells
      refine ⟨more, ?_, hclose⟩
      simp only [Reader.orderedFields, beq_self_eq_true, hstart, bind, Except.bind, oneField, hread]
      rfl
    | empty hmust hclose =>
      refine ⟨cs, ?_, hclose⟩
      simp only [Reader.orderedFields, beq_self_eq_true, nextItem_of_close hclose, bind,
        Except.bind, oneField, hmust, Bool.false_eq_true, if_false]

/-- A record of one field is read exactly as it is written, as an object or as an array. -/
theorem accepts_record (hr : Accepts r S) :
    Accepts (Reader.record (oneField type name must r)) (record must name S) := by
  intro cs o rest
  rw [Spelling.spells_iff]
  constructor
  · intro h
    unfold Reader.record at h
    split at h
    · cases h
    · rename_i inner hopen
      rw [hopen]
      obtain ⟨⟨d, mid⟩, hfields, h⟩ := exists_of_bind h
      dsimp only at h
      split at h
      · cases h
      · rename_i hfind
        split at h
        · rename_i hclose
          cases h
          rw [skipSpace_eq_cons_iff (by decide)] at hclose
          obtain ⟨fields, hmembers, ho⟩ := namedFields_sound hr hfields hclose
          exact .object hmembers ho (find?_oneField.1 hfind)
        · cases h
    · rename_i inner hopen
      rw [hopen]
      obtain ⟨⟨d, mid⟩, hfields, h⟩ := exists_of_bind h
      obtain ⟨left, hend, h⟩ := exists_of_bind h
      cases h
      exact (orderedFields_eq_ok_iff type hr).1 ⟨mid, hfields, endArray_eq_ok_iff.1 hend⟩
    · cases h
  · intro h
    rw [Reader.record]
    generalize skipSpace cs = start at h
    have hwrites := h
    cases h with
    | object hmembers hone hmust =>
      have ho : (none : Option α).toList ++ _ = o.toList := hone
      obtain ⟨mid, hread, hclose⟩ :=
        namedFields_complete type must hr hmembers ho (Nat.lt_succ_self _)
      simp only [bind, Except.bind, oneField_blank, hread, find?_oneField.2 hmust,
        (skipSpace_eq_cons_iff (show isSpace '\x7d' = false by decide)).2 hclose]
      rfl
    | array | empty =>
      obtain ⟨mid, hread, hclose⟩ := (orderedFields_eq_ok_iff type hr).2 hwrites
      simp only [bind, Except.bind, oneField_names, oneField_blank, hread,
        endArray_eq_ok_iff.2 hclose]
      rfl

/-- A field that must be there is there. -/
theorem yields_required (hr : Accepts r S) :
    Yields (Reader.record (oneField type name true r)) fun o => o.isSome = true := by
  intro cs o rest h
  obtain ⟨start, -, hwrites⟩ := (accepts_record hr cs o rest).1 h
  cases hwrites with
  | object _ _ hmust => exact hmust rfl
  | array => rfl
  | empty hmust => cases hmust

/-- What holds of every value that is read holds of the one in the field. -/
theorem yields_oneField {P : α → Prop} (h : Yields r P) :
    Yields (Reader.record (oneField type name must r)) fun o => ∀ a ∈ o, P a := by
  refine yields_record (by simp [oneField_blank]) fun _ _ _ cs o rest hread => ?_
  obtain ⟨⟨a, more⟩, ha, hread⟩ := exists_of_bind hread
  cases hread
  rintro _ ⟨⟩
  exact h ha

end RepoAtlas.Completion
