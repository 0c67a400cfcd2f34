import RepoAtlas.Proofs.Json.Numbers
import RepoAtlas.Proofs.Json.Strings

/-!
# Values on several lines are read back

A reader reads a value back (`Reads`), if it gives the same from its text at any
depth, behind any space and before whatever can follow a value on several lines
(`Ends`). So do the readers of strings and numbers, and with those of its parts
the readers of an optional value (`Reads.some`), of an array (`Reads.list`) and
of an object (`Reads.record`), whose fields lead from one draft to the next
(`Leads`).
-/

namespace RepoAtlas.Json

open Reader Value

/-! ### Space -/

theorem skipSpace_of_not {c : Char} (h : isSpace c = false) (cs : List Char) :
    skipSpace (c :: cs) = c :: cs := by
  simp [skipSpace, h]

/-- The space of a new line is skipped. -/
theorem skipSpace_lineAt (depth : Nat) (cs : List Char) :
    skipSpace (lineAt depth ++ cs) = skipSpace cs := by
  have hblanks (n : Nat) : skipSpace (List.replicate n ' ' ++ cs) = skipSpace cs := by
    induction n with
    | zero => rfl
    | succ n ih => exact ih
  exact hblanks (2 * depth)

/-- What follows a value on several lines: the next one, the end of what it is
    in, or nothing. -/
def Ends (rest : List Char) : Prop := ∀ c ∈ rest.head?, c = ',' ∨ c = '\n'

theorem Ends.stopsNumber {rest : List Char} (h : Ends rest) : StopsNumber rest := by
  intro c hc
  obtain rfl | rfl := h c hc <;> decide

theorem ends_nil : Ends [] := by simp [Ends]

theorem ends_comma (cs : List Char) : Ends (',' :: cs) := by simp [Ends]

theorem ends_lineAt (depth : Nat) (cs : List Char) : Ends (lineAt depth ++ cs) := by
  simp [Ends, lineAt]

/-! ### Reading a value back -/

/-- Whether a text opens a value: it begins with no space, and ends no array. -/
def Opens (cs : List Char) : Prop := ∃ c rest, cs = c :: rest ∧ isSpace c = false ∧ c ≠ ']'

/-- Whether a reader reads a value back. -/
structure Reads {α : Type} (r : Reader α) (v : Value) (a : α) : Prop where
  opens : ∀ depth, Opens (v.prettyChars depth)
  /-- The space in front is skipped, and what follows is left. -/
  read : ∀ {depth : Nat} {cs rest : List Char}, Ends rest →
    skipSpace cs = v.prettyChars depth ++ rest → r cs = .ok (a, rest)

section Reads

variable {α β : Type} {r : Reader α} {v : Value} {a : α}

/-- The space in front of a value is skipped up to it. -/
theorem Opens.skipSpace_append {cs : List Char} (h : Opens cs) (rest : List Char) :
    skipSpace (cs ++ rest) = cs ++ rest := by
  obtain ⟨c, tail, rfl, hspace, -⟩ := h
  exact skipSpace_of_not hspace _

/-- What is made of what is read is made of the value read back. -/
theorem Reads.map (h : Reads r v a) (f : α → β) :
    Reads (fun cs => do let (a, rest) ← r cs; return (f a, rest)) v (f a) where
  opens := h.opens
  read hrest hcs := by rw [h.read hrest hcs]; rfl

theorem reads_string (s : String) : Reads Reader.string (.string s) s where
  opens _ := ⟨'"', _, rfl, rfl, by decide⟩
  read {depth cs rest} _ hcs := by
    rw [prettyChars, written_append] at hcs
    rw [Reader.string, hcs]
    exact stringBody_written s rest

theorem reads_natural {n : Nat} (hn : n ≤ word64) :
    Reads Reader.natural (.number (toString n)) n where
  opens _ := by
    obtain ⟨d, ds, hds, hd, -⟩ := exists_toDigits hn
    have hplain := digitChar_notMem hd
    simp only [List.mem_cons, not_or] at hplain
    refine ⟨d.digitChar, ds, ?_, by simp [isSpace, hplain], by simp [hplain]⟩
    rw [prettyChars, Nat.toString_eq_repr, Nat.toList_repr, hds]
  read hrest hcs := natural_toString hn hrest.stopsNumber hcs

/-! ### Optional values -/

/-- Null is read as nothing. -/
theorem reads_null (r : Reader α) : Reads r.optional .null none where
  opens _ := ⟨'n', _, rfl, rfl, by decide⟩
  read {depth cs rest} _ hcs := by
    rw [Reader.optional, hcs]
    rfl

/-- A value that is not null is read as one. -/
theorem Reads.some (h : Reads r v a) (hn : ∀ depth, (v.prettyChars depth).head? ≠ .some 'n') :
    Reads r.optional v (.some a) where
  opens := h.opens
  read {depth cs rest} hrest hcs := by
    have hread := h.read hrest ((h.opens depth).skipSpace_append rest)
    rw [Reader.optional, hcs]
    split
    next heq =>
      obtain ⟨c, tail, htext, -⟩ := h.opens depth
      rw [htext, List.cons_append, List.cons.injEq] at heq
      exact absurd (by rw [htext, heq.1]; rfl) (hn depth)
    next =>
      rw [hread]
      rfl

end Reads

/-! ### Arrays -/

section Arrays

variable {α : Type} {item : Reader α} {value : α → Value}

/-- The items behind the first, each on its own line. -/
def furtherLines (depth : Nat) (vs : List Value) : List Char :=
  vs.flatMap fun v => ',' :: lineAt depth ++ v.prettyChars depth

theorem prettyItems_cons (depth : Nat) (v : Value) (vs : List Value) :
    prettyItems depth (v :: vs) = v.prettyChars depth ++ furtherLines depth vs := by
  induction vs generalizing v with
  | nil => simp [prettyItems, furtherLines]
  | cons w vs ih =>
    rw [prettyItems, ih w]
    · simp [furtherLines]
    · simp

/-- The first item of an array on several lines comes next. -/
theorem nextItem_first {cs : List Char} (h : Opens cs) (depth : Nat) (rest : List Char) :
    nextItem true (lineAt depth ++ (cs ++ rest)) = .ok (some (cs ++ rest)) := by
  obtain ⟨c, tail, rfl, hspace, hend⟩ := h
  simp [nextItem, skipSpace_lineAt, skipSpace_of_not hspace]

theorem nextItem_further {cs : List Char} (h : Opens cs) (depth : Nat) (rest : List Char) :
    nextItem false (',' :: (lineAt depth ++ (cs ++ rest))) = .ok (some (cs ++ rest)) := by
  obtain ⟨c, tail, rfl, hspace, hend⟩ := h
  have hcomma : isSpace ',' = false := rfl
  simp [nextItem, skipSpace_lineAt, skipSpace_of_not hspace, skipSpace_of_not hcomma, hend]

theorem nextItem_end (first : Bool) (depth : Nat) (rest : List Char) :
    nextItem first (lineAt depth ++ ']' :: rest) = .ok none := by
  rw [nextItem, skipSpace_lineAt, skipSpace_of_not (by decide)]
  rfl

/-- What stands behind the items of an array ends each of them. -/
theorem ends_furtherLines (k depth : Nat) (vs : List Value) (rest : List Char) :
    Ends (furtherLines k vs ++ (lineAt depth ++ rest)) := by
  cases vs with
  | nil => exact ends_lineAt depth rest
  | cons v vs => exact ends_comma _

/-- An item that comes next is read back. -/
theorem items_item {v : Value} {a : α} (h : Reads item v a) {first : Bool} {fuel k : Nat}
    {cs behind : List Char} (hbehind : Ends behind)
    (hnext : nextItem first cs = .ok (some (v.prettyChars k ++ behind))) :
    items item (fuel + 1) first cs =
      (items item fuel false behind).map fun (as, cs) => (a :: as, cs) := by
  have hread : item (v.prettyChars k ++ behind) = .ok (a, behind) :=
    h.read hbehind ((h.opens k).skipSpace_append behind)
  simp only [items, hnext, bind, Except.bind, hread]
  cases items item fuel false behind <;> rfl

/-- The items behind the first are read back. -/
theorem items_furtherLines {l : List α} (h : ∀ a ∈ l, Reads item (value a) a) {fuel : Nat}
    (hfuel : l.length < fuel) (k depth : Nat) (rest : List Char) :
    items item fuel false (furtherLines k (l.map value) ++ (lineAt depth ++ ']' :: rest)) =
      .ok (l, lineAt depth ++ ']' :: rest) := by
  induction l generalizing fuel with
  | nil =>
    obtain ⟨n, rfl⟩ := Nat.exists_eq_add_one_of_ne_zero (Nat.ne_of_gt hfuel)
    simp only [List.map_nil, furtherLines, List.flatMap_nil, List.nil_append, items,
      nextItem_end]
    rfl
  | cons a l ih =>
    obtain ⟨n, rfl⟩ := Nat.exists_eq_add_one_of_ne_zero (Nat.ne_of_gt (Nat.zero_lt_of_lt hfuel))
    have ha : Reads item (value a) a := h a List.mem_cons_self
    have htext : furtherLines k ((a :: l).map value) ++ (lineAt depth ++ ']' :: rest) =
        ',' :: (lineAt k ++ ((value a).prettyChars k ++
          (furtherLines k (l.map value) ++ (lineAt depth ++ ']' :: rest)))) := by
      simp [furtherLines]
    rw [htext, items_item ha (ends_furtherLines _ _ _ _) (nextItem_further (ha.opens k) ..),
      ih (fun b hb => h b (List.mem_cons_of_mem _ hb)) (Nat.lt_of_succ_lt_succ hfuel)]
    rfl

/-- An array is read back, if its items are. -/
theorem Reads.list {l : List α} (h : ∀ a ∈ l, Reads item (value a) a) :
    Reads (Reader.list item) (.array (l.map value)) l where
  opens depth := by cases l <;> exact ⟨'[', _, rfl, rfl, by decide⟩
  read {depth cs rest} _ hcs := by
    cases l with
    | nil =>
      rw [Reader.list, hcs]
      rfl
    | cons a l =>
      have ha : Reads item (value a) a := h a List.mem_cons_self
      set k := depth + 1
      set behind := furtherLines k (l.map value) ++ (lineAt depth ++ ']' :: rest) with hbehind
      have htext : (Value.array ((a :: l).map value)).prettyChars depth ++ rest =
          '[' :: (lineAt k ++ ((value a).prettyChars k ++ behind)) := by
        rw [List.map_cons, prettyChars, prettyItems_cons]
        simp [hbehind, k]
      -- The length of the text bounds the steps, and every item takes one at least.
      have hlength : l.length < (lineAt k ++ ((value a).prettyChars k ++ behind)).length := by
        have hfurther : (l.map value).length ≤ (furtherLines k (l.map value)).length :=
          length_le_length_flatMap (fun _ => List.cons_ne_nil _ _) _
        simp only [List.length_map] at hfurther
        simp only [hbehind, lineAt, List.length_append, List.length_cons]
        omega
      have hend : endArray (lineAt depth ++ ']' :: rest) = .ok rest := by
        rw [endArray, skipSpace_lineAt]
        rfl
      rw [Reader.list, hcs, htext]
      simp only [bind, Except.bind]
      rw [items_item ha (ends_furtherLines _ _ _ _) (nextItem_first (ha.opens k) _ _),
        items_furtherLines (fun b hb => h b (List.mem_cons_of_mem _ hb)) hlength]
      simp only [Except.map, hend]
      rfl

end Arrays

/-! ### Objects -/

section Objects

variable {δ : Type} (f : Reader.Fields δ)

/-- Whether fields, read one after the other, lead from a draft to another. None
    of them is there already when it is read. -/
inductive Leads : List (String × Value) → δ → δ → Prop
  | refl (d : δ) : Leads [] d d
  | field {name : String} {v : Value} {fields : List (String × Value)} {d d' d'' : δ} :
    name ∈ f.names → f.has d name = false → Reads (f.read name d) v d' → Leads fields d' d'' →
      Leads ((name, v) :: fields) d d''

variable {f}

/-- A field on its line. -/
def fieldLine (depth : Nat) (field : String × Value) : List Char :=
  written field.1 ++ ':' :: ' ' :: field.2.prettyChars depth

/-- The fields behind the first, each on its own line. -/
def furtherFields (depth : Nat) (fields : List (String × Value)) : List Char :=
  fields.flatMap fun field => ',' :: lineAt depth ++ fieldLine depth field

theorem prettyFields_cons (depth : Nat) (field : String × Value)
    (fields : List (String × Value)) :
    prettyFields depth (field :: fields) = fieldLine depth field ++ furtherFields depth fields := by
  induction fields generalizing field with
  | nil => simp [prettyFields, fieldLine, furtherFields]
  | cons g fields ih =>
    rw [prettyFields, ih g]
    · simp [fieldLine, furtherFields]
    · simp

/-- The key of the first field of an object on several lines comes next. -/
theorem nextKey_first (name : String) (k : Nat) (cs : List Char) :
    nextKey true (lineAt k ++ (written name ++ cs)) = .ok (some (name, cs)) := by
  have hquote : isSpace '"' = false := rfl
  simp [nextKey, skipSpace_lineAt, written_append, skipSpace_of_not hquote, stringBody_written,
    Except.map]

theorem nextKey_further (name : String) (k : Nat) (cs : List Char) :
    nextKey false (',' :: (lineAt k ++ (written name ++ cs))) = .ok (some (name, cs)) := by
  have hquote : isSpace '"' = false := rfl
  have hcomma : isSpace ',' = false := rfl
  simp [nextKey, skipSpace_lineAt, written_append, skipSpace_of_not hquote,
    skipSpace_of_not hcomma, stringBody_written, Except.map]

theorem nextKey_end (first : Bool) (depth : Nat) (rest : List Char) :
    nextKey first (lineAt depth ++ '}' :: rest) = .ok none := by
  rw [nextKey, skipSpace_lineAt, skipSpace_of_not (by decide)]
  rfl

theorem ends_furtherFields (k depth : Nat) (fields : List (String × Value)) (rest : List Char) :
    Ends (furtherFields k fields ++ (lineAt depth ++ rest)) := by
  cases fields with
  | nil => exact ends_lineAt depth rest
  | cons field fields => exact ends_comma _

/-- A field that comes next is read into the draft. -/
theorem namedFields_field {name : String} {v : Value} {d d' : δ} (hname : name ∈ f.names)
    (hhas : f.has d name = false) (h : Reads (f.read name d) v d') {first : Bool} {fuel k : Nat}
    {cs behind : List Char} (hbehind : Ends behind)
    (hnext : nextKey first cs = .ok (some (name, ':' :: ' ' :: (v.prettyChars k ++ behind)))) :
    namedFields f (fuel + 1) first d cs = namedFields f fuel false d' behind := by
  have hskip : skipSpace (' ' :: (v.prettyChars k ++ behind)) = v.prettyChars k ++ behind :=
    (h.opens k).skipSpace_append behind
  have hcolon : colon (':' :: ' ' :: (v.prettyChars k ++ behind)) =
      .ok (' ' :: (v.prettyChars k ++ behind)) := rfl
  simp only [namedFields, hnext, bind, Except.bind, List.contains_iff_mem.2 hname, hhas, hcolon,
    h.read hbehind hskip]
  rfl

/-- The fields behind the first are read. -/
theorem namedFields_furtherFields {fields : List (String × Value)} {d d' : δ}
    (h : Leads f fields d d') {fuel : Nat} (hfuel : fields.length < fuel) (k depth : Nat)
    (rest : List Char) :
    namedFields f fuel false d (furtherFields k fields ++ (lineAt depth ++ '}' :: rest)) =
      .ok (d', lineAt depth ++ '}' :: rest) := by
  induction h generalizing fuel with
  | refl d =>
    obtain ⟨n, rfl⟩ := Nat.exists_eq_add_one_of_ne_zero (Nat.ne_of_gt hfuel)
    simp only [furtherFields, List.flatMap_nil, List.nil_append, namedFields, nextKey_end]
    rfl
  | @field name v fields d d' d'' hname hhas hread hleads ih =>
    obtain ⟨n, rfl⟩ := Nat.exists_eq_add_one_of_ne_zero (Nat.ne_of_gt (Nat.zero_lt_of_lt hfuel))
    have htext : furtherFields k ((name, v) :: fields) ++ (lineAt depth ++ '}' :: rest) =
        ',' :: (lineAt k ++ (written name ++ (':' :: ' ' :: (v.prettyChars k ++
          (furtherFields k fields ++ (lineAt depth ++ '}' :: rest)))))) := by
      simp [furtherFields, fieldLine]
    rw [htext, namedFields_field hname hhas hread (ends_furtherFields _ _ _ _) (nextKey_further ..)]
    exact ih (Nat.lt_of_succ_lt_succ hfuel)

/-- An object is read to its end, if its fields are and nothing that is required
    is missing. -/
theorem record_of_namedFields {d : δ} {cs body left rest : List Char}
    (hcs : skipSpace cs = '{' :: body)
    (hfields : namedFields f (body.length + 1) true f.blank body = .ok (d, left))
    (hall : ∀ name ∈ f.names, f.required name = true → f.has d name = true)
    (hleft : skipSpace left = '}' :: rest) : Reader.record f cs = .ok (d, rest) := by
  have hnone : (f.names.find? fun name => f.required name && !f.has d name) = none := by
    simpa using hall
  rw [Reader.record, hcs]
  simp only [bind, Except.bind, hfields, hnone, hleft]
  rfl

/-- An object is read back, if its fields lead to a draft in which nothing that
    is required is missing. -/
theorem Reads.record {fields : List (String × Value)} {d : δ} (h : Leads f fields f.blank d)
    (hall : ∀ name ∈ f.names, f.required name = true → f.has d name = true) :
    Reads (Reader.record f) (.object fields) d where
  opens depth := by cases fields <;> exact ⟨'{', _, rfl, rfl, by decide⟩
  read {depth cs rest} _ hcs := by
    cases h with
    | refl => exact record_of_namedFields hcs rfl hall rfl
    | @field name v fields _ d' _ hname hhas hread hleads =>
      set k := depth + 1
      set behind := furtherFields k fields ++ (lineAt depth ++ '}' :: rest) with hbehind
      set body := lineAt k ++ (written name ++ (':' :: ' ' :: (v.prettyChars k ++ behind)))
        with hbody
      have htext : (Value.object ((name, v) :: fields)).prettyChars depth ++ rest =
          '{' :: body := by
        rw [prettyChars, prettyFields_cons]
        simp [fieldLine, hbody, hbehind, k]
      have hlength : fields.length < body.length := by
        have hfurther : fields.length ≤ (furtherFields k fields).length :=
          length_le_length_flatMap (fun _ => List.cons_ne_nil _ _) _
        simp only [hbody, hbehind, List.length_append, List.length_cons]
        omega
      refine record_of_namedFields (hcs.trans htext) ?_ hall
        ((skipSpace_lineAt depth _).trans (skipSpace_of_not rfl rest))
      rw [namedFields_field hname hhas hread (ends_furtherFields _ _ _ _) (nextKey_first _ _ _)]
      exact namedFields_furtherFields hleads hlength k depth rest

end Objects

/-! ### Whole texts -/

/-- The text of a value is read back. -/
theorem Reads.run {α : Type} {r : Reader α} {v : Value} {a : α} (h : Reads r v a) :
    r.run v.pretty = .ok a := by
  have hread : r (v.prettyChars 0) = .ok (a, []) := by
    have hskip := (h.opens 0).skipSpace_append []
    exact h.read ends_nil (by simpa using hskip)
  rw [Reader.run, Value.pretty, String.toList_ofList, hread]
  rfl

end RepoAtlas.Json
