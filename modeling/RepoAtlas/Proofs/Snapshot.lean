import RepoAtlas.Proofs.Json.Pretty
import RepoAtlas.Proofs.Json.Yields
import RepoAtlas.Snapshot

/-!
# Snapshots give the records back

The text of a snapshot is read as the records it was written from, whatever they
are, as long as their depths have 64 bits (`records_text`). Records that were
read have such depths (`depth_le_of_records`), so what a text gives, its own
snapshot gives again (`round_trip`).
-/

namespace RepoAtlas.Snapshot

open Json

/-! ### Drafts -/

section Drafts

variable {α β : Type} {f : Reader.Fields (Draft α)}

/-- Whether fields turn a value into another, whichever fields were read before
    them. -/
inductive Turns (f : Reader.Fields (Draft α)) : List (String × Value) → α → α → Prop
  | refl (a : α) : Turns f [] a a
  | field {name : String} {v : Value} {fields : List (String × Value)} {a b c : α} :
    name ∈ f.names → (∀ seen, Reads (f.read name ⟨a, seen⟩) v ⟨b, name :: seen⟩) →
      Turns f fields b c → Turns f ((name, v) :: fields) a c

theorem Turns.append {l l' : List (String × Value)} {a b c : α} (h : Turns f l a b)
    (h' : Turns f l' b c) : Turns f (l ++ l') a c := by
  induction h with
  | refl => exact h'
  | field hname hread _ ih => exact .field hname hread (ih h')

/-- A field that is put into the draft. -/
theorem Turns.put {name : String} (set : α → β → α) {value : Reader β} {v : Value} {a c : α}
    {b : β} {fields : List (String × Value)} (h : Reads value v b)
    (hput : ∀ d, f.read name d = d.put name set value) (hname : name ∈ f.names)
    (hrest : Turns f fields (set a b) c) : Turns f ((name, v) :: fields) a c :=
  .field hname (fun seen => hput ⟨a, seen⟩ ▸ h.map fun b => (⟨set a b, name :: seen⟩ : Draft α))
    hrest

/-- A field that is put into the draft unless it is absent, where absent is what
    there is already. -/
theorem Turns.put? (name : String) (set : α → Option β → α) (o : Option β)
    {value : Reader (Option β)} {toValue : β → Value} {fields : List (String × Value)} {a c : α}
    (hfields : Turns f fields a c) (h : ∀ b, Reads value (toValue b) (some b))
    (hput : ∀ d, f.read name d = d.put name set value) (hname : name ∈ f.names)
    (hnone : set c none = c) : Turns f (fields ++ field? name toValue o) a (set c o) := by
  refine hfields.append ?_
  cases o with
  | none =>
    rw [hnone]
    exact .refl c
  | some b => exact .put set (h b) hput hname (.refl _)

/-- Fields of different names lead from draft to draft. -/
theorem Turns.leads {fields : List (String × Value)} {a b : α} (h : Turns f fields a b)
    (hhas : ∀ d name, f.has d name = d.seen.contains name) (seen : List String)
    (hnodup : (fields.map (·.1)).Nodup) (hseen : ∀ name ∈ fields.map (·.1), name ∉ seen) :
    Leads f fields ⟨a, seen⟩ ⟨b, (fields.map (·.1)).reverse ++ seen⟩ := by
  induction h generalizing seen with
  | refl a => exact .refl _
  | @field name v fields a b c hname hread _ ih =>
    rw [List.map_cons, List.nodup_cons] at hnodup
    have hfresh : name ∉ seen := hseen name (by simp)
    refine .field hname (by simpa [hhas] using hfresh) (hread seen) ?_
    simp only [List.map_cons, List.reverse_cons, List.append_assoc, List.singleton_append]
    refine ih _ hnodup.2 fun other hother => ?_
    rw [List.mem_cons, not_or]
    exact ⟨fun h => hnodup.1 (h ▸ hother), hseen other (by simp [hother])⟩

end Drafts

/-! ### Fields -/

theorem reads_strings (l : List String) : Reads (.list .string) (.strings l) l :=
  Reads.list fun s _ => reads_string s

theorem reads_kind (k : Kind) : Reads kind (.string (kindName k)) k where
  opens _ := ⟨'"', _, rfl, rfl, by decide⟩
  read {depth cs rest} _ hcs := by
    rw [Value.prettyChars, written_append] at hcs
    rw [kind, hcs]
    simp only [stringBody_written, bind, Except.bind]
    cases k <;> rfl

/-- A type is read back. -/
theorem reads_typeOutline (t : TypeOutline) : Reads typeOutline (typeValue t) t := by
  have hturns : Turns typeFields [("name", .string t.name), ("members", .strings t.members)]
      ⟨"", []⟩ t := by
    refine .put (fun t s => { t with name := s }) (reads_string t.name) (fun _ => rfl)
      (by decide) ?_
    refine .put (fun t l => { t with members := l }) (reads_strings t.members) (fun _ => rfl)
      (by decide) ?_
    exact .refl _
  have hleads := hturns.leads (fun _ _ => rfl) [] (by simp) (by simp)
  exact (Reads.record hleads (by simp [typeFields])).map (·.value)

/-! ### Records -/

theorem reads_optional_string (s : String) :
    Reads (.optional .string) (.string s) (some s) :=
  (reads_string s).some fun _ => by simp [Value.prettyChars, written]

theorem head?_array (vs : List Value) (depth : Nat) :
    ((Value.array vs).prettyChars depth).head? = some '[' := by
  cases vs <;> rfl

theorem reads_optional_strings (l : List String) :
    Reads (.optional (.list .string)) (.strings l) (some l) :=
  (reads_strings l).some fun depth => by simp [Value.strings, head?_array]

theorem reads_optional_types (ts : List TypeOutline) :
    Reads (.optional (.list typeOutline)) (.array (ts.map typeValue)) (some ts) :=
  (Reads.list fun t _ => reads_typeOutline t).some fun depth => by simp [head?_array]

theorem reads_language (o : Option String) :
    Reads (.optional .string) ((o.map Value.string).getD .null) o := by
  cases o with
  | none => exact reads_null _
  | some s => exact reads_optional_string s

/-- The fields of a record turn the blank one into it. -/
theorem turns_fieldsOf {r : Record} (hdepth : r.depth ≤ word64) :
    Turns recordFields (fieldsOf r) recordFields.blank.value r := by
  have hhead : Turns recordFields
      [ ("name", .string r.name), ("path", .string r.path),
        ("depth", .number (toString r.depth)), ("kind", .string (kindName r.kind)),
        ("language", (r.language.map Value.string).getD .null)] recordFields.blank.value
      { name := r.name, path := r.path, depth := r.depth, kind := r.kind,
        language := r.language } := by
    refine .put (fun r s => { r with name := s }) (reads_string r.name) (fun _ => rfl)
      (by decide) ?_
    refine .put (fun r s => { r with path := s }) (reads_string r.path) (fun _ => rfl)
      (by decide) ?_
    refine .put (fun r n => { r with depth := n }) (reads_natural hdepth) (fun _ => rfl)
      (by decide) ?_
    refine .put (fun r k => { r with kind := k }) (reads_kind r.kind) (fun _ => rfl)
      (by decide) ?_
    refine .put (fun r o => { r with language := o }) (reads_language r.language) (fun _ => rfl)
      (by decide) ?_
    exact .refl _
  have hhash := hhead.put? "content_hash" (fun r o => { r with contentHash := o }) r.contentHash
    reads_optional_string (fun _ => rfl) (by decide) rfl
  have htypes := hhash.put? "declared_types" (fun r o => { r with types := o }) r.types
    reads_optional_types (fun _ => rfl) (by decide) rfl
  have hfunctions := htypes.put? "functions" (fun r o => { r with functions := o }) r.functions
    reads_optional_strings (fun _ => rfl) (by decide) rfl
  have hconstants := hfunctions.put? "constants" (fun r o => { r with constants := o })
    r.constants reads_optional_strings (fun _ => rfl) (by decide) rfl
  have himports := hconstants.put? "imports" (fun r o => { r with imports := o }) r.imports
    reads_optional_strings (fun _ => rfl) (by decide) rfl
  have hdescription := himports.put? "description" (fun r o => { r with description := o })
    r.description reads_optional_string (fun _ => rfl) (by decide) rfl
  have hconsideration := hdescription.put? "enrichment"
    (fun r o => { r with consideration := o }) r.consideration reads_optional_string
    (fun _ => rfl) (by decide) rfl
  exact hconsideration.put? "enriched_hash" (fun r o => { r with describedHash := o })
    r.describedHash reads_optional_string (fun _ => rfl) (by decide) rfl

theorem names_field?_sublist {β : Type} (name : String) (toValue : β → Value) (o : Option β) :
    ((field? name toValue o).map (·.1)).Sublist [name] := by
  cases o <;> simp [field?]

/-- The fields of a record are among those there can be, in their order. -/
theorem names_fieldsOf_sublist (r : Record) :
    ((fieldsOf r).map (·.1)).Sublist recordFields.names := by
  change List.Sublist _ (["name", "path", "depth", "kind", "language"] ++ ["content_hash"] ++
    ["declared_types"] ++ ["functions"] ++ ["constants"] ++ ["imports"] ++ ["description"] ++
    ["enrichment"] ++ ["enriched_hash"])
  simp only [fieldsOf, List.map_append]
  iterate 8 refine List.Sublist.append ?_ (names_field?_sublist _ _ _)
  exact .refl _

/-- A record is read back. -/
theorem reads_record {r : Record} (hdepth : r.depth ≤ word64) :
    Reads record (recordValue r) r := by
  have hnodup : ((fieldsOf r).map (·.1)).Nodup :=
    (by decide : recordFields.names.Nodup).sublist (names_fieldsOf_sublist r)
  have hleads := (turns_fieldsOf hdepth).leads (fun _ _ => rfl) [] hnodup (by simp)
  refine (Reads.record hleads fun name _ hrequired => ?_).map (·.value)
  have hmem : name ∈ ["name", "path", "depth", "kind"] := List.contains_iff_mem.1 hrequired
  have hfields : name ∈ (fieldsOf r).map (·.1) := by
    refine List.Sublist.subset ?_ hmem
    simp [fieldsOf]
  exact List.contains_iff_mem.2 (List.mem_append_left _ (List.mem_reverse.2 hfields))

/-- A snapshot is read as the records it was written from. -/
theorem records_text {rs : List Record} (h : ∀ r ∈ rs, r.depth ≤ word64) :
    records (text rs) = .ok rs :=
  (Reads.list fun r hr => reads_record (h r hr)).run

/-! ### Records that were read -/

/-- A field that is put into a draft leaves a property that its values keep. -/
theorem yields_put {α β : Type} (P : α → Prop) {Q : β → Prop} {value : Reader β}
    (h : Yields value Q) {d : Draft α} {name : String} {set : α → β → α}
    (hset : ∀ b, Q b → P (set d.value b)) : Yields (d.put name set value) fun d => P d.value := by
  intro cs d' rest hput
  obtain ⟨⟨b, left⟩, hvalue, hput⟩ := exists_of_bind hput
  cases hput
  exact hset b (h hvalue)

/-- A field that is read leaves a depth of 64 bits. -/
theorem yields_read (name : String) {d : Draft Record} (hd : d.value.depth ≤ word64) :
    Yields (recordFields.read name d) fun d => d.value.depth ≤ word64 := by
  have hany {β : Type} (value : Reader β) {set : Record → β → Record}
      (hset : ∀ r b, (set r b).depth = r.depth) :
      Yields (d.put name set value) fun d => d.value.depth ≤ word64 := by
    refine yields_put (fun r : Record => r.depth ≤ word64) (yields_true value) fun b _ => ?_
    rw [hset]
    exact hd
  dsimp only [recordFields]
  refine .ite (hany _ fun _ _ => rfl) ?_
  refine .ite (hany _ fun _ _ => rfl) ?_
  refine .ite (yields_put (fun r : Record => r.depth ≤ word64) yields_natural fun n hn => hn) ?_
  iterate 9 refine .ite (hany _ fun _ _ => rfl) ?_
  exact hany _ fun _ _ => rfl

/-- The depths of records that were read have 64 bits. -/
theorem depth_le_of_records {file : String} {rs : List Record} (h : records file = .ok rs) :
    ∀ r ∈ rs, r.depth ≤ word64 := by
  have hrecord : Yields record fun r => r.depth ≤ word64 := by
    intro cs r rest hr
    obtain ⟨⟨d, left⟩, hfields, hr⟩ := exists_of_bind hr
    cases hr
    exact yields_record (f := recordFields) (Nat.zero_le _)
      (fun name _ hd => yields_read name hd) hfields
  exact hrecord.list.run h

/-- A snapshot gives the records back that it was written from, and so does the
    snapshot of the records that any text gives. -/
theorem round_trip :
    (∀ rs : List Record, (∀ r ∈ rs, r.depth < Nat.pow 2 64) → records (text rs) = .ok rs) ∧
      ∀ (file : String) (rs : List Record), records file = .ok rs →
        records (text rs) = .ok rs := by
  refine ⟨fun rs h => records_text fun r hr => Nat.le_sub_one_of_lt (h r hr), ?_⟩
  intro file rs h
  exact records_text (depth_le_of_records h)

/-- A record with marks in its texts, a field that is absent and one that is
    empty. -/
def marked : Record where
  name := "a \"b\"\n"
  path := "c\\\x01é"
  depth := Nat.pow 2 64 - 1
  kind := .file
  types := some [⟨"T", ["m", ""]⟩]
  functions := some []
  description := some ""

/-- Both parts at once: a snapshot that was written, and a text that was not,
    with the fields in order and without their names. -/
theorem round_trip_marked :
    (∀ r ∈ [marked], r.depth < Nat.pow 2 64) ∧ records (text [marked]) = .ok [marked] ∧
      records "[[\"n\", \"p\", 7, \"file\"]]" =
        .ok [{ name := "n", path := "p", depth := 7, kind := .file }] ∧
      records (text [{ name := "n", path := "p", depth := 7, kind := .file }]) =
        .ok [{ name := "n", path := "p", depth := 7, kind := .file }] := by
  have hdepth : ∀ r ∈ [marked], r.depth < Nat.pow 2 64 := by decide
  have hfile : records "[[\"n\", \"p\", 7, \"file\"]]" =
      .ok [{ name := "n", path := "p", depth := 7, kind := .file }] := by rfl
  exact ⟨hdepth, round_trip.1 _ hdepth, hfile, round_trip.2 _ _ hfile⟩

end RepoAtlas.Snapshot
