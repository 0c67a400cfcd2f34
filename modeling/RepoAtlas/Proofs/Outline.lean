import RepoAtlas.Proofs.Scan.Outline

/-!
# Outlines built one event after the other

An outline that is built from nothing (`Outline.build`) can be told from the events
alone, whatever their order (`Outline.told`): its types are those that were opened, each
once, in the order of their first openings; the members of a type are those added to it
since it was opened last; functions and constants are those added. One more event makes
of an outline told so the outline told with it (`told_concat`), hence all that is built
is told (`build_eq`).

The names in it stay different, so a look-up by name finds the one type meant. What is
done to a type leaves the members and the places of all others alone
(`membersOf?_enter`, `idxOf?_enter`).
-/

namespace RepoAtlas

open Scan

theorem filterMap_concat {α β : Type} (f : α → Option β) (l : List α) (a : α) :
    (l ++ [a]).filterMap f = l.filterMap f ++ (f a).toList := by
  rw [List.filterMap_append]
  cases h : f a <;> simp [h]

namespace Scan.Event

/-- The type that an event opens. -/
def opened? : Event → Option String
  | .type name => some name
  | _ => none

/-- The member that an event adds to a type. -/
def addedTo? (type : String) : Event → Option String
  | .member owner name => if owner = type then some name else none
  | _ => none

/-- The function that an event adds. -/
def function? : Event → Option String
  | .function name => some name
  | _ => none

/-- The constant that an event adds. -/
def constant? : Event → Option String
  | .constant name => some name
  | _ => none

/-- The type that an event opens or adds to. -/
def subject? : Event → Option String
  | .type name => some name
  | .member owner _ => some owner
  | _ => none

end Scan.Event

namespace Outline

/-- The outline that events build from nothing. -/
def build (events : List Event) : Outline := events.foldl Event.enter .empty

/-- The types that events open, in order. -/
def openings (events : List Event) : List String := events.filterMap Event.opened?

/-- The members that events add to a type behind its last opening. -/
def addedSince (events : List Event) (type : String) : List String :=
  (events.rtakeWhile (· ≠ .type type)).filterMap (Event.addedTo? type)

/-- The outline that events tell. -/
def told (events : List Event) : Outline where
  types := (openings events).eraseDups.map fun t => ⟨t, addedSince events t⟩
  functions := events.filterMap Event.function?
  constants := events.filterMap Event.constant?

/-- The names of the types. -/
def typeNames (o : Outline) : List String := o.types.map (·.name)

variable {o : Outline} {e : Event} {t u : String}

/-! ### One more event -/

theorem openings_concat (events : List Event) (e : Event) :
    openings (events ++ [e]) = openings events ++ e.opened?.toList :=
  filterMap_concat ..

/-- Where a type is opened, its members are gone. -/
theorem addedSince_of_opened (events : List Event) (t u : String) :
    addedSince (events ++ [.type t]) u = if u = t then [] else addedSince events u := by
  rw [addedSince, List.rtakeWhile_concat]
  by_cases h : u = t
  · rw [if_pos h, if_neg (by simp [h])]
    rfl
  · rw [if_neg h, if_pos (by simpa using Ne.symm h), filterMap_concat]
    exact List.append_nil _

theorem addedSince_of_none (h : e.opened? = none) (events : List Event) (u : String) :
    addedSince (events ++ [e]) u = addedSince events u ++ (e.addedTo? u).toList := by
  have hne : e ≠ .type u := by
    rintro rfl
    cases h
  rw [addedSince, List.rtakeWhile_concat, if_pos (by simpa using hne), filterMap_concat]
  rfl

/-- The names stay as they are where no type is opened, and so do the members of types
    to which nothing is added. -/
theorem types_told_concat (h : e.opened? = none) (events : List Event) :
    (told (events ++ [e])).types =
      (openings events).eraseDups.map fun t =>
        ⟨t, addedSince events t ++ (e.addedTo? t).toList⟩ := by
  dsimp only [told]
  simp only [openings_concat, h, addedSince_of_none h, Option.toList_none, List.append_nil]

/-- An event that neither opens a type nor adds to one leaves the types as they are. -/
theorem types_told_concat_of_none (hopened : e.opened? = none)
    (hadded : ∀ t, e.addedTo? t = none) (events : List Event) :
    (told (events ++ [e])).types = (told events).types := by
  rw [types_told_concat hopened]
  simp only [hadded, Option.toList_none, List.append_nil]
  rfl

theorem functions_told_concat (events : List Event) (e : Event) :
    (told (events ++ [e])).functions = (told events).functions ++ e.function?.toList :=
  filterMap_concat ..

theorem constants_told_concat (events : List Event) (e : Event) :
    (told (events ++ [e])).constants = (told events).constants ++ e.constant?.toList :=
  filterMap_concat ..

/-- One more event adds to what is told what it adds to what is built. -/
theorem told_concat (events : List Event) (e : Event) :
    told (events ++ [e]) = e.enter (told events) := by
  have hnames : (openings events).eraseDups.Nodup := nodup_eraseDups _
  cases e with
  | type t =>
    refine Outline.ext ?_ ?_ ?_
    · rw [Event.enter, types_openType hnames rfl]
      dsimp only [told]
      rw [openings_concat, Event.opened?, Option.toList_some, eraseDups_concat]
      -- Nothing was added yet behind this opening, be it the first of the type or not.
      simp only [List.mem_eraseDups, addedSince_of_opened]
    · rw [functions_told_concat, Event.enter, functions_openType]
      exact List.append_nil _
    · rw [constants_told_concat, Event.enter, constants_openType]
      exact List.append_nil _
  | member t m =>
    refine Outline.ext ?_ ?_ ?_
    · rw [types_told_concat rfl, Event.enter, addMember]
      dsimp only [told]
      -- The names are different, so the first type of the name is the only one.
      rw [modifyType_map hnames t (· ++ [m])]
      refine List.map_congr_left fun u _ => ?_
      rw [Event.addedTo?]
      by_cases h : t = u
      · rw [if_pos h, if_pos h.symm, Option.toList_some]
      · rw [if_neg h, if_neg (Ne.symm h), Option.toList_none, List.append_nil]
    · exact (functions_told_concat events _).trans (List.append_nil _)
    · exact (constants_told_concat events _).trans (List.append_nil _)
  | function name =>
    exact Outline.ext (types_told_concat_of_none rfl (fun _ => rfl) events)
      (functions_told_concat events _) ((constants_told_concat events _).trans (List.append_nil _))
  | constant name =>
    exact Outline.ext (types_told_concat_of_none rfl (fun _ => rfl) events)
      ((functions_told_concat events _).trans (List.append_nil _)) (constants_told_concat events _)

/-- What events build is what they tell. -/
theorem build_eq (events : List Event) : build events = told events := by
  induction events using List.reverseRecOn with
  | nil => rfl
  | append_singleton events e ih => rw [build, List.foldl_concat, ← build, ih, told_concat]

/-! ### Looking up -/

/-- Each type is told once, at its first opening. -/
theorem typeNames_told (events : List Event) :
    (told events).typeNames = (openings events).eraseDups := by
  rw [typeNames, told, List.map_map]
  exact List.map_id _

/-- A type that was opened has what was added since. -/
theorem membersOf?_told_of_mem {events : List Event} (h : t ∈ openings events) :
    (told events).membersOf? t = some (addedSince events t) := by
  have hsome : ((openings events).eraseDups.find? (· = t)).isSome := by
    rw [List.find?_isSome]
    exact ⟨t, List.mem_eraseDups.2 h, decide_eq_true rfl⟩
  obtain ⟨u, hu⟩ := Option.isSome_iff_exists.1 hsome
  obtain rfl : u = t := by simpa using List.find?_some hu
  rw [membersOf?, told, List.find?_map, Option.map_map]
  exact congrArg (Option.map (addedSince events)) hu

/-- A type that was not opened is not told. -/
theorem membersOf?_told_of_notMem {events : List Event} (h : t ∉ openings events) :
    (told events).membersOf? t = none := by
  have hnone : ∀ first ∈ (told events).types, ¬decide (first.name = t) = true := by
    intro first hfirst heq
    have hname : t ∈ (told events).typeNames :=
      of_decide_eq_true heq ▸ List.mem_map_of_mem hfirst
    rw [typeNames_told, List.mem_eraseDups] at hname
    exact h hname
  rw [membersOf?, List.find?_eq_none.2 hnone, Option.map_none]

/-! ### What is left alone -/

/-- No type changes where none has the name. -/
theorem modifyType_of_notMem {types : List TypeOutline} (h : t ∉ types.map (·.name))
    (f : List String → List String) : modifyType t f types = types := by
  induction types with
  | nil => rfl
  | cons first types ih =>
    rw [List.map_cons, List.mem_cons, not_or] at h
    rw [modifyType, if_neg (Ne.symm h.1), ih h.2]

theorem map_name_modifyType (t : String) (f : List String → List String)
    (types : List TypeOutline) :
    (modifyType t f types).map (·.name) = types.map (·.name) := by
  induction types with
  | nil => rfl
  | cons first types ih =>
    rw [modifyType]
    split
    · rfl
    · rw [List.map_cons, ih, List.map_cons]

/-- The other types stay. -/
theorem find?_modifyType (h : t ≠ u) (f : List String → List String) (types : List TypeOutline) :
    (modifyType t f types).find? (·.name = u) = types.find? (·.name = u) := by
  induction types with
  | nil => rfl
  | cons first types ih =>
    rw [modifyType]
    split
    · rename_i heq
      have hne : decide (first.name = u) = false := by simpa [heq] using h
      simp only [List.find?_cons, hne]
    · rw [List.find?_cons, ih, List.find?_cons]

/-- A type that is opened is one of the types, and no other comes in. -/
theorem typeNames_openType (o : Outline) (t : String) :
    (o.openType t).typeNames = if t ∈ o.typeNames then o.typeNames else o.typeNames ++ [t] := by
  have hany : o.types.any (·.name = t) = true ↔ t ∈ o.typeNames := by
    simp [typeNames]
  rw [openType]
  split
  · rename_i hold
    rw [if_pos (hany.1 hold)]
    exact map_name_modifyType ..
  · rename_i hnew
    rw [if_neg fun hmem => hnew (hany.2 hmem), typeNames, List.map_append]
    rfl

theorem idxOf?_concat (h : t ≠ u) (names : List String) :
    (names ++ [t]).idxOf? u = names.idxOf? u := by
  have hlast : [t].findIdx? (· == u) = none := by simpa using h
  rw [List.idxOf?, List.findIdx?_append, hlast, Option.map_none, Option.or_none, ← List.idxOf?]

/-- Members come and go where a type is opened or added to, and nowhere else. -/
theorem membersOf?_enter (h : e.subject? ≠ some u) (o : Outline) :
    (e.enter o).membersOf? u = o.membersOf? u := by
  cases e with
  | type t =>
    have hne : t ≠ u := fun heq => h (congrArg some heq)
    rw [Event.enter, openType]
    split
    · exact congrArg (Option.map _) (find?_modifyType hne _ _)
    · rw [membersOf?, List.find?_append, List.find?_cons_of_neg (by simpa using hne),
        List.find?_nil, Option.or_none, membersOf?]
  | member t m =>
    have hne : t ≠ u := fun heq => h (congrArg some heq)
    exact congrArg (Option.map _) (find?_modifyType hne _ _)
  | function name => rfl
  | constant name => rfl

/-- A type keeps its place whatever is done to others. -/
theorem idxOf?_enter (h : e.subject? ≠ some u) (o : Outline) :
    (e.enter o).typeNames.idxOf? u = o.typeNames.idxOf? u := by
  cases e with
  | type t =>
    have hne : t ≠ u := fun heq => h (congrArg some heq)
    rw [Event.enter, typeNames_openType]
    split
    · rfl
    · exact idxOf?_concat hne _
  | member t m => exact congrArg (List.idxOf? u) (map_name_modifyType ..)
  | function name => rfl
  | constant name => rfl

/-- What is built of events, whatever their order. The names of the types are different,
    and stand in the order of their first openings. A type has members exactly if it was
    opened: those added to it since it was opened last, in order. To a type never opened
    nothing can be added, and an event leaves the members and the place of every type
    that it does not open or add to. -/
theorem build_invariant (events : List Event) :
    (build events).typeNames.Nodup ∧
      (build events).typeNames = (openings events).eraseDups ∧
      (∀ t, (build events).membersOf? t =
        if t ∈ openings events then some (addedSince events t) else none) ∧
      (∀ t m, t ∉ openings events → (build events).addMember t m = build events) ∧
      ∀ e : Event, ∀ t, e.subject? ≠ some t →
        (e.enter (build events)).membersOf? t = (build events).membersOf? t ∧
          (e.enter (build events)).typeNames.idxOf? t = (build events).typeNames.idxOf? t := by
  have hnames : (build events).typeNames = (openings events).eraseDups := by
    rw [build_eq, typeNames_told]
  refine ⟨hnames ▸ nodup_eraseDups _, hnames, fun t => ?_, fun t m hnew => ?_, fun e t hne => ?_⟩
  · rw [build_eq]
    split
    · exact membersOf?_told_of_mem ‹_›
    · exact membersOf?_told_of_notMem ‹_›
  · have hmem : t ∉ (build events).typeNames := by
      rw [hnames, List.mem_eraseDups]
      exact hnew
    rw [addMember, modifyType_of_notMem hmem]
  · exact ⟨membersOf?_enter hne _, idxOf?_enter hne _⟩

/-- A member too early, and a type that is opened twice with another one between. -/
def reopened : List Event :=
  [.member "B" "early", .type "A", .member "A" "one", .function "f", .type "B",
    .member "B" "kept", .type "A", .member "A" "two", .member "A" "three"]

theorem build_invariant_reopened :
    (build reopened).typeNames = ["A", "B"] ∧
      (build reopened).membersOf? "A" = some ["two", "three"] ∧
      (build reopened).membersOf? "B" = some ["kept"] ∧
      "C" ∉ openings reopened ∧ (build reopened).addMember "C" "lost" = build reopened ∧
      (Event.type "A").subject? ≠ some "B" ∧
      ((build reopened).openType "A").membersOf? "B" = some ["kept"] ∧
      ((build reopened).openType "A").typeNames.idxOf? "B" = some 1 := by
  have hnew : "C" ∉ openings reopened := by decide
  have hother : (Event.type "A").subject? ≠ some "B" := by decide
  obtain ⟨-, hnames, hmembers, hignored, halone⟩ := build_invariant reopened
  have hfirst := hmembers "A"
  have hsecond := hmembers "B"
  rw [if_pos (by decide)] at hfirst hsecond
  obtain ⟨hkept, hplace⟩ := halone (.type "A") "B" hother
  rw [hnames] at hplace
  exact ⟨hnames, hfirst, hsecond, hnew, hignored "C" "lost" hnew, hother,
    hkept.trans hsecond, hplace⟩

end Outline

end RepoAtlas
