import RepoAtlas.Scan.LineGrammar
import Mathlib.Data.List.DropRight

/-!
# What the lines of a source tell

The outline that a line grammar reads, told without the scope that it goes by
(`LineGrammar.told`):

* the types are those that the lines declare, each once, in the order of their
  first declarations;
* the members of a type are found behind its last declaration, before any type
  is declared again (`LineGrammar.body`);
* the functions are found before the first type is declared, and the constants
  on all lines that declare none.

The scope after some lines is the type that is declared last (`scopeAfter_eq`).
One more line adds the same to what is read as to what is told (`told_concat`),
so that a source is read as it is told (`outline_eq`).
-/

namespace RepoAtlas

/-- A further name comes last, if it is none of those before. -/
theorem eraseDups_concat (names : List String) (name : String) :
    (names ++ [name]).eraseDups =
      if name ∈ names then names.eraseDups else names.eraseDups ++ [name] := by
  rw [List.eraseDups_append, List.removeAll, List.filter_singleton]
  split <;> simp_all [List.eraseDups_cons]

theorem nodup_eraseDups (names : List String) : names.eraseDups.Nodup := by
  induction names using List.reverseRecOn with
  | nil => exact List.nodup_nil
  | append_singleton names name ih =>
    rw [eraseDups_concat]
    split
    · exact ih
    · rename_i hnew
      rw [← List.mem_eraseDups] at hnew
      refine List.nodup_append.2 ⟨ih, by simp, fun other hother _ hname => ?_⟩
      rw [List.mem_singleton.1 hname]
      rintro rfl
      exact hnew hother

/-- A front of a list reaches one further if it reaches the end. -/
theorem takeWhile_concat {α : Type} (p : α → Bool) (l : List α) (a : α) :
    (l ++ [a]).takeWhile p = if (∀ b ∈ l, p b) ∧ p a then l ++ [a] else l.takeWhile p := by
  induction l with
  | nil =>
    cases h : p a <;> simp [h]
  | cons b l ih =>
    cases h : p b with
    | false => simp [h]
    | true =>
      rw [List.cons_append, List.takeWhile_cons_of_pos h, List.takeWhile_cons_of_pos h, ih]
      split <;> simp_all

namespace Outline

attribute [ext] Outline

theorem modifyType_self (name : String) (types : List TypeOutline) :
    modifyType name (fun members => members) types = types := by
  induction types with
  | nil => rfl
  | cons t types ih =>
    rw [modifyType, ih]
    split <;> rfl

/-- Of types with different names, one changes. -/
theorem modifyType_map {names : List String} (h : names.Nodup) (name : String)
    (f : List String → List String) (members : String → List String) :
    modifyType name f (names.map fun t => ⟨t, members t⟩) =
      names.map fun t => ⟨t, if t = name then f (members t) else members t⟩ := by
  induction names with
  | nil => rfl
  | cons t names ih =>
    rw [List.nodup_cons] at h
    rw [List.map_cons, List.map_cons, modifyType]
    split
    · rename_i heq
      refine congrArg _ (List.map_congr_left fun u hu => ?_)
      have hne : u ≠ name := by
        rintro rfl
        dsimp only at heq
        exact h.1 (heq ▸ hu)
      rw [if_neg hne]
    · rw [ih h.2]

/-- Of types with different names, one is opened: it loses its members, or comes last. -/
theorem types_openType {names : List String} (h : names.Nodup) {members : String → List String}
    {o : Outline} (ho : o.types = names.map fun t => ⟨t, members t⟩) (name : String) :
    (o.openType name).types =
      (if name ∈ names then names else names ++ [name]).map fun t =>
        ⟨t, if t = name then [] else members t⟩ := by
  have hany : o.types.any (·.name = name) = true ↔ name ∈ names := by
    simp [ho]
  rw [openType]
  split
  · rename_i hold
    dsimp only
    rw [if_pos (hany.1 hold), ho, modifyType_map h name (fun _ => []) members]
  · rename_i hnew
    rw [hany] at hnew
    dsimp only
    rw [if_neg hnew, ho, List.map_append, List.map_singleton, if_pos rfl]
    refine congrArg (· ++ _) (List.map_congr_left fun t ht => ?_)
    rw [if_neg]
    rintro rfl
    exact hnew ht

theorem functions_openType (o : Outline) (name : String) :
    (o.openType name).functions = o.functions := by
  unfold openType
  split <;> rfl

theorem constants_openType (o : Outline) (name : String) :
    (o.openType name).constants = o.constants := by
  unfold openType
  split <;> rfl

theorem modifyType_modifyType (name : String) (f g : List String → List String)
    (types : List TypeOutline) :
    modifyType name f (modifyType name g types) =
      modifyType name (fun members => f (g members)) types := by
  induction types with
  | nil => rfl
  | cons t types ih =>
    by_cases h : t.name = name
    · simp [modifyType, h]
    · simp [modifyType, h, ih]

/-- Members are added to a type one after the other. -/
theorem foldl_addMember (o : Outline) (name : String) (members : List String) :
    members.foldl (fun o m => o.addMember name m) o =
      { o with types := modifyType name (· ++ members) o.types } := by
  induction members generalizing o with
  | nil => simp only [List.foldl_nil, List.append_nil, modifyType_self]
  | cons member members ih =>
    rw [List.foldl_cons, ih, addMember]
    simp only [modifyType_modifyType, List.append_assoc, List.singleton_append]

/-- Constants are added one after the other. -/
theorem foldl_addConstant (o : Outline) (names : List String) :
    names.foldl (fun o c => o.addConstant c) o = { o with constants := o.constants ++ names } := by
  induction names generalizing o with
  | nil => simp only [List.foldl_nil, List.append_nil]
  | cons name names ih =>
    rw [List.foldl_cons, ih, addConstant]
    simp only [List.append_assoc, List.singleton_append]

end Outline

namespace Scan.LineGrammar

variable (g : LineGrammar) (lines : List (List Char)) (line : List Char)

/-- Whether a line declares no type. -/
def isPlain (line : List Char) : Bool := (found? g.type line).isNone

/-- The names of the types that lines declare, each once. -/
def typeNames (lines : List (List Char)) : List String :=
  (lines.filterMap (found? g.type)).eraseDups

/-- The lines behind the last declaration of a type, up to the next declaration
    of any type. -/
def body (lines : List (List Char)) (type : String) : List (List Char) :=
  (lines.rtakeWhile fun line => found? g.type line ≠ some type).takeWhile g.isPlain

/-- What lines tell, each for itself but for the types around it. -/
def told (lines : List (List Char)) : Outline where
  types := (g.typeNames lines).map fun t => ⟨t, (g.body lines t).filterMap (found? g.member)⟩
  functions := (lines.takeWhile g.isPlain).filterMap (found? g.function)
  constants := (lines.filter g.isPlain).filterMap (found? g.constant)

/-! ### One more line -/

/-- The scope after lines. -/
def scopeAfter (scope : Scope) (lines : List (List Char)) : Scope :=
  lines.foldl (fun scope line => (g.step scope line).1) scope

theorem scanFrom_append (scope : Scope) (o : Outline) (others : List (List Char)) :
    g.scanFrom scope o (lines ++ others) =
      g.scanFrom (g.scopeAfter scope lines) (g.scanFrom scope o lines) others := by
  induction lines generalizing scope o with
  | nil => rfl
  | cons line lines ih => exact ih _ _

/-- The outline of one more line. -/
theorem scan_concat :
    g.scan (lines ++ [line]) =
      (g.step (g.scopeAfter .top lines) line).2.foldl Event.enter (g.scan lines) :=
  g.scanFrom_append lines ..

variable {g lines line}

theorem step_of_type {t : String} (h : found? g.type line = some t) (scope : Scope) :
    g.step scope line = (.inType t, [.type t]) := by
  simp only [step, h]

theorem step_fst (scope : Scope) :
    (g.step scope line).1 = (found? g.type line).elim scope Scope.inType := by
  unfold step
  cases found? g.type line <;> rfl

variable (g lines) in
/-- The scope after lines is the type that they declare last. -/
theorem scopeAfter_eq :
    g.scopeAfter .top lines =
      ((lines.filterMap (found? g.type)).getLast?).elim .top Scope.inType := by
  induction lines using List.reverseRecOn with
  | nil => rfl
  | append_singleton lines line ih =>
    rw [scopeAfter, List.foldl_concat, ← scopeAfter, ih, step_fst, List.filterMap_append]
    cases h : found? g.type line with
    | none => simp [h]
    | some t => simp [h]

/-! ### What one more line tells -/

theorem isPlain_of_type {t : String} (h : found? g.type line = some t) :
    g.isPlain line = false := by
  rw [isPlain, h]
  rfl

theorem isPlain_of_none (h : found? g.type line = none) : g.isPlain line = true := by
  rw [isPlain, h]
  rfl

/-- No type is declared on lines if none is declared last. -/
theorem isPlain_iff :
    (∀ line ∈ lines, g.isPlain line) ↔ (lines.filterMap (found? g.type)).getLast? = none := by
  simp [isPlain]

/-- No type is declared behind the last declaration of a type if that is the one
    declared last of all, or if there is none at all. -/
theorem isPlain_behind_iff (u : String) :
    (∀ line ∈ lines.rtakeWhile fun line => found? g.type line ≠ some u, g.isPlain line) ↔
      ∀ t ∈ (lines.filterMap (found? g.type)).getLast?, t = u := by
  induction lines using List.reverseRecOn with
  | nil => simp
  | append_singleton lines line ih =>
    rw [List.rtakeWhile_concat, List.filterMap_append]
    cases h : found? g.type line with
    | none =>
      rw [if_pos (by simp), List.forall_mem_append, ih]
      simp [h, isPlain_of_none h]
    | some t =>
      by_cases hu : t = u
      · simp [h, hu]
      · simp [h, hu, isPlain_of_type h]

theorem nodup_typeNames : (g.typeNames lines).Nodup := nodup_eraseDups _

theorem typeNames_concat :
    g.typeNames (lines ++ [line]) =
      match found? g.type line with
      | none => g.typeNames lines
      | some t =>
        if t ∈ g.typeNames lines then g.typeNames lines else g.typeNames lines ++ [t] := by
  rw [typeNames, typeNames, List.filterMap_append]
  cases h : found? g.type line with
  | none => simp [h]
  | some t => simp [h, eraseDups_concat, List.mem_eraseDups]

/-- Where a type is declared, its body begins, and all others end. -/
theorem body_of_type {t : String} (h : found? g.type line = some t) (u : String) :
    g.body (lines ++ [line]) u = if u = t then [] else g.body lines u := by
  rw [body, body, List.rtakeWhile_concat, h]
  by_cases hu : u = t
  · simp [hu]
  · rw [if_neg hu, if_pos (by simpa using Ne.symm hu), takeWhile_concat,
      if_neg (by simp [isPlain_of_type h])]

/-- A line that declares no type is of the body of the type declared last. -/
theorem body_of_plain (h : found? g.type line = none) {t : String}
    (hlast : (lines.filterMap (found? g.type)).getLast? = some t) (u : String) :
    g.body (lines ++ [line]) u = if u = t then g.body lines u ++ [line] else g.body lines u := by
  have hbehind : (∀ line ∈ lines.rtakeWhile fun line => found? g.type line ≠ some u,
      g.isPlain line) ↔ t = u := by
    rw [isPlain_behind_iff, hlast]
    simp
  rw [body, body, List.rtakeWhile_concat, if_pos (by simp [h]), takeWhile_concat]
  split
  · rename_i hall
    rw [if_pos (hbehind.1 hall.1).symm, List.takeWhile_eq_self_iff.2 hall.1]
  · rename_i hall
    rw [if_neg fun heq => hall ⟨hbehind.2 heq.symm, isPlain_of_none h⟩]

/-- A line that declares a type opens it. -/
theorem told_of_type {t : String} (h : found? g.type line = some t) :
    g.told (lines ++ [line]) = (g.told lines).openType t := by
  have hplain : ¬g.isPlain line = true := by simp [isPlain_of_type h]
  refine Outline.ext ?_ ?_ ?_
  · rw [Outline.types_openType nodup_typeNames rfl]
    dsimp only [told]
    rw [typeNames_concat, h]
    refine List.map_congr_left fun u _ => ?_
    -- The members that the type had are gone, if it was declared before.
    rw [body_of_type h, apply_ite (List.filterMap (found? g.member)), List.filterMap_nil]
  · rw [Outline.functions_openType]
    dsimp only [told]
    rw [takeWhile_concat, if_neg fun hall => hplain hall.2]
  · rw [Outline.constants_openType]
    dsimp only [told]
    rw [List.filter_append, List.filter_singleton, Bool.eq_false_iff.2 hplain, cond_false,
      List.append_nil]

/-- What a line adds that declares no type, outside of types. -/
theorem enter_top (h : found? g.type line = none) (o : Outline) :
    (g.step .top line).2.foldl Event.enter o =
      { o with
        functions := o.functions ++ (found? g.function line).toList
        constants := o.constants ++ (found? g.constant line).toList } := by
  simp only [step, h]
  cases found? g.function line <;> cases found? g.constant line <;>
    simp [Event.enter, Outline.addFunction, Outline.addConstant]

/-- What a line adds that declares no type, inside of a type. -/
theorem enter_inType (h : found? g.type line = none) (t : String) (o : Outline) :
    (g.step (.inType t) line).2.foldl Event.enter o =
      { o with
        types := Outline.modifyType t (· ++ (found? g.member line).toList) o.types
        constants := o.constants ++ (found? g.constant line).toList } := by
  simp only [step, h]
  cases found? g.member line <;> cases found? g.constant line <;>
    simp [Event.enter, Outline.addMember, Outline.addConstant, Outline.modifyType_self]

/-- A line that declares no type adds a function where no type is declared before,
    and a member to the type declared last where one is. -/
theorem told_of_plain (h : found? g.type line = none) :
    g.told (lines ++ [line]) =
      (g.step (g.scopeAfter .top lines) line).2.foldl Event.enter (g.told lines) := by
  have hone (f : List Char → Option String) : [line].filterMap f = (f line).toList := by
    cases hline : f line <;> simp [hline]
  have hconstants : (g.told (lines ++ [line])).constants =
      (g.told lines).constants ++ (found? g.constant line).toList := by
    dsimp only [told]
    rw [List.filter_append, List.filter_singleton, isPlain_of_none h, cond_true,
      List.filterMap_append, hone]
  rw [scopeAfter_eq]
  cases hlast : (lines.filterMap (found? g.type)).getLast? with
  | none =>
    have hall := isPlain_iff.2 hlast
    have hnames : g.typeNames lines = [] := by
      rw [typeNames, List.getLast?_eq_none_iff.1 hlast, List.eraseDups_nil]
    rw [Option.elim_none, enter_top h]
    refine Outline.ext ?_ ?_ hconstants
    · dsimp only [told]
      rw [typeNames_concat, h]
      dsimp only
      rw [hnames]
      rfl
    · dsimp only [told]
      rw [takeWhile_concat, if_pos ⟨hall, isPlain_of_none h⟩, List.takeWhile_eq_self_iff.2 hall,
        List.filterMap_append, hone]
  | some t =>
    have hnot : ¬∀ line ∈ lines, g.isPlain line := by
      rw [isPlain_iff, hlast]
      exact Option.some_ne_none t
    rw [Option.elim_some, enter_inType h]
    refine Outline.ext ?_ ?_ hconstants
    · dsimp only [told]
      rw [Outline.modifyType_map nodup_typeNames t (· ++ (found? g.member line).toList) fun u =>
        (g.body lines u).filterMap (found? g.member), typeNames_concat, h]
      refine List.map_congr_left fun u _ => ?_
      rw [body_of_plain h hlast, apply_ite (List.filterMap (found? g.member)),
        List.filterMap_append, hone]
    · dsimp only [told]
      rw [takeWhile_concat, if_neg fun hall => hnot hall.1]

theorem scan_eq : g.scan lines = g.told lines := by
  induction lines using List.reverseRecOn with
  | nil => rfl
  | append_singleton lines line ih =>
    rw [scan_concat, ih]
    cases h : found? g.type line with
    | none => rw [told_of_plain h]
    | some t =>
      rw [told_of_type h, step_of_type h]
      rfl

/-- A source is read as its lines tell. -/
theorem outline_eq (source : List Char) : g.outline source = g.told (Text.fileLines source) := by
  rw [outline]
  split
  · -- Without a rule for types no member is of any, whatever the rule for members finds.
    rename_i h
    simp only [Bool.and_eq_true, Option.isNone_iff_eq_none] at h
    obtain ⟨⟨htype, hfunction⟩, hconstant⟩ := h
    have hnone (lines : List (List Char)) : lines.filterMap (found? none) = [] :=
      List.filterMap_eq_nil_iff.2 fun _ _ => rfl
    rw [told, typeNames, htype, hfunction, hconstant, hnone, hnone, hnone]
    rfl
  · exact scan_eq

end Scan.LineGrammar

end RepoAtlas
