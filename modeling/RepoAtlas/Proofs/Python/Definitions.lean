import RepoAtlas.Proofs.Python.Statements
import RepoAtlas.Python.Extract

/-!
# Definitions in Python

A definition may stand behind decorators (`Defines`), and the names of those among
some nodes are told in order (`Names`). A definition has one name, so the names that
are told are those that are read (`names_iff`).
-/

namespace RepoAtlas.Python

open Syntax

/-- Whether a node is a definition by a rule, perhaps behind decorators, with the given
    parts. -/
inductive Defines (n : Rule) : Node → List Node → Prop
  | plain {role : Option Role} {parts : List Node} : Defines n (.branch n role parts) parts
  | decorated {role : Option Role} {parts inner : List Node} :
    .branch n (some .definition) inner ∈ parts →
      Defines n (.branch .decoratedDefinition role parts) inner

/-- Whether a node is a definition by a rule, perhaps behind decorators. -/
def isDefinition (n : Rule) : Node → Bool
  | .branch .decoratedDefinition _ parts =>
    parts.any fun part => part.role? == some .definition && part.rule? == some n
  | node => node.rule? == some n

/-- Whether a node defines a name. -/
def Named (n : Rule) (node : Node) (name : String) : Prop :=
  ∃ parts, Defines n node parts ∧ ∃ line gap, .leaf .identifier (some .name) line gap name ∈ parts

/-- Whether names are those of the definitions among nodes, in order. -/
def Names (n : Rule) (nodes : List Node) (names : List String) : Prop :=
  List.Forall₂ (Named n) (nodes.filter (isDefinition n)) names

variable {n : Rule} {role : Option Role} {node : Node} {nodes parts : List Node} {name : String}
  {names : List String}

/-! ### Definitions as they are read -/

/-- Whether definitions by a rule are read. -/
def IsRead (n : Rule) : Prop := n = .functionDefinition ∨ n = .classDefinition

/-- The name of a definition by a rule, as it is read. -/
def definedName? (n : Rule) (node : Node) : Option String :=
  if (undecorated node).rule? = some n then partText? .name (undecorated node) else none

/-- The name of what is defined is the text in that role, behind any decorators. -/
theorem definedName?_of_branch (h : undecorated node = .branch n role parts) :
    definedName? n node = partText? .name (.branch n role parts) := by
  rw [definedName?, h]
  exact if_pos rfl

theorem functionName?_eq (node : Node) :
    functionName? node = definedName? .functionDefinition node := by
  unfold functionName? definedName?
  split
  · rename_i h
    rw [h]
    rfl
  · rename_i h
    rw [if_neg]
    intro hrule
    obtain ⟨role, parts, heq⟩ := eq_branch_of_rule? hrule
    exact h role parts heq

theorem undecorated_of_ne (h : node.rule? ≠ some .decoratedDefinition) :
    undecorated node = node := by
  unfold undecorated
  split
  · exact absurd rfl h
  · rfl

/-- Behind decorators there is the one definition. -/
theorem undecorated_decorated
    (h : IsRegular (.branch .decoratedDefinition role parts)) :
    ∃ n inner, IsRead n ∧
      undecorated (.branch .decoratedDefinition role parts) = .branch n (some .definition) inner ∧
      Node.inRole .definition parts = [.branch n (some .definition) inner] := by
  obtain ⟨n, inner, hn, hdefinition⟩ := definition_of_decorated h
  refine ⟨n, inner, hn, ?_, hdefinition⟩
  rw [undecorated, Node.child?_eq]
  dsimp only [Node.children]
  rw [hdefinition]
  rfl

theorem defines_iff (hn : IsRead n) (h : IsRegular node) :
    Defines n node parts ↔ ∃ role, undecorated node = .branch n role parts := by
  constructor
  · intro hdefines
    cases hdefines with
    | plain =>
      refine ⟨_, undecorated_of_ne fun hrule => ?_⟩
      cases hrule
      rcases hn with hn | hn <;> cases hn
    | decorated hmem =>
      obtain ⟨m, inner, -, hundecorated, honly⟩ := undecorated_decorated h
      exact ⟨_, hundecorated.trans (Node.eq_of_inRole_eq honly hmem rfl).symm⟩
  · rintro ⟨role, heq⟩
    -- A definition behind decorators has the role there, and any other keeps its own.
    by_cases hrule : node.rule? = some .decoratedDefinition
    · obtain ⟨old, outer, rfl⟩ := eq_branch_of_rule? hrule
      obtain ⟨m, inner, -, hundecorated, honly⟩ := undecorated_decorated h
      cases hundecorated.symm.trans heq
      exact .decorated (Node.mem_of_inRole_eq honly).1
    · rw [undecorated_of_ne hrule] at heq
      exact heq ▸ .plain

/-- What is defined behind decorators is regular as well. -/
theorem regular_of_defines (h : IsRegular node) (hdefines : Defines n node parts) :
    ∃ role, IsRegular (.branch n role parts) := by
  cases hdefines with
  | plain => exact ⟨_, h⟩
  | decorated hmem => exact ⟨_, h.children _ hmem⟩

theorem isDefinition_iff (hn : IsRead n) :
    isDefinition n node = true ↔ ∃ parts, Defines n node parts := by
  unfold isDefinition
  split
  · rename_i role outer
    rw [List.any_eq_true]
    constructor
    · rintro ⟨part, hmem, hpart⟩
      simp only [Bool.and_eq_true, beq_iff_eq] at hpart
      obtain ⟨role, inner, rfl⟩ := eq_branch_of_rule? hpart.2
      cases hpart.1
      exact ⟨inner, .decorated hmem⟩
    · rintro ⟨parts, hdefines⟩
      cases hdefines with
      | plain => rcases hn with hn | hn <;> cases hn
      | decorated hmem => exact ⟨_, hmem, by simp [Node.role?, Node.rule?]⟩
  · rename_i hplain
    rw [beq_iff_eq]
    constructor
    · intro hrule
      obtain ⟨role, parts, rfl⟩ := eq_branch_of_rule? hrule
      exact ⟨parts, .plain⟩
    · rintro ⟨parts, hdefines⟩
      cases hdefines with
      | plain => rfl
      | decorated _ => exact absurd rfl (hplain _ _)

/-- A definition that is regular has the name of its identifier. -/
theorem partText?_name_iff (hn : IsRead n) (h : IsRegular (.branch n role parts)) :
    partText? .name (.branch n role parts) = some name ↔
      ∃ line gap, .leaf .identifier (some .name) line gap name ∈ parts := by
  obtain ⟨line, gap, text, honly⟩ := name_of_definition hn h
  have hread : partText? .name (.branch n role parts) = some text := by
    rw [partText?, Node.child?_eq]
    dsimp only [Node.children]
    rw [honly]
    simp [Node.text, Node.leaves]
  rw [hread, Option.some_inj]
  constructor
  · rintro rfl
    exact ⟨line, gap, (Node.mem_of_inRole_eq honly).1⟩
  · rintro ⟨line', gap', hmem⟩
    cases Node.eq_of_inRole_eq honly hmem rfl
    rfl

/-- A definition is read under its name. -/
theorem definedName?_eq_some_iff (hn : IsRead n) (h : IsRegular node) :
    definedName? n node = some name ↔ Named n node name := by
  constructor
  · intro hread
    rw [definedName?] at hread
    split at hread
    · rename_i hrule
      obtain ⟨role, parts, heq⟩ := eq_branch_of_rule? hrule
      rw [heq] at hread
      have hdefines := (defines_iff hn h).2 ⟨role, heq⟩
      obtain ⟨old, hregular⟩ := regular_of_defines h hdefines
      exact ⟨parts, hdefines, (partText?_name_iff hn hregular).1 hread⟩
    · cases hread
  · rintro ⟨parts, hdefines, hname⟩
    obtain ⟨old, hregular⟩ := regular_of_defines h hdefines
    obtain ⟨role, heq⟩ := (defines_iff hn h).1 hdefines
    rw [definedName?_of_branch heq]
    exact (partText?_name_iff hn hregular).2 hname

theorem isSome_definedName? (hn : IsRead n) (h : IsRegular node) :
    (definedName? n node).isSome = isDefinition n node := by
  rw [Bool.eq_iff_iff, Option.isSome_iff_exists, isDefinition_iff hn]
  simp only [definedName?_eq_some_iff hn h, Named]
  constructor
  · rintro ⟨name, parts, hdefines, -⟩
    exact ⟨parts, hdefines⟩
  · rintro ⟨parts, hdefines⟩
    obtain ⟨role, hregular⟩ := regular_of_defines h hdefines
    obtain ⟨line, gap, name, honly⟩ := name_of_definition hn hregular
    exact ⟨name, parts, hdefines, line, gap, (Node.mem_of_inRole_eq honly).1⟩

/-- The names of definitions are those that are read, in order. -/
theorem names_iff (hn : IsRead n) (h : ∀ node ∈ nodes, IsRegular node) :
    Names n nodes names ↔ nodes.filterMap (definedName? n) = names := by
  induction nodes generalizing names with
  | nil => simp [Names, eq_comm]
  | cons node nodes ih =>
    rw [List.forall_mem_cons] at h
    have hread := isSome_definedName? hn h.1
    rw [Names, List.filter_cons, ← hread]
    cases hname : definedName? n node with
    | none =>
      rw [List.filterMap_cons_none hname]
      exact ih h.2
    | some name =>
      rw [List.filterMap_cons_some hname, Option.isSome_some, if_pos rfl,
        List.forall₂_cons_left_iff]
      constructor
      · rintro ⟨other, others, hother, hothers, rfl⟩
        rw [← definedName?_eq_some_iff hn h.1, hname] at hother
        cases hother
        rw [(ih h.2).1 hothers]
      · rintro rfl
        exact ⟨name, _, (definedName?_eq_some_iff hn h.1).1 hname, (ih h.2).2 rfl, rfl⟩

end RepoAtlas.Python
