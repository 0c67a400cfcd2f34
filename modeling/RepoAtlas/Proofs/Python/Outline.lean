import RepoAtlas.Proofs.Python.Definitions
import RepoAtlas.Proofs.Scan.Outline
import RepoAtlas.Proofs.Syntax.Recognizer

/-!
# What a module tells

The outline of a module, told from the statements directly in it (`Tells`):

* the functions are those defined there, in order;
* the types are the classes defined there, each once, in the order of their first
  definitions, and the members of each are the functions defined directly in the body
  of its last definition;
* the constants are the capitalised names among the targets of the assignments
  there, each chain of assignments from left to right up to one with a type.

One statement adds to the outline what it tells (`declare_eq`), and all of them what they
tell together (`foldl_declare_eq`). So what a module tells is what is read from it
(`outline_eq_iff`).
-/

namespace RepoAtlas.Python

open Syntax

/-! ### Classes and constants -/

/-- Whether a node is a class with the given statements in its body. -/
def HasBody (node : Node) (body : List Node) : Prop :=
  ∃ parts, Defines .classDefinition node parts ∧ .branch .block (some .body) body ∈ parts

/-- Whether a node is the last of those that define a class of a name. -/
def IsLast (nodes : List Node) (name : String) (last : Node) : Prop :=
  ∃ before after, nodes = before ++ last :: after ∧ Named .classDefinition last name ∧
    ∀ other ∈ after, ¬Named .classDefinition other name

/-- The assignments directly in a statement. -/
def assignments : Node → List Node
  | .branch .expressionStatement _ parts => parts.filter (·.rule? == some .assignment)
  | _ => []

/-- The targets of a chain of assignments from left to right, up to an assignment with
    a type. -/
inductive Targets : Node → List Node → Prop
  | annotated {role : Option Role} {parts : List Node} :
    (∃ part ∈ parts, part.role? = some .type) → Targets (.branch .assignment role parts) []
  | assigned {role : Option Role} {parts targets : List Node} {target value : Node} :
    (∀ part ∈ parts, part.role? ≠ some .type) →
    target ∈ parts → target.role? = some .left →
    value ∈ parts → value.role? = some .right → Targets value targets →
      Targets (.branch .assignment role parts) (target :: targets)
  | value {node : Node} : node.rule? ≠ some .assignment → Targets node []

/-- The name that is a constant as a target: a bare one in capitals. -/
def constantName? : Node → Option String
  | .leaf .identifier _ _ _ name => if Text.isUpperText name then some name else none
  | _ => none

/-- What the statements directly in a module tell. -/
structure Tells (root : Node) (o : Outline) : Prop where
  functions : Names .functionDefinition root.children o.functions
  types : ∃ names, Names .classDefinition root.children names ∧
    o.types.map (·.name) = names.eraseDups
  members : ∀ type ∈ o.types, ∃ last body, IsLast root.children type.name last ∧
    HasBody last body ∧ Names .functionDefinition body type.members
  constants : ∃ targets, List.Forall₂ Targets (root.children.flatMap assignments) targets ∧
    targets.flatMap (·.filterMap constantName?) = o.constants

variable {n : Rule} {role : Option Role} {node root statement : Node} {nodes parts body : List Node}
  {name : String} {names : List String} {o : Outline}

/-! ### Constants as they are read -/

theorem isAssignment_eq : isAssignment = fun node => node.rule? == some .assignment := by
  funext node
  unfold isAssignment
  split
  · rfl
  · rename_i h
    cases node with
    | branch n role parts =>
      refine (beq_eq_false_iff_ne.2 fun hrule => ?_).symm
      cases hrule
      exact h _ _ rfl
    | _ => rfl

theorem chainAmong_eq (parts : List Node) :
    chain.chainAmong parts = ((Node.inRole .right parts).head?.map chain).getD [] := by
  induction parts with
  | nil => rfl
  | cons part parts ih =>
    rw [chain.chainAmong, Node.inRole, List.filter_cons]
    split
    · rfl
    · exact ih

/-- What is no assignment assigns nothing. -/
theorem chain_of_ne (h : node.rule? ≠ some .assignment) : chain node = [] := by
  unfold chain
  split
  · exact absurd rfl h
  · rfl

theorem any_type_iff :
    (parts.any (·.role? == some .type) = true) ↔ ∃ part ∈ parts, part.role? = some .type := by
  simp only [List.any_eq_true, beq_iff_eq]

/-- The name that an assignment binds as a constant is that of its target. -/
theorem boundConstant?_eq {target : Node} (h : Node.inRole .left parts = [target]) :
    boundConstant? (.branch .assignment role parts) = constantName? target := by
  rw [boundConstant?, Node.child?_eq]
  dsimp only [Node.children]
  rw [h]
  dsimp only [List.head?_cons]
  cases target with
  | leaf token role line gap text =>
    by_cases htoken : token = .identifier
    · subst htoken
      simp [isName, constantName?, Node.text, Node.leaves]
    · simp [isName, constantName?, htoken]
  | branch => rfl
  | fault => rfl

/-- The constants of a chain are those among its targets. -/
theorem chainConstants_eq {targets : List Node} (h : IsRegular node)
    (htargets : Targets node targets) :
    chainConstants node = targets.filterMap constantName? := by
  unfold chainConstants
  induction htargets with
  | annotated htype =>
    rw [chain, if_pos (any_type_iff.2 htype), List.filterMap_nil, List.filterMap_nil]
  | value hvalue => rw [chain_of_ne hvalue, List.filterMap_nil, List.filterMap_nil]
  | assigned htype htarget hleft hvalue hright _ ih =>
    obtain ⟨target', honly⟩ := target_of_assignment h
    obtain rfl := Node.eq_of_inRole_eq honly htarget hleft
    -- Reading takes the first parts in the roles; by the grammar they are the only ones.
    rcases value_of_assignment h with ⟨part, hmem, hrole⟩ | ⟨-, value', hvalues⟩
    · exact absurd hrole (htype part hmem)
    · obtain rfl := Node.eq_of_inRole_eq hvalues hvalue hright
      rw [chain, if_neg, chainAmong_eq, hvalues]
      swap
      · rw [any_type_iff]
        rintro ⟨part, hmem, hrole⟩
        exact htype part hmem hrole
      dsimp only [List.head?_cons, Option.map_some, Option.getD_some]
      rw [List.filterMap_cons, List.filterMap_cons, boundConstant?_eq honly,
        ih (h.children _ hvalue)]

/-- Every chain has its targets. -/
theorem exists_targets (h : IsRegular node) : ∃ targets, Targets node targets := by
  unfold IsRegular at h
  induction h with
  | leaf => exact ⟨[], .value (by simp [Node.rule?])⟩
  | @branch n role parts hparts hall ih =>
    by_cases hn : n = .assignment
    · subst hn
      have hregular : IsRegular (.branch .assignment role parts) := .branch hparts hall
      obtain ⟨target, htarget⟩ := target_of_assignment hregular
      obtain ⟨htarget, hleft⟩ := Node.mem_of_inRole_eq htarget
      by_cases htype : ∃ part ∈ parts, part.role? = some .type
      · exact ⟨[], .annotated htype⟩
      · obtain ⟨-, value, hvalue⟩ := (value_of_assignment hregular).resolve_left htype
        obtain ⟨hvalue, hright⟩ := Node.mem_of_inRole_eq hvalue
        obtain ⟨targets, htargets⟩ := ih value hvalue
        refine ⟨target :: targets, .assigned ?_ htarget hleft hvalue hright htargets⟩
        exact fun part hmem hrole => htype ⟨part, hmem, hrole⟩
    · refine ⟨[], .value fun hrule => hn ?_⟩
      exact Option.some_inj.1 hrule

/-! ### What a statement adds -/

/-- A statement behind decorators assigns what it does without them. -/
theorem assignments_undecorated (h : IsRegular statement) :
    assignments (undecorated statement) = assignments statement := by
  by_cases hrule : statement.rule? = some .decoratedDefinition
  · obtain ⟨role, parts, rfl⟩ := eq_branch_of_rule? hrule
    obtain ⟨n, inner, hn, hundecorated, -⟩ := undecorated_decorated h
    rw [hundecorated]
    rcases hn with rfl | rfl <;> rfl
  · rw [undecorated_of_ne hrule]

/-- A statement adds the class, the function or the constants that it tells. -/
theorem declare_eq (h : IsRegular statement) (o : Outline) :
    declare o statement =
      { types := (definedName? .classDefinition statement).elim o.types fun name =>
          Outline.modifyType name (· ++ methods (undecorated statement)) (o.openType name).types
        functions := o.functions ++ (definedName? .functionDefinition statement).toList
        constants := o.constants ++ (assignments statement).flatMap chainConstants } := by
  rw [← assignments_undecorated h, declare]
  split
  · rename_i role parts heq
    rw [definedName?_of_branch heq, definedName?, heq, if_neg (by simp [Node.rule?])]
    cases partText? .name (.branch .classDefinition role parts) with
    | none => simp [assignments]
    | some name =>
      simp [assignments, Outline.foldl_addMember, Outline.functions_openType,
        Outline.constants_openType]
  · rename_i role parts heq
    rw [definedName?_of_branch heq, definedName?, heq, if_neg (by simp [Node.rule?])]
    cases partText? .name (.branch .functionDefinition role parts) with
    | none => simp [assignments]
    | some name => simp [assignments, Outline.addFunction]
  · rename_i role parts heq
    rw [definedName?, definedName?, heq, if_neg (by simp [Node.rule?]),
      if_neg (by simp [Node.rule?]), Outline.foldl_addConstant]
    simp [assignments, isAssignment_eq]
  · rename_i hclass hfunction hexpression
    rw [definedName?, definedName?, if_neg, if_neg]
    · have hnone : assignments (undecorated statement) = [] := by
        unfold assignments
        split
        · rename_i heq
          exact absurd heq (hexpression _ _)
        · rfl
      simp [hnone]
    · intro hrule
      obtain ⟨role, parts, heq⟩ := eq_branch_of_rule? hrule
      exact hfunction _ _ heq
    · intro hrule
      obtain ⟨role, parts, heq⟩ := eq_branch_of_rule? hrule
      exact hclass _ _ heq

/-! ### What all statements add -/

/-- The names of the classes among nodes, each once. -/
def classNames (nodes : List Node) : List String :=
  (nodes.filterMap (definedName? .classDefinition)).eraseDups

/-- The members of a class, as they are read from its last definition. -/
def lastMembers (nodes : List Node) (name : String) : List String :=
  ((nodes.reverse.find? fun node => definedName? .classDefinition node == some name).map
    fun node => methods (undecorated node)).getD []

/-- What all statements add. -/
def added (nodes : List Node) : Outline where
  types := (classNames nodes).map fun name => ⟨name, lastMembers nodes name⟩
  functions := nodes.filterMap (definedName? .functionDefinition)
  constants := (nodes.flatMap assignments).flatMap chainConstants

theorem nodup_classNames (nodes : List Node) : (classNames nodes).Nodup := nodup_eraseDups _

theorem classNames_concat (nodes : List Node) (node : Node) :
    classNames (nodes ++ [node]) =
      (definedName? .classDefinition node).elim (classNames nodes) fun name =>
        if name ∈ classNames nodes then classNames nodes else classNames nodes ++ [name] := by
  rw [classNames, classNames, List.filterMap_append]
  cases h : definedName? .classDefinition node with
  | none => simp [h]
  | some name => simp [h, eraseDups_concat, List.mem_eraseDups]

/-- A class that is defined again has the members of its last definition. -/
theorem lastMembers_concat (nodes : List Node) (node : Node) (name : String) :
    lastMembers (nodes ++ [node]) name =
      if definedName? .classDefinition node = some name then methods (undecorated node)
      else lastMembers nodes name := by
  rw [lastMembers, List.reverse_append, List.reverse_singleton, List.singleton_append,
    List.find?_cons]
  split
  · rename_i h
    rw [if_pos (beq_iff_eq.1 h)]
    rfl
  · rename_i h
    rw [if_neg (by simpa using h), lastMembers]

/-- The types after one more statement. -/
theorem types_concat (nodes : List Node) (node : Node) :
    (added (nodes ++ [node])).types =
      (definedName? .classDefinition node).elim (added nodes).types fun name =>
        Outline.modifyType name (· ++ methods (undecorated node))
          ((added nodes).openType name).types := by
  dsimp only [added]
  rw [classNames_concat]
  cases h : definedName? .classDefinition node with
  | none =>
    refine List.map_congr_left fun name _ => ?_
    rw [lastMembers_concat, h, if_neg (by simp)]
  | some name =>
    have hnodup : (if name ∈ classNames nodes then classNames nodes
        else classNames nodes ++ [name]).Nodup := by
      have hconcat := classNames_concat nodes node
      rw [h, Option.elim_some] at hconcat
      exact hconcat ▸ nodup_classNames _
    dsimp only [Option.elim_some]
    rw [Outline.types_openType (nodup_classNames nodes) rfl, Outline.modifyType_map hnodup]
    refine List.map_congr_left fun other _ => ?_
    rw [lastMembers_concat, h]
    by_cases hother : other = name
    · simp [hother]
    · simp [hother, Ne.symm hother]

/-- The outline of statements is what they add, one after the other. -/
theorem foldl_declare_eq (h : ∀ node ∈ nodes, IsRegular node) :
    nodes.foldl declare .empty = added nodes := by
  -- From the last statement back, since a later class takes the members of an earlier one.
  induction nodes using List.reverseRecOn with
  | nil => rfl
  | append_singleton nodes node ih =>
    rw [List.forall_mem_append, List.forall_mem_singleton] at h
    rw [List.foldl_concat, ih h.1, declare_eq h.2]
    refine Outline.ext (types_concat nodes node).symm ?_ ?_
    · cases hname : definedName? .functionDefinition node <;>
        simp [added, hname]
    · simp [added]

/-! ### What is read is what is told -/

/-- The last definition of a class is the first from the end. -/
theorem isLast_iff {last : Node} (h : ∀ node ∈ nodes, IsRegular node) :
    IsLast nodes name last ↔
      (nodes.reverse.find? fun node => definedName? .classDefinition node == some name) =
        some last := by
  have hnamed (node : Node) (hnode : node ∈ nodes) :
      (definedName? .classDefinition node == some name) = true ↔
        Named .classDefinition node name := by
    rw [beq_iff_eq, definedName?_eq_some_iff (.inr rfl) (h node hnode)]
  rw [List.find?_eq_some_iff_append]
  constructor
  · rintro ⟨before, after, rfl, hlast, hafter⟩
    refine ⟨(hnamed last (by simp)).2 hlast, after.reverse, before.reverse, by simp, ?_⟩
    intro other hother
    rw [List.mem_reverse] at hother
    rw [Bool.not_eq_true', Bool.eq_false_iff, ne_eq, hnamed other (by simp [hother])]
    exact hafter other hother
  · rintro ⟨hlast, after, before, hnodes, hafter⟩
    rw [List.reverse_eq_iff, List.reverse_append, List.reverse_cons, List.append_assoc,
      List.singleton_append] at hnodes
    subst hnodes
    refine ⟨before.reverse, after.reverse, rfl, (hnamed last (by simp)).1 hlast, ?_⟩
    intro other hother
    have hnot := hafter other (List.mem_reverse.1 hother)
    rwa [Bool.not_eq_true', Bool.eq_false_iff, ne_eq, hnamed other (by simp [hother])] at hnot

/-- The members of a class are the functions in its body. -/
theorem methods_eq (h : IsRegular node) (hbody : HasBody node body) :
    methods (undecorated node) = body.filterMap (definedName? .functionDefinition) ∧
      ∀ statement ∈ body, IsRegular statement := by
  obtain ⟨parts, hdefines, hmem⟩ := hbody
  obtain ⟨old, hregular⟩ := regular_of_defines h hdefines
  obtain ⟨role, heq⟩ := (defines_iff (.inr rfl) h).1 hdefines
  obtain ⟨body', honly⟩ := body_of_class hregular
  cases Node.eq_of_inRole_eq honly hmem rfl
  refine ⟨?_, (hregular.children _ hmem).children⟩
  rw [heq, methods, Node.child?_eq]
  dsimp only [Node.children]
  rw [honly]
  exact List.filterMap_congr fun statement _ => functionName?_eq statement

/-- A class has a body. -/
theorem exists_hasBody (h : IsRegular node) (hnamed : Named .classDefinition node name) :
    ∃ body, HasBody node body := by
  obtain ⟨parts, hdefines, -⟩ := hnamed
  obtain ⟨role, hregular⟩ := regular_of_defines h hdefines
  obtain ⟨body, honly⟩ := body_of_class hregular
  exact ⟨body, parts, hdefines, (Node.mem_of_inRole_eq honly).1⟩

/-- The members of a class are those of its last definition. -/
theorem members_iff (h : ∀ node ∈ nodes, IsRegular node) (hname : name ∈ classNames nodes)
    {members : List String} :
    (∃ last body, IsLast nodes name last ∧ HasBody last body ∧
        Names .functionDefinition body members) ↔
      lastMembers nodes name = members := by
  -- The last definition and its body determine the members, so it is enough to have them.
  have hread {last : Node} {body : List Node} (hlast : IsLast nodes name last)
      (hbody : HasBody last body) :
      Names .functionDefinition body members ↔ lastMembers nodes name = members := by
    have hmem : last ∈ nodes := by
      obtain ⟨before, after, rfl, -⟩ := hlast
      simp
    obtain ⟨heq, hregular⟩ := methods_eq (h last hmem) hbody
    rw [names_iff (.inl rfl) hregular, ← heq, lastMembers, (isLast_iff h).1 hlast]
    rfl
  constructor
  · rintro ⟨last, body, hlast, hbody, hmembers⟩
    exact (hread hlast hbody).1 hmembers
  · intro heq
    rw [classNames, List.mem_eraseDups, List.mem_filterMap] at hname
    obtain ⟨node, hnode, hnamed⟩ := hname
    have hfound : (nodes.reverse.find? fun node =>
        definedName? .classDefinition node == some name).isSome := by
      rw [List.find?_isSome]
      exact ⟨node, List.mem_reverse.2 hnode, beq_iff_eq.2 hnamed⟩
    obtain ⟨last, hlast⟩ := Option.isSome_iff_exists.1 hfound
    have hislast := (isLast_iff h).2 hlast
    have hmem : last ∈ nodes := List.mem_reverse.1 (List.mem_of_find?_eq_some hlast)
    have hlastNamed : Named .classDefinition last name := by
      obtain ⟨before, after, rfl, hlastNamed, -⟩ := hislast
      exact hlastNamed
    obtain ⟨body, hbody⟩ := exists_hasBody (h last hmem) hlastNamed
    exact ⟨last, body, hislast, hbody, (hread hislast hbody).2 heq⟩

theorem regular_assignments (h : ∀ node ∈ nodes, IsRegular node) :
    ∀ assignment ∈ nodes.flatMap assignments, IsRegular assignment := by
  intro assignment hmem
  obtain ⟨node, hnode, hassignment⟩ := List.mem_flatMap.1 hmem
  unfold assignments at hassignment
  split at hassignment
  · exact (h _ hnode).children _ (List.mem_filter.1 hassignment).1
  · cases hassignment

/-- The constants of assignments are those among the targets of their chains. -/
theorem constants_iff (h : ∀ node ∈ nodes, IsRegular node) :
    (∃ targets, List.Forall₂ Targets nodes targets ∧
        targets.flatMap (·.filterMap constantName?) = names) ↔
      nodes.flatMap chainConstants = names :=
  exists_forall₂_flatMap_iff (fun node hnode => exists_targets (h node hnode))
    fun node hnode _ => chainConstants_eq (h node hnode)

/-- What a module tells is what is gathered from its statements, and nothing else. -/
theorem tells_iff (h : ∀ node ∈ root.children, IsRegular node) :
    Tells root o ↔ added root.children = o := by
  have hassignments := regular_assignments h
  constructor
  · rintro ⟨hfunctions, ⟨names, hnames, htypes⟩, hmembers, hconstants⟩
    rw [names_iff (.inr rfl) h] at hnames
    have hclasses : o.types.map (·.name) = classNames root.children := by
      rw [htypes, classNames, hnames]
    refine Outline.ext ?_ ((names_iff (.inl rfl) h).1 hfunctions)
      ((constants_iff hassignments).1 hconstants)
    dsimp only [added]
    rw [← hclasses, List.map_map]
    refine (List.map_congr_left fun type htype => ?_).trans (List.map_id _)
    have hname : type.name ∈ classNames root.children :=
      hclasses ▸ List.mem_map_of_mem htype
    exact congrArg (TypeOutline.mk type.name) ((members_iff h hname).1 (hmembers type htype))
  · rintro rfl
    refine ⟨(names_iff (.inl rfl) h).2 rfl, ⟨_, (names_iff (.inr rfl) h).2 rfl, ?_⟩, ?_,
      (constants_iff hassignments).2 rfl⟩
    · dsimp only [added]
      rw [List.map_map]
      exact List.map_id _
    · refine List.forall_mem_map.2 fun name hname => ?_
      exact (members_iff h hname).2 rfl

/-- The outline of a module is what the statements directly in it tell. -/
theorem outline_eq_iff (h : IsModule root) : outline root = o ↔ Tells root o := by
  have hregular := regular_of_isModule h
  rw [tells_iff hregular, ← foldl_declare_eq hregular]
  rfl

/-- The tree of a module that defines a class twice, the second time behind a decorator
    and with a method, a function, and two constants in a chain. -/
def redefinition : Node :=
  .branch .module none [
    .branch .classDefinition none [
      .leaf (.word "class") none 0 "" "class",
      .leaf .identifier (some .name) 0 " " "A",
      .leaf (.sign ":") none 0 "" ":",
      .branch .block (some .body) [
        .branch .expressionStatement none [
          .leaf .integer none 0 " " "0"]]],
    .branch .decoratedDefinition none [
      .branch .decorator none [
        .leaf (.sign "@") none 1 "\n" "@",
        .leaf .identifier none 1 "" "f"],
      .branch .classDefinition (some .definition) [
        .leaf (.word "class") none 2 "\n" "class",
        .leaf .identifier (some .name) 2 " " "A",
        .leaf (.sign ":") none 2 "" ":",
        .branch .block (some .body) [
          .branch .functionDefinition none [
            .leaf (.word "def") none 3 "\n " "def",
            .leaf .identifier (some .name) 3 " " "m",
            .branch .parameters none [
              .leaf (.sign "(") none 3 "" "(",
              .leaf (.sign ")") none 3 "" ")"],
            .leaf (.sign ":") none 3 "" ":",
            .branch .block (some .body) [
              .branch .expressionStatement none [
                .leaf .integer none 3 " " "0"]]]]]],
    .branch .functionDefinition none [
      .leaf (.word "def") none 4 "\n" "def",
      .leaf .identifier (some .name) 4 " " "g",
      .branch .parameters none [
        .leaf (.sign "(") none 4 "" "(",
        .leaf (.sign ")") none 4 "" ")"],
      .leaf (.sign ":") none 4 "" ":",
      .branch .block (some .body) [
        .branch .expressionStatement none [
          .leaf .integer none 4 " " "0"]]],
    .branch .expressionStatement none [
      .branch .assignment none [
        .leaf .identifier (some .left) 5 "\n" "K",
        .leaf (.sign "=") none 5 " " "=",
        .branch .assignment (some .right) [
          .leaf .identifier (some .left) 5 " " "L",
          .leaf (.sign "=") none 5 " " "=",
          .leaf .integer (some .right) 5 " " "0"]]]]

theorem outline_redefinition :
    IsModule redefinition ∧ outline redefinition = ⟨[⟨"A", ["m"]⟩], ["g"], ["K", "L"]⟩ := by
  have h : IsModule redefinition := Language.describes_of_recognizes 70 (by decide +kernel)
  refine ⟨h, (outline_eq_iff h).2 ⟨?_, ⟨["A", "A"], ?_, by decide⟩, ?_, ?_⟩⟩
  · exact .cons ⟨_, .plain, _, _, .tail _ (.head _)⟩ .nil
  · exact .cons ⟨_, .plain, _, _, .tail _ (.head _)⟩
      (.cons ⟨_, .decorated (.tail _ (.head _)), _, _, .tail _ (.head _)⟩ .nil)
  · have hother {other : Node} (hrule : isDefinition .classDefinition other = false) :
        ¬Named .classDefinition other "A" := by
      rintro ⟨parts, hdefines, -⟩
      rw [(isDefinition_iff (.inr rfl)).2 ⟨parts, hdefines⟩] at hrule
      cases hrule
    exact List.forall_mem_singleton.2 ⟨_, _,
      ⟨[_], [_, _], rfl, ⟨_, .decorated (.tail _ (.head _)), _, _, .tail _ (.head _)⟩,
        List.forall_mem_cons.2 ⟨hother rfl, List.forall_mem_singleton.2 (hother rfl)⟩⟩,
      ⟨_, .decorated (.tail _ (.head _)), .tail _ (.tail _ (.tail _ (.head _)))⟩,
      .cons ⟨_, .plain, _, _, .tail _ (.head _)⟩ .nil⟩
  · refine ⟨_, .cons (.assigned ?_ (.head _) rfl (.tail _ (.tail _ (.head _))) rfl
      (.assigned ?_ (.head _) rfl (.tail _ (.tail _ (.head _))) rfl (.value ?_))) .nil, ?_⟩
    · simp [Node.role?]
    · simp [Node.role?]
    · simp [Node.rule?]
    · decide +kernel

end RepoAtlas.Python
