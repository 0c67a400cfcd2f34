import Mathlib.Data.List.Nodup
import Mathlib.Data.List.Sort
import RepoAtlas.Proofs.Syntax.Derivation
import RepoAtlas.Python.Source

/-!
# Statements of Python

What the grammar says of the statements that outlines and imports are read from, by
the roles of their parts: a definition has a name and a body, decorators stand
before one definition, and an assignment has one target and a type or one value.
-/

namespace RepoAtlas.Python

open Syntax Syntax.Language

/-- Whether a tree is that of a module, without a fault. The tree of a source that can be
    read is one (`isModule_of_parse`). -/
def IsModule (root : Node) : Prop := language.Describes (.rule .module) [root]

/-! ### Lists told one by one -/

section

variable {α β γ : Type} {R : α → β → Prop} {f : α → List γ} {g : β → List γ} {l : List α}
  {ms : List β} {cs : List γ}

theorem flatMap_eq_of_forall₂ (h : ∀ a ∈ l, ∀ b, R a b → f a = g b) (hms : List.Forall₂ R l ms) :
    l.flatMap f = ms.flatMap g := by
  induction hms with
  | nil => rfl
  | cons hb _ ih =>
    rw [List.forall_mem_cons] at h
    rw [List.flatMap_cons, List.flatMap_cons, h.1 _ hb, ih h.2]

theorem exists_forall₂ (h : ∀ a ∈ l, ∃ b, R a b) : ∃ ms, List.Forall₂ R l ms := by
  induction l with
  | nil => exact ⟨[], .nil⟩
  | cons a l ih =>
    rw [List.forall_mem_cons] at h
    obtain ⟨b, hb⟩ := h.1
    obtain ⟨ms, hms⟩ := ih h.2
    exact ⟨b :: ms, .cons hb hms⟩

/-- If each member of a list has a reading, and all its readings tell the same, then the
    readings of the list tell what is read off it member by member. -/
theorem exists_forall₂_flatMap_iff (hread : ∀ a ∈ l, ∃ b, R a b)
    (htell : ∀ a ∈ l, ∀ b, R a b → f a = g b) :
    (∃ ms, List.Forall₂ R l ms ∧ ms.flatMap g = cs) ↔ l.flatMap f = cs := by
  constructor
  · rintro ⟨ms, hms, rfl⟩
    exact flatMap_eq_of_forall₂ htell hms
  · rintro rfl
    obtain ⟨ms, hms⟩ := exists_forall₂ hread
    exact ⟨ms, hms, (flatMap_eq_of_forall₂ htell hms).symm⟩

end

/-! ### The grammar as a whole -/

/-- The roles that the parts of rules without a node have. -/
def givenBy (n : Rule) : List Role := if n = .importList then [.name] else []

/-- Whether a rule without a node describes one node. -/
def isOne (n : Rule) : Bool :=
  [.leftHandSide, .pattern, .keywordIdentifier, .rightHandSide, .expression,
    .primaryExpression].contains n

/-- Whether nodes of a rule have parts that are not those of its expression: a block
    may be a line of statements or nothing. -/
def isOpen (n : Rule) : Bool := n == .block

/-- Whether a tree follows the grammar in all its nodes. -/
def IsRegular (node : Node) : Prop := language.Conforms isOpen node

/-- All rules are given, each once. -/
theorem sorted_rules : (rules.map (·.1.ctorIdx)).insertionSort (· ≤ ·) = List.range 143 := by
  decide +kernel

theorem length_rules : rules.length = 143 := by
  have h := congrArg List.length sorted_rules
  rwa [List.length_insertionSort, List.length_map, List.length_range] at h

/-- Each rule has one row. -/
theorem nodup_rules : (rules.map (·.1.ctorIdx)).Nodup := by
  rw [← (List.perm_insertionSort (· ≤ ·) _).nodup_iff, sorted_rules]
  exact List.nodup_range

/-- A rule that is hidden gives no other roles than it is said to. -/
theorem roles_rules :
    ∀ row ∈ rules, row.2.roles givenBy ⊆ givenBy row.1 ∨ hiddenRules.contains row.1 = false := by
  decide +kernel

theorem told_rules : ∀ row ∈ rules, row.2.all (Expr.isTold isOpen) = true := by
  decide +kernel

/-- Rules that are said to give one node do so. -/
theorem single_rules :
    ∀ row ∈ rules, isOne row.1 = true → row.2.all (Expr.isSingle language isOne) = true := by
  decide +kernel

variable {n : Rule} {r : Role} {e other : Expr} {es : List Expr} {nodes parts : List Node}
  {node root : Node} {role : Option Role}

theorem eq_branch_of_rule? (h : node.rule? = some n) :
    ∃ role parts, node = .branch n role parts := by
  cases node with
  | branch m role parts =>
    cases h
    exact ⟨role, parts, rfl⟩
  | _ => cases h

/-- A rule without a node gives no other roles than it is said to. -/
theorem roles_subset (h : (n, e) ∈ rules)
    (hhidden : hiddenRules.contains n = true) : e.roles givenBy ⊆ givenBy n :=
  (roles_rules _ h).resolve_right (ne_false_of_eq_true hhidden)

/-- A rule has one expression. -/
theorem expression_unique (h : (n, e) ∈ rules) (hlookup : rules.lookup n = some other) :
    e = other := by
  rw [List.lookup_eq_some_iff] at hlookup
  obtain ⟨before, after, hrules, -⟩ := hlookup
  have hmem : (n, other) ∈ rules := by
    rw [hrules]
    exact List.mem_append_right _ (List.mem_cons_self ..)
  exact congrArg Prod.snd (List.inj_on_of_nodup_map nodup_rules h hmem rfl)

/-- A rule without a node describes what its expression describes. -/
theorem describes_hidden (h : language.Describes (.rule n) nodes)
    (hlookup : rules.lookup n = some e) (hhidden : hiddenRules.contains n = true) :
    language.Describes e nodes := by
  cases h with
  | branch _ hshown _ => cases hshown.symm.trans hhidden
  | hidden hmem _ h => exact expression_unique hmem hlookup ▸ h

/-- Any other rule describes one node, and its expression the parts. -/
theorem describes_shown (h : language.Describes (.rule n) nodes)
    (hlookup : rules.lookup n = some e) (hshown : hiddenRules.contains n = false) :
    ∃ parts, nodes = [.branch n none parts] ∧ language.Describes e parts := by
  cases h with
  | branch hmem _ h => exact ⟨_, rfl, expression_unique hmem hlookup ▸ h⟩
  | hidden _ hhidden _ => cases hshown.symm.trans hhidden

theorem gives_shown {P : Node → Prop} (hlookup : rules.lookup n = some e)
    (hshown : hiddenRules.contains n = false) (h : ∀ parts, P (.branch n none parts)) :
    language.Gives (.rule n) P := by
  intro nodes hnodes
  obtain ⟨parts, rfl, -⟩ := describes_shown hnodes hlookup hshown
  exact List.forall_mem_singleton.2 (h parts)

/-- An identifier is a leaf. -/
theorem describes_identifier (h : language.Describes (.token .identifier) nodes) :
    ∃ line gap name, nodes = [.leaf .identifier none line gap name] := by
  rcases Describes.token_iff.1 h with ⟨_, h⟩ | ⟨hsilent, _⟩
  · exact h
  · cases hsilent

/-- No node has a role that its expression does not give. -/
theorem inRole_eq_nil (h : language.Describes e nodes) (hr : r ∉ e.roles givenBy) :
    Node.inRole r nodes = [] :=
  h.inRole_eq_nil (fun _ _ => roles_subset) hr

/-- The nodes in a role that one expression of a sequence gives. -/
theorem inRole_eq (h : language.Describes (.seq es) nodes) (i : Nat)
    (hi : es[i]? = some (.role r e)) (hothers : r ∉ Expr.rolesOf givenBy (es.eraseIdx i))
    (hbare : e.roles givenBy = []) :
    ∃ inner, language.Describes e inner ∧ Node.inRole r nodes = inner.map (·.withRole r) :=
  h.inRole_eq (fun _ _ => roles_subset) i hi hothers hbare

theorem eq_singleton (h : language.Describes e nodes)
    (hsingle : e.all (Expr.isSingle language isOne) = true) : ∃ node, nodes = [node] :=
  h.exists_eq_singleton (fun n e hmem => single_rules (n, e) hmem) hsingle

namespace IsRegular

/-- The parts of a regular node are described by its rule. -/
theorem describes (h : IsRegular (.branch n role parts)) (hlookup : rules.lookup n = some e)
    (hclosed : isOpen n = false) : language.Describes e parts := by
  cases h with
  | branch hparts _ =>
    obtain ⟨other, hmem, h⟩ := hparts hclosed
    exact expression_unique hmem hlookup ▸ h

theorem children (h : IsRegular node) : ∀ part ∈ node.children, IsRegular part := by
  cases h with
  | leaf => exact List.forall_mem_nil _
  | branch _ hall => exact hall

end IsRegular

/-- The statements of a module follow the grammar. -/
theorem regular_of_isModule (h : IsModule root) : ∀ node ∈ root.children, IsRegular node := by
  have hregular : IsRegular root :=
    h.conforms (fun n e hmem => told_rules (n, e) hmem) rfl root (List.mem_singleton_self _)
  exact hregular.children

/-! ### Definitions -/

/-- A definition has one name. -/
theorem name_of_definition (hn : n = .functionDefinition ∨ n = .classDefinition)
    (h : IsRegular (.branch n role parts)) :
    ∃ line gap name, Node.inRole .name parts = [.leaf .identifier (some .name) line gap name] := by
  obtain ⟨inner, hinner, hname⟩ : ∃ inner, language.Describes (.token .identifier) inner ∧
      Node.inRole .name parts = inner.map (·.withRole .name) := by
    rcases hn with rfl | rfl
    · exact inRole_eq (h.describes rfl rfl) 2 rfl (by decide) rfl
    · exact inRole_eq (h.describes rfl rfl) 1 rfl (by decide) rfl
  obtain ⟨line, gap, name, rfl⟩ := describes_identifier hinner
  exact ⟨line, gap, name, hname⟩

/-- The body of a statement is a block. -/
theorem describes_suite (h : language.Describes (.rule .suite) nodes) :
    ∃ body, nodes = [.branch .block none body] := by
  obtain ⟨e, hmem, h⟩ := Describes.choice_iff.1 (describes_hidden h rfl rfl)
  simp only [List.mem_cons, List.not_mem_nil, or_false] at hmem
  rcases hmem with rfl | rfl | rfl
  · obtain ⟨body, rfl, -⟩ := Describes.asRule_iff.1 h
    exact ⟨body, rfl⟩
  · obtain ⟨indent, others, rfl, hindent, hothers⟩ := Describes.seq_cons_iff.1 h
    obtain ⟨block, last, rfl, hblock, hlast⟩ := Describes.seq_cons_iff.1 hothers
    obtain ⟨body, rfl, -⟩ := describes_shown hblock rfl rfl
    rcases Describes.token_iff.1 hindent with ⟨hsilent, _⟩ | ⟨_, rfl⟩
    · cases hsilent
    · rw [Describes.seq_nil_iff.1 hlast]
      exact ⟨body, rfl⟩
  · obtain ⟨body, rfl, -⟩ := Describes.asRule_iff.1 h
    exact ⟨body, rfl⟩

/-- A class has one body. -/
theorem body_of_class (h : IsRegular (.branch .classDefinition role parts)) :
    ∃ body, Node.inRole .body parts = [.branch .block (some .body) body] := by
  obtain ⟨inner, hinner, hbody⟩ := inRole_eq (h.describes rfl rfl) 5 rfl (by decide) rfl
  obtain ⟨body, rfl⟩ := describes_suite hinner
  exact ⟨body, hbody⟩

/-- Decorators stand before one definition. -/
theorem definition_of_decorated (h : IsRegular (.branch .decoratedDefinition role parts)) :
    ∃ n inner, (n = .functionDefinition ∨ n = .classDefinition) ∧
      Node.inRole .definition parts = [.branch n (some .definition) inner] := by
  obtain ⟨inner, hinner, hdefinition⟩ := inRole_eq (h.describes rfl rfl) 1 rfl (by decide) rfl
  obtain ⟨e, hmem, hinner⟩ := Describes.choice_iff.1 hinner
  simp only [List.mem_cons, List.not_mem_nil, or_false] at hmem
  rcases hmem with rfl | rfl
  · obtain ⟨parts, rfl, -⟩ := describes_shown hinner rfl rfl
    exact ⟨_, parts, .inr rfl, hdefinition⟩
  · obtain ⟨parts, rfl, -⟩ := describes_shown hinner rfl rfl
    exact ⟨_, parts, .inl rfl, hdefinition⟩

/-! ### Assignments -/

/-- An assignment has one target. -/
theorem target_of_assignment (h : IsRegular (.branch .assignment role parts)) :
    ∃ target, Node.inRole .left parts = [target] := by
  obtain ⟨inner, hinner, htarget⟩ := inRole_eq (h.describes rfl rfl) 0 rfl (by decide) rfl
  obtain ⟨target, rfl⟩ := eq_singleton hinner rfl
  exact ⟨target.withRole .left, htarget⟩

/-- An assignment has a type, or else one value. -/
theorem value_of_assignment (h : IsRegular (.branch .assignment role parts)) :
    (∃ type ∈ parts, type.role? = some .type) ∨
      Node.inRole .type parts = [] ∧ ∃ value, Node.inRole .right parts = [value] := by
  obtain ⟨target, rest, rfl, htarget, hrest⟩ := Describes.seq_cons_iff.1 (h.describes rfl rfl)
  obtain ⟨rest, others, rfl, hrest, hothers⟩ := Describes.seq_cons_iff.1 hrest
  rw [Describes.seq_nil_iff.1 hothers, List.append_nil, Node.inRole_append, Node.inRole_append,
    inRole_eq_nil htarget (by decide), inRole_eq_nil htarget (by decide), List.nil_append,
    List.nil_append]
  -- With a type there is a colon in the second place.
  have htype {es : List Expr} (hes : es[1]? = some (.role .type (.rule .typeExpression)))
      (hothers : .type ∉ Expr.rolesOf givenBy (es.eraseIdx 1))
      (h : language.Describes (.seq es) rest) :
      ∃ type ∈ target ++ rest, type.role? = some .type := by
    obtain ⟨inner, hinner, heq⟩ := inRole_eq h 1 hes hothers rfl
    obtain ⟨parts, rfl, -⟩ := describes_shown hinner rfl rfl
    obtain ⟨hmem, hrole⟩ := Node.mem_of_inRole_eq heq
    exact ⟨_, List.mem_append_right _ hmem, hrole⟩
  obtain ⟨e, hmem, hrest⟩ := Describes.choice_iff.1 hrest
  simp only [List.mem_cons, List.not_mem_nil, or_false] at hmem
  rcases hmem with rfl | rfl | rfl
  · obtain ⟨inner, hinner, hvalue⟩ := inRole_eq hrest 1 rfl (by decide) rfl
    obtain ⟨value, rfl⟩ := eq_singleton hinner rfl
    exact .inr ⟨inRole_eq_nil hrest (by decide), _, hvalue⟩
  · exact .inl (htype rfl (by decide) hrest)
  · exact .inl (htype rfl (by decide) hrest)

end RepoAtlas.Python
