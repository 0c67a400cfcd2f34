import RepoAtlas.Syntax.Reading

/-!
# Derivations

The trees of a language, said without a reader: the lists of nodes that an
expression describes (`Language.Describes`). A rule describes one node with the
parts that its expression describes, or these parts alone if it is hidden. What
the leaves say, and on which lines, is left open.

Facts about all that an expression describes are read off the expression and the
hidden rules:

* `Describes.role_mem`: the roles of the nodes are among those that the expression
  gives (`Expr.roles`), so the one expression of a sequence that gives a role
  describes all parts in it (`Describes.inRole_eq`);
* `Describes.exists_eq_singleton`: there is one node, if a test of all expressions
  within says so (`Expr.all`);
* `Describes.conforms`: the parts of every node are described by its rule, and so
  are the parts of its parts (`Language.Conforms`).
-/

namespace RepoAtlas.Syntax

variable {T N R : Type}

/-- The node with another token, if it is a leaf. -/
def Node.retold (t : T) : Node T N R → Node T N R
  | .leaf _ role line gap text => .leaf t role line gap text
  | n => n

/-- What an expression of a language describes. -/
inductive Language.Describes (l : Language T N R) : Expr T N R → List (Node T N R) → Prop
  | leaf {t : T} (line : Nat) (gap text : String) :
    l.isSilent t = false → Describes l (.token t) [.leaf t none line gap text]
  | silent {t : T} : l.isSilent t = true → Describes l (.token t) []
  | branch {n : N} {e : Expr T N R} {parts : List (Node T N R)} :
    (n, e) ∈ l.rules → l.isHidden n = false → Describes l e parts →
      Describes l (.rule n) [.branch n none parts]
  | hidden {n : N} {e : Expr T N R} {parts : List (Node T N R)} :
    (n, e) ∈ l.rules → l.isHidden n = true → Describes l e parts → Describes l (.rule n) parts
  | seqNil : Describes l (.seq []) []
  | seqCons {e : Expr T N R} {es : List (Expr T N R)} {first others : List (Node T N R)} :
    Describes l e first → Describes l (.seq es) others →
      Describes l (.seq (e :: es)) (first ++ others)
  | choice {e : Expr T N R} {es : List (Expr T N R)} {nodes : List (Node T N R)} :
    e ∈ es → Describes l e nodes → Describes l (.choice es) nodes
  | once {e : Expr T N R} {nodes : List (Node T N R)} :
    Describes l e nodes → Describes l (.many1 e) nodes
  | again {e : Expr T N R} {before nodes : List (Node T N R)} :
    Describes l (.many1 e) before → Describes l e nodes → Describes l (.many1 e) (before ++ nodes)
  | ranked {rank : Int} {side : Option Side} {e : Expr T N R} {nodes : List (Node T N R)} :
    Describes l e nodes → Describes l (.ranked rank side e) nodes
  | role {r : R} {e : Expr T N R} {nodes : List (Node T N R)} :
    Describes l e nodes → Describes l (.role r e) (nodes.map (·.withRole r))
  | asToken {t : T} {e : Expr T N R} {nodes : List (Node T N R)} :
    Describes l e nodes → Describes l (.asToken t e) (nodes.map (·.retold t))
  | asRule {n : N} {e : Expr T N R} {nodes : List (Node T N R)} :
    Describes l e nodes → Describes l (.asRule n e) [.branch n none nodes]

/-- Whether a tree is one of the language throughout: the parts of each node are
    described by its rule. Nothing is said of the parts of some rules, those that
    nodes of other expressions are shown as. -/
inductive Language.Conforms (l : Language T N R) (open? : N → Bool) : Node T N R → Prop
  | leaf {t : T} {role : Option R} {line : Nat} {gap text : String} :
    Conforms l open? (.leaf t role line gap text)
  | branch {n : N} {role : Option R} {parts : List (Node T N R)} :
    (open? n = false → ∃ e, (n, e) ∈ l.rules ∧ l.Describes e parts) →
      (∀ part ∈ parts, Conforms l open? part) → Conforms l open? (.branch n role parts)

/-! ### Tests of expressions -/

namespace Expr

mutual

/-- Whether a test holds of an expression and of all expressions within. -/
def all (p : Expr T N R → Bool) : Expr T N R → Bool
  | e@(.token _) => p e
  | e@(.rule _) => p e
  | e@(.seq es) => p e && allOf p es
  | e@(.choice es) => p e && allOf p es
  | e@(.many1 inner) => p e && all p inner
  | e@(.ranked _ _ inner) => p e && all p inner
  | e@(.role _ inner) => p e && all p inner
  | e@(.asToken _ inner) => p e && all p inner
  | e@(.asRule _ inner) => p e && all p inner

/-- Whether a test holds of several expressions and of all within. -/
def allOf (p : Expr T N R → Bool) : List (Expr T N R) → Bool
  | [] => true
  | e :: es => all p e && allOf p es

end

/-- Whether an expression describes one node if all within do; of the hidden rules,
    some do. -/
def isSingle (l : Language T N R) (single : N → Bool) : Expr T N R → Bool
  | .token t => !l.isSilent t
  | .rule n => !l.isHidden n || single n
  | .seq _ => false
  | .many1 _ => false
  | _ => true

/-- Whether an expression shows nothing as a node of a rule, but for some rules. -/
def isTold (open? : N → Bool) : Expr T N R → Bool
  | .asRule n _ => open? n
  | _ => true

mutual

/-- The roles that an expression gives, if those that hidden rules give are known. -/
def roles (hidden : N → List R) : Expr T N R → List R
  | .token _ => []
  | .rule n => hidden n
  | .seq es => rolesOf hidden es
  | .choice es => rolesOf hidden es
  | .many1 e => roles hidden e
  | .ranked _ _ e => roles hidden e
  | .role r e => r :: roles hidden e
  | .asToken _ e => roles hidden e
  | .asRule _ _ => []

/-- The roles that several expressions give. -/
def rolesOf (hidden : N → List R) : List (Expr T N R) → List R
  | [] => []
  | e :: es => roles hidden e ++ rolesOf hidden es

end

variable {p : Expr T N R → Bool} {e : Expr T N R} {es : List (Expr T N R)} {hidden : N → List R}

theorem mem_rolesOf_iff {r : R} : r ∈ rolesOf hidden es ↔ ∃ e ∈ es, r ∈ e.roles hidden := by
  induction es with
  | nil => simp [rolesOf]
  | cons e es ih => simp [rolesOf, ih]

theorem allOf_iff : allOf p es = true ↔ ∀ e ∈ es, e.all p = true := by
  induction es with
  | nil => simp [allOf]
  | cons e es ih => simp [allOf, ih]

/-- A test of all that is in an expression is one of itself. -/
theorem test_of_all (h : e.all p = true) : p e = true := by
  cases e <;> simp_all [all]

theorem all_seq_cons (h : (Expr.seq (e :: es)).all p = true) (htest : p (.seq es) = true) :
    e.all p = true ∧ (Expr.seq es).all p = true := by
  simp only [all, allOf, Bool.and_eq_true] at h ⊢
  exact ⟨h.2.1, htest, h.2.2⟩

/-- A test of all that is in a choice is one of each alternative. -/
theorem all_of_choice (h : (Expr.choice es).all p = true) (hmem : e ∈ es) : e.all p = true := by
  simp only [all, Bool.and_eq_true] at h
  exact allOf_iff.1 h.2 e hmem

end Expr

namespace Node

variable {n : Node T N R} {r other : R}

theorem role?_retold (t : T) (n : Node T N R) : (n.retold t).role? = n.role? := by
  cases n <;> rfl

theorem isFault_retold (t : T) (n : Node T N R) : (n.retold t).isFault = n.isFault := by
  cases n <;> rfl

theorem isFault_withRole (r : R) (n : Node T N R) : (n.withRole r).isFault = n.isFault := by
  cases n <;> rfl

/-- A node takes a role if it has none yet. -/
theorem role?_withRole (h : n.isFault = false) (r : R) :
    (n.withRole r).role? = (n.role? <|> some r) := by
  cases n with
  | leaf => rfl
  | branch => rfl
  | fault => cases h

end Node

namespace Language

variable {l : Language T N R} {open? : N → Bool} {node : Node T N R}

/-- A role makes no difference to whether a node conforms. -/
theorem Conforms.withRole (r : R) (h : l.Conforms open? node) :
    l.Conforms open? (node.withRole r) := by
  cases h with
  | leaf => exact .leaf
  | branch hparts hall => exact .branch hparts hall

/-- Another token makes no difference to whether a node conforms. -/
theorem Conforms.retold (t : T) (h : l.Conforms open? node) : l.Conforms open? (node.retold t) := by
  cases h with
  | leaf => exact .leaf
  | branch hparts hall => exact .branch hparts hall

namespace Describes

variable {e : Expr T N R} {nodes : List (Node T N R)}

/-! ### Facts about all nodes -/

/-- Nothing that is described is a fault. -/
theorem isFault_eq_false (h : l.Describes e nodes) : ∀ node ∈ nodes, node.isFault = false := by
  induction h with
  | leaf line gap text _ => simp [Node.isFault]
  | silent _ => simp
  | branch _ _ _ _ => simp [Node.isFault]
  | hidden _ _ _ ih => exact ih
  | seqNil => simp
  | seqCons _ _ ihFirst ihOthers => exact List.forall_mem_append.2 ⟨ihFirst, ihOthers⟩
  | choice _ _ ih => exact ih
  | once _ ih => exact ih
  | again _ _ ihBefore ih => exact List.forall_mem_append.2 ⟨ihBefore, ih⟩
  | ranked _ ih => exact ih
  | role _ ih => simpa [Node.isFault_withRole] using ih
  | asToken _ ih => simpa [Node.isFault_retold] using ih
  | asRule _ _ => simp [Node.isFault]

/-- A role of a node is one that the expression gives. -/
theorem role_mem {hidden : N → List R}
    (hrules : ∀ n e, (n, e) ∈ l.rules → l.isHidden n = true → e.roles hidden ⊆ hidden n)
    (h : l.Describes e nodes) :
    ∀ node ∈ nodes, ∀ r, node.role? = some r → r ∈ e.roles hidden := by
  induction h with
  | leaf line gap text _ => simp [Node.role?]
  | silent _ => simp
  | branch _ _ _ _ => simp [Node.role?]
  | hidden hmem hhidden _ ih =>
    intro node hnode r hr
    exact hrules _ _ hmem hhidden (ih node hnode r hr)
  | seqNil => simp
  | seqCons _ _ ihFirst ihOthers =>
    refine List.forall_mem_append.2 ⟨fun node hnode r hr => ?_, fun node hnode r hr => ?_⟩
    · exact List.mem_append_left _ (ihFirst node hnode r hr)
    · exact List.mem_append_right _ (ihOthers node hnode r hr)
  | choice hmem _ ih =>
    intro node hnode r hr
    exact Expr.mem_rolesOf_iff.2 ⟨_, hmem, ih node hnode r hr⟩
  | once _ ih => exact ih
  | again _ _ ihBefore ih => exact List.forall_mem_append.2 ⟨ihBefore, ih⟩
  | ranked _ ih => exact ih
  | role h ih =>
    refine List.forall_mem_map.2 fun node hnode r hr => ?_
    rw [Node.role?_withRole (h.isFault_eq_false node hnode)] at hr
    cases hrole : node.role? with
    | none =>
      rw [hrole] at hr
      cases hr
      exact List.mem_cons_self ..
    | some old =>
      rw [hrole] at hr
      cases hr
      exact List.mem_cons_of_mem _ (ih node hnode _ hrole)
  | asToken _ ih =>
    refine List.forall_mem_map.2 fun node hnode r hr => ?_
    rw [Node.role?_retold] at hr
    exact ih node hnode r hr
  | asRule _ _ => simp [Node.role?]

/-- An expression that is made of choices between single nodes describes one. -/
theorem exists_eq_singleton {single : N → Bool}
    (hrules : ∀ n e, (n, e) ∈ l.rules → single n = true → e.all (Expr.isSingle l single) = true)
    (h : l.Describes e nodes) (hsingle : e.all (Expr.isSingle l single) = true) :
    ∃ node, nodes = [node] := by
  induction h with
  | leaf line gap text _ => exact ⟨_, rfl⟩
  | silent hsilent => simp [Expr.all, Expr.isSingle, hsilent] at hsingle
  | branch _ _ _ _ => exact ⟨_, rfl⟩
  | hidden hmem hhidden _ ih =>
    refine ih (hrules _ _ hmem ?_)
    simpa [Expr.isSingle, hhidden] using Expr.test_of_all hsingle
  | seqNil => cases hsingle
  | seqCons _ _ _ _ => cases hsingle
  | choice hmem _ ih => exact ih (Expr.all_of_choice hsingle hmem)
  | once _ _ => cases hsingle
  | again _ _ _ _ => cases hsingle
  | ranked _ ih => exact ih hsingle
  | role _ ih =>
    obtain ⟨node, rfl⟩ := ih hsingle
    exact ⟨_, rfl⟩
  | asToken _ ih =>
    obtain ⟨node, rfl⟩ := ih hsingle
    exact ⟨_, rfl⟩
  | asRule _ _ => exact ⟨_, rfl⟩

/-- What is described is of the language throughout. -/
theorem conforms
    (hrules : ∀ n e, (n, e) ∈ l.rules → e.all (Expr.isTold open?) = true)
    (h : l.Describes e nodes) (htold : e.all (Expr.isTold open?) = true) :
    ∀ node ∈ nodes, l.Conforms open? node := by
  induction h with
  | leaf line gap text _ => simpa using Conforms.leaf
  | silent _ => simp
  | branch hmem _ h ih =>
    rw [List.forall_mem_singleton]
    exact .branch (fun _ => ⟨_, hmem, h⟩) (ih (hrules _ _ hmem))
  | hidden hmem _ _ ih => exact ih (hrules _ _ hmem)
  | seqNil => simp
  | seqCons _ _ ihFirst ihOthers =>
    obtain ⟨hfirst, hothers⟩ := Expr.all_seq_cons htold rfl
    exact List.forall_mem_append.2 ⟨ihFirst hfirst, ihOthers hothers⟩
  | choice hmem _ ih => exact ih (Expr.all_of_choice htold hmem)
  | once _ ih => exact ih htold
  | again _ _ ihBefore ih => exact List.forall_mem_append.2 ⟨ihBefore htold, ih htold⟩
  | ranked _ ih => exact ih htold
  | role _ ih => exact List.forall_mem_map.2 fun node hnode => (ih htold node hnode).withRole _
  | asToken _ ih => exact List.forall_mem_map.2 fun node hnode => (ih htold node hnode).retold _
  | asRule _ ih =>
    simp only [Expr.all, Expr.isTold, Bool.and_eq_true] at htold
    rw [List.forall_mem_singleton]
    refine .branch (fun hclosed => ?_) (ih htold.2)
    cases hclosed.symm.trans htold.1

/-! ### Expressions from the outside in -/

/-- A token describes its leaf, or nothing if it is silent. -/
theorem token_iff {t : T} :
    l.Describes (.token t) nodes ↔
      l.isSilent t = false ∧ (∃ line gap text, nodes = [.leaf t none line gap text]) ∨
        l.isSilent t = true ∧ nodes = [] := by
  constructor
  · intro h
    cases h with
    | leaf line gap text h => exact .inl ⟨h, line, gap, text, rfl⟩
    | silent h => exact .inr ⟨h, rfl⟩
  · rintro (⟨h, line, gap, text, rfl⟩ | ⟨h, rfl⟩)
    · exact .leaf line gap text h
    · exact .silent h

theorem seq_nil_iff : l.Describes (.seq []) nodes ↔ nodes = [] := by
  constructor
  · intro h
    cases h
    rfl
  · rintro rfl
    exact .seqNil

/-- A sequence describes what its first part does, and then what the others do. -/
theorem seq_cons_iff {es : List (Expr T N R)} :
    l.Describes (.seq (e :: es)) nodes ↔
      ∃ first others, nodes = first ++ others ∧ l.Describes e first ∧
        l.Describes (.seq es) others := by
  constructor
  · intro h
    cases h with
    | seqCons hfirst hothers => exact ⟨_, _, rfl, hfirst, hothers⟩
  · rintro ⟨first, others, rfl, hfirst, hothers⟩
    exact .seqCons hfirst hothers

/-- A sequence describes what all but its last part do, and then what the last one does. -/
theorem seq_concat_iff {es : List (Expr T N R)} :
    l.Describes (.seq (es ++ [e])) nodes ↔
      ∃ others last, nodes = others ++ last ∧ l.Describes (.seq es) others ∧
        l.Describes e last := by
  induction es generalizing nodes with
  | nil =>
    simp only [List.nil_append, seq_cons_iff, seq_nil_iff]
    constructor
    · rintro ⟨last, _, rfl, hlast, rfl⟩
      exact ⟨[], last, List.append_nil _, rfl, hlast⟩
    · rintro ⟨_, last, rfl, rfl, hlast⟩
      exact ⟨last, [], (List.append_nil _).symm, hlast, rfl⟩
  | cons first es ih =>
    simp only [List.cons_append, seq_cons_iff, ih]
    constructor
    · rintro ⟨front, _, rfl, hfront, others, last, rfl, hothers, hlast⟩
      exact ⟨front ++ others, last, by rw [List.append_assoc],
        ⟨front, others, rfl, hfront, hothers⟩, hlast⟩
    · rintro ⟨_, last, rfl, ⟨front, others, rfl, hfront, hothers⟩, hlast⟩
      exact ⟨front, others ++ last, by rw [List.append_assoc], hfront, others, last, rfl, hothers,
        hlast⟩

/-- A choice describes what an alternative does. -/
theorem choice_iff {es : List (Expr T N R)} :
    l.Describes (.choice es) nodes ↔ ∃ e ∈ es, l.Describes e nodes := by
  constructor
  · intro h
    cases h with
    | choice hmem h => exact ⟨_, hmem, h⟩
  · rintro ⟨e, hmem, h⟩
    exact .choice hmem h

theorem ranked_iff {rank : Int} {side : Option Side} :
    l.Describes (.ranked rank side e) nodes ↔ l.Describes e nodes := by
  constructor
  · intro h
    cases h with
    | ranked h => exact h
  · exact .ranked

/-- A role is given to all that is described within. -/
theorem role_iff {r : R} :
    l.Describes (.role r e) nodes ↔
      ∃ inner, nodes = inner.map (·.withRole r) ∧ l.Describes e inner := by
  constructor
  · intro h
    cases h with
    | role h => exact ⟨_, rfl, h⟩
  · rintro ⟨inner, rfl, h⟩
    exact .role h

/-- A rule describes one node, with what is described within as its children. -/
theorem asRule_iff {n : N} :
    l.Describes (.asRule n e) nodes ↔
      ∃ inner, nodes = [.branch n none inner] ∧ l.Describes e inner := by
  constructor
  · intro h
    cases h with
    | asRule h => exact ⟨_, rfl, h⟩
  · rintro ⟨inner, rfl, h⟩
    exact .asRule h

end Describes

/-! ### Facts put together from those of the expressions within -/

/-- Whether a property holds of every node that an expression describes. -/
def Gives (l : Language T N R) (e : Expr T N R) (P : Node T N R → Prop) : Prop :=
  ∀ ⦃nodes⦄, l.Describes e nodes → ∀ node ∈ nodes, P node

namespace Gives

variable {P : Node T N R → Prop} {e : Expr T N R} {es : List (Expr T N R)}

theorem seqNil : l.Gives (.seq []) P := by
  intro nodes h
  rw [Describes.seq_nil_iff.1 h]
  exact List.forall_mem_nil _

/-- What each part of a sequence gives, the sequence does. -/
theorem seqCons (hfirst : l.Gives e P) (hothers : l.Gives (.seq es) P) :
    l.Gives (.seq (e :: es)) P := by
  intro nodes h
  obtain ⟨first, others, rfl, h, h'⟩ := Describes.seq_cons_iff.1 h
  exact List.forall_mem_append.2 ⟨hfirst h, hothers h'⟩

theorem choice (hall : ∀ e ∈ es, l.Gives e P) : l.Gives (.choice es) P := by
  intro nodes h
  obtain ⟨e, hmem, h⟩ := Describes.choice_iff.1 h
  exact hall e hmem h

/-- What is given once is given again and again. -/
theorem many1 (hone : l.Gives e P) : l.Gives (.many1 e) P := by
  intro nodes h
  generalize hrepeated : Expr.many1 e = repeated at h
  induction h with
  | once h _ =>
    cases hrepeated
    exact hone h
  | again _ h ih _ =>
    cases hrepeated
    exact List.forall_mem_append.2 ⟨ih rfl, hone h⟩
  | _ => cases hrepeated

theorem optional (hone : l.Gives e P) : l.Gives e.optional P := by
  refine choice (List.forall_mem_cons.2 ⟨hone, List.forall_mem_singleton.2 seqNil⟩)

theorem sepBy1 {separator : Expr T N R} (hone : l.Gives e P) (hseparator : l.Gives separator P) :
    l.Gives (e.sepBy1 separator) P :=
  seqCons hone (seqCons (optional (many1 (seqCons hseparator (seqCons hone seqNil)))) seqNil)

/-- What is given within a role is given of the nodes that have taken it. -/
theorem role {r : R} (hinner : l.Gives e fun node => P (node.withRole r)) :
    l.Gives (.role r e) P := by
  intro nodes h
  obtain ⟨inner, rfl, h'⟩ := Describes.role_iff.1 h
  exact List.forall_mem_map.2 (hinner h')

end Gives

end Language

/-! ### Parts in a role -/

section Roles

variable [DecidableEq R] {l : Language T N R} {e : Expr T N R} {es : List (Expr T N R)}
  {nodes others : List (Node T N R)} {r : R} {hidden : N → List R}

namespace Node

/-- The nodes in a role. -/
def inRole (r : R) (nodes : List (Node T N R)) : List (Node T N R) :=
  nodes.filter fun node => node.role? == some r

/-- A child is the first in its role. -/
theorem child?_eq (r : R) (n : Node T N R) : n.child? r = (inRole r n.children).head? :=
  List.head?_filter.symm

theorem mem_inRole_iff {node : Node T N R} :
    node ∈ inRole r nodes ↔ node ∈ nodes ∧ node.role? = some r := by
  rw [inRole, List.mem_filter, beq_iff_eq]

/-- The one node in a role is a node, and in this role. -/
theorem mem_of_inRole_eq {node : Node T N R} (h : inRole r nodes = [node]) :
    node ∈ nodes ∧ node.role? = some r :=
  mem_inRole_iff.1 (h ▸ List.mem_singleton_self _)

/-- No other node is in the role of the one node in it. -/
theorem eq_of_inRole_eq {node other : Node T N R} (h : inRole r nodes = [node])
    (hmem : other ∈ nodes) (hrole : other.role? = some r) : other = node := by
  have hin := mem_inRole_iff.2 ⟨hmem, hrole⟩
  rwa [h, List.mem_singleton] at hin

theorem inRole_append (r : R) (nodes others : List (Node T N R)) :
    inRole r (nodes ++ others) = inRole r nodes ++ inRole r others :=
  List.filter_append ..

end Node

namespace Language.Describes

/-- What an expression describes that does not give a role has no node in it. -/
theorem inRole_eq_nil
    (hrules : ∀ n e, (n, e) ∈ l.rules → l.isHidden n = true → e.roles hidden ⊆ hidden n)
    (h : l.Describes e nodes) (hr : r ∉ e.roles hidden) : Node.inRole r nodes = [] := by
  refine List.filter_eq_nil_iff.2 fun node hnode hrole => hr ?_
  exact h.role_mem hrules node hnode r (beq_iff_eq.1 hrole)

/-- All that is described without a role and then put in one is in it. -/
theorem inRole_map_withRole
    (hrules : ∀ n e, (n, e) ∈ l.rules → l.isHidden n = true → e.roles hidden ⊆ hidden n)
    (h : l.Describes e nodes) (hbare : e.roles hidden = []) :
    Node.inRole r (nodes.map (·.withRole r)) = nodes.map (·.withRole r) := by
  refine List.filter_eq_self.2 (List.forall_mem_map.2 fun node hnode => ?_)
  have hnone : node.role? = none := by
    refine Option.eq_none_iff_forall_ne_some.2 fun other hother => ?_
    have hmem := h.role_mem hrules node hnode other hother
    rw [hbare] at hmem
    cases hmem
  rw [Node.role?_withRole (h.isFault_eq_false node hnode), hnone, beq_iff_eq]
  rfl

/-- If one expression of a sequence alone gives a role, all nodes in it are those that it
    describes. -/
theorem inRole_eq
    (hrules : ∀ n e, (n, e) ∈ l.rules → l.isHidden n = true → e.roles hidden ⊆ hidden n)
    (h : l.Describes (.seq es) nodes) (i : Nat) (hi : es[i]? = some (.role r e))
    (hothers : r ∉ Expr.rolesOf hidden (es.eraseIdx i)) (hbare : e.roles hidden = []) :
    ∃ inner, l.Describes e inner ∧ Node.inRole r nodes = inner.map (·.withRole r) := by
  induction es generalizing nodes i with
  | nil => cases hi
  | cons first es ih =>
    obtain ⟨before, others, rfl, hbefore, hothersOf⟩ := seq_cons_iff.1 h
    rw [Node.inRole_append]
    cases i with
    | zero =>
      cases hi
      obtain ⟨inner, rfl, hinner⟩ := role_iff.1 hbefore
      refine ⟨inner, hinner, ?_⟩
      rw [hinner.inRole_map_withRole hrules hbare, hothersOf.inRole_eq_nil hrules hothers,
        List.append_nil]
    | succ i =>
      rw [List.eraseIdx_cons_succ, Expr.rolesOf, List.mem_append, not_or] at hothers
      obtain ⟨inner, hinner, heq⟩ := ih hothersOf i hi hothers.2
      exact ⟨inner, hinner, by rw [hbefore.inRole_eq_nil hrules hothers.1, List.nil_append, heq]⟩

end Language.Describes

end Roles

end RepoAtlas.Syntax
