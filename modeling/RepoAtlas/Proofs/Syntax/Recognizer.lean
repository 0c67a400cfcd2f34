import RepoAtlas.Proofs.Syntax.Derivation

/-!
# Recognition

A way to see that an expression describes given nodes: what is left of them behind
those that it describes is computed, down to some depth (`Language.rests`). All that
is found so is described (`Language.describes_of_mem_rests`); a role is recognised on
a single node only.
-/

namespace RepoAtlas.Syntax

variable {T N R : Type} [DecidableEq T] [DecidableEq N] [DecidableEq R]

/-- The node without its role. -/
def Node.bare : Node T N R → Node T N R
  | .leaf t _ line gap text => .leaf t none line gap text
  | .branch n _ parts => .branch n none parts
  | .fault f line parts => .fault f line parts

omit [DecidableEq T] [DecidableEq N] [DecidableEq R] in
theorem Node.withRole_bare {n : Node T N R} {r : R} (h : n.role? = some r) :
    n.bare.withRole r = n := by
  cases n with
  | leaf =>
    cases h
    rfl
  | branch =>
    cases h
    rfl
  | fault => cases h

/-! ### Behind one node -/

/-- What is left behind a leaf with a token. -/
def behindLeaf (t : T) : List (Node T N R) → List (List (Node T N R))
  | .leaf t' none _ _ _ :: rest => if t' = t then [rest] else []
  | _ => []

/-- What is left behind a node of a rule, if its parts pass a test. -/
def behindBranch (n : N) (test : List (Node T N R) → Bool) :
    List (Node T N R) → List (List (Node T N R))
  | .branch n' none parts :: rest => if n' = n ∧ test parts then [rest] else []
  | _ => []

/-- What is left behind a node in a role, if it passes a test without it. -/
def behindRole (r : R) (test : Node T N R → Bool) : List (Node T N R) → List (List (Node T N R))
  | node :: rest => if node.role? = some r ∧ test node.bare then [rest] else []
  | [] => []

section

variable {nodes rest : List (Node T N R)}

omit [DecidableEq N] [DecidableEq R] in
/-- Behind a leaf stands what follows it. -/
theorem eq_of_mem_behindLeaf {t : T} (h : rest ∈ behindLeaf t nodes) :
    ∃ line gap text, nodes = .leaf t none line gap text :: rest := by
  unfold behindLeaf at h
  split at h
  · split at h
    · rename_i ht
      subst ht
      cases List.mem_singleton.1 h
      exact ⟨_, _, _, rfl⟩
    · cases h
  · cases h

omit [DecidableEq T] [DecidableEq R] in
/-- Behind a node stands what follows it, if its children pass the test. -/
theorem eq_of_mem_behindBranch {n : N} {test : List (Node T N R) → Bool}
    (h : rest ∈ behindBranch n test nodes) :
    ∃ parts, nodes = .branch n none parts :: rest ∧ test parts = true := by
  unfold behindBranch at h
  split at h
  · split at h
    · rename_i htest
      obtain ⟨rfl, htest⟩ := htest
      cases List.mem_singleton.1 h
      exact ⟨_, rfl, htest⟩
    · cases h
  · cases h

omit [DecidableEq T] [DecidableEq N] in
/-- Behind a node in a role stands what follows it, if it passes the test without the
    role. -/
theorem eq_of_mem_behindRole {r : R} {test : Node T N R → Bool}
    (h : rest ∈ behindRole r test nodes) :
    ∃ node, nodes = node :: rest ∧ node.role? = some r ∧ test node.bare = true := by
  unfold behindRole at h
  split at h
  · split at h
    · rename_i htest
      cases List.mem_singleton.1 h
      exact ⟨_, rfl, htest⟩
    · cases h
  · cases h

end

namespace Language

variable (l : Language T N R)

/-- What may be left of nodes behind those that an expression describes. -/
def rests : Nat → Expr T N R → List (Node T N R) → List (List (Node T N R))
  | 0, _, _ => []
  | _ + 1, .token t, nodes => if l.isSilent t then [nodes] else behindLeaf t nodes
  | depth + 1, .rule n, nodes =>
    let bodies := (l.rules.filter (·.1 = n)).map (·.2)
    if l.isHidden n then bodies.flatMap fun e => rests depth e nodes
    else
      behindBranch n (fun parts => bodies.any fun e => (rests depth e parts).any List.isEmpty) nodes
  | _ + 1, .seq [], nodes => [nodes]
  | depth + 1, .seq (e :: es), nodes => (rests depth e nodes).flatMap (rests depth (.seq es))
  | depth + 1, .choice es, nodes => es.flatMap fun e => rests depth e nodes
  | depth + 1, .many1 e, nodes =>
    (rests depth e nodes).flatMap fun rest => rest :: rests depth (.many1 e) rest
  | depth + 1, .ranked _ _ e, nodes => rests depth e nodes
  | depth + 1, .role r e, nodes =>
    behindRole r (fun node => (rests depth e [node]).any List.isEmpty) nodes
  | _ + 1, .asToken _ _, _ => []
  | depth + 1, .asRule n e, nodes =>
    behindBranch n (fun parts => (rests depth e parts).any List.isEmpty) nodes

variable {l} {depth : Nat} {e : Expr T N R} {nodes rest : List (Node T N R)}

omit [DecidableEq T] [DecidableEq N] [DecidableEq R] in
theorem Describes.many1_cons {others : List (Node T N R)} (h : l.Describes e nodes)
    (hothers : l.Describes (.many1 e) others) : l.Describes (.many1 e) (nodes ++ others) := by
  generalize hrepeated : Expr.many1 e = repeated at hothers
  induction hothers with
  | once hlast _ =>
    cases hrepeated
    exact .again (.once h) hlast
  | again _ hlast ih _ =>
    cases hrepeated
    rw [← List.append_assoc]
    exact .again (ih rfl) hlast
  | _ => cases hrepeated

/-- What is left stands behind nodes that are described. -/
theorem describes_of_mem_rests (h : rest ∈ l.rests depth e nodes) :
    ∃ front, nodes = front ++ rest ∧ l.Describes e front := by
  induction depth generalizing e nodes rest with
  | zero => cases h
  | succ depth ih =>
    -- All nodes are described if nothing is left.
    have hall {e : Expr T N R} {nodes : List (Node T N R)}
        (h : (l.rests depth e nodes).any List.isEmpty = true) : l.Describes e nodes := by
      obtain ⟨rest, hrest, hempty⟩ := List.any_eq_true.1 h
      obtain ⟨front, rfl, hfront⟩ := ih hrest
      rwa [List.isEmpty_iff.1 hempty, List.append_nil]
    cases e with
    | token t =>
      rw [rests] at h
      split at h
      · rename_i hsilent
        cases List.mem_singleton.1 h
        exact ⟨[], rfl, .silent hsilent⟩
      · rename_i hsilent
        obtain ⟨line, gap, text, rfl⟩ := eq_of_mem_behindLeaf h
        exact ⟨[_], rfl, .leaf line gap text (Bool.eq_false_iff.2 hsilent)⟩
    | rule n =>
      have hbody {e : Expr T N R} (he : e ∈ (l.rules.filter (·.1 = n)).map (·.2)) :
          (n, e) ∈ l.rules := by
        obtain ⟨row, hrow, rfl⟩ := List.mem_map.1 he
        obtain ⟨hmem, hn⟩ := List.mem_filter.1 hrow
        obtain rfl := of_decide_eq_true hn
        exact hmem
      rw [rests] at h
      split at h
      · rename_i hhidden
        obtain ⟨e, he, hrest⟩ := List.mem_flatMap.1 h
        obtain ⟨front, rfl, hfront⟩ := ih hrest
        exact ⟨front, rfl, .hidden (hbody he) hhidden hfront⟩
      · rename_i hshown
        obtain ⟨parts, rfl, hparts⟩ := eq_of_mem_behindBranch h
        obtain ⟨e, he, hparts⟩ := List.any_eq_true.1 hparts
        exact ⟨[_], rfl, .branch (hbody he) (Bool.eq_false_iff.2 hshown) (hall hparts)⟩
    | seq es =>
      cases es with
      | nil =>
        cases List.mem_singleton.1 h
        exact ⟨[], rfl, .seqNil⟩
      | cons e es =>
        rw [rests] at h
        obtain ⟨others, hothers, hrest⟩ := List.mem_flatMap.1 h
        obtain ⟨first, rfl, hfirst⟩ := ih hothers
        obtain ⟨second, rfl, hsecond⟩ := ih hrest
        exact ⟨first ++ second, (List.append_assoc ..).symm, .seqCons hfirst hsecond⟩
    | choice es =>
      rw [rests] at h
      obtain ⟨e, he, hrest⟩ := List.mem_flatMap.1 h
      obtain ⟨front, rfl, hfront⟩ := ih hrest
      exact ⟨front, rfl, .choice he hfront⟩
    | many1 e =>
      rw [rests] at h
      obtain ⟨others, hothers, hrest⟩ := List.mem_flatMap.1 h
      obtain ⟨first, rfl, hfirst⟩ := ih hothers
      rcases List.mem_cons.1 hrest with rfl | hrest
      · exact ⟨first, rfl, .once hfirst⟩
      · obtain ⟨second, rfl, hsecond⟩ := ih hrest
        exact ⟨first ++ second, (List.append_assoc ..).symm, hfirst.many1_cons hsecond⟩
    | ranked rank side e =>
      rw [rests] at h
      obtain ⟨front, rfl, hfront⟩ := ih h
      exact ⟨front, rfl, .ranked hfront⟩
    | role r e =>
      rw [rests] at h
      obtain ⟨node, rfl, hrole, hnode⟩ := eq_of_mem_behindRole h
      refine ⟨[node], rfl, ?_⟩
      have hdescribed : l.Describes (.role r e) ([node.bare].map (·.withRole r)) :=
        (hall hnode).role
      rwa [List.map_singleton, Node.withRole_bare hrole] at hdescribed
    | asToken t e => cases h
    | asRule n e =>
      rw [rests] at h
      obtain ⟨parts, rfl, hparts⟩ := eq_of_mem_behindBranch h
      exact ⟨[_], rfl, .asRule (hall hparts)⟩

/-- Whether an expression is seen to describe nodes. -/
def recognizes (l : Language T N R) (depth : Nat) (e : Expr T N R) (nodes : List (Node T N R)) :
    Bool :=
  (l.rests depth e nodes).any List.isEmpty

/-- What an expression is seen to describe, it describes. -/
theorem describes_of_recognizes (depth : Nat) (h : l.recognizes depth e nodes = true) :
    l.Describes e nodes := by
  obtain ⟨rest, hrest, hempty⟩ := List.any_eq_true.1 h
  obtain ⟨front, rfl, hfront⟩ := describes_of_mem_rests hrest
  rwa [List.isEmpty_iff.1 hempty, List.append_nil]

end Language

end RepoAtlas.Syntax
