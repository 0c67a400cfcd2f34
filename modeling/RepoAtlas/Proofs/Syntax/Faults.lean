import RepoAtlas.Syntax.Tree
import Mathlib.Data.List.Basic

/-!
# The first fault of a tree

A node has a fault if and only if one stands somewhere in its preorder
(`Node.hasFault_iff`). So the nodes that the search for the first fault passes over
hold none of it, and what it finds is the first fault of the whole preorder
(`Node.firstFault?_eq_find?`): the node that ends the part without faults
(`Node.exists_firstFault?`).
-/

namespace RepoAtlas.Syntax.Node

variable {T N R : Type} {root : Node T N R}

/-! ### Preorder -/

theorem preorder_leaf (token : T) (role : Option R) (line : Nat) (gap text : String) :
    (leaf token role line gap text : Node T N R).preorder = [leaf token role line gap text] := by
  rw [preorder]

theorem preorder_branch (rule : N) (role : Option R) (cs : List (Node T N R)) :
    (branch rule role cs).preorder = branch rule role cs :: cs.flatMap preorder := by
  rw [preorder]

theorem preorder_fault (f : Fault) (line : Nat) (cs : List (Node T N R)) :
    (fault f line cs).preorder = fault f line cs :: cs.flatMap preorder := by
  rw [preorder]

theorem isFault_iff : root.isFault = true ↔ ∃ f line cs, root = fault f line cs := by
  cases root <;> simp [isFault]

/-! ### Having a fault -/

mutual

/-- A tree has a fault if one of its nodes is a fault. -/
theorem hasFault_eq_any : (n : Node T N R) → n.hasFault = n.preorder.any isFault
  | leaf .. => by
    rw [preorder_leaf]
    rfl
  | branch rule role cs => by
    have hroot : (branch rule role cs).isFault = false := rfl
    rw [hasFault, anyFault_eq_any cs, preorder_branch, List.any_cons, hroot, Bool.false_or]
  | fault f line cs => by
    rw [hasFault, preorder_fault, List.any_cons, isFault, Bool.true_or]

theorem anyFault_eq_any : (cs : List (Node T N R)) →
    anyFault cs = (cs.flatMap preorder).any isFault
  | [] => rfl
  | c :: cs => by
    rw [anyFault, hasFault_eq_any c, anyFault_eq_any cs, List.flatMap_cons, List.any_append]

end

/-- A node has a fault if it is one or one stands below it. -/
theorem hasFault_iff : root.hasFault = true ↔ ∃ n ∈ root.preorder, n.isFault = true := by
  rw [hasFault_eq_any, List.any_eq_true]

/-- Where no fault stands, none is found. -/
theorem find?_preorder_of_not_hasFault (h : ¬root.hasFault = true) :
    root.preorder.find? isFault = none := by
  rw [hasFault_iff] at h
  exact List.find?_eq_none.2 fun n hn hfault => h ⟨n, hn, hfault⟩

/-! ### Finding a fault -/

mutual

/-- The search finds the first fault of the preorder. -/
theorem firstFault?_eq_find? : (n : Node T N R) → n.firstFault? = n.preorder.find? isFault
  | leaf .. => by
    rw [preorder_leaf]
    rfl
  | branch rule role cs => by
    have hroot : ¬(branch rule role cs).isFault = true := Bool.false_ne_true
    rw [firstFault?, firstFaultAmong?_eq_find? cs, preorder_branch,
      List.find?_cons_of_neg hroot]
  | fault f line cs => by
    rw [firstFault?, preorder_fault, List.find?_cons_of_pos rfl]

/-- So does the search among several nodes: those that it passes over hold no fault. -/
theorem firstFaultAmong?_eq_find? : (cs : List (Node T N R)) →
    firstFaultAmong? cs = (cs.flatMap preorder).find? isFault
  | [] => rfl
  | c :: cs => by
    rw [firstFaultAmong?, firstFault?_eq_find? c, firstFaultAmong?_eq_find? cs,
      List.flatMap_cons, List.find?_append, Option.orElse_eq_orElse, Option.orElse_eq_or]
    split
    · rfl
    · rename_i hpassed
      rw [find?_preorder_of_not_hasFault hpassed, Option.none_or]

end

/-- In a tree with a fault the search ends at the first one in preorder. -/
theorem exists_firstFault? (h : root.hasFault = true) :
    ∃ before f line cs after, root.preorder = before ++ fault f line cs :: after ∧
      (∀ n ∈ before, n.isFault = false) ∧ root.firstFault? = some (fault f line cs) := by
  obtain ⟨n, hn⟩ : ∃ n, root.preorder.find? isFault = some n := by
    rw [← Option.isSome_iff_exists, List.find?_isSome, ← hasFault_iff]
    exact h
  obtain ⟨hfault, before, after, hpreorder, hbefore⟩ := List.find?_eq_some_iff_append.1 hn
  obtain ⟨f, line, cs, rfl⟩ := isFault_iff.1 hfault
  refine ⟨before, f, line, cs, after, hpreorder, fun n hn => ?_, ?_⟩
  · simpa using hbefore n hn
  · rw [firstFault?_eq_find?, hn]

end RepoAtlas.Syntax.Node
