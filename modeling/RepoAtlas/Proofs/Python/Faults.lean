import RepoAtlas.Proofs.Syntax.Faults
import RepoAtlas.Python.Source

/-!
# Where a source is at fault

A source that leaves the grammar is refused with the line of the first fault of its
tree in preorder (`parse_of_hasFault`). There is always such a fault, so the line is
never made up.
-/

namespace RepoAtlas.Python

open Syntax.Node (isFault firstFault?_eq_find? hasFault_iff exists_firstFault?)

/-- The line of a fault that was found, counted from one. -/
theorem faultLine_of_firstFault? {root : Node} {f : Syntax.Fault} {line : Nat} {cs : List Node}
    (h : root.firstFault? = some (.fault f line cs)) : faultLine root = line + 1 := by
  rw [faultLine, h, Option.bind_some, Syntax.Node.line?, Option.getD_some]

theorem parse_of_hasFault {source : String} (h : (tree source).hasFault = true) :
    parse source = .error ⟨faultLine (tree source)⟩ := if_pos h

/-- The search for the first fault loses nothing by passing over nodes that have none: in
    every tree it finds what a search through the whole preorder finds, and it finds a
    fault wherever there is one. So a source with a fault is refused with the line of
    the first one, counted from one. -/
theorem firstFault?_complete :
    (∀ {T N R : Type} (root : Syntax.Node T N R),
      (root.hasFault = true ↔ ∃ n ∈ root.preorder, n.isFault = true) ∧
        root.firstFault? = root.preorder.find? isFault ∧
          (root.hasFault = true → root.firstFault?.isSome = true)) ∧
      ∀ root : Node, root.hasFault = true →
        ∃ before f line cs after, root.preorder = before ++ .fault f line cs :: after ∧
          (∀ n ∈ before, n.isFault = false) ∧ faultLine root = line + 1 ∧
            ∀ source, tree source = root → parse source = .error ⟨line + 1⟩ := by
  refine ⟨fun root => ⟨hasFault_iff, firstFault?_eq_find? root, fun h => ?_⟩, fun root h => ?_⟩
  · obtain ⟨-, f, line, cs, -, -, -, hfound⟩ := exists_firstFault? h
    rw [hfound, Option.isSome_some]
  · obtain ⟨before, f, line, cs, after, hpreorder, hbefore, hfound⟩ := exists_firstFault? h
    have hline := faultLine_of_firstFault? hfound
    refine ⟨before, f, line, cs, after, hpreorder, hbefore, hline, fun source hsource => ?_⟩
    subst hsource
    rw [parse_of_hasFault h, hline]

/-- A module with a fault inside its second statement and another one behind it. -/
def twiceFaulty : Node :=
  .branch .module none [
    .branch .expressionStatement none [.leaf .identifier none 0 "" "x"],
    .branch .expressionStatement none [.leaf .identifier none 2 "\n" "y", .fault .missing 3 []],
    .fault .unexpected 7 [.leaf .identifier none 7 "\n" "z"]]

/-- The fault inside comes first. -/
theorem firstFault?_complete_nested :
    twiceFaulty.hasFault = true ∧ twiceFaulty.firstFault? = some (.fault .missing 3 []) ∧
      faultLine twiceFaulty = 4 := by
  have hfault : twiceFaulty.hasFault = true := by decide
  have hfound : twiceFaulty.preorder.find? isFault = some (.fault .missing 3 []) := by
    rw [twiceFaulty]
    simp [Syntax.Node.preorder, isFault]
  obtain ⟨before, f, line, cs, after, hpreorder, hbefore, hline, -⟩ :=
    firstFault?_complete.2 twiceFaulty hfault
  refine ⟨hfault, ?_, ?_⟩
  · rw [(firstFault?_complete.1 twiceFaulty).2.1, hfound]
  · have hfirst : twiceFaulty.preorder.find? isFault = some (.fault f line cs) :=
      List.find?_eq_some_iff_append.2 ⟨rfl, before, after, hpreorder, by simpa using hbefore⟩
    rw [hfound, Option.some.injEq] at hfirst
    cases hfirst
    exact hline

end RepoAtlas.Python
