import RepoAtlas.Proofs.Python.Outline
import RepoAtlas.Proofs.Text.Case

/-!
# Which targets are constants

Of the targets of a chain of assignments those are constants that are bare names and
read as capitalised ones (`chainConstants_eq_filter`). These are the bare names in
capitals, but for mixed ones: a name with a capital letter, a title-case letter and no
small letter is told as a constant, and is not in capitals
(`constants_inCapitals_iff`).
-/

namespace RepoAtlas.Python

open Syntax
open Text (InCapitals IsMixed isUpperText)

/-- The name that a target is, if it is a bare one. -/
def bareName? : Node → Option String
  | .leaf .identifier _ _ _ name => some name
  | _ => none

/-- The bare names among targets. -/
def bareNames (targets : List Node) : List String := targets.filterMap bareName?

variable {node : Node} {targets : List Node}

theorem constantName?_eq (target : Node) :
    constantName? target = (bareName? target).filter isUpperText := by
  fun_cases bareName? target with
  | case1 role line gap name => rw [constantName?, Option.filter_some]
  | case2 target hbare =>
    rw [constantName?, Option.filter_none]
    exact hbare

/-- The constants of a chain are the bare names among its targets that read as
    capitalised, in order. -/
theorem chainConstants_eq_filter (h : IsRegular node) (htargets : Targets node targets) :
    chainConstants node = (bareNames targets).filter isUpperText := by
  rw [chainConstants_eq h htargets, bareNames, List.filter_filterMap]
  exact List.filterMap_congr fun target _ => constantName?_eq target

/-- A name reads as a capitalised one exactly if it is in capitals, unless it is mixed. So
    among the targets of a chain of assignments a bare name is told as a constant exactly
    if it is in capitals, unless it is mixed. -/
theorem constants_inCapitals_iff (name : String) :
    ((isUpperText name = true ↔ InCapitals name) ↔ ¬IsMixed name) ∧
      ∀ node targets, IsRegular node → Targets node targets → name ∈ bareNames targets →
        ((name ∈ chainConstants node ↔ InCapitals name) ↔ ¬IsMixed name) := by
  refine ⟨Text.isUpperText_agrees_iff, fun node targets h htargets hname => ?_⟩
  have hread : name ∈ chainConstants node ↔ isUpperText name = true := by
    rw [chainConstants_eq_filter h htargets, List.mem_filter]
    exact and_iff_right hname
  rw [hread, Text.isUpperText_agrees_iff]

/-- A capital letter and a digraph that is half capital: read as a capitalised name, and
    not in capitals. -/
theorem isUpperText_digraph :
    isUpperText "A\u01C5" = true ∧ ¬InCapitals "A\u01C5" := by
  decide +kernel

/-- A chain of assignments to three bare names: one in capitals, one with a small letter,
    and a digraph that is half capital. -/
def threefold : Node :=
  .branch .assignment none [
    .leaf .identifier (some .left) 0 "" "K",
    .leaf (.sign "=") none 0 " " "=",
    .branch .assignment (some .right) [
      .leaf .identifier (some .left) 0 " " "Kk",
      .leaf (.sign "=") none 0 " " "=",
      .branch .assignment (some .right) [
        .leaf .identifier (some .left) 0 " " "\u01C5",
        .leaf (.sign "=") none 0 " " "=",
        .leaf .integer (some .right) 0 " " "0"]]]

theorem regular_threefold : IsRegular threefold := by
  have h : IsModule (.branch .module none [.branch .expressionStatement none [threefold]]) :=
    Language.describes_of_recognizes 70 (by decide +kernel)
  exact regular_assignments (regular_of_isModule h) _ (.head _)

theorem constants_threefold :
    ∃ targets, Targets threefold targets ∧ bareNames targets = ["K", "Kk", "\u01C5"] ∧
      (∀ name ∈ bareNames targets, ¬IsMixed name) ∧
        ∀ name ∈ bareNames targets, name ∈ chainConstants threefold ↔ name = "K" := by
  have htargets : Targets threefold [
      .leaf .identifier (some .left) 0 "" "K", .leaf .identifier (some .left) 0 " " "Kk",
      .leaf .identifier (some .left) 0 " " "\u01C5"] := by
    refine .assigned ?_ (.head _) rfl (.tail _ (.tail _ (.head _))) rfl
      (.assigned ?_ (.head _) rfl (.tail _ (.tail _ (.head _))) rfl
        (.assigned ?_ (.head _) rfl (.tail _ (.tail _ (.head _))) rfl (.value ?_)))
    all_goals simp [Node.role?, Node.rule?]
  have hmixed : ∀ name ∈ ["K", "Kk", "\u01C5"], ¬IsMixed name := by
    simp only [← Text.isUpperText_agrees_iff]
    decide +kernel
  have hcapitals : ∀ name ∈ ["K", "Kk", "\u01C5"], InCapitals name ↔ name = "K" := by
    decide +kernel
  refine ⟨_, htargets, rfl, hmixed, fun name hname => ?_⟩
  have hreported := (constants_inCapitals_iff name).2 _ _ regular_threefold htargets hname
  exact (hreported.2 (hmixed name hname)).trans (hcapitals name hname)

end RepoAtlas.Python
