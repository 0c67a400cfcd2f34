import RepoAtlas.Proofs.Python.Statements
import RepoAtlas.Proofs.Syntax.Soundness

/-!
# Parsed modules

The grammar of Python can be written out flat without loss, so the tree of a source that
is read without a fault is that of a module (`isModule_of_parse`).
-/

namespace RepoAtlas.Python

open Syntax Syntax.Language

theorem shapely_rules :
    ∀ row ∈ rules, row.2.all (Syntax.Expr.isShapely inlinedRules.contains) = true := by
  decide +kernel

theorem bare_rules :
    ∀ row ∈ rules, inlinedRules.contains row.1 = true → row.2.all Syntax.Expr.isBare = true := by
  decide +kernel

theorem ctorIdx_injective : Function.Injective Rule.ctorIdx := fun m n h => by
  rw [← Rule.ofNat_ctorIdx m, h, Rule.ofNat_ctorIdx]

theorem ctorIdx_lt (n : Rule) : n.ctorIdx < rules.length := by
  rw [length_rules]
  cases n <;> decide

/-- The grammar of Python can be written out flat. -/
theorem wellFormed_language : language.WellFormed where
  number_injective := ctorIdx_injective
  number_lt := ctorIdx_lt
  isHidden_of_isInlined n h := by
    have hinlined : inlinedRules.contains n = true := h
    change hiddenRules.contains n = true
    rw [hiddenRules, List.contains_append, hinlined, Bool.true_or]
  isShapely n e h := shapely_rules (n, e) h
  isBare n e h := bare_rules (n, e) h
  exists_start := ⟨_, .head _⟩
  isHidden_start := by decide +kernel

/-- The tree of a source that is read without a fault is that of a module. -/
theorem isModule_of_parse {source : String} {root : Node} (h : parse source = .ok root) :
    IsModule root := by
  unfold parse at h
  dsimp only at h
  split at h
  · cases h
  · rename_i hfault
    cases h
    exact (isSound_parse wellFormed_language _ _ _).resolve_left hfault

end RepoAtlas.Python
