import Mathlib.Data.List.Basic

/-!
# Precedence

Several may answer a question, and they are asked in the order of their ranks, no two
of which are the same: the answer is that of the highest rank among those that
answer (`findSome?_ranked_iff`).
-/

namespace RepoAtlas

variable {α β : Type} {f : α → Option β} {rank : α → Nat} {l : List α} {b : β}

/-- Asked from the highest rank down, the first that answers is the one of the highest
    rank that does. -/
theorem findSome?_ranked_iff (h : l.Pairwise fun x y => rank y < rank x) :
    l.findSome? f = some b ↔
      ∃ a ∈ l, f a = some b ∧ ∀ other ∈ l, f other ≠ none → rank other ≤ rank a := by
  rw [List.findSome?_eq_some_iff]
  constructor
  · rintro ⟨before, a, after, rfl, hanswer, hbefore⟩
    rw [List.pairwise_append, List.pairwise_cons] at h
    refine ⟨a, List.mem_append_right _ (List.mem_cons_self ..), hanswer, fun other hother hne => ?_⟩
    rw [List.mem_append, List.mem_cons] at hother
    rcases hother with hother | rfl | hother
    · exact absurd (hbefore other hother) hne
    · exact Nat.le_refl _
    · exact Nat.le_of_lt (h.2.1.1 other hother)
  · rintro ⟨a, ha, hanswer, hhighest⟩
    obtain ⟨before, after, rfl⟩ := List.append_of_mem ha
    refine ⟨before, a, after, rfl, hanswer, fun other hother => ?_⟩
    by_contra hne
    have hle := hhighest other (List.mem_append_left _ hother) hne
    have hlt := (List.pairwise_append.1 h).2.2 other hother a (List.mem_cons_self ..)
    exact absurd hlt (Nat.not_lt.2 hle)

end RepoAtlas
