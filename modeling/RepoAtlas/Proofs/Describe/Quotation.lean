import RepoAtlas.Describe.Describer
import RepoAtlas.Proofs.Bytes.Boundary

/-!
# Texts quoted in messages

A message about a response quotes its body, and of a long body the longest front that
the limit allows (`shortened?_quotes`). The quotation is always there: the search for
the cut does not pass the first byte, and no cut is one through a character.
-/

namespace RepoAtlas

open Utf8

variable {s : String}

theorem shortened?_of_le (h : s.utf8ByteSize ≤ 400) : shortened? s = some s := if_pos h

/-- The cut of a long text is found, goes between characters, and takes at least 397
    bytes. -/
theorem exists_shortened? (h : 400 < s.utf8ByteSize) :
    ∃ front, IsLongestFront 400 s.toList front ∧ 397 ≤ size front ∧
      boundaryWithin? (encode s) 400 = some (size front) ∧
      front? (encode s) (size front) = some (String.ofList front) ∧
      shortened? s = some (String.ofList front ++ "...") := by
  rw [← size_toList] at h
  obtain ⟨front, hlongest, hsize, hfound⟩ := boundaryWithin?_encode h
  have hfront := front?_encode hlongest.isPrefix
  refine ⟨front, hlongest, by omega, hfound, hfront, ?_⟩
  rw [size_toList] at h
  have hlong : ¬s.utf8ByteSize ≤ quotedLimit := Nat.not_le_of_lt h
  rw [shortened?, if_neg hlong]
  change (boundaryWithin? (encode s) 400).bind _ = _
  rw [hfound, Option.bind_some, hfront, Option.map_some]

/-- A message quotes every text: whole, if it has no more than 400 bytes, and else by its
    longest front within 400 bytes, with an ellipsis behind. The search for the cut comes
    to an end before it passes the first byte, the cut goes between characters, and it
    takes at least 397 bytes. -/
theorem shortened?_quotes (s : String) :
    shortened? s = some (shortened s) ∧
      (s.utf8ByteSize ≤ 400 → shortened s = s) ∧
      (400 < s.utf8ByteSize → ∃ front, IsLongestFront 400 s.toList front ∧ 397 ≤ size front ∧
        boundaryWithin? (encode s) 400 = some (size front) ∧
        front? (encode s) (size front) = some (String.ofList front) ∧
        shortened s = String.ofList front ++ "...") := by
  by_cases h : s.utf8ByteSize ≤ 400
  · have heq : shortened s = s := by rw [shortened, shortened?_of_le h, Option.getD_some]
    refine ⟨?_, fun _ => heq, fun hlong => absurd h (Nat.not_le_of_lt hlong)⟩
    rw [heq, shortened?_of_le h]
  · obtain ⟨front, hlongest, hsize, hfound, hfront, hcut⟩ :=
      exists_shortened? (Nat.lt_of_not_le h)
    have heq : shortened s = String.ofList front ++ "..." := by
      rw [shortened, hcut, Option.getD_some]
    refine ⟨?_, fun hshort => absurd hshort h, fun _ =>
      ⟨front, hlongest, hsize, hfound, hfront, heq⟩⟩
    rw [heq, hcut]

end RepoAtlas
