/-!
# Ranges of code points

A property of characters is given by the ranges of code points that have it.
The ranges of a table stand in increasing order, so that a look-up stops at the
first range that begins after the character.
-/

namespace RepoAtlas.Text

/-- Ranges of code points, both ends included, in increasing order. -/
abbrev Ranges := List (Nat × Nat)

/-- Whether the code point lies in one of the ranges. -/
def Ranges.contains : Ranges → Nat → Bool
  | [], _ => false
  | (first, last) :: rest, c => first ≤ c && (c ≤ last || Ranges.contains rest c)

/-- Ranges with a step: from the first code point to the last, every `step`-th
    has the property. Alphabets that alternate capital and small letters have
    step two. -/
abbrev SteppedRanges := List (Nat × Nat × Nat)

/-- Whether the code point lies on one of the stepped ranges. -/
def SteppedRanges.contains : SteppedRanges → Nat → Bool
  | [], _ => false
  | (first, last, step) :: rest, c =>
    first ≤ c && ((c ≤ last && (c - first) % step == 0) || SteppedRanges.contains rest c)

end RepoAtlas.Text
