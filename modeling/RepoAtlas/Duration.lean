/-!
# Durations

A span of time in whole nanoseconds, with a largest one (`Duration`). What is
longer than that overflows.
-/

namespace RepoAtlas

/-- A span of time. -/
structure Duration where
  nanoseconds : Nat
  deriving DecidableEq, Repr, Inhabited

namespace Duration

/-- The nanoseconds of a second. -/
def perSecond : Nat := 1000000000

/-- The longest span: as many seconds as 64 bits count, and a second less a
    nanosecond. -/
def longest : Duration := ⟨Nat.pow 2 64 * perSecond - 1⟩

/-- The span of no time. -/
def zero : Duration := ⟨0⟩

/-- A span in seconds and nanoseconds. -/
def ofParts (seconds nanoseconds : Nat) : Duration := ⟨seconds * perSecond + nanoseconds⟩

/-- A span in milliseconds. -/
def ofMilliseconds (n : Nat) : Duration := ⟨n * 1000000⟩

/-- The whole seconds. -/
def seconds (d : Duration) : Nat := d.nanoseconds / perSecond

/-- The nanoseconds beyond the whole seconds. -/
def subsecond (d : Duration) : Nat := d.nanoseconds % perSecond

/-- The shorter span. -/
def min (a b : Duration) : Duration := ⟨Nat.min a.nanoseconds b.nanoseconds⟩

/-- The span twice as long, unless it overflows. -/
def double? (d : Duration) : Option Duration :=
  if 2 * d.nanoseconds ≤ longest.nanoseconds then some ⟨2 * d.nanoseconds⟩ else none

/-- The digits of a fraction with so many places, without zeros at the end. -/
def places (n width : Nat) : List Char :=
  let ds := (toString n).toList
  let padded := List.replicate (width - ds.length) '0' ++ ds
  (padded.reverse.dropWhile (· == '0')).reverse

/-- The span in the largest unit of which it holds one, with a fraction if there
    is one. -/
def text (d : Duration) : String :=
  let within (unit width : Nat) (name : String) : String :=
    let fraction := places (d.nanoseconds % unit) width
    toString (d.nanoseconds / unit) ++
      (if fraction.isEmpty then "" else "." ++ String.ofList fraction) ++ name
  if perSecond ≤ d.nanoseconds then within perSecond 9 "s"
  else if 1000000 ≤ d.nanoseconds then within 1000000 6 "ms"
  else if 1000 ≤ d.nanoseconds then within 1000 3 "µs"
  else within 1 0 "ns"

end Duration

end RepoAtlas
