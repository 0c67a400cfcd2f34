import RepoAtlas.Duration

/-!
# When to ask again

How often a describer is asked about one file, and how long to wait in between
(`Policy`). The wait doubles after every failure, up to a longest one.

* `Policy.waitAfter?`: the wait after so many failures, unless doubling
  overflows.
-/

namespace RepoAtlas

/-- How often to ask, and how long to wait. -/
structure Policy where
  attempts : Nat := 3
  /-- The wait after the first failure. -/
  firstWait : Duration := .ofMilliseconds 500
  longestWait : Duration := .ofMilliseconds 30000
  deriving DecidableEq, Repr, Inhabited

namespace Policy

/-- So many attempts without a wait. -/
def withoutWait (attempts : Nat) : Policy := ⟨attempts, .zero, .zero⟩

/-- The wait doubled so many times, being capped after each. A wait that no
    longer changes is final. -/
def doubled? (cap : Duration) : Nat → Duration → Option Duration
  | 0, wait => some wait
  | n + 1, wait =>
    wait.double?.bind fun twice =>
      if twice.min cap = wait then some wait else doubled? cap n (twice.min cap)

/-- The wait after so many failures in a row. -/
def waitAfter? (p : Policy) (failures : Nat) : Option Duration :=
  (doubled? p.longestWait (failures - 1) p.firstWait).map (·.min p.longestWait)

end Policy

end RepoAtlas
