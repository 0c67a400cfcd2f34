/-!
# Binary fractions

Numbers with a fraction are read as the nearest of the numbers with 53 binary
digits (`Binary`), and named in messages by the fewest decimal digits that read
back as the same number (`Binary.text`).

* `Binary.ofRatio?`: the number nearest to a quotient; of two, the even one;
* `Binary.digits`: the decimal digits and the exponent.
-/

namespace RepoAtlas

/-- The number `mantissa * 2 ^ exponent`, in which the mantissa has 53 binary
    digits, or fewer at the least exponent, -1074. -/
structure Binary where
  mantissa : Nat
  exponent : Int
  deriving DecidableEq, Repr, Inhabited

namespace Binary

/-- Zero. -/
def zero : Binary := ⟨0, -1074⟩

/-- The quotient rounded to the nearest whole number; of two, the even one. -/
def roundedQuotient (num den : Nat) : Nat :=
  let q := num / den
  let r := num % den
  if 2 * r < den then q
  else if den < 2 * r then q + 1
  else q + q % 2

/-- The least exponent at which the quotient has no more than 53 digits, from an
    estimate. -/
def exponentOf (num den : Nat) : Int :=
  let estimate : Int := (num.log2 : Int) - (den.log2 : Int) - 53
  -- The estimate is too low by at most one.
  let fits (e : Int) : Bool := num * Nat.pow 2 (-e).toNat < Nat.pow 2 53 * den * Nat.pow 2 e.toNat
  let e := if fits estimate then estimate else estimate + 1
  if e < -1074 then -1074 else e

/-- The number nearest to a quotient, unless it is too large. -/
def ofRatio? (num den : Nat) : Option Binary :=
  if num = 0 then some zero
  else
    let e := exponentOf num den
    let m := roundedQuotient (num * Nat.pow 2 (-e).toNat) (den * Nat.pow 2 e.toNat)
    let rounded : Binary := if m = Nat.pow 2 53 then ⟨Nat.pow 2 52, e + 1⟩ else ⟨m, e⟩
    if 971 < rounded.exponent then none else some rounded

/-- The number as a quotient. -/
def ratio (b : Binary) : Nat × Nat :=
  (b.mantissa * Nat.pow 2 b.exponent.toNat, Nat.pow 2 (-b.exponent).toNat)

/-- The product, rounded, unless it is too large. -/
def mul? (a b : Binary) : Option Binary :=
  ofRatio? (a.ratio.1 * b.ratio.1) (a.ratio.2 * b.ratio.2)

/-- The quotient, rounded. -/
def div (a b : Binary) : Binary :=
  (ofRatio? (a.ratio.1 * b.ratio.2) (a.ratio.2 * b.ratio.1)).getD zero

/-! ### Decimal digits -/

/-- The decimal `digits * 10 ^ exponent`. -/
structure Decimal where
  digits : Nat
  exponent : Int
  deriving DecidableEq, Repr, Inhabited

/-- Compares a decimal with `m * 2 ^ q`. -/
def Decimal.compareWith (d : Decimal) (m : Nat) (q : Int) : Ordering :=
  compare (d.digits * Nat.pow 10 d.exponent.toNat * Nat.pow 2 (-q).toNat)
    (m * Nat.pow 2 q.toNat * Nat.pow 10 (-d.exponent).toNat)

/-- Whether the decimal is read as the number: it lies between the middles to
    the neighbours, the middles included if the mantissa is even. -/
def readsBack (b : Binary) (d : Decimal) : Bool :=
  let narrow := b.mantissa = Nat.pow 2 52 && b.exponent != -1074
  let low :=
    d.compareWith (if narrow then 4 * b.mantissa - 1 else 4 * b.mantissa - 2) (b.exponent - 2)
  let high := d.compareWith (4 * b.mantissa + 2) (b.exponent - 2)
  let ends := b.mantissa % 2 == 0
  (low == .gt || (ends && low == .eq)) && (high == .lt || (ends && high == .eq))

/-- The least exponent of ten above the number, from an estimate. -/
def scale (b : Binary) : Int :=
  let estimate : Int := ((b.mantissa.log2 : Int) + b.exponent) * 30103 / 100000 - 1
  -- The estimate is too low by at most three.
  let above (k : Int) : Bool := (Decimal.mk 1 k).compareWith b.mantissa b.exponent == .gt
  ([0, 1, 2].map (estimate + ·)).find? above |>.getD (estimate + 3)

/-- The decimal of so many digits next to the number, if it reads back. Of two
    the nearer counts, and of two equally near the even one. -/
def ofLength? (b : Binary) (n : Nat) : Option Decimal :=
  let e := b.scale - n
  let (num, den) := b.ratio
  let low := num * Nat.pow 10 (-e).toNat / (den * Nat.pow 10 e.toNat)
  let candidates := [low, low + 1].filter fun d => b.readsBack ⟨d, e⟩
  match candidates with
  | [d₁, d₂] =>
    match (Decimal.mk (d₁ + d₂) e).compareWith b.mantissa (b.exponent + 1) with
    | .gt => some ⟨d₁, e⟩
    | .lt => some ⟨d₂, e⟩
    | .eq => some ⟨if d₁ % 2 = 0 then d₁ else d₂, e⟩
  | d :: _ => some ⟨d, e⟩
  | [] => none

/-- The decimal without zeros at the end. -/
def Decimal.stripped (d : Decimal) : Nat → Decimal
  | 0 => d
  | fuel + 1 =>
    if d.digits % 10 = 0 then (Decimal.mk (d.digits / 10) (d.exponent + 1)).stripped fuel else d

/-- The fewest decimal digits that read back as the number, which is not zero. -/
def digits (b : Binary) : Decimal :=
  (((List.range 17).findSome? fun n => b.ofLength? (n + 1)).getD ⟨0, 0⟩).stripped 17

/-- The text of a number: positional if the first digit stands between the
    fifth place behind the point and the sixteenth before it, and else with an
    exponent of at least two digits. -/
def text (b : Binary) : String :=
  if b.mantissa = 0 then "0.0"
  else
    let d := b.digits
    let ds := (toString d.digits).toList
    let point : Int := ds.length + d.exponent
    if -5 < point && point ≤ 0 then
      String.ofList ("0.".toList ++ List.replicate (-point).toNat '0' ++ ds)
    else if 0 < point && point ≤ 16 then
      let whole := ds.take point.toNat ++ List.replicate (point.toNat - ds.length) '0'
      let rest := ds.drop point.toNat
      String.ofList (whole ++ '.' :: (if rest.isEmpty then ['0'] else rest))
    else
      let e := point - 1
      let mark := if e < 0 then "e-" else "e+"
      let size := toString e.natAbs
      String.ofList (ds.take 1 ++ (if ds.length = 1 then [] else '.' :: ds.drop 1)) ++ mark ++
        (if size.length < 2 then "0" ++ size else size)

end Binary

end RepoAtlas
