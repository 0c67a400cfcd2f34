import RepoAtlas.Json.Reader

/-!
# Written numbers are read back

A natural number of 64 bits that was written in decimal digits is read as it was
(`number_toDigits`), as long as what follows does not go on with the number
(`StopsNumber`). Whatever text it is read from, a natural number has no more
than 64 bits (`number_le`).
-/

namespace RepoAtlas.Json

/-! ### Digits -/

theorem digit?_digitChar {d : Nat} (h : d < 10) : digit? d.digitChar = some d :=
  (by decide : ∀ d < 10, digit? d.digitChar = some d) d h

/-- No digit is larger than nine. -/
theorem digit?_le {c : Char} {d : Nat} (h : digit? c = some d) : d ≤ 9 := by
  unfold digit? at h
  split at h
  next hc =>
    have hle : c.toNat ≤ 57 := hc.2
    simp only [Option.some.injEq] at h
    omega
  next => exact absurd h (by simp)

/-- What follows a number that does not go on. -/
def StopsNumber (rest : List Char) : Prop :=
  ∀ c ∈ rest.head?, digit? c = none ∧ c ≠ '.' ∧ c ≠ 'e' ∧ c ≠ 'E'

theorem digitsInto_of_stops {rest : List Char} (h : StopsNumber rest) (n count : Nat) :
    digitsInto n count rest = (n, count, rest) := by
  cases rest with
  | nil => rfl
  | cons c rest => simp [digitsInto, (h c rfl).1]

/-! ### Reading what was written -/

/-- The digits of a number: a zero comes first only if it is the only one, and
    the others lead from the first to the number. -/
theorem exists_toDigits {n : Nat} (hn : n ≤ word64) :
    ∃ d ds, Nat.toDigits 10 n = Nat.digitChar d :: ds ∧ d < 10 ∧ (d = 0 → ds = []) ∧
      ∀ count cs, digitsInto d count (ds ++ cs) = digitsInto n (count + ds.length) cs := by
  induction n using Nat.strongRecOn with
  | ind n ih =>
    by_cases hten : n < 10
    · exact ⟨n, [], Nat.toDigits_of_lt_base hten, hten, fun _ => rfl, fun _ _ => rfl⟩
    · obtain ⟨d, ds, hds, hd, hzero, hinto⟩ := ih (n / 10) (by omega) (by omega)
      have hlast : n % 10 < 10 := Nat.mod_lt _ (by omega)
      refine ⟨d, ds ++ [(n % 10).digitChar], ?_, hd, fun h => ?_, fun count cs => ?_⟩
      · rw [Nat.toDigits_of_base_le (by omega) (by omega), hds, List.cons_append]
      · -- Then nothing but a zero stands in front of the last digit.
        have hquotient : n / 10 = 0 := by
          have := Nat.ofDigitChars_ten_toDigits (n := n / 10)
          rwa [hds, hzero h, h, eq_comm] at this
        omega
      · have hsum : n / 10 * 10 + n % 10 = n := by omega
        rw [List.append_assoc, hinto, List.singleton_append, digitsInto, digit?_digitChar hlast]
        simp only [hsum, if_neg (Nat.not_lt.2 hn), List.length_append, List.length_singleton,
          Nat.add_assoc]

theorem takeWhile_of_stops {rest : List Char} (h : StopsNumber rest) :
    rest.takeWhile (fun c => (digit? c).isSome) = [] := by
  cases rest with
  | nil => rfl
  | cons c rest => simp [(h c rfl).1]

/-- A number in decimal digits is read back, behind no sign. -/
theorem number_toDigits {n : Nat} (hn : n ≤ word64) {rest : List Char} (h : StopsNumber rest) :
    number false (Nat.toDigits 10 n ++ rest) = .ok (.natural n, rest) := by
  obtain ⟨d, ds, hds, hd, hzero, hinto⟩ := exists_toDigits hn
  have hnext : (d = 0 && digitNext (ds ++ rest)) = false := by
    by_cases hd0 : d = 0
    · rw [hzero hd0]
      cases rest with
      | nil => simp [digitNext]
      | cons c rest => simp [digitNext, (h c rfl).1]
    · simp [hd0]
  rw [hds, List.cons_append, number, digit?_digitChar hd]
  simp only [hnext, Bool.false_eq_true, if_false]
  rw [hinto, digitsInto_of_stops h]
  simp only [takeWhile_of_stops h, List.length_nil, List.drop_zero]
  split
  next => exact absurd rfl (h '.' rfl).2.1
  next => exact absurd rfl (h 'e' rfl).2.2.1
  next => exact absurd rfl (h 'E' rfl).2.2.2
  next => simp

/-- Digits are not among the marks of other values. -/
theorem digitChar_notMem {d : Nat} (h : d < 10) :
    d.digitChar ∉ [' ', '\n', '\t', '\r', '-', ']', 'n'] :=
  (by decide : ∀ d < 10, Nat.digitChar d ∉ [' ', '\n', '\t', '\r', '-', ']', 'n']) d h

/-- A number in decimal digits is read back as a value. -/
theorem natural_toString {n : Nat} (hn : n ≤ word64) {cs rest : List Char}
    (h : StopsNumber rest) (hcs : skipSpace cs = (toString n).toList ++ rest) :
    Reader.natural cs = .ok (n, rest) := by
  have htext : (toString n).toList = Nat.toDigits 10 n := by
    rw [Nat.toString_eq_repr, Nat.toList_repr]
  obtain ⟨d, ds, hds, hd, -⟩ := exists_toDigits hn
  have hnext : digitNext (Nat.toDigits 10 n ++ rest) = true := by
    simp [hds, digitNext, digit?_digitChar hd]
  rw [Reader.natural, hcs, htext]
  split
  next heq => simp [hds] at heq
  next heq =>
    rw [hds, List.cons_append, List.cons.injEq] at heq
    exact absurd (digitChar_notMem hd) (by simp [heq.1])
  next =>
    simp only [hnext, if_true, number_toDigits hn h]
    rfl

/-! ### Reading any text -/

/-- A number is counted up to 64 bits and no further. -/
theorem digitsInto_le {n count : Nat} (hn : n ≤ word64) (cs : List Char) :
    (digitsInto n count cs).1 ≤ word64 := by
  induction cs generalizing n count with
  | nil => exact hn
  | cons c cs ih =>
    rw [digitsInto]
    split
    · exact hn
    · split
      · exact hn
      next hle => exact ih (Nat.not_lt.1 hle)

/-- What has a fraction is not read as a natural number. -/
theorem fraction_ne_natural {below : Bool} {n m : Nat} {e : Int} {cs rest : List Char} :
    fraction below n e cs ≠ .ok (.natural m, rest) := by
  unfold fraction
  split <;> simp

theorem exponentPart_ne_natural {below : Bool} {n m : Nat} {e : Int} {cs rest : List Char} :
    exponentPart below n e cs ≠ .ok (.natural m, rest) := by
  unfold exponentPart
  simp only [ne_eq]
  repeat' split
  all_goals first | exact fraction_ne_natural | simp

theorem fractionPart_ne_natural {below : Bool} {n m : Nat} {e : Int} {cs rest : List Char} :
    fractionPart below n e cs ≠ .ok (.natural m, rest) := by
  unfold fractionPart
  simp only [ne_eq]
  repeat' split
  all_goals first | exact exponentPart_ne_natural | exact fraction_ne_natural | simp

/-- A natural number that is read has no more than 64 bits. -/
theorem number_le {below : Bool} {n : Nat} {cs rest : List Char}
    (h : number below cs = .ok (.natural n, rest)) : n ≤ word64 := by
  cases cs with
  | nil => simp [number] at h
  | cons c cs =>
    rw [number] at h
    split at h
    · simp at h
    next d hd =>
      have hword : d ≤ word64 := Nat.le_trans (digit?_le hd) (by decide)
      split at h
      · simp at h
      · simp only at h
        split at h
        · exact absurd h fractionPart_ne_natural
        · exact absurd h exponentPart_ne_natural
        · exact absurd h exponentPart_ne_natural
        · split at h
          · exact absurd h fraction_ne_natural
          · split at h
            · simp only [Except.ok.injEq, Prod.mk.injEq, Number.natural.injEq] at h
              exact h.1 ▸ digitsInto_le hword cs
            · split at h
              · exact absurd h fraction_ne_natural
              · simp at h

end RepoAtlas.Json
