import RepoAtlas.Proofs.Json.Numbers
import RepoAtlas.Proofs.Json.Yields
import Mathlib.Tactic.SplitIfs

/-!
# Which texts are numbers

A number is written as whole digits, of which the first is no zero unless it is the
only one, and may go on with a point and digits and with an exponent (`SpellsNumber`). It
is as long as can be: what is behind it does not go on with it.

A number that is skipped is any of these (`skipNumber_eq_ok_iff`). One that is read is so
too, and the only reason why it may not be read is that it is too large
(`exists_number_iff`).
-/

namespace RepoAtlas.Json

/-! ### How numbers are written -/

/-- Whether the character is a decimal digit. -/
def isDigit (c : Char) : Bool := (digit? c).isSome

/-- One digit or more, and no digit behind them. -/
inductive SpellsDigits : List Char → List Char → Prop where
  | last {c : Char} {rest : List Char} (hc : isDigit c = true) (hrest : digitNext rest = false) :
    SpellsDigits (c :: rest) rest
  | more {c : Char} {cs rest : List Char} (hc : isDigit c = true) (h : SpellsDigits cs rest) :
    SpellsDigits (c :: cs) rest

/-- The digits of a whole number. -/
inductive SpellsWhole : List Char → List Char → Prop where
  | zero {rest : List Char} (hrest : digitNext rest = false) : SpellsWhole ('0' :: rest) rest
  | digits {c : Char} {cs rest : List Char} (hc : c ≠ '0') (h : SpellsDigits (c :: cs) rest) :
    SpellsWhole (c :: cs) rest

/-- A point and digits, or no point. -/
inductive SpellsFraction : List Char → List Char → Prop where
  | none {rest : List Char} (h : rest.head? ≠ some '.') : SpellsFraction rest rest
  | digits {cs rest : List Char} (h : SpellsDigits cs rest) : SpellsFraction ('.' :: cs) rest

/-- A sign or none in front of an exponent. -/
inductive SpellsSign : List Char → List Char → Prop where
  | none {rest : List Char} (hplus : rest.head? ≠ some '+') (hminus : rest.head? ≠ some '-') :
    SpellsSign rest rest
  | plus (rest : List Char) : SpellsSign ('+' :: rest) rest
  | minus (rest : List Char) : SpellsSign ('-' :: rest) rest

/-- An exponent behind its letter, or no such letter. -/
inductive SpellsExponent : List Char → List Char → Prop where
  | none {rest : List Char} (hsmall : rest.head? ≠ some 'e') (hlarge : rest.head? ≠ some 'E') :
    SpellsExponent rest rest
  | digits {c : Char} {cs more rest : List Char} (hc : c = 'e' ∨ c = 'E')
    (hsign : SpellsSign cs more) (h : SpellsDigits more rest) : SpellsExponent (c :: cs) rest

/-- A number behind its sign. -/
def SpellsNumber (cs rest : List Char) : Prop :=
  ∃ behind more, SpellsWhole cs behind ∧ SpellsFraction behind more ∧ SpellsExponent more rest

variable {c : Char} {cs rest : List Char}

/-! ### Digits -/

theorem digitNext_cons (c : Char) (cs : List Char) : digitNext (c :: cs) = isDigit c := rfl

theorem isDigit_of_digit? {d : Nat} (h : digit? c = some d) : isDigit c = true := by
  rw [isDigit, h]
  rfl

/-- Where no digit stands, none is skipped. -/
theorem skipDigits_of_not (h : digitNext cs = false) : skipDigits cs = cs := by
  cases cs with
  | nil => rfl
  | cons c cs => exact List.dropWhile_cons_of_neg (Bool.eq_false_iff.1 h)

theorem skipDigits_cons (h : isDigit c = true) : skipDigits (c :: cs) = skipDigits cs :=
  List.dropWhile_cons_of_pos h

/-- Digits are spelled as far as they go, and there is at least one. -/
theorem spellsDigits_iff :
    SpellsDigits cs rest ↔ digitNext cs = true ∧ skipDigits cs = rest := by
  constructor
  · intro h
    induction h with
    | last hc hrest => exact ⟨hc, (skipDigits_cons hc).trans (skipDigits_of_not hrest)⟩
    | more hc _ ih => exact ⟨hc, (skipDigits_cons hc).trans ih.2⟩
  · rintro ⟨hnext, rfl⟩
    induction cs with
    | nil => cases hnext
    | cons c cs ih =>
      rw [skipDigits_cons hnext]
      cases hcs : digitNext cs with
      | true => exact .more hnext (ih hcs)
      | false => rw [skipDigits_of_not hcs]; exact .last hnext hcs

/-! ### Numbers that are skipped -/

theorem head?_ne_some (h : ∀ rest, cs = c :: rest → False) : cs.head? ≠ some c := by
  intro hc
  obtain ⟨rest, rfl⟩ := List.head?_eq_some_iff.1 hc
  exact h rest rfl

/-- A whole number is spelled by its digits. If there are several, the first is no zero. -/
theorem spellsWhole_iff :
    SpellsWhole cs rest ↔
      digitNext cs = true ∧ (cs.head? = some '0' → digitNext cs.tail = false) ∧
        skipDigits cs = rest := by
  constructor
  · intro h
    cases h with
    | zero hrest => exact ⟨rfl, fun _ => hrest, skipDigits_of_not hrest⟩
    | digits hc h =>
      obtain ⟨hnext, hskip⟩ := spellsDigits_iff.1 h
      exact ⟨hnext, fun hzero => absurd (Option.some.inj hzero) hc, hskip⟩
  · rintro ⟨hnext, hzero, hskip⟩
    cases cs with
    | nil => cases hnext
    | cons c cs =>
      by_cases hc : c = '0'
      · subst hc
        have hcs : digitNext cs = false := hzero rfl
        rw [skipDigits_cons hnext, skipDigits_of_not hcs] at hskip
        exact hskip ▸ .zero hcs
      · exact .digits hc (spellsDigits_iff.2 ⟨hnext, hskip⟩)

/-- The text behind a sign, if there is one. -/
def skipSign : List Char → List Char
  | '+' :: rest => rest
  | '-' :: rest => rest
  | cs => cs

/-- A sign is optional, and is skipped if it is there. -/
theorem spellsSign_iff : SpellsSign cs rest ↔ skipSign cs = rest := by
  constructor
  · intro h
    cases h with
    | none hplus hminus =>
      unfold skipSign
      split
      · exact absurd rfl hplus
      · exact absurd rfl hminus
      · rfl
    | plus => rfl
    | minus => rfl
  · rintro rfl
    unfold skipSign
    split
    · exact .plus _
    · exact .minus _
    · rename_i hplus hminus
      exact .none (head?_ne_some hplus) (head?_ne_some hminus)

/-- The text behind digits, of which there is one at least. -/
def skipSomeDigits : List Char → Except Fault (List Char)
  | [] => .error (.behind .badNumber [])
  | c :: rest =>
    if (digit? c).isSome then .ok (skipDigits rest) else .error (.atNext .badNumber (c :: rest))

/-- An exponent is a sign and digits. -/
theorem skipExponent_eq (cs : List Char) : skipExponent cs = skipSomeDigits (skipSign cs) := by
  unfold skipExponent
  split
  · rfl
  · rfl
  · rename_i hplus hminus
    rw [skipSign.eq_3 cs hplus hminus]
    rfl

/-- At least one digit is skipped, and all that follow. -/
theorem skipSomeDigits_eq_ok_iff : skipSomeDigits cs = .ok rest ↔ SpellsDigits cs rest := by
  rw [spellsDigits_iff]
  cases cs with
  | nil => simp [skipSomeDigits, digitNext]
  | cons c cs =>
    rw [digitNext_cons]
    cases hc : isDigit c with
    | true => simp [skipSomeDigits, skipDigits_cons hc, show (digit? c).isSome = true from hc]
    | false => simp [skipSomeDigits, show (digit? c).isSome = false from hc]

theorem skipSomeDigits_of_next (h : digitNext cs = true) :
    skipSomeDigits cs = .ok (skipDigits cs) :=
  skipSomeDigits_eq_ok_iff.2 (spellsDigits_iff.2 ⟨h, rfl⟩)

theorem exists_skipSomeDigits_of_not (h : digitNext cs = false) :
    ∃ f, skipSomeDigits cs = .error f := by
  cases hskip : skipSomeDigits cs with
  | error f => exact ⟨f, rfl⟩
  | ok rest =>
    rw [skipSomeDigits_eq_ok_iff, spellsDigits_iff, h] at hskip
    cases hskip.1

/-- Just what is spelled as a sign and digits is skipped as an exponent. -/
theorem skipExponent_eq_ok_iff :
    skipExponent cs = .ok rest ↔ ∃ more, SpellsSign cs more ∧ SpellsDigits more rest := by
  simp only [skipExponent_eq, skipSomeDigits_eq_ok_iff, spellsSign_iff, exists_eq_left']

/-- The text behind an exponent with its letter, if there is one. -/
def skipLetter : List Char → Except Fault (List Char)
  | 'e' :: rest => skipExponent rest
  | 'E' :: rest => skipExponent rest
  | cs => .ok cs

/-- The exponent with its letter is optional. -/
theorem skipLetter_eq_ok_iff : skipLetter cs = .ok rest ↔ SpellsExponent cs rest := by
  constructor
  · intro h
    unfold skipLetter at h
    split at h
    · obtain ⟨more, hsign, hdigits⟩ := skipExponent_eq_ok_iff.1 h
      exact .digits (.inl rfl) hsign hdigits
    · obtain ⟨more, hsign, hdigits⟩ := skipExponent_eq_ok_iff.1 h
      exact .digits (.inr rfl) hsign hdigits
    · rename_i hsmall hlarge
      cases h
      exact .none (head?_ne_some hsmall) (head?_ne_some hlarge)
  · intro h
    cases h with
    | none hsmall hlarge =>
      unfold skipLetter
      split
      · exact absurd rfl hsmall
      · exact absurd rfl hlarge
      · rfl
    | digits hc hsign hdigits =>
      have hskip := skipExponent_eq_ok_iff.2 ⟨_, hsign, hdigits⟩
      obtain rfl | rfl := hc
      · exact hskip
      · exact hskip

/-- The text behind the fraction and the exponent of a number. -/
def skipFraction : List Char → Except Fault (List Char)
  | '.' :: rest => do skipLetter (← skipSomeDigits rest)
  | cs => skipLetter cs

/-- A fraction and an exponent are optional, in this order. -/
theorem skipFraction_eq_ok_iff :
    skipFraction cs = .ok rest ↔ ∃ more, SpellsFraction cs more ∧ SpellsExponent more rest := by
  constructor
  · intro h
    unfold skipFraction at h
    split at h
    · obtain ⟨more, hdigits, hletter⟩ := exists_of_bind h
      exact ⟨more, .digits (skipSomeDigits_eq_ok_iff.1 hdigits), skipLetter_eq_ok_iff.1 hletter⟩
    · rename_i hpoint
      exact ⟨cs, .none (head?_ne_some hpoint), skipLetter_eq_ok_iff.1 h⟩
  · rintro ⟨more, hfraction, hexponent⟩
    have hskip := skipLetter_eq_ok_iff.2 hexponent
    cases hfraction with
    | none hpoint =>
      unfold skipFraction
      split
      · exact absurd rfl hpoint
      · exact hskip
    | digits h =>
      simp only [skipFraction, skipSomeDigits_eq_ok_iff.2 h, bind, Except.bind]
      exact hskip

/-- Whole digits alone are a number, too. -/
theorem skipFraction_of_none (hpoint : cs.head? ≠ some '.') (hsmall : cs.head? ≠ some 'e')
    (hlarge : cs.head? ≠ some 'E') : skipFraction cs = .ok cs :=
  skipFraction_eq_ok_iff.2 ⟨cs, .none hpoint, .none hsmall hlarge⟩

/-- Zero is the digit of no other character. -/
theorem digit?_eq_zero_iff : digit? c = some 0 ↔ c = '0' := by
  constructor
  · intro h
    unfold digit? at h
    split at h
    · rename_i hc
      have hle : 48 ≤ c.toNat := hc.1
      have hsub : c.toNat - 48 = 0 := Option.some.inj h
      exact Char.toNat_inj.1 (show c.toNat = 48 by omega)
    · cases h
  · rintro rfl
    rfl

/-- Behind the digits of a number, which may not go on from a zero, come its fraction and
    its exponent. -/
theorem skipNumber_cons_eq_ok_iff :
    skipNumber (c :: cs) = .ok rest ↔
      isDigit c = true ∧ (c = '0' → digitNext cs = false) ∧
        skipFraction (skipDigits cs) = .ok rest := by
  rw [skipNumber]
  split
  · rename_i hc
    simp [isDigit, hc]
  · rename_i d hd
    have hdigit := isDigit_of_digit? hd
    have hzero : d = 0 ↔ c = '0' := by rw [← digit?_eq_zero_iff, hd, Option.some.injEq]
    simp only [hdigit, true_and, ← hzero]
    split
    · rename_i hnext
      rw [Bool.and_eq_true, decide_eq_true_eq] at hnext
      simp [hnext.1, hnext.2]
    · rename_i hnext
      rw [Bool.and_eq_true, decide_eq_true_eq, not_and, Bool.not_eq_true] at hnext
      rw [and_iff_right hnext]
      split
      · rename_i left hleft
        rw [hleft]
        cases hdigits : digitNext left with
        | false =>
          obtain ⟨f, hf⟩ := exists_skipSomeDigits_of_not hdigits
          simp [skipFraction, hf, bind, Except.bind]
        | true =>
          simp only [skipFraction, skipSomeDigits_of_next hdigits, bind, Except.bind]
          rfl
      · rename_i left hleft
        rw [hleft]; rfl
      · rename_i left hleft
        rw [hleft]; rfl
      · rename_i hpoint hsmall hlarge
        rw [skipFraction_of_none (head?_ne_some hpoint) (head?_ne_some hsmall)
          (head?_ne_some hlarge)]

/-- Just what is spelled as a number is skipped as one. -/
theorem skipNumber_eq_ok_iff : skipNumber cs = .ok rest ↔ SpellsNumber cs rest := by
  unfold SpellsNumber
  cases cs with
  | nil =>
    simp [spellsWhole_iff, skipNumber, digitNext]
  | cons c cs =>
    have hwhole (behind : List Char) :
        SpellsWhole (c :: cs) behind ↔
          isDigit c = true ∧ (c = '0' → digitNext cs = false) ∧ skipDigits cs = behind := by
      rw [spellsWhole_iff, digitNext_cons, List.head?_cons, Option.some.injEq, List.tail_cons]
      exact and_congr_right fun hc => by rw [skipDigits_cons hc]
    simp only [skipNumber_cons_eq_ok_iff, skipFraction_eq_ok_iff, hwhole, and_assoc,
      exists_and_left, exists_eq_left']

/-- A number begins with a digit, its sign apart. -/
theorem SpellsNumber.digitNext (h : SpellsNumber cs rest) : digitNext cs = true := by
  obtain ⟨behind, more, hwhole, -⟩ := h
  exact (spellsWhole_iff.1 hwhole).1

theorem SpellsDigits.length_lt (h : SpellsDigits cs rest) : rest.length < cs.length := by
  induction h with
  | last => exact Nat.lt_succ_self _
  | more _ _ ih => exact Nat.lt_succ_of_lt ih

theorem SpellsSign.length_le (h : SpellsSign cs rest) : rest.length ≤ cs.length := by
  cases h with
  | none => exact Nat.le_refl _
  | plus => exact Nat.le_succ _
  | minus => exact Nat.le_succ _

theorem SpellsWhole.length_lt (h : SpellsWhole cs rest) : rest.length < cs.length := by
  cases h with
  | zero => exact Nat.lt_succ_self _
  | digits _ h => exact h.length_lt

theorem SpellsFraction.length_le (h : SpellsFraction cs rest) : rest.length ≤ cs.length := by
  cases h with
  | none => exact Nat.le_refl _
  | digits h => exact Nat.le_succ_of_le (Nat.le_of_lt h.length_lt)

theorem SpellsExponent.length_le (h : SpellsExponent cs rest) : rest.length ≤ cs.length := by
  cases h with
  | none => exact Nat.le_refl _
  | digits _ hsign h =>
    exact Nat.le_succ_of_le (Nat.le_trans (Nat.le_of_lt h.length_lt) hsign.length_le)

theorem SpellsNumber.length_lt (h : SpellsNumber cs rest) : rest.length < cs.length := by
  obtain ⟨behind, more, hwhole, hfraction, hexponent⟩ := h
  calc rest.length
    _ ≤ more.length := hexponent.length_le
    _ ≤ behind.length := hfraction.length_le
    _ < cs.length := hwhole.length_lt

/-! ### Numbers that are read -/

/-- How a number is read where one would be skipped: up to the same place, unless it is
    too large. -/
inductive Follows : Except Fault (Number × List Char) → Except Fault (List Char) → Prop where
  | reads (n : Number) (rest : List Char) : Follows (.ok (n, rest)) (.ok rest)
  | tooLarge (left rest : List Char) :
    Follows (.error (.behind .numberTooLarge left)) (.ok rest)
  | fails (f f' : Fault) : Follows (.error f) (.error f')

variable {below : Bool} {n : Nat} {exponent : Int}

/-- The digits at the front of a text are those that are skipped. -/
theorem drop_digits (cs : List Char) :
    cs.drop (cs.takeWhile fun c => (digit? c).isSome).length = skipDigits cs := by
  have hdrop : ((cs.takeWhile fun c => (digit? c).isSome) ++ skipDigits cs).drop
      (cs.takeWhile fun c => (digit? c).isSome).length = skipDigits cs := List.drop_left
  rwa [skipDigits, List.takeWhile_append_dropWhile] at hdrop

/-- Digits that do not fit into a number are left. -/
theorem skipDigits_digitsInto (n count : Nat) (cs : List Char) :
    skipDigits (digitsInto n count cs).2.2 = skipDigits cs := by
  induction cs generalizing n count with
  | nil => rfl
  | cons c cs ih =>
    rw [digitsInto]
    split
    · rfl
    · rename_i d hd
      split
      · rfl
      · rw [ih, skipDigits_cons (isDigit_of_digit? hd)]

/-- Once all digits are read, no more of the text is taken. -/
theorem fraction_follows (cs : List Char) : Follows (fraction below n exponent cs) (.ok cs) := by
  unfold fraction
  split
  · exact .reads _ _
  · exact .tooLarge _ _

/-- Where an exponent is read, it is skipped to the same place. -/
theorem exponentPart_follows (cs : List Char) :
    Follows (exponentPart below n exponent cs) (skipExponent cs) := by
  rw [skipExponent_eq]
  unfold exponentPart
  split
  rename_i down left hsign
  have hleft : skipSign cs = left := by
    split at hsign
    · cases hsign
      rfl
    · cases hsign
      rfl
    · rename_i hplus hminus
      cases hsign
      exact skipSign.eq_3 cs hplus hminus
  rw [hleft]
  cases left with
  | nil => exact .fails _ _
  | cons c rest =>
    rw [skipSomeDigits]
    cases hc : digit? c with
    | none =>
      simp only [hc]
      exact .fails _ _
    | some d =>
      have hdigit := isDigit_of_digit? hc
      simp only [hc, skipDigits_cons hdigit, Option.isNone_some, Option.isSome_some,
        Bool.false_eq_true, if_false, if_true]
      split
      · exact fraction_follows _
      · split
        · exact .tooLarge _ _
        · exact .reads _ _

theorem digitsInto_of_not (h : digitNext cs = false) (n count : Nat) :
    digitsInto n count cs = (n, count, cs) := by
  cases cs with
  | nil => rfl
  | cons c cs =>
    have hc : digit? c = none := Option.isNone_iff_eq_none.1 (by simpa [digitNext] using h)
    rw [digitsInto, hc]

/-- Where a fraction is read, it is skipped to the same place, with its exponent. -/
theorem fractionPart_follows (cs : List Char) :
    Follows (fractionPart below n exponent cs) (do skipLetter (← skipSomeDigits cs)) := by
  unfold fractionPart
  have hleft := skipDigits_digitsInto n 0 cs
  cases hnext : digitNext cs with
  | false =>
    obtain ⟨f, hf⟩ := exists_skipSomeDigits_of_not hnext
    rw [digitsInto_of_not hnext, hf]
    dsimp only
    cases cs with
    | nil => exact .fails _ _
    | cons c cs => exact .fails _ _
  | true =>
    rw [skipSomeDigits_of_next hnext, ← hleft]
    obtain ⟨m, count, rest⟩ := digitsInto n 0 cs
    simp only [Bool.not_true, Bool.and_false, Bool.false_eq_true, if_false, bind, Except.bind]
    cases skipDigits rest with
    | nil => exact fraction_follows _
    | cons c left =>
      dsimp only
      split
      · rename_i hc
        rw [Bool.or_eq_true, decide_eq_true_eq, decide_eq_true_eq] at hc
        have hskip : skipLetter (c :: left) = skipExponent left := by
          obtain rfl | rfl := hc <;> rfl
        rw [hskip]
        exact exponentPart_follows left
      · rename_i hc
        rw [Bool.or_eq_true, decide_eq_true_eq, decide_eq_true_eq, not_or] at hc
        have hskip : skipLetter (c :: left) = .ok (c :: left) :=
          skipLetter_eq_ok_iff.2 (.none (by simpa using hc.1) (by simpa using hc.2))
        rw [hskip]
        exact fraction_follows _

theorem Follows.congr {r : Except Fault (Number × List Char)} {s s' : Except Fault (List Char)}
    (h : Follows r s) (hs : ∀ rest, s' = .ok rest ↔ s = .ok rest) : Follows r s' := by
  cases h with
  | reads n rest => exact (hs rest).2 rfl ▸ .reads n rest
  | tooLarge left rest => exact (hs rest).2 rfl ▸ .tooLarge left rest
  | fails f f' =>
    cases s' with
    | error f' => exact .fails f f'
    | ok rest => cases (hs rest).1 rfl

/-- A number that is read ends where it ends if it is skipped, and what cannot be
    skipped is not read. -/
theorem number_follows (cs : List Char) : Follows (number below cs) (skipNumber cs) := by
  cases cs with
  | nil => exact .fails _ _
  | cons c cs =>
    rw [number]
    cases hd : digit? c with
    | none =>
      rw [skipNumber, hd]
      exact .fails _ _
    | some d =>
      have hdigit := isDigit_of_digit? hd
      have hzero : d = 0 ↔ c = '0' := by rw [← digit?_eq_zero_iff, hd, Option.some.injEq]
      dsimp only
      split
      · rename_i hnext
        rw [skipNumber, hd]
        dsimp only
        rw [if_pos hnext]
        exact .fails _ _
      · rename_i hnext
        have hskip (rest : List Char) :
            skipNumber (c :: cs) = .ok rest ↔ skipFraction (skipDigits cs) = .ok rest := by
          rw [Bool.and_eq_true, decide_eq_true_eq, not_and, Bool.not_eq_true, hzero] at hnext
          rw [skipNumber_cons_eq_ok_iff, and_iff_right hdigit, and_iff_right hnext]
        refine .congr ?_ hskip
        rw [drop_digits, skipDigits_digitsInto]
        split
        · rename_i r hr
          rw [hr]
          exact fractionPart_follows r
        · rename_i r hr
          rw [hr]
          exact exponentPart_follows r
        · rename_i r hr
          rw [hr]
          exact exponentPart_follows r
        · rename_i hpoint hsmall hlarge
          rw [skipFraction_of_none (head?_ne_some hpoint) (head?_ne_some hsmall)
            (head?_ne_some hlarge)]
          split_ifs
          · exact fraction_follows _
          · exact .reads _ _
          · exact fraction_follows _
          · exact .reads _ _

/-- A number is read up to the place to which it would be skipped, unless it is too large. -/
theorem exists_number_iff :
    (∃ n, number below cs = .ok (n, rest)) ↔
      SpellsNumber cs rest ∧ ∀ left, number below cs ≠ .error (.behind .numberTooLarge left) := by
  rw [← skipNumber_eq_ok_iff]
  have hfollows : Follows (number below cs) (skipNumber cs) := number_follows cs
  constructor
  · rintro ⟨n, hn⟩
    rw [hn] at hfollows ⊢
    generalize skipNumber cs = s at hfollows ⊢
    cases hfollows
    exact ⟨rfl, by simp⟩
  · rintro ⟨hskip, hlarge⟩
    rw [hskip] at hfollows
    generalize number below cs = r at hfollows hlarge ⊢
    cases hfollows with
    | reads n => exact ⟨n, rfl⟩
    | tooLarge left => exact absurd rfl (hlarge left)

/-- What is read as a number is a number, and the value is all that its reader adds. -/
theorem number_eq_ok_iff {m : Number} :
    number below cs = .ok (m, rest) ↔
      SpellsNumber cs rest ∧ (number below cs).map (·.1) = .ok m := by
  constructor
  · intro h
    exact ⟨(exists_number_iff.1 ⟨m, h⟩).1, by rw [h]; rfl⟩
  · rintro ⟨hspells, hvalue⟩
    cases hread : number below cs with
    | error f =>
      rw [hread] at hvalue
      cases hvalue
    | ok p =>
      obtain ⟨m', rest'⟩ := p
      have hskip := skipNumber_eq_ok_iff.2 (exists_number_iff.1 ⟨m', hread⟩).1
      rw [skipNumber_eq_ok_iff.2 hspells] at hskip
      rw [hread] at hvalue
      cases hvalue
      cases hskip
      rfl

end RepoAtlas.Json
