import RepoAtlas.Json.Reader
import RepoAtlas.Json.Writer
import Mathlib.Data.List.Basic
import Mathlib.Tactic.IntervalCases

/-!
# Written strings are read back

A string that was written in quotes is read as it was, whatever follows it
(`string_written`): every character is written either as it is or as an escape
that stands for it. So is an array of strings on one line (`run_list_strings`).
-/

namespace RepoAtlas.Json

/-! ### Characters -/

theorem hexValue?_hexLetter {n : Nat} (h : n < 16) : hexValue? (hexLetter n) = some n := by
  interval_cases n <;> decide

/-- The number of a control character is written in two digits and read from
    four. -/
theorem numberedEscape_control {c : Char} (h : c.toNat < 32) (rest : List Char) :
    numberedEscape ('0' :: '0' :: hexLetter (c.toNat / 16) :: hexLetter (c.toNat % 16) :: rest) =
      .ok (c, rest) := by
  have hhigh : hexValue? (hexLetter (c.toNat / 16)) = some (c.toNat / 16) :=
    hexValue?_hexLetter (by omega)
  have hlow : hexValue? (hexLetter (c.toNat % 16)) = some (c.toNat % 16) :=
    hexValue?_hexLetter (by omega)
  have hsum : ((0 * 16 + 0) * 16 + c.toNat / 16) * 16 + c.toNat % 16 = c.toNat := by omega
  have hread : hexEscape ('0' :: '0' :: hexLetter (c.toNat / 16) :: hexLetter (c.toNat % 16) ::
      rest) = .ok (c.toNat, rest) := by
    have hzero : hexValue? '0' = some 0 := by decide
    simp only [hexEscape, hzero, hhigh, hlow, hsum]
  have hlowHalf : isLowHalf c.toNat = false := by simp [isLowHalf]; omega
  have hhighHalf : isHighHalf c.toNat = false := by simp [isHighHalf]; omega
  rw [numberedEscape, hread]
  simp [bind, Except.bind, hlowHalf, hhighHalf, pure, Except.pure]

/-- A written character is read back, and takes no more than one step. -/
theorem stringRest_writtenChar (fuel : Nat) (c : Char) (rest : List Char) :
    stringRest (fuel + 1) (writtenChar c ++ rest) =
      (stringRest fuel rest).map fun (s, rest) => (c :: s, rest) := by
  have hmark (e : Char) (cs : List Char) (h : escape cs = .ok (e, rest)) :
      stringRest (fuel + 1) ('\\' :: cs) =
        (stringRest fuel rest).map fun (s, rest) => (e :: s, rest) := by
    simp only [stringRest, h, bind, Except.bind]
    cases stringRest fuel rest <;> rfl
  unfold writtenChar
  split_ifs with hquote hslash hplain hb hf hn hr ht
  · subst hquote
    exact hmark _ _ rfl
  · subst hslash
    exact hmark _ _ rfl
  · simp only [List.cons_append, List.nil_append, stringRest, hquote, hslash, if_false,
      if_neg (Nat.not_lt.2 hplain), bind, Except.bind]
    cases stringRest fuel rest <;> rfl
  · subst hb
    exact hmark _ _ rfl
  · subst hf
    exact hmark _ _ rfl
  · subst hn
    exact hmark _ _ rfl
  · subst hr
    exact hmark _ _ rfl
  · subst ht
    exact hmark _ _ rfl
  · refine hmark c _ ?_
    exact numberedEscape_control (Nat.not_le.1 hplain) rest

/-! ### Strings -/

/-- What takes at least one character each takes at least as many as there are. -/
theorem length_le_length_flatMap {α : Type} {f : α → List Char} (hf : ∀ a, f a ≠ [])
    (l : List α) : l.length ≤ (l.flatMap f).length := by
  induction l with
  | nil => simp
  | cons a l ih =>
    have hpos : 0 < (f a).length := List.length_pos_iff.2 (hf a)
    rw [List.flatMap_cons, List.length_append, List.length_cons]
    omega

theorem writtenChar_ne_nil (c : Char) : writtenChar c ≠ [] := by
  unfold writtenChar
  split_ifs <;> simp

theorem stringRest_written (s : List Char) {fuel : Nat} (h : s.length < fuel)
    (rest : List Char) :
    stringRest fuel (s.flatMap writtenChar ++ '"' :: rest) = .ok (s, rest) := by
  induction s generalizing fuel with
  | nil =>
    obtain ⟨n, rfl⟩ := Nat.exists_eq_add_one_of_ne_zero (Nat.ne_of_gt h)
    simp [stringRest]
  | cons c s ih =>
    obtain ⟨n, rfl⟩ := Nat.exists_eq_add_one_of_ne_zero (Nat.ne_of_gt (Nat.zero_lt_of_lt h))
    rw [List.flatMap_cons, List.append_assoc, stringRest_writtenChar,
      ih (Nat.lt_of_succ_lt_succ h)]
    rfl

/-- Behind its opening quote, a written string is read back. -/
theorem stringBody_written (s : String) (rest : List Char) :
    stringBody (s.toList.flatMap writtenChar ++ '"' :: rest) = .ok (s, rest) := by
  have hfuel : s.toList.length <
      (s.toList.flatMap writtenChar ++ '"' :: rest).length + 1 := by
    have := length_le_length_flatMap writtenChar_ne_nil s.toList
    rw [List.length_append]
    omega
  rw [stringBody, stringRest_written _ hfuel]
  simp [bind, Except.bind, pure, Except.pure]

theorem written_append (s : String) (rest : List Char) :
    written s ++ rest = '"' :: (s.toList.flatMap writtenChar ++ '"' :: rest) := by
  simp [written]

/-- A written string is read back. -/
theorem string_written (s : String) (rest : List Char) :
    Reader.string (written s ++ rest) = .ok (s, rest) := by
  rw [written_append]
  simp only [Reader.string, skipSpace, List.dropWhile_cons_of_neg (show ¬isSpace '"' by decide)]
  exact stringBody_written s rest

/-! ### Arrays of strings -/

/-- The text of the items of an array behind the first, up to its end. -/
def furtherItems (l : List String) : List Char := l.flatMap fun s => ',' :: written s

theorem compactItems_strings (s : String) (l : List String) :
    Value.compactItems ((s :: l).map .string) = written s ++ furtherItems l := by
  induction l generalizing s with
  | nil => simp [Value.compactItems, Value.compactChars, furtherItems]
  | cons t l ih =>
    rw [List.map_cons, List.map_cons, Value.compactItems, ← List.map_cons, ih t]
    · simp [Value.compactChars, furtherItems]
    · simp

/-- The items behind the first are read back. -/
theorem items_further (l : List String) {fuel : Nat} (h : l.length < fuel) (rest : List Char) :
    Reader.items Reader.string fuel false (furtherItems l ++ ']' :: rest) =
      .ok (l, ']' :: rest) := by
  induction l generalizing fuel with
  | nil =>
    obtain ⟨n, rfl⟩ := Nat.exists_eq_add_one_of_ne_zero (Nat.ne_of_gt h)
    rfl
  | cons s l ih =>
    obtain ⟨n, rfl⟩ := Nat.exists_eq_add_one_of_ne_zero (Nat.ne_of_gt (Nat.zero_lt_of_lt h))
    have htext : furtherItems (s :: l) ++ ']' :: rest =
        ',' :: (written s ++ (furtherItems l ++ ']' :: rest)) := by
      simp [furtherItems]
    have hnext : nextItem false (',' :: (written s ++ (furtherItems l ++ ']' :: rest))) =
        .ok (some (written s ++ (furtherItems l ++ ']' :: rest))) := by
      rw [written_append]
      rfl
    rw [htext, Reader.items, hnext]
    simp only [bind, Except.bind, string_written, ih (Nat.lt_of_succ_lt_succ h)]
    rfl

/-- An array of strings on one line is read back. -/
theorem list_strings (l : List String) (rest : List Char) :
    Reader.list Reader.string ((Value.strings l).compactChars ++ rest) = .ok (l, rest) := by
  cases l with
  | nil => rfl
  | cons s l =>
    have htext : (Value.strings (s :: l)).compactChars ++ rest =
        '[' :: (written s ++ (furtherItems l ++ ']' :: rest)) := by
      rw [Value.strings, Value.compactChars, compactItems_strings]
      simp
    -- The length of the text bounds the steps, and every item takes one at least.
    set body := written s ++ (furtherItems l ++ ']' :: rest) with hbody
    have hlength : l.length < body.length := by
      have hfurther : l.length ≤ (furtherItems l).length :=
        length_le_length_flatMap (fun _ => List.cons_ne_nil _ _) l
      simp only [hbody, List.length_append, List.length_cons]
      omega
    have hnext : nextItem true body = .ok (some body) := by
      rw [hbody, written_append]
      rfl
    have hitems : Reader.items Reader.string (body.length + 1) true body =
        .ok (s :: l, ']' :: rest) := by
      rw [Reader.items, hnext]
      simp only [bind, Except.bind]
      rw [hbody, string_written, ← hbody]
      simp only
      rw [items_further l hlength rest]
      rfl
    rw [htext]
    have hopen : skipSpace ('[' :: body) = '[' :: body := rfl
    simp only [Reader.list, hopen, hitems, bind, Except.bind]
    rfl

/-- The text of an array of strings is read back. -/
theorem run_list_strings (l : List String) :
    (Reader.list Reader.string).run (Value.strings l).compact = .ok l := by
  have h := list_strings l []
  rw [List.append_nil] at h
  rw [Reader.run, Value.compact, String.toList_ofList, h]
  rfl

end RepoAtlas.Json
