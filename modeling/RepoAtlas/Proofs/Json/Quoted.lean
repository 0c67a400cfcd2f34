import RepoAtlas.Proofs.Json.Pretty
import RepoAtlas.Proofs.Json.Yields

/-!
# Which texts are strings

How a string may be written, each character as itself or as an escape. What is said of a
text is that it begins with something, and what the rest is (`SpellsChar`,
`SpellsString`). Space may stand in front (`SpellsItem`).

The reader of strings gives a string where the text spells it, and only there
(`string_eq_ok_iff`).
-/

namespace RepoAtlas.Json

/-! ### How strings are written -/

/-- A text that begins with space, or does not, and what is behind some of it. -/
inductive Spaced : List Char → List Char → Prop where
  | here (rest : List Char) : Spaced rest rest
  | space {c : Char} {cs rest : List Char} (hc : isSpace c = true) (h : Spaced cs rest) :
    Spaced (c :: cs) rest

/-- Four hexadecimal digits, and their number. -/
inductive SpellsUnit : List Char → Nat → List Char → Prop where
  | digits {a b c d : Char} {w x y z : Nat} (ha : hexValue? a = some w) (hb : hexValue? b = some x)
    (hc : hexValue? c = some y) (hd : hexValue? d = some z) (rest : List Char) :
    SpellsUnit (a :: b :: c :: d :: rest) (((w * 16 + x) * 16 + y) * 16 + z) rest

/-- The letters that stand for a character behind a mark. -/
def letters : List (Char × Char) := [
  ('"', '"'), ('\\', '\\'), ('/', '/'), ('b', '\x08'), ('f', '\x0c'), ('n', '\n'), ('r', '\r'),
  ('t', '\t')]

/-- A character inside a string. -/
inductive SpellsChar : List Char → Char → List Char → Prop where
  /-- The character itself, if it is no control character. -/
  | plain {c : Char} (hquote : c ≠ '"') (hmark : c ≠ '\\') (h : 32 ≤ c.toNat) (rest : List Char) :
    SpellsChar (c :: rest) c rest
  /-- A mark and a letter. -/
  | letter {letter c : Char} (h : (letter, c) ∈ letters) (rest : List Char) :
    SpellsChar ('\\' :: letter :: rest) c rest
  /-- A mark and the number of the character. -/
  | unit {n : Nat} {cs rest : List Char} (h : SpellsUnit cs n rest)
    (hn : ¬(0xD800 ≤ n ∧ n ≤ 0xDFFF)) : SpellsChar ('\\' :: 'u' :: cs) (Char.ofNat n) rest
  /-- Two marks with the halves of the number of a character beyond 16 bits. -/
  | halves {n m : Nat} {cs more rest : List Char} (h : SpellsUnit cs n ('\\' :: 'u' :: more))
    (hn : 0xD800 ≤ n ∧ n ≤ 0xDBFF) (hmore : SpellsUnit more m rest)
    (hm : 0xDC00 ≤ m ∧ m ≤ 0xDFFF) :
    SpellsChar ('\\' :: 'u' :: cs)
      (Char.ofNat ((n - 0xD800) * 1024 + (m - 0xDC00) + 0x10000)) rest

/-- The characters of a string behind its opening quote, and the closing one. -/
inductive SpellsString : List Char → List Char → List Char → Prop where
  | quote (rest : List Char) : SpellsString ('"' :: rest) [] rest
  | char {c : Char} {cs more s rest : List Char} (hc : SpellsChar cs c more)
    (h : SpellsString more s rest) : SpellsString cs (c :: s) rest

/-- An item, behind space. -/
def SpellsItem (cs : List Char) (s : String) (rest : List Char) : Prop :=
  ∃ body, Spaced cs ('"' :: body) ∧ SpellsString body s.toList rest

variable {cs rest more s : List Char} {c : Char} {n fuel : Nat}

/-! ### Space -/

/-- What is skipped as space is space. -/
theorem spaced_skipSpace (cs : List Char) : Spaced cs (skipSpace cs) := by
  induction cs with
  | nil => exact .here []
  | cons c cs ih =>
    cases hc : isSpace c with
    | true =>
      rw [skipSpace, List.dropWhile_cons_of_pos hc]
      exact .space hc ih
    | false =>
      rw [skipSpace_of_not hc]
      exact .here _

/-- Space makes no difference to where the skipping of space ends. -/
theorem Spaced.skipSpace_eq (h : Spaced cs rest) : skipSpace cs = skipSpace rest := by
  induction h with
  | here => rfl
  | space hc _ ih => rw [skipSpace, List.dropWhile_cons_of_pos hc, ← skipSpace, ih]

/-- Behind space stands what begins with another character. -/
theorem skipSpace_eq_cons_iff (h : isSpace c = false) :
    skipSpace cs = c :: rest ↔ Spaced cs (c :: rest) :=
  ⟨fun heq => heq ▸ spaced_skipSpace cs, fun hspaced =>
    hspaced.skipSpace_eq.trans (skipSpace_of_not h rest)⟩

theorem skipSpace_eq_nil_iff : skipSpace cs = [] ↔ Spaced cs [] :=
  ⟨fun heq => heq ▸ spaced_skipSpace cs, fun hspaced => hspaced.skipSpace_eq⟩

/-- What stands behind space is the end of the text. -/
theorem Spaced.suffix (h : Spaced cs rest) : rest <:+ cs := by
  induction h with
  | here => exact List.suffix_refl _
  | space _ _ ih => exact ih.trans (List.suffix_cons ..)

/-! ### Characters -/

/-- Four digits are read as the unit that they spell. -/
theorem hexEscape_eq_ok_iff : hexEscape cs = .ok (n, rest) ↔ SpellsUnit cs n rest := by
  constructor
  · intro h
    unfold hexEscape at h
    split at h
    · split at h
      · cases h
        exact .digits ‹_› ‹_› ‹_› ‹_› _
      · cases h
    · split at h <;> cases h
  · rintro ⟨ha, hb, hc, hd, rest⟩
    simp only [hexEscape, ha, hb, hc, hd]

/-- A letter behind a mark is read as the table says. -/
theorem escaped?_eq_some_iff {letter : Char} :
    escaped? letter = some c ↔ (letter, c) ∈ letters := by
  unfold escaped? letters
  constructor
  · intro h
    split_ifs at h with hself hb hf hn hr ht
    all_goals cases h
    · simp only [Bool.or_eq_true, decide_eq_true_eq] at hself
      obtain (rfl | rfl) | rfl := hself <;> simp
    all_goals subst_vars; simp
  · intro h
    simp only [List.mem_cons, Prod.mk.injEq, List.not_mem_nil, or_false] at h
    obtain ⟨rfl, rfl⟩ | ⟨rfl, rfl⟩ | ⟨rfl, rfl⟩ | ⟨rfl, rfl⟩ | ⟨rfl, rfl⟩ | ⟨rfl, rfl⟩ |
      ⟨rfl, rfl⟩ | ⟨rfl, rfl⟩ := h <;> rfl

theorem isLowHalf_iff : isLowHalf n = true ↔ 0xDC00 ≤ n ∧ n ≤ 0xDFFF := by simp [isLowHalf]

theorem isHighHalf_iff : isHighHalf n = true ↔ 0xD800 ≤ n ∧ n ≤ 0xDBFF := by simp [isHighHalf]

/-- A character read by its number is spelled by one unit, or by the two halves of a
    pair. -/
theorem spellsChar_of_numberedEscape (h : numberedEscape cs = .ok (c, rest)) :
    SpellsChar ('\\' :: 'u' :: cs) c rest := by
  obtain ⟨⟨n, behind⟩, hn, h⟩ := exists_of_bind h
  rw [hexEscape_eq_ok_iff] at hn
  dsimp only at h
  split at h
  · cases h
  · rename_i hlow
    rw [isLowHalf_iff] at hlow
    split at h
    · rename_i hhigh
      rw [Bool.not_eq_true', Bool.eq_false_iff, Ne, isHighHalf_iff] at hhigh
      cases h
      exact .unit hn (by omega)
    · rename_i hhigh
      rw [Bool.not_eq_true', Bool.not_eq_false, isHighHalf_iff] at hhigh
      split at h
      · cases h
      · split at h
        · cases h
        · rename_i hmark
          split at h
          · cases h
          · split at h
            · cases h
            · rename_i hletter
              obtain ⟨⟨m, left⟩, hm, h⟩ := exists_of_bind h
              rw [hexEscape_eq_ok_iff] at hm
              dsimp only at h
              split at h
              · rename_i hlow'
                rw [isLowHalf_iff] at hlow'
                obtain ⟨rfl, rfl⟩ := Prod.mk.inj (Except.ok.inj h)
                rw [not_not.1 hmark, not_not.1 hletter] at hn
                exact .halves hn hhigh hm hlow'
              · cases h

/-- What is read behind a mark is spelled with the mark. -/
theorem spellsChar_of_escape (h : escape cs = .ok (c, rest)) : SpellsChar ('\\' :: cs) c rest := by
  unfold escape at h
  split at h
  · cases h
  · split at h
    · rename_i hletter
      exact hletter ▸ spellsChar_of_numberedEscape h
    · split at h
      · rename_i hescaped
        cases h
        exact .letter (escaped?_eq_some_iff.1 hescaped) _
      · cases h

/-- Each character that is spelled with a mark is read behind it. -/
theorem escape_of_spellsChar (h : SpellsChar ('\\' :: cs) c rest) : escape cs = .ok (c, rest) := by
  cases h with
  | plain _ hmark => exact absurd rfl hmark
  | letter h =>
    have hescaped := escaped?_eq_some_iff.2 h
    rw [escape, if_neg, hescaped]
    rintro rfl
    cases hescaped
  | @unit n _ _ h hn =>
    have hlow : ¬isLowHalf n = true := by rw [isLowHalf_iff]; omega
    have hhigh : ¬isHighHalf n = true := by rw [isHighHalf_iff]; omega
    rw [escape, if_pos rfl, numberedEscape, hexEscape_eq_ok_iff.2 h]
    simp [bind, Except.bind, pure, Except.pure, hlow, hhigh]
  | @halves n m _ _ _ h hn hmore hm =>
    have hlow : ¬isLowHalf n = true := by rw [isLowHalf_iff]; omega
    have hhigh := isHighHalf_iff.2 hn
    have hlow' := isLowHalf_iff.2 hm
    rw [escape, if_pos rfl, numberedEscape, hexEscape_eq_ok_iff.2 h]
    simp [bind, Except.bind, pure, Except.pure, hlow, hhigh, hexEscape_eq_ok_iff.2 hmore, hlow']

/-! ### Strings -/

/-- A string that is read is spelled up to its closing quote. -/
theorem spellsString_of_stringRest (h : stringRest fuel cs = .ok (s, rest)) :
    SpellsString cs s rest := by
  induction fuel generalizing cs s with
  | zero => cases h
  | succ fuel ih =>
    unfold stringRest at h
    split at h
    case h_1 | h_2 => simp at h
    rename_i c cs hfuel
    cases hfuel
    split at h
    · rename_i hquote
      cases h
      exact hquote ▸ .quote rest
    · rename_i hquote
      split at h
      · rename_i hmark
        obtain ⟨⟨e, more⟩, he, h⟩ := exists_of_bind h
        obtain ⟨⟨t, left⟩, ht, h⟩ := exists_of_bind h
        cases h
        exact .char (hmark ▸ spellsChar_of_escape he) (ih ht)
      · rename_i hmark
        split at h
        · cases h
        · rename_i hcontrol
          obtain ⟨⟨t, left⟩, ht, h⟩ := exists_of_bind h
          cases h
          exact .char (.plain hquote hmark (Nat.not_lt.1 hcontrol) cs) (ih ht)

theorem SpellsUnit.length_lt (h : SpellsUnit cs n rest) : rest.length < cs.length := by
  obtain ⟨-, -, -, -, rest⟩ := h
  simp only [List.length_cons]
  omega

theorem SpellsChar.length_lt (h : SpellsChar cs c rest) : rest.length < cs.length := by
  cases h with
  | plain => exact Nat.lt_succ_self _
  | letter => exact Nat.lt_succ_of_lt (Nat.lt_succ_self _)
  | unit h =>
    have hlt := h.length_lt
    simp only [List.length_cons]
    omega
  | halves h _ hmore =>
    have hlt := h.length_lt
    have hlt' := hmore.length_lt
    simp only [List.length_cons] at hlt ⊢
    omega

/-- Any character as it is spelled is read, and then the rest of the string. -/
theorem stringRest_char (h : SpellsChar cs c more) (fuel : Nat) :
    stringRest (fuel + 1) cs =
      (stringRest fuel more).map fun (s, rest) => (c :: s, rest) := by
  have hmark {cs : List Char} (h : SpellsChar ('\\' :: cs) c more) :
      stringRest (fuel + 1) ('\\' :: cs) =
        (stringRest fuel more).map fun (s, rest) => (c :: s, rest) := by
    simp only [stringRest, escape_of_spellsChar h, bind, Except.bind]
    cases stringRest fuel more <;> rfl
  cases h with
  | plain hquote hslash h =>
    simp only [stringRest, hquote, hslash, if_false, if_neg (Nat.not_lt.2 h), bind, Except.bind]
    cases stringRest fuel more <;> rfl
  | letter h => exact hmark (.letter h more)
  | unit h hn => exact hmark (.unit h hn)
  | halves h hn hmore hm => exact hmark (.halves h hn hmore hm)

/-- A string that is spelled is read, if there is fuel for each character. -/
theorem stringRest_of_spellsString (h : SpellsString cs s rest) (hfuel : cs.length < fuel) :
    stringRest fuel cs = .ok (s, rest) := by
  induction h generalizing fuel with
  | quote =>
    obtain ⟨fuel, rfl⟩ := Nat.exists_eq_add_one_of_ne_zero (Nat.ne_of_gt (Nat.zero_lt_of_lt hfuel))
    simp [stringRest]
  | char hc _ ih =>
    obtain ⟨fuel, rfl⟩ := Nat.exists_eq_add_one_of_ne_zero (Nat.ne_of_gt (Nat.zero_lt_of_lt hfuel))
    have hlt := hc.length_lt
    rw [stringRest_char hc, ih (by omega)]
    rfl

/-- A string is read behind its opening quote exactly as it is spelled. -/
theorem stringBody_eq_ok_iff {s : String} :
    stringBody cs = .ok (s, rest) ↔ SpellsString cs s.toList rest := by
  constructor
  · intro h
    obtain ⟨⟨t, left⟩, ht, h⟩ := exists_of_bind h
    cases h
    rw [String.toList_ofList]
    exact spellsString_of_stringRest ht
  · intro h
    simp only [stringBody, stringRest_of_spellsString h (Nat.lt_succ_self _), bind, Except.bind]
    rw [String.ofList_toList]
    rfl

/-- A reader of strings gives the string that an item spells. -/
theorem string_eq_ok_iff {s : String} :
    Reader.string cs = .ok (s, rest) ↔ SpellsItem cs s rest := by
  constructor
  · intro h
    unfold Reader.string at h
    split at h
    · cases h
    · rename_i body hopen
      exact ⟨body, (skipSpace_eq_cons_iff (by decide)).1 hopen, stringBody_eq_ok_iff.1 h⟩
    · cases h
  · rintro ⟨body, hopen, hbody⟩
    rw [Reader.string, (skipSpace_eq_cons_iff (by decide)).2 hopen]
    exact stringBody_eq_ok_iff.2 hbody

theorem SpellsString.length_lt (h : SpellsString cs s rest) : rest.length < cs.length := by
  induction h with
  | quote rest => simp
  | char hc _ ih => exact ih.trans hc.length_lt

theorem SpellsItem.length_lt {s : String} (h : SpellsItem cs s rest) : rest.length < cs.length := by
  obtain ⟨body, hopen, hbody⟩ := h
  have hle := hopen.suffix.length_le
  have hlt := hbody.length_lt
  rw [List.length_cons] at hle
  omega

/-- An item begins with a quote, behind space. -/
theorem SpellsItem.exists_skipSpace {s : String} (h : SpellsItem cs s rest) :
    ∃ body, skipSpace cs = '"' :: body := by
  obtain ⟨body, hopen, -⟩ := h
  exact ⟨body, (skipSpace_eq_cons_iff (by decide)).2 hopen⟩

end RepoAtlas.Json
