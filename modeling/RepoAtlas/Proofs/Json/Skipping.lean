import RepoAtlas.Proofs.Json.Numerals
import RepoAtlas.Proofs.Json.Quoted

/-!
# Which texts are skipped

A value that is not expected is skipped, without a tree and with no limit to the brackets
around it: what is open is kept on a stack. A value that is skipped is written as any
value is (`Spans`), except that the halves of a character in a string need not match and
that a number may be as large as it likes.

Whatever is open, the text behind a value has to close it (`Closes`), so what one step of
the skipper does is a step of such a spelling (`spans_of_skip`); and a spelling is skipped
to its end within the fuel that its length gives (`Spans.skips`). Together a value is
skipped exactly if it is one (`skipValue_eq_ok_iff`).
-/

namespace RepoAtlas.Json

/-! ### How values are written that are skipped -/

/-- A character inside a string that is skipped. -/
inductive SkipsChar : List Char → List Char → Prop where
  | plain {c : Char} (hquote : c ≠ '"') (hmark : c ≠ '\\') (h : 32 ≤ c.toNat) (rest : List Char) :
    SkipsChar (c :: rest) rest
  | letter {letter c : Char} (h : (letter, c) ∈ letters) (rest : List Char) :
    SkipsChar ('\\' :: letter :: rest) rest
  /-- A mark and any number, also one that is half a character. -/
  | unit {n : Nat} {cs rest : List Char} (h : SpellsUnit cs n rest) :
    SkipsChar ('\\' :: 'u' :: cs) rest

/-- The characters of a string that is skipped, behind its opening quote, and the
    closing one. -/
inductive SkipsString : List Char → List Char → Prop where
  | quote (rest : List Char) : SkipsString ('"' :: rest) rest
  | char {cs more rest : List Char} (hc : SkipsChar cs more) (h : SkipsString more rest) :
    SkipsString cs rest

/-- A value that has no others in it. -/
inductive SkipsScalar : List Char → List Char → Prop where
  | null (rest : List Char) : SkipsScalar ('n' :: 'u' :: 'l' :: 'l' :: rest) rest
  | isTrue (rest : List Char) : SkipsScalar ('t' :: 'r' :: 'u' :: 'e' :: rest) rest
  | isFalse (rest : List Char) : SkipsScalar ('f' :: 'a' :: 'l' :: 's' :: 'e' :: rest) rest
  | string {cs rest : List Char} (h : SkipsString cs rest) : SkipsScalar ('"' :: cs) rest
  | number {cs rest : List Char} (h : SpellsNumber cs rest) : SkipsScalar cs rest
  | below {cs rest : List Char} (h : SpellsNumber cs rest) : SkipsScalar ('-' :: cs) rest

namespace Bracket

/-- The character that opens a bracket. -/
def opening : Bracket → Char
  | array => '['
  | object => '{'

/-- The character that closes a bracket. -/
def closing : Bracket → Char
  | array => ']'
  | object => '}'

end Bracket

/-- What stands in front of a value in a bracket: in an object, a key and its colon. -/
inductive SkipsKey : Bracket → List Char → List Char → Prop where
  | array (cs : List Char) : SkipsKey .array cs cs
  | object {cs key more rest : List Char} (hopen : Spaced cs ('"' :: key))
    (hkey : SkipsString key more) (hcolon : Spaced more (':' :: rest)) : SkipsKey .object cs rest

/-- The parts of a text that is skipped. -/
inductive Part where
  | value
  /-- What stands behind an opening bracket, with the closing one. -/
  | inside (b : Bracket)
  /-- What stands behind a value in a bracket, with the closing one. -/
  | behind (b : Bracket)

/-- How the parts are written, with any space in front. -/
inductive Spans : Part → List Char → List Char → Prop where
  | scalar {cs more rest : List Char} (hspace : Spaced cs more) (h : SkipsScalar more rest) :
    Spans .value cs rest
  | bracket {b : Bracket} {cs inner rest : List Char} (hopen : Spaced cs (b.opening :: inner))
    (h : Spans (.inside b) inner rest) : Spans .value cs rest
  | empty {b : Bracket} {cs rest : List Char} (hclose : Spaced cs (b.closing :: rest)) :
    Spans (.inside b) cs rest
  | first {b : Bracket} {cs item more rest : List Char} (hkey : SkipsKey b cs item)
    (hvalue : Spans .value item more) (h : Spans (.behind b) more rest) : Spans (.inside b) cs rest
  | close {b : Bracket} {cs rest : List Char} (hclose : Spaced cs (b.closing :: rest)) :
    Spans (.behind b) cs rest
  | comma {b : Bracket} {cs next item more rest : List Char} (hcomma : Spaced cs (',' :: next))
    (hkey : SkipsKey b next item) (hvalue : Spans .value item more)
    (h : Spans (.behind b) more rest) : Spans (.behind b) cs rest

variable {cs more rest : List Char} {fuel : Nat} {b : Bracket} {brackets : List Bracket}

/-! ### Strings -/

theorem SkipsChar.length_lt (h : SkipsChar cs rest) : rest.length < cs.length := by
  cases h with
  | plain => exact Nat.lt_succ_self _
  | letter => exact Nat.lt_succ_of_lt (Nat.lt_succ_self _)
  | unit h =>
    have hlt := h.length_lt
    simp only [List.length_cons]
    omega

theorem SkipsString.length_lt (h : SkipsString cs rest) : rest.length < cs.length := by
  induction h with
  | quote rest => exact Nat.lt_succ_self _
  | char hc _ ih => exact ih.trans hc.length_lt

/-- An escape is skipped with its letter, or with the four digits of a number. -/
theorem skipEscape_eq_ok_iff : skipEscape cs = .ok rest ↔ SkipsChar ('\\' :: cs) rest := by
  constructor
  · intro h
    unfold skipEscape at h
    split at h
    · cases h
    · rename_i c cs
      split at h
      · rename_i hletter
        cases hescape : hexEscape cs with
        | error f =>
          rw [hescape] at h
          cases h
        | ok p =>
          rw [hescape] at h
          cases h
          exact hletter ▸ .unit (hexEscape_eq_ok_iff.1 hescape)
      · split at h
        · rename_i hescaped
          cases h
          obtain ⟨e, he⟩ := Option.isSome_iff_exists.1 hescaped
          exact .letter (escaped?_eq_some_iff.1 he) _
        · cases h
  · intro h
    cases h with
    | plain _ hmark => exact absurd rfl hmark
    | letter h =>
      have hescaped := escaped?_eq_some_iff.2 h
      rw [skipEscape, if_neg, if_pos (by rw [hescaped]; rfl)]
      rintro rfl
      cases hescaped
    | unit h =>
      rw [skipEscape, if_pos rfl, hexEscape_eq_ok_iff.2 h]
      rfl

/-- A string that was skipped ends with its closing quote. -/
theorem skipsString_of_skipStringRest (h : skipStringRest fuel cs = .ok rest) :
    SkipsString cs rest := by
  induction fuel generalizing cs with
  | zero => cases h
  | succ fuel ih =>
    unfold skipStringRest at h
    split at h
    case h_1 | h_2 => simp at h
    rename_i c cs hfuel
    cases hfuel
    split at h
    · rename_i hquote
      cases h
      exact hquote ▸ .quote rest
    · rename_i hquote
      split at h
      · rename_i hmark
        obtain ⟨more, hescape, h⟩ := exists_of_bind h
        exact .char (hmark ▸ skipEscape_eq_ok_iff.1 hescape) (ih h)
      · rename_i hmark
        split at h
        · cases h
        · rename_i hcontrol
          exact .char (.plain hquote hmark (Nat.not_lt.1 hcontrol) cs) (ih h)

/-- Any character is skipped, and then the rest of the string. -/
theorem skipStringRest_char (h : SkipsChar cs more) (fuel : Nat) :
    skipStringRest (fuel + 1) cs = skipStringRest fuel more := by
  have hmark {cs : List Char} (h : SkipsChar ('\\' :: cs) more) :
      skipStringRest (fuel + 1) ('\\' :: cs) = skipStringRest fuel more := by
    rw [skipStringRest, if_neg (by decide), if_pos rfl, skipEscape_eq_ok_iff.2 h]
    rfl
  cases h with
  | plain hquote hslash h =>
    rw [skipStringRest, if_neg hquote, if_neg hslash, if_neg (Nat.not_lt.2 h)]
  | letter h => exact hmark (.letter h more)
  | unit h => exact hmark (.unit h)

/-- Every string can be skipped, if there is fuel for each character. -/
theorem skipStringRest_of_skipsString (h : SkipsString cs rest) (hfuel : cs.length < fuel) :
    skipStringRest fuel cs = .ok rest := by
  induction h generalizing fuel with
  | quote =>
    obtain ⟨fuel, rfl⟩ := Nat.exists_eq_add_one_of_ne_zero (Nat.ne_of_gt (Nat.zero_lt_of_lt hfuel))
    rw [skipStringRest, if_pos rfl]
  | char hc _ ih =>
    obtain ⟨fuel, rfl⟩ := Nat.exists_eq_add_one_of_ne_zero (Nat.ne_of_gt (Nat.zero_lt_of_lt hfuel))
    have hlt := hc.length_lt
    rw [skipStringRest_char hc, ih (by omega)]

/-- Just what is a string can be skipped as one. -/
theorem skipString_eq_ok_iff : skipString cs = .ok rest ↔ SkipsString cs rest :=
  ⟨skipsString_of_skipStringRest, fun h => skipStringRest_of_skipsString h (Nat.lt_succ_self _)⟩

/-! ### Single values -/

/-- A word is skipped where it stands, letter by letter. -/
theorem word_eq_ok_iff {ws : List Char} : word ws cs = .ok rest ↔ cs = ws ++ rest := by
  induction ws generalizing cs with
  | nil => simp [word]
  | cons w ws ih =>
    cases cs with
    | nil => simp [word]
    | cons c cs =>
      rw [word]
      by_cases hw : w = c
      · rw [if_pos hw, ih, hw]
        simp
      · rw [if_neg hw]
        simp [Ne.symm hw]

theorem SkipsScalar.length_lt (h : SkipsScalar cs rest) : rest.length < cs.length := by
  cases h with
  | null | isTrue | isFalse =>
    simp only [List.length_cons]
    omega
  | string h => exact Nat.lt_succ_of_lt h.length_lt
  | number h => exact h.length_lt
  | below h => exact Nat.lt_succ_of_lt h.length_lt

/-- A value begins with a word, a quote, a sign or a digit, or it opens a bracket. -/
theorem exists_of_skipValueIn (h : skipValueIn (fuel + 1) brackets cs = .ok rest) :
    (∃ more, SkipsScalar (skipSpace cs) more ∧ skipAfter fuel true brackets more = .ok rest) ∨
      ∃ b inner, skipSpace cs = Bracket.opening b :: inner ∧
        skipAfter fuel false (b :: brackets) inner = .ok rest := by
  rw [skipValueIn] at h
  split at h
  · cases h
  · rename_i heq
    obtain ⟨more, hword, h⟩ := exists_of_bind h
    rw [heq, word_eq_ok_iff.1 hword]
    exact .inl ⟨more, .null more, h⟩
  · rename_i heq
    obtain ⟨more, hword, h⟩ := exists_of_bind h
    rw [heq, word_eq_ok_iff.1 hword]
    exact .inl ⟨more, .isTrue more, h⟩
  · rename_i heq
    obtain ⟨more, hword, h⟩ := exists_of_bind h
    rw [heq, word_eq_ok_iff.1 hword]
    exact .inl ⟨more, .isFalse more, h⟩
  · rename_i heq
    obtain ⟨more, hnumber, h⟩ := exists_of_bind h
    rw [heq]
    exact .inl ⟨more, .below (skipNumber_eq_ok_iff.1 hnumber), h⟩
  · rename_i heq
    obtain ⟨more, hstring, h⟩ := exists_of_bind h
    rw [heq]
    exact .inl ⟨more, .string (skipString_eq_ok_iff.1 hstring), h⟩
  · rename_i inner heq
    exact .inr ⟨.array, inner, heq, h⟩
  · rename_i inner heq
    exact .inr ⟨.object, inner, heq, h⟩
  · rename_i heq
    split at h
    · obtain ⟨more, hnumber, h⟩ := exists_of_bind h
      rw [heq]
      exact .inl ⟨more, .number (skipNumber_eq_ok_iff.1 hnumber), h⟩
    · cases h

/-- A value without brackets is skipped at once. -/
theorem skipValueIn_scalar (h : SkipsScalar (skipSpace cs) more) (fuel : Nat)
    (brackets : List Bracket) :
    skipValueIn (fuel + 1) brackets cs = skipAfter fuel true brackets more := by
  rw [skipValueIn]
  generalize skipSpace cs = start at h
  cases h with
  | null | isTrue | isFalse => rfl
  | string h => simp only [skipString_eq_ok_iff.2 h, bind, Except.bind]
  | below h => simp only [skipNumber_eq_ok_iff.2 h, bind, Except.bind]
  | number h =>
    have hskip := skipNumber_eq_ok_iff.2 h
    have hdigit := h.digitNext
    split
    case h_9 => simp only [hdigit, if_true, hskip, bind, Except.bind]
    -- No digit begins another value.
    all_goals cases hdigit

/-- A value with brackets is skipped behind its opening one. -/
theorem skipValueIn_bracket {inner : List Char} (h : skipSpace cs = b.opening :: inner)
    (fuel : Nat) (brackets : List Bracket) :
    skipValueIn (fuel + 1) brackets cs = skipAfter fuel false (b :: brackets) inner := by
  rw [skipValueIn, h]
  cases b with
  | array => rfl
  | object => rfl

/-! ### What stands around values -/

theorem isSpace_opening (b : Bracket) : isSpace b.opening = false := by cases b <;> rfl

theorem isSpace_closing (b : Bracket) : isSpace b.closing = false := by cases b <;> rfl

theorem skipSpace_skipSpace (cs : List Char) : skipSpace (skipSpace cs) = skipSpace cs :=
  (spaced_skipSpace cs).skipSpace_eq.symm

/-- Skips what stands in front of a value in a bracket. -/
def Bracket.skipKey : Bracket → List Char → Except Fault (List Char)
  | .array, cs => .ok cs
  | .object, cs => Json.skipKey cs

/-- A key is a string before a colon. -/
theorem skipKey_eq_ok_iff : skipKey cs = .ok rest ↔ SkipsKey .object cs rest := by
  constructor
  · intro h
    unfold skipKey at h
    split at h
    · rename_i hopen
      obtain ⟨more, hkey, h⟩ := exists_of_bind h
      split at h
      · rename_i hcolon
        cases h
        exact .object ((skipSpace_eq_cons_iff (by decide)).1 hopen)
          (skipString_eq_ok_iff.1 hkey) ((skipSpace_eq_cons_iff (by decide)).1 hcolon)
      · cases h
      · cases h
    · cases h
    · cases h
  · rintro (_ | ⟨hopen, hkey, hcolon⟩)
    rw [skipKey, (skipSpace_eq_cons_iff (by decide)).2 hopen]
    simp only [skipString_eq_ok_iff.2 hkey, bind, Except.bind]
    rw [(skipSpace_eq_cons_iff (by decide)).2 hcolon]
    rfl

theorem Bracket.skipKey_eq_ok_iff : b.skipKey cs = .ok rest ↔ SkipsKey b cs rest := by
  cases b with
  | array =>
    constructor
    · intro h
      cases h
      exact .array _
    · rintro ⟨⟩
      rfl
  | object => exact Json.skipKey_eq_ok_iff

theorem SkipsKey.length_le (h : SkipsKey b cs rest) : rest.length ≤ cs.length := by
  cases h with
  | array => exact Nat.le_refl _
  | object hopen hkey hcolon =>
    have hle := hopen.suffix.length_le
    have hlt := hkey.length_lt
    have hle' := hcolon.suffix.length_le
    simp only [List.length_cons] at hle hle'
    omega

/-- Skips the next value in a bracket, with what stands in front of it. -/
def skipNext (fuel : Nat) (b : Bracket) (brackets : List Bracket) (cs : List Char) :
    Except Fault (List Char) := do
  skipValueIn fuel (b :: brackets) (← b.skipKey cs)

/-- Space before what comes next makes no difference. -/
theorem skipNext_skipSpace (fuel : Nat) (b : Bracket) (brackets : List Bracket)
    (cs : List Char) :
    skipNext (fuel + 1) b brackets (skipSpace cs) = skipNext (fuel + 1) b brackets cs := by
  cases b with
  | array =>
    simp only [skipNext, Bracket.skipKey, bind, Except.bind]
    rw [skipValueIn, skipValueIn, skipSpace_skipSpace]
  | object =>
    rw [skipNext, skipNext, Bracket.skipKey, Bracket.skipKey, Json.skipKey, Json.skipKey,
      skipSpace_skipSpace]

/-- The fault of a text that does not go on in a bracket. -/
def Bracket.continues : Bracket → Cause
  | .array => .arrayContinues
  | .object => .objectContinues

/-- Within brackets, what comes next is the closing one, or a value, which stands behind
    a comma unless it is the first. -/
theorem skipAfter_cons {c : Char} {inner : List Char} (h : skipSpace cs = c :: inner) (fuel : Nat)
    (behind : Bool) (b : Bracket) (brackets : List Bracket) :
    skipAfter (fuel + 1) behind (b :: brackets) cs =
      if c = b.closing then skipAfter fuel true brackets inner
      else if behind && c ≠ ',' then .error (.atNext b.continues (c :: inner))
      else skipNext fuel b brackets (if behind then inner else c :: inner) := by
  rw [skipAfter.eq_def]
  dsimp only
  rw [h]
  by_cases hclose : c = b.closing
  · rw [if_pos hclose]
    subst hclose
    cases b with
    | array => rfl
    | object => rfl
  · rw [if_neg hclose]
    -- No other case of what comes next is left, whatever the bracket is.
    cases b
    all_goals
      split
      case h_5 heq _ _ =>
        cases heq
        rfl
      all_goals simp_all [Bracket.closing]

/-- A text does not end within brackets. -/
theorem skipAfter_ne_ok_of_nil (h : skipSpace cs = []) (fuel : Nat) (behind : Bool)
    (b : Bracket) (brackets : List Bracket) :
    skipAfter (fuel + 1) behind (b :: brackets) cs ≠ .ok rest := by
  rw [skipAfter.eq_def, ne_eq]
  dsimp only
  rw [h]
  cases b with
  | array => simp
  | object => simp

/-- What is skipped behind space is skipped with the space, too. -/
theorem skipNext_of_skipSpace (h : skipNext fuel b brackets (skipSpace cs) = .ok rest) :
    skipNext fuel b brackets cs = .ok rest := by
  cases fuel with
  | zero =>
    obtain ⟨_, -, h⟩ := exists_of_bind h
    cases h
  | succ fuel => rwa [skipNext_skipSpace] at h

theorem skipAfter_close (h : Spaced cs (b.closing :: more)) (fuel : Nat) (behind : Bool)
    (brackets : List Bracket) :
    skipAfter (fuel + 1) behind (b :: brackets) cs = skipAfter fuel true brackets more := by
  rw [skipAfter_cons ((skipSpace_eq_cons_iff (isSpace_closing b)).2 h), if_pos rfl]

theorem skipAfter_comma {next : List Char} (h : Spaced cs (',' :: next)) (fuel : Nat)
    (brackets : List Bracket) :
    skipAfter (fuel + 1) true (b :: brackets) cs = skipNext fuel b brackets next := by
  have hclose : ',' ≠ b.closing := by cases b <;> decide
  rw [skipAfter_cons ((skipSpace_eq_cons_iff (by decide)).2 h), if_neg hclose]
  rfl

theorem skipAfter_first {c : Char} {inner : List Char} (h : skipSpace cs = c :: inner)
    (hclose : c ≠ b.closing) (fuel : Nat) (brackets : List Bracket) :
    skipAfter (fuel + 1) false (b :: brackets) cs = skipNext fuel b brackets (c :: inner) := by
  rw [skipAfter_cons h, if_neg hclose]
  rfl

/-- What comes next in a bracket closes it, or it is the next value behind its comma. -/
theorem exists_of_skipAfter {behind : Bool}
    (h : skipAfter (fuel + 1) behind (b :: brackets) cs = .ok rest) :
    (∃ more, Spaced cs (b.closing :: more) ∧ skipAfter fuel true brackets more = .ok rest) ∨
      ∃ next, (if behind then Spaced cs (',' :: next) else next = cs) ∧
        skipNext fuel b brackets next = .ok rest := by
  cases hopen : skipSpace cs with
  | nil => exact absurd h (skipAfter_ne_ok_of_nil hopen _ _ _ _)
  | cons c more =>
    rw [skipAfter_cons hopen] at h
    split_ifs at h with hclose hcomma hbehind
    · exact .inl ⟨more, (skipSpace_eq_cons_iff (isSpace_closing b)).1 (hclose ▸ hopen), h⟩
    · refine .inr ⟨more, ?_, h⟩
      rw [if_pos hbehind]
      rw [hbehind, Bool.true_and, decide_eq_true_eq, not_not] at hcomma
      exact (skipSpace_eq_cons_iff (by decide)).1 (hcomma ▸ hopen)
    · refine .inr ⟨cs, ?_, skipNext_of_skipSpace (hopen ▸ h)⟩
      rw [if_neg hbehind]

/-! ### Values -/

/-- Whether a text closes all brackets that are open behind a value. -/
def Closes : List Bracket → List Char → List Char → Prop
  | [], cs, rest => rest = cs
  | b :: brackets, cs, rest => ∃ more, Spans (.behind b) cs more ∧ Closes brackets more rest

/-- What is skipped is a value, or a part of one, and what closes all brackets behind it. -/
theorem spans_of_skip (fuel : Nat) :
    (∀ brackets cs rest, skipValueIn fuel brackets cs = .ok rest →
      ∃ more, Spans .value cs more ∧ Closes brackets more rest) ∧
    (∀ brackets cs rest, skipAfter fuel true brackets cs = .ok rest → Closes brackets cs rest) ∧
    ∀ b brackets cs rest, skipAfter fuel false (b :: brackets) cs = .ok rest →
      ∃ more, Spans (.inside b) cs more ∧ Closes brackets more rest := by
  induction fuel with
  | zero =>
    refine ⟨fun _ _ _ h => ?_, fun _ _ _ h => ?_, fun _ _ _ _ h => ?_⟩
    all_goals cases h
  | succ fuel ih =>
    obtain ⟨ihvalue, ihbehind, ihinside⟩ := ih
    have hnext {b : Bracket} {brackets : List Bracket} {cs rest : List Char}
        (h : skipNext fuel b brackets cs = .ok rest) :
        ∃ item more behind, SkipsKey b cs item ∧ Spans .value item more ∧
          Spans (.behind b) more behind ∧ Closes brackets behind rest := by
      obtain ⟨item, hkey, h⟩ := exists_of_bind h
      obtain ⟨more, hvalue, behind, hbehind, hcloses⟩ := ihvalue _ _ _ h
      exact ⟨item, more, behind, Bracket.skipKey_eq_ok_iff.1 hkey, hvalue, hbehind, hcloses⟩
    refine ⟨fun brackets cs rest h => ?value, fun brackets cs rest h => ?behind,
      fun b brackets cs rest h => ?inside⟩
    case value =>
      obtain ⟨more, hscalar, h⟩ | ⟨b, inner, hopen, h⟩ := exists_of_skipValueIn h
      · exact ⟨more, .scalar (spaced_skipSpace cs) hscalar, ihbehind _ _ _ h⟩
      · obtain ⟨more, hinside, hcloses⟩ := ihinside _ _ _ _ h
        rw [skipSpace_eq_cons_iff (isSpace_opening b)] at hopen
        exact ⟨more, .bracket hopen hinside, hcloses⟩
    case behind =>
      cases brackets with
      | nil =>
        cases h
        rfl
      | cons b brackets =>
        obtain ⟨more, hclose, h⟩ | ⟨next, hcomma, h⟩ := exists_of_skipAfter h
        · exact ⟨more, .close hclose, ihbehind _ _ _ h⟩
        · obtain ⟨item, more, behind, hkey, hvalue, hbehind, hcloses⟩ := hnext h
          exact ⟨behind, .comma hcomma hkey hvalue hbehind, hcloses⟩
    case inside =>
      obtain ⟨more, hclose, h⟩ | ⟨next, hopen, hskip⟩ := exists_of_skipAfter h
      · exact ⟨more, .empty hclose, ihbehind _ _ _ h⟩
      · obtain rfl := hopen
        obtain ⟨item, more, behind, hkey, hvalue, hbehind, hcloses⟩ := hnext hskip
        exact ⟨behind, .first hkey hvalue hbehind, hcloses⟩

/-- No digit is space or closes brackets. -/
theorem isDigit_notMem {c : Char} (h : isDigit c = true) :
    c ∉ [' ', '\n', '\t', '\r', ']', '\x7d'] := by
  intro hmem
  simp only [List.mem_cons, List.not_mem_nil, or_false] at hmem
  obtain rfl | rfl | rfl | rfl | rfl | rfl := hmem
  all_goals cases h

/-- No value begins with space or with the end of a bracket. -/
theorem SkipsScalar.exists_cons (h : SkipsScalar cs rest) :
    ∃ c inner, cs = c :: inner ∧ c ∉ [' ', '\n', '\t', '\r', ']', '\x7d'] := by
  cases h with
  | null => exact ⟨_, _, rfl, by decide⟩
  | isTrue => exact ⟨_, _, rfl, by decide⟩
  | isFalse => exact ⟨_, _, rfl, by decide⟩
  | string => exact ⟨_, _, rfl, by decide⟩
  | below => exact ⟨_, _, rfl, by decide⟩
  | number h =>
    cases cs with
    | nil => cases h.digitNext
    | cons c inner => exact ⟨c, inner, rfl, isDigit_notMem h.digitNext⟩

/-- Space is skipped up to a value that begins with no space. -/
theorem Spaced.skipSpace_eq_of_scalar (hspace : Spaced cs more) (h : SkipsScalar more rest) :
    skipSpace cs = more := by
  obtain ⟨c, inner, rfl, hc⟩ := h.exists_cons
  have hspace' : isSpace c = false := by
    simp only [List.mem_cons, List.not_mem_nil, or_false, not_or] at hc
    simp [isSpace, hc]
  exact (skipSpace_eq_cons_iff hspace').2 hspace

/-- What begins with a value does not begin with a closing bracket. -/
theorem Spans.exists_first {item : List Char} (hkey : SkipsKey b cs item)
    (h : Spans .value item more) : ∃ c inner, skipSpace cs = c :: inner ∧ c ≠ b.closing := by
  cases hkey with
  | array =>
    cases h with
    | scalar hspace h =>
      obtain ⟨c, inner, rfl, hc⟩ := h.exists_cons
      refine ⟨c, inner, hspace.skipSpace_eq_of_scalar h, ?_⟩
      rintro rfl
      exact hc (by decide)
    | @bracket b _ inner _ hopen =>
      refine ⟨_, inner, (skipSpace_eq_cons_iff (isSpace_opening b)).2 hopen, ?_⟩
      cases b <;> decide
  | object hopen => exact ⟨_, _, (skipSpace_eq_cons_iff (by decide)).2 hopen, by decide⟩

/-- How a part is skipped with enough fuel, whatever is open around it: what is left is
    the text behind it, and fuel enough for it. -/
def Part.Skips : Part → List Char → List Char → Prop
  | .value, cs, rest => ∀ brackets fuel, 2 * cs.length + 1 ≤ fuel →
    ∃ left, 2 * rest.length + 2 ≤ left ∧
      skipValueIn fuel brackets cs = skipAfter left true brackets rest
  | .inside b, cs, rest => ∀ brackets fuel, 2 * cs.length + 2 ≤ fuel →
    ∃ left, 2 * rest.length + 2 ≤ left ∧
      skipAfter fuel false (b :: brackets) cs = skipAfter left true brackets rest
  | .behind b, cs, rest => ∀ brackets fuel, 2 * cs.length + 2 ≤ fuel →
    ∃ left, 2 * rest.length + 2 ≤ left ∧
      skipAfter fuel true (b :: brackets) cs = skipAfter left true brackets rest

/-- A value with its key is skipped, with all behind it in the same brackets, and fuel
    is left for the rest of the text. -/
theorem skips_next {next item : List Char} (hkey : SkipsKey b next item)
    (hvalue : Part.Skips .value item more) (h : Part.Skips (.behind b) more rest)
    (brackets : List Bracket) (hfuel : 2 * next.length + 1 ≤ fuel) :
    ∃ left, 2 * rest.length + 2 ≤ left ∧
      skipNext fuel b brackets next = skipAfter left true brackets rest := by
  have hle := hkey.length_le
  obtain ⟨left, hleft, hskip⟩ := hvalue (b :: brackets) fuel (by omega)
  obtain ⟨last, hlast, hskip'⟩ := h brackets left hleft
  refine ⟨last, hlast, ?_⟩
  calc skipNext fuel b brackets next
    _ = skipValueIn fuel (b :: brackets) item := by
      rw [skipNext, Bracket.skipKey_eq_ok_iff.2 hkey]
      rfl
    _ = skipAfter left true (b :: brackets) more := hskip
    _ = skipAfter last true brackets rest := hskip'

/-- Whatever is written as a value is skipped, within any brackets, if there is enough
    fuel. -/
theorem Spans.skips {part : Part} (h : Spans part cs rest) : part.Skips cs rest := by
  induction h with
  | @scalar cs more rest hspace h =>
    intro brackets fuel hfuel
    obtain ⟨fuel, rfl⟩ := Nat.exists_eq_add_of_le' hfuel
    have hle := hspace.suffix.length_le
    have hlt := h.length_lt
    refine ⟨fuel + 2 * cs.length, by omega, ?_⟩
    rw [← Nat.add_assoc, skipValueIn_scalar ((hspace.skipSpace_eq_of_scalar h).symm ▸ h)]
  | @bracket b cs inner rest hopen _ ih =>
    intro brackets fuel hfuel
    obtain ⟨fuel, rfl⟩ := Nat.exists_eq_add_of_le' hfuel
    have hle := hopen.suffix.length_le
    rw [List.length_cons] at hle
    rw [← Nat.add_assoc,
      skipValueIn_bracket ((skipSpace_eq_cons_iff (isSpace_opening b)).2 hopen)]
    exact ih brackets _ (by omega)
  | @empty b cs rest hclose =>
    intro brackets fuel hfuel
    obtain ⟨fuel, rfl⟩ := Nat.exists_eq_add_of_le' hfuel
    have hle := hclose.suffix.length_le
    rw [List.length_cons] at hle
    refine ⟨fuel + (2 * cs.length + 1), by omega, ?_⟩
    rw [← skipAfter_close hclose]
    rfl
  | @first b cs item more rest hkey hvalue _ ihvalue ih =>
    intro brackets fuel hfuel
    obtain ⟨fuel, rfl⟩ := Nat.exists_eq_add_of_le' hfuel
    obtain ⟨c, inner, hopen, hclose⟩ := hvalue.exists_first hkey
    have hfirst := skipAfter_first hopen hclose (fuel + 2 * cs.length + 1) brackets
    rw [← hopen, skipNext_skipSpace] at hfirst
    rw [show fuel + (2 * cs.length + 2) = fuel + 2 * cs.length + 1 + 1 from rfl, hfirst]
    exact skips_next hkey ihvalue ih brackets (by omega)
  | @close b cs rest hclose =>
    intro brackets fuel hfuel
    obtain ⟨fuel, rfl⟩ := Nat.exists_eq_add_of_le' hfuel
    have hle := hclose.suffix.length_le
    rw [List.length_cons] at hle
    refine ⟨fuel + (2 * cs.length + 1), by omega, ?_⟩
    rw [← skipAfter_close hclose]
    rfl
  | @comma b cs next item more rest hcomma hkey _ _ ihvalue ih =>
    intro brackets fuel hfuel
    obtain ⟨fuel, rfl⟩ := Nat.exists_eq_add_of_le' hfuel
    have hle := hcomma.suffix.length_le
    rw [List.length_cons] at hle
    rw [show fuel + (2 * cs.length + 2) = fuel + 2 * cs.length + 1 + 1 from rfl,
      skipAfter_comma hcomma]
    exact skips_next hkey ihvalue ih brackets (by omega)

theorem Spans.length_le {part : Part} (h : Spans part cs rest) : rest.length ≤ cs.length := by
  induction h with
  | scalar hspace h => exact Nat.le_of_lt (h.length_lt.trans_le hspace.suffix.length_le)
  | bracket hopen _ ih => exact ih.trans (Nat.le_of_succ_le hopen.suffix.length_le)
  | empty hclose => exact Nat.le_of_succ_le hclose.suffix.length_le
  | first hkey _ _ ihvalue ih => exact (ih.trans ihvalue).trans hkey.length_le
  | close hclose => exact Nat.le_of_succ_le hclose.suffix.length_le
  | comma hcomma hkey _ _ ihvalue ih =>
    exact ((ih.trans ihvalue).trans hkey.length_le).trans
      (Nat.le_of_succ_le hcomma.suffix.length_le)

/-- Just what is written as a value can be skipped as one. -/
theorem skipValue_eq_ok_iff : skipValue cs = .ok rest ↔ Spans .value cs rest := by
  constructor
  · intro h
    obtain ⟨more, hspans, hcloses⟩ := (spans_of_skip _).1 _ _ _ h
    rw [show rest = more from hcloses]
    exact hspans
  · intro h
    obtain ⟨left, hleft, hskip⟩ := h.skips [] (2 * cs.length + 2) (Nat.le_succ _)
    rw [skipValue, hskip, skipAfter.eq_2]
    omega

end RepoAtlas.Json
