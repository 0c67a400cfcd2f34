import RepoAtlas.Python.Docstring
import Mathlib.Data.List.Basic

/-!
# The inside of a string literal

A string literal is a text between two quotes that does not close them itself, with
letters in front (`Literal`). Its inside is found from its ends: of the quotes that
enclose it, the first is taken. The quotes of three characters come first, and none of
them encloses a literal between quotes of one (`Literal.length_le_of_isQuotedBy`): its
second character would close the text where it begins. So the quote that is taken is
that of the literal (`Literal.find?_quotes`), and what is between is its body.
-/

namespace RepoAtlas.Python

/-! ### Texts with escapes -/

/-- Whether a part stands in a text at a place that no backslash escapes. -/
inductive StandsIn (part : List Char) : List Char → Prop
  | here {cs : List Char} : part <+: cs → StandsIn part cs
  | escaped {c : Char} {rest : List Char} : StandsIn part rest → StandsIn part ('\\' :: c :: rest)
  | later {c : Char} {rest : List Char} : c ≠ '\\' → StandsIn part rest → StandsIn part (c :: rest)

variable {part cs rest : List Char} {c d : Char}

theorem standsIn_nil : StandsIn part [] ↔ part <+: [] :=
  ⟨fun | .here h => h, .here⟩

theorem standsIn_backslash (hc : c = '\\') : StandsIn part [c] ↔ part <+: [c] :=
  ⟨fun | .here h => h | .later hne _ => absurd hc hne, .here⟩

theorem standsIn_escaped (hc : c = '\\') :
    StandsIn part (c :: d :: rest) ↔ part <+: c :: d :: rest ∨ StandsIn part rest := by
  subst hc
  exact ⟨fun | .here h => .inl h | .escaped h => .inr h | .later hne _ => absurd rfl hne,
    fun h => h.elim .here .escaped⟩

theorem standsIn_cons (hc : c ≠ '\\') :
    StandsIn part (c :: rest) ↔ part <+: c :: rest ∨ StandsIn part rest :=
  ⟨fun | .here h => .inl h | .escaped _ => absurd rfl hc | .later _ h => .inr h,
    fun h => h.elim .here (.later hc)⟩

instance decidableStandsIn (part : List Char) : (cs : List Char) → Decidable (StandsIn part cs)
  | [] => decidable_of_iff' _ standsIn_nil
  | [c] =>
    if hc : c = '\\' then decidable_of_iff' _ (standsIn_backslash hc)
    else
      have := decidableStandsIn part []
      decidable_of_iff' _ (standsIn_cons hc)
  | c :: d :: rest =>
    if hc : c = '\\' then
      have := decidableStandsIn part rest
      decidable_of_iff' _ (standsIn_escaped hc)
    else
      have := decidableStandsIn part (d :: rest)
      decidable_of_iff' _ (standsIn_cons hc)

/-! ### Quotes -/

/-- Whether a character is none that a quote is made of. -/
def isBare (c : Char) : Bool := !(c == '"' || c == '\'')

/-- A quote is one character, or three of a kind. -/
theorem quotes_cases {q : List Char} (h : q ∈ quotes) :
    ∃ c, isBare c = false ∧ (q = [c, c, c] ∨ q = [c]) := by
  simp only [quotes, List.mem_cons, List.not_mem_nil, or_false] at h
  rcases h with rfl | rfl | rfl | rfl
  · exact ⟨'"', rfl, .inl rfl⟩
  · exact ⟨'\'', rfl, .inl rfl⟩
  · exact ⟨'"', rfl, .inr rfl⟩
  · exact ⟨'\'', rfl, .inr rfl⟩

/-- The longer quotes are tried first. -/
theorem pairwise_quotes : quotes.Pairwise fun p q => q.length ≤ p.length := by decide

/-- A quote encloses what is written between two of it. -/
theorem isQuotedBy_iff {q : List Char} :
    isQuotedBy q cs = true ↔ ∃ inner, cs = q ++ inner ++ q := by
  rw [isQuotedBy, Bool.and_eq_true, Bool.and_eq_true, decide_eq_true_iff,
    List.isPrefixOf_iff_prefix, List.isSuffixOf_iff_suffix]
  constructor
  · rintro ⟨⟨hlength, rest, rfl⟩, hsuffix⟩
    rw [List.length_append] at hlength
    -- Without overlap, the quote at the end lies behind the one at the front.
    obtain ⟨inner, rfl⟩ : q <:+ rest :=
      List.suffix_of_suffix_length_le hsuffix (List.suffix_append q rest) (by omega)
    exact ⟨inner, (List.append_assoc ..).symm⟩
  · rintro ⟨inner, rfl⟩
    refine ⟨⟨?_, ?_⟩, List.suffix_append ..⟩
    · simp only [List.length_append]
      omega
    · rw [List.append_assoc]
      exact List.prefix_append ..

/-! ### Literals -/

/-- A string literal. All that is asked of its letters is that they are no quotes. -/
structure Literal where
  letters : List Char
  quote : List Char
  body : List Char
  bare : ∀ c ∈ letters, isBare c = true
  isQuote : quote ∈ quotes
  /-- Nothing in the body closes the literal. -/
  unclosed : ¬StandsIn quote body
  /-- Between quotes of one character there is no line break. -/
  unbroken : quote.length = 1 → ¬StandsIn ['\n'] body

namespace Literal

variable (l : Literal)

/-- The body with its quotes. -/
def quoted : List Char := l.quote ++ l.body ++ l.quote

/-- The literal as it is written. -/
def text : List Char := l.letters ++ l.quoted

theorem isQuotedBy_quote : isQuotedBy l.quote l.quoted = true :=
  isQuotedBy_iff.2 ⟨l.body, rfl⟩

theorem prefix_quoted {q : List Char} (h : isQuotedBy q l.quoted = true) : q <+: l.quoted := by
  obtain ⟨inner, hinner⟩ := isQuotedBy_iff.1 h
  rw [hinner, List.append_assoc]
  exact List.prefix_append ..

/-- The body does not begin with a quote of one character: this would close it. -/
theorem head?_body (h : l.quote = [c]) : l.body.head? ≠ some c := by
  intro hhead
  obtain ⟨rest, hbody⟩ := List.head?_eq_some_iff.1 hhead
  refine l.unclosed (.here ?_)
  rw [h, hbody]
  exact List.prefix_append [c] rest

/-- No quote encloses a literal that is longer than its own. -/
theorem length_le_of_isQuotedBy {q : List Char} (hq : q ∈ quotes)
    (h : isQuotedBy q l.quoted = true) : q.length ≤ l.quote.length := by
  obtain ⟨c, -, hc | hc⟩ := quotes_cases l.isQuote
  · obtain ⟨d, -, rfl | rfl⟩ := quotes_cases hq <;> simp [hc]
  · obtain ⟨d, -, rfl | rfl⟩ := quotes_cases hq
    · obtain ⟨inner, hinner⟩ := isQuotedBy_iff.1 h
      rw [quoted, hc] at hinner
      rcases hbody : l.body with _ | ⟨x, rest⟩
      · have hlength := congrArg List.length hinner
        simp [hbody] at hlength
      · rw [hbody] at hinner
        -- The second character of the longer quote is the first one of the body.
        simp only [List.cons_append, List.nil_append, List.cons.injEq] at hinner
        obtain ⟨rfl, rfl, -⟩ := hinner
        exact absurd (congrArg List.head? hbody) (l.head?_body hc)
    · rw [hc]
      exact Nat.le_refl _

/-- The first quote that encloses a literal is its own. -/
theorem find?_quotes : (quotes.find? (isQuotedBy · l.quoted)) = some l.quote := by
  have hsome : (quotes.find? (isQuotedBy · l.quoted)).isSome :=
    List.find?_isSome.2 ⟨l.quote, l.isQuote, l.isQuotedBy_quote⟩
  obtain ⟨q, hfound⟩ := Option.isSome_iff_exists.1 hsome
  obtain ⟨henclosed, before, after, hquotes, hbefore⟩ := List.find?_eq_some_iff_append.1 hfound
  have hle : q.length ≤ l.quote.length :=
    l.length_le_of_isQuotedBy (List.mem_of_find?_eq_some hfound) henclosed
  -- The quote of the literal is not among those tried before, which are longer.
  have hge : l.quote.length ≤ q.length := by
    have hpairwise := pairwise_quotes
    have hmem := l.isQuote
    rw [hquotes, List.pairwise_append, List.pairwise_cons] at hpairwise
    rw [hquotes, List.mem_append, List.mem_cons] at hmem
    rcases hmem with hmem | heq | hmem
    · have hnot := hbefore l.quote hmem
      rw [l.isQuotedBy_quote] at hnot
      cases hnot
    · exact Nat.le_of_eq (congrArg List.length heq)
    · exact hpairwise.2.1.1 l.quote hmem
  have hprefix : q <+: l.quote :=
    List.prefix_of_prefix_length_le (l.prefix_quoted henclosed)
      (l.prefix_quoted l.isQuotedBy_quote) hle
  rw [hfound, hprefix.eq_of_length_le hge]

/-- The letters of a literal end where its quote begins. -/
theorem exists_cons : ∃ c rest, isBare c = false ∧ l.quoted = c :: rest := by
  obtain ⟨c, hc, hquote | hquote⟩ := quotes_cases l.isQuote
  · exact ⟨c, _, hc, by rw [quoted, hquote]; rfl⟩
  · exact ⟨c, _, hc, by rw [quoted, hquote]; rfl⟩

theorem takeWhile_text : l.text.takeWhile isBare = l.letters := by
  obtain ⟨c, rest, hc, hcons⟩ := l.exists_cons
  rw [text, hcons, List.takeWhile_append_of_pos l.bare,
    List.takeWhile_cons_of_neg (Bool.not_eq_true _ ▸ hc), List.append_nil]

theorem dropWhile_text : l.text.dropWhile isBare = l.quoted := by
  obtain ⟨c, rest, hc, hcons⟩ := l.exists_cons
  rw [text, hcons, List.dropWhile_append_of_pos l.bare,
    List.dropWhile_cons_of_neg (Bool.not_eq_true _ ▸ hc)]

/-- What is between the quotes is the body. -/
theorem take_drop_quoted :
    (l.quoted.drop l.quote.length).take (l.quoted.length - 2 * l.quote.length) = l.body := by
  rw [quoted, List.append_assoc, List.drop_left]
  refine List.take_left' ?_
  simp only [List.length_append]
  omega

end Literal

theorem literalBody?_eq (cs : List Char) :
    literalBody? cs =
      if (cs.dropWhile isBare).isEmpty || (cs.takeWhile isBare).any ['f', 'F', 'b', 'B'].contains
      then none
      else (quotes.find? (isQuotedBy · (cs.dropWhile isBare))).map fun q =>
        ((cs.dropWhile isBare).drop q.length).take ((cs.dropWhile isBare).length - 2 * q.length) :=
  rfl

/-- The inside of a literal is its body, as it is written. There is none if a letter makes
    the literal a formatted string or one of bytes. -/
theorem literalBody?_text (l : Literal) :
    literalBody? l.text =
      if l.letters.any ['f', 'F', 'b', 'B'].contains then none else some l.body := by
  have hempty : l.quoted.isEmpty = false := by
    obtain ⟨c, rest, -, hcons⟩ := l.exists_cons
    rw [hcons, List.isEmpty_cons]
  rw [literalBody?_eq, l.takeWhile_text, l.dropWhile_text, l.find?_quotes, Option.map_some,
    l.take_drop_quoted, hempty, Bool.false_or]

/-- Literals of nothing, of the other quote, of escaped quotes at the end, and of bytes. -/
theorem literalBody?_text_delimited :
    literalBody? "''".toList = some [] ∧
      literalBody? "\"\"\"\"\"\"".toList = some [] ∧
      literalBody? "u\"'a' or 'b'\"".toList = some "'a' or 'b'".toList ∧
      literalBody? "r'it\\'s \\''".toList = some "it\\'s \\'".toList ∧
      literalBody? "'''\"a\"\n''\\''''".toList = some "\"a\"\n''\\'".toList ∧
      literalBody? "Rb'a'".toList = none := by
  refine ⟨?_, ?_, ?_, ?_, ?_, ?_⟩
  · exact literalBody?_text
      ⟨[], ['\''], [], by simp [isBare], by decide, by decide, by decide⟩
  · exact literalBody?_text
      ⟨[], ['"', '"', '"'], [], by simp [isBare], by decide, by decide, by decide⟩
  · exact literalBody?_text
      ⟨['u'], ['"'], "'a' or 'b'".toList, by simp [isBare], by decide, by decide, by decide⟩
  · exact literalBody?_text
      ⟨['r'], ['\''], "it\\'s \\'".toList, by simp [isBare], by decide, by decide, by decide⟩
  · exact literalBody?_text
      ⟨[], ['\'', '\'', '\''], "\"a\"\n''\\'".toList,
        by simp [isBare], by decide, by decide, by decide⟩
  · exact literalBody?_text
      ⟨['R', 'b'], ['\''], ['a'], by simp [isBare], by decide, by decide, by decide⟩

end RepoAtlas.Python
