import RepoAtlas.Ignore.Builtin
import RepoAtlas.Proofs.Bytes.Utf8
import RepoAtlas.Proofs.Text.Blank

/-!
# Rules with a literal text

The rule of a text in which every mark stands behind a backslash speaks of that
very text (`ofLine?_escapeChars`, `matches_chars`), and behind a double star and
a slash it speaks of the text in every directory (`matches_ancestors`). Braces
and commas are no marks here: a comma is literal outside of choices, but a brace
is not, so the texts have none.
-/

namespace RepoAtlas.Ignore

open Utf8 (encode encode_eq encode_singleton)

/-! ### Matching -/

namespace Glob

variable {next : Bytes → Bool}

theorem behind_append (word rest : Bytes) : behind next word (word ++ rest) = next rest := by
  induction word with
  | nil => rfl
  | cons w word ih => rw [List.cons_append, behind, decide_eq_true rfl, Bool.true_and, ih]

/-- What stands behind some slash is offered. -/
theorem behindSlash_append (front rest : Bytes) (h : next rest = true) :
    behindSlash next (front ++ slash :: rest) = true := by
  induction front with
  | nil => simp [behindSlash, h]
  | cons b front ih => simp [behindSlash, ih]

/-- Characters match themselves. -/
theorem allMatch_chars (cs : List Char) (rest : Bytes) :
    allMatch (cs.map .char) next (cs.flatMap String.utf8EncodeChar ++ rest) = next rest := by
  induction cs with
  | nil => rfl
  | cons c cs ih =>
    rw [List.map_cons, List.flatMap_cons, List.append_assoc, allMatch, Item.matches,
      encode_singleton, behind_append, ih]

theorem allMatch_encode (cs : List Char) :
    allMatch (cs.map .char) (·.isEmpty) (encode (String.ofList cs)) = true := by
  rw [encode_eq, String.toList_ofList, ← List.append_nil (cs.flatMap _), allMatch_chars]
  rfl

/-- A glob of characters matches the text of these characters. -/
theorem matches_chars (cs : List Char) :
    Glob.matches (cs.map .char) (encode (String.ofList cs)) = true := by
  unfold Glob.matches
  split
  · rfl
  · exact allMatch_encode cs

/-- Behind a double star and a slash, characters match in every directory. -/
theorem matches_ancestors (cs : List Char) (front : Bytes) :
    Glob.matches (.ancestors :: cs.map .char) (front ++ slash :: encode (String.ofList cs)) =
        true ∧
      Glob.matches (.ancestors :: cs.map .char) (encode (String.ofList cs)) = true := by
  have hhere := allMatch_encode cs
  unfold Glob.matches
  split
  · exact ⟨rfl, rfl⟩
  · rw [allMatch, Item.matches, allMatch, Item.matches, behindSlash_append _ _ hhere, hhere,
      Bool.or_true]
    exact ⟨rfl, rfl⟩

end Glob

/-! ### Reading -/

namespace GlobReading

/-- A character that is no mark of a glob stands for itself. -/
theorem run_plain {r : GlobReading} {last : Option Char} {c : Char} {rest : List Char}
    (h : c ∉ ['?', '*', '{', '}', ',', '\\', '[']) :
    run r last (c :: rest) = run (r.push (.char c)) (some c) rest := by
  simp only [List.mem_cons, List.not_mem_nil, or_false, not_or] at h
  obtain ⟨hone, hstar, hopen, hclose, hcomma, hbackslash, hbracket⟩ := h
  rw [run] <;> simp_all

theorem run_escaped {r : GlobReading} {last : Option Char} (c : Char) (rest : List Char) :
    run r last ('\\' :: c :: rest) = run (r.push (.char c)) (some c) rest := by
  rw [run]

/-- Outside of choices, a comma stands for itself. -/
theorem run_comma {r : GlobReading} {last : Option Char} (h : r.choices = []) (rest : List Char) :
    run r last (',' :: rest) = run (r.push (.char ',')) (some ',') rest := by
  rw [run, comma, h]

/-- An escaped text without braces is read as its characters. -/
theorem run_escapeChars {cs : List Char} (hcs : '{' ∉ cs ∧ '}' ∉ cs) {r : GlobReading}
    (hr : r.choices = []) (last : Option Char) :
    run r last (escapeChars cs) = some (r.items.reverse ++ cs.map .char) := by
  induction cs generalizing r last with
  | nil =>
    rw [escapeChars, run, inChoice, hr]
    simp
  | cons c cs ih =>
    rw [List.mem_cons, List.mem_cons, not_or, not_or] at hcs
    have hnext : run (r.push (.char c)) (some c) (escapeChars cs) =
        some (r.items.reverse ++ (c :: cs).map .char) := by
      have hrest := ih ⟨hcs.1.2, hcs.2.2⟩ (r := r.push (.char c)) hr (some c)
      rw [hrest, push]
      simp
    -- A mark is written behind a backslash. Of what is not, a comma alone is ever
    -- read as anything but itself, and that inside of choices.
    rw [escapeChars]
    split
    · rw [run_escaped, hnext]
    · rename_i hmark
      by_cases hcomma : c = ','
      · rw [hcomma] at hnext ⊢
        rw [run_comma hr, hnext]
      · rw [run_plain, hnext]
        simp only [marks, List.mem_cons, List.not_mem_nil, or_false, not_or] at hmark
        simp [hcomma, hmark, Ne.symm hcs.1.1, Ne.symm hcs.2.1]

end GlobReading

/-- The glob of an escaped text without braces. -/
theorem ofText?_escapeChars {cs : List Char} (hcs : '{' ∉ cs ∧ '}' ∉ cs) :
    Glob.ofText? (escapeChars cs) = some (cs.map .char) :=
  GlobReading.run_escapeChars hcs rfl none

/-- The glob of an escaped text behind a double star and a slash. -/
theorem ofText?_ancestors {cs : List Char} (hcs : '{' ∉ cs ∧ '}' ∉ cs) :
    Glob.ofText? ('*' :: '*' :: '/' :: escapeChars cs) = some (.ancestors :: cs.map .char) := by
  rw [Glob.ofText?, GlobReading.run]
  exact GlobReading.run_escapeChars hcs rfl _

/-! ### Lines -/

/-- The rule of a line that is no comment and not blank. -/
theorem ofLine?_eq {line : List Char} (hcomment : line.head? ≠ some '#')
    (hblank : Rule.withoutBlanks line ≠ []) {l : Rule.Line}
    (hl : Rule.takeEnd (Rule.takeFront (Rule.withoutBlanks line)) = l) :
    Rule.ofLine? line =
      (Glob.ofText? (Rule.globText l)).map fun glob => ⟨glob, l.verdict, l.directoriesOnly⟩ := by
  have hnonempty : (Rule.withoutBlanks line).isEmpty = false := by
    rw [List.isEmpty_eq_false_iff]
    exact hblank
  rw [Rule.ofLine?, if_neg hcomment]
  dsimp only
  rw [hnonempty, if_neg Bool.false_ne_true, hl]

theorem escapeChars_append (cs ds : List Char) :
    escapeChars (cs ++ ds) = escapeChars cs ++ escapeChars ds := by
  induction cs with
  | nil => rfl
  | cons c cs ih =>
    rw [List.cons_append, escapeChars, escapeChars, ih]
    split <;> rfl

/-- An escaped text ends with the character that the text ends with. -/
theorem getLast?_escapeChars (cs : List Char) : (escapeChars cs).getLast? = cs.getLast? := by
  rcases List.eq_nil_or_concat cs with rfl | ⟨front, c, rfl⟩
  · rfl
  · rw [List.concat_eq_append, escapeChars_append, escapeChars, List.getLast?_concat]
    split <;> simp [escapeChars]

/-- In an escaped text, no star stands behind a star. -/
theorem not_isSuffixOf_escapeChars (cs : List Char) :
    ['/', '*', '*'].isSuffixOf (escapeChars cs) = false := by
  rw [← Bool.not_eq_true, List.isSuffixOf_iff_suffix]
  rcases List.eq_nil_or_concat cs with rfl | ⟨front, c, rfl⟩
  · simp [escapeChars]
  · rw [List.concat_eq_append, escapeChars_append, escapeChars]
    rintro ⟨before, hsuffix⟩
    have hreverse := congrArg List.reverse hsuffix
    split at hreverse
    · simp [escapeChars] at hreverse
    · rename_i hmark
      simp only [escapeChars, List.reverse_append, List.reverse_cons, List.reverse_nil,
        List.nil_append, List.cons_append, List.cons.injEq] at hreverse
      exact hmark (hreverse.1 ▸ by decide)

/-- Whether a text is read as it is written in a rule: it has no braces, and if it
    ends with a blank, that is a space behind a backslash. -/
structure IsVerbatim (cs : List Char) : Prop where
  no_brace : '{' ∉ cs ∧ '}' ∉ cs
  no_blank : ∀ c ∈ cs.getLast?, Text.isBlank c = true → ['\\', ' '] <:+ cs

instance (cs : List Char) : Decidable (IsVerbatim cs) :=
  have : Decidable (∀ c ∈ cs.getLast?, Text.isBlank c = true → ['\\', ' '] <:+ cs) :=
    Option.decidableForallMem _
  decidable_of_iff (('{' ∉ cs ∧ '}' ∉ cs) ∧
      ∀ c ∈ cs.getLast?, Text.isBlank c = true → ['\\', ' '] <:+ cs)
    ⟨fun ⟨hbrace, hblank⟩ => ⟨hbrace, hblank⟩, fun ⟨hbrace, hblank⟩ => ⟨hbrace, hblank⟩⟩

theorem suffix_pair_iff {c d : Char} {cs : List Char} :
    [c, d] <:+ cs ↔ cs.getLast? = some d ∧ cs.dropLast.getLast? = some c := by
  rcases List.eq_nil_or_concat cs with rfl | ⟨front, e, rfl⟩
  · simp
  · have hpair : [c, d] <:+ front ++ [e] ↔ [c] <:+ front ∧ [d] = [e] :=
      @List.suffix_append_inj_of_length_eq _ [c] front [d] [e] rfl
    rw [List.concat_eq_append, hpair, List.singleton_suffix_iff_getLast?_eq_some,
      List.getLast?_concat, List.dropLast_concat, List.singleton_inj, Option.some_inj, and_comm,
      eq_comm]

/-- A backslash before a space at the end of an escaped text is one of the text. -/
theorem suffix_escapeChars_iff (cs : List Char) :
    ['\\', ' '] <:+ '/' :: escapeChars cs ↔ ['\\', ' '] <:+ cs := by
  rcases List.eq_nil_or_concat cs with rfl | ⟨front, c, rfl⟩
  · decide
  · rw [List.concat_eq_append, suffix_pair_iff, suffix_pair_iff, List.getLast?_cons,
      getLast?_escapeChars, List.getLast?_concat, List.dropLast_concat]
    refine and_congr_right fun hc => ?_
    obtain rfl := Option.some_inj.1 hc
    have hfront : ('/' :: escapeChars (front ++ [' '])).dropLast = '/' :: escapeChars front := by
      rw [escapeChars_append, ← List.cons_append]
      exact List.dropLast_concat
    rw [hfront, List.getLast?_cons, getLast?_escapeChars]
    cases front.getLast? <;> simp

/-- The line of a text is taken as it is if the text does not end with a blank, unless
    that is a space behind a backslash. -/
theorem withoutBlanks_escapeChars_iff (cs : List Char) :
    Rule.withoutBlanks ('/' :: escapeChars cs) = '/' :: escapeChars cs ↔
      ∀ c ∈ cs.getLast?, Text.isBlank c = true → ['\\', ' '] <:+ cs := by
  have hlast : Text.trimRight ('/' :: escapeChars cs) = '/' :: escapeChars cs ↔
      ∀ c ∈ cs.getLast?, Text.isBlank c = false := by
    rw [Text.trimRight_eq_self_iff, List.getLast?_cons, getLast?_escapeChars]
    cases cs.getLast? with
    | none => exact iff_of_true (by rintro _ ⟨⟩; rfl) (by rintro _ ⟨⟩)
    | some c => rfl
  rw [Rule.withoutBlanks]
  split
  next hsuffix =>
    rw [List.isSuffixOf_iff_suffix, suffix_escapeChars_iff] at hsuffix
    exact iff_of_true rfl fun _ _ _ => hsuffix
  next hsuffix =>
    rw [List.isSuffixOf_iff_suffix, suffix_escapeChars_iff] at hsuffix
    rw [hlast]
    simp [hsuffix]

/-- The rule of an escaped text behind a slash speaks of that text, if it is read as
    it is written and does not end with a slash. -/
theorem ofLine?_escapeChars {cs : List Char} (hcs : IsVerbatim cs)
    (hslash : cs.getLast? ≠ some '/') :
    Rule.ofLine? ('/' :: escapeChars cs) = some ⟨cs.map .char, .ignored, false⟩ := by
  have hline := (withoutBlanks_escapeChars_iff cs).2 hcs.no_blank
  have htaken : Rule.takeEnd (Rule.takeFront ('/' :: escapeChars cs)) =
      { anchored := true, glob := escapeChars cs } := by
    rw [Rule.takeFront, Rule.takeEnd, if_neg]
    rwa [getLast?_escapeChars]
  have hglob : Rule.globText { anchored := true, glob := escapeChars cs } = escapeChars cs := by
    rw [Rule.globText]
    simp [not_isSuffixOf_escapeChars]
  rw [ofLine?_eq (by simp) (by rw [hline]; exact List.cons_ne_nil _ _)
    (hline ▸ htaken), hglob, ofText?_escapeChars hcs.no_brace]
  rfl

/-- The rules that speak of a directory of the name `.git` everywhere. -/
theorem ofLine?_git :
    Rule.ofLine? ".git/".toList =
      some ⟨.ancestors :: ".git".toList.map .char, .ignored, true⟩ := by
  have hglob : Glob.ofText? "**/.git".toList = some (.ancestors :: ".git".toList.map .char) :=
    @ofText?_ancestors ".git".toList (by decide)
  rw [ofLine?_eq (l := { directoriesOnly := true, glob := ".git".toList }) (by decide) (by decide)
    (by decide)]
  change (Glob.ofText? "**/.git".toList).map _ = _
  rw [hglob]
  rfl

/-! ### Verdicts -/

theorem verdict_takeEnd (l : Rule.Line) : (Rule.takeEnd l).verdict = l.verdict := by
  rw [Rule.takeEnd]
  split <;> rfl

theorem verdict_takeFront {cs : List Char} (h : cs.head? ≠ some '!') :
    (Rule.takeFront cs).verdict = .ignored := by
  unfold Rule.takeFront
  split <;> first | rfl | exact absurd rfl h

/-- Without its blanks at the end, a line begins as before, or is empty. -/
theorem head?_withoutBlanks (line : List Char) :
    (Rule.withoutBlanks line).head? = line.head? ∨ (Rule.withoutBlanks line).head? = none := by
  rw [Rule.withoutBlanks]
  split
  · exact .inl rfl
  · cases line with
    | nil => exact .inl rfl
    | cons c line =>
      rw [Text.trimRight]
      split
      · split
        · exact .inr rfl
        · exact .inl rfl
      · exact .inl rfl

/-- A line that does not begin with an exclamation mark has a rule that ignores,
    if it has one. -/
theorem verdict_of_ofLine? {line : List Char} (hmark : line.head? ≠ some '!') {r : Rule}
    (hr : Rule.ofLine? line = some r) : r.verdict = .ignored := by
  rw [Rule.ofLine?] at hr
  dsimp only at hr
  split at hr
  · cases hr
  · split at hr
    · cases hr
    · obtain ⟨glob, _, rfl⟩ := Option.map_eq_some_iff.1 hr
      rw [verdict_takeEnd, verdict_takeFront]
      rcases head?_withoutBlanks line with hhead | hhead
      · rwa [hhead]
      · rw [hhead]
        exact (Option.some_ne_none _).symm

end RepoAtlas.Ignore
