import RepoAtlas.Proofs.Ignore.Literal

/-!
# What the rule of an escaped text speaks of

A text that is read as it is written (`IsVerbatim`) has a rule that speaks of that
very text. In any other escaped text, a brace opens or closes a choice, or blanks are
lost at the end; but nothing else is read as a mark. So the glob of an escaped text
is made of characters that are no braces, and of choices between such globs
(`isOf_of_run`), and what it matches has no braces (`noBrace_of_covers`). Of a text
without braces, the rule speaks of the front that is left of its line
(`exists_of_ofLine?`).

* `covers_iff_of_isVerbatim`: the rule of a text that is read as it is written
  speaks of this text alone;
* `not_covers_of_not_isVerbatim`: that of any other text does not speak of it.
-/

namespace RepoAtlas.Ignore

open Utf8 (encode encode_eq encode_injective encode_singleton)

/-! ### Globs of characters -/

/-- Whether an item is made of characters with a property, and of choices between
    such items. -/
inductive Item.IsOf (p : Char → Prop) : Item → Prop
  | char {c : Char} : p c → IsOf p (.char c)
  | choice {alternatives : List Glob} :
    (∀ g ∈ alternatives, ∀ item ∈ g, IsOf p item) → IsOf p (.choice alternatives)

/-- Whether a path begins with characters with a property, and what is behind them
    is accepted. -/
def Glob.Begins (p : Char → Prop) (next : Bytes → Bool) (path : Bytes) : Prop :=
  ∃ (cs : List Char) (rest : Bytes), path = cs.flatMap String.utf8EncodeChar ++ rest ∧
    (∀ c ∈ cs, p c) ∧ next rest = true

namespace Glob

variable {p : Char → Prop} {next : Bytes → Bool} {word path : Bytes}

/-- The rest that is offered stands behind the bytes. -/
theorem exists_of_behind (h : behind next word path = true) :
    ∃ rest, path = word ++ rest ∧ next rest = true := by
  induction word generalizing path with
  | nil => exact ⟨path, rfl, h⟩
  | cons w word ih =>
    cases path with
    | nil => cases h
    | cons b path =>
      rw [behind, Bool.and_eq_true, decide_eq_true_iff] at h
      obtain ⟨rest, rfl, hrest⟩ := ih h.2
      exact ⟨rest, by rw [h.1, List.cons_append], hrest⟩

theorem exists_of_allMatch_chars {cs : List Char}
    (h : allMatch (cs.map .char) next path = true) :
    ∃ rest, path = cs.flatMap String.utf8EncodeChar ++ rest ∧ next rest = true := by
  induction cs generalizing path with
  | nil => exact ⟨path, rfl, h⟩
  | cons c cs ih =>
    rw [List.map_cons, allMatch, Item.matches, encode_singleton] at h
    obtain ⟨middle, rfl, hmiddle⟩ := exists_of_behind h
    obtain ⟨rest, rfl, hrest⟩ := ih hmiddle
    exact ⟨rest, by rw [List.flatMap_cons, List.append_assoc], hrest⟩

theorem Begins.of_next (h : next path = true) : Begins p next path :=
  ⟨[], path, rfl, fun _ hc => absurd hc List.not_mem_nil, h⟩

/-- What begins with characters, and goes on with such, begins with all of them. -/
theorem Begins.trans {middle : Bytes → Bool} (h : Begins p middle path)
    (hmiddle : ∀ rest, middle rest = true → Begins p next rest) : Begins p next path := by
  obtain ⟨cs, rest, rfl, hcs, hrest⟩ := h
  obtain ⟨ds, rest, rfl, hds, hnext⟩ := hmiddle rest hrest
  refine ⟨cs ++ ds, rest, ?_, fun c hc => (List.mem_append.1 hc).elim (hcs c) (hds c), hnext⟩
  rw [List.flatMap_append, List.append_assoc]

end Glob

open Glob (Begins)

mutual

/-- What an item of characters with a property matches begins with such characters. -/
theorem Item.begins_of_matches {p : Char → Prop} {next : Bytes → Bool} {path : Bytes} :
    ∀ {item : Item}, item.IsOf p → item.matches next path = true → Begins p next path
  | .char c, .char hc, h => by
    rw [Item.matches, encode_singleton] at h
    obtain ⟨rest, rfl, hrest⟩ := Glob.exists_of_behind h
    exact ⟨[c], rest, by rw [List.flatMap_singleton], by simpa using hc, hrest⟩
  | .choice _, .choice hall, h => by
    rw [Item.matches, Bool.or_eq_true, Bool.and_eq_true] at h
    rcases h with ⟨_, hnext⟩ | hsome
    · exact .of_next hnext
    · exact Glob.begins_of_someMatches hall hsome

/-- What such items match begins with such characters. -/
theorem Glob.begins_of_allMatch {p : Char → Prop} {next : Bytes → Bool} {path : Bytes} :
    ∀ {g : List Item}, (∀ item ∈ g, item.IsOf p) → Glob.allMatch g next path = true →
      Begins p next path
  | [], _, h => .of_next h
  | _ :: _, hg, h => by
    rw [List.forall_mem_cons] at hg
    exact (Item.begins_of_matches hg.1 h).trans fun _ => Glob.begins_of_allMatch hg.2

/-- What one of several such globs matches begins with such characters. -/
theorem Glob.begins_of_someMatches {p : Char → Prop} {next : Bytes → Bool} {path : Bytes} :
    ∀ {alternatives : List (List Item)}, (∀ g ∈ alternatives, ∀ item ∈ g, item.IsOf p) →
      Glob.someMatches alternatives next path = true → Begins p next path
  | _ :: _, hall, h => by
    rw [List.forall_mem_cons] at hall
    rw [Glob.someMatches, Bool.or_eq_true, Bool.and_eq_true] at h
    rcases h with ⟨_, hfirst⟩ | hrest
    · exact Glob.begins_of_allMatch hall.1 hfirst
    · exact Glob.begins_of_someMatches hall.2 hrest

end

/-- A glob of characters with a property matches texts of such characters alone. -/
theorem isOf_of_matches {p : Char → Prop} {g : Glob} {path : Bytes}
    (hg : ∀ item ∈ g, item.IsOf p) (h : g.matches path = true) :
    ∃ cs, path = encode (String.ofList cs) ∧ ∀ c ∈ cs, p c := by
  unfold Glob.matches at h
  split at h
  · cases hg _ (List.mem_cons_self ..)
  · obtain ⟨cs, rest, rfl, hcs, hrest⟩ := Glob.begins_of_allMatch hg h
    refine ⟨cs, ?_, hcs⟩
    rw [List.isEmpty_iff.1 hrest, List.append_nil, encode_eq, String.toList_ofList]

/-- A glob of characters matches the text of these characters alone. -/
theorem matches_chars_iff {cs : List Char} {path : Bytes} :
    Glob.matches (cs.map .char) path = true ↔ path = encode (String.ofList cs) := by
  refine ⟨fun h => ?_, fun h => h ▸ Glob.matches_chars cs⟩
  unfold Glob.matches at h
  split at h
  next heq => cases cs <;> cases heq
  next =>
    obtain ⟨rest, rfl, hrest⟩ := Glob.exists_of_allMatch_chars h
    rw [List.isEmpty_iff.1 hrest, List.append_nil, encode_eq, String.toList_ofList]

/-! ### Reading -/

/-- Whether a character is no brace. -/
def NoBrace (c : Char) : Prop := c ≠ '{' ∧ c ≠ '}'

namespace GlobReading

/-- Whether all that was read is made of characters with a property. -/
structure IsOf (p : Char → Prop) (r : GlobReading) : Prop where
  items : ∀ item ∈ r.items, item.IsOf p
  choices : ∀ c ∈ r.choices, (∀ item ∈ c.before, item.IsOf p) ∧
    ∀ g ∈ c.alternatives, ∀ item ∈ g, item.IsOf p

/-- What was read with one character of a text more. -/
def takeEscaped? (r : GlobReading) (c : Char) : Option GlobReading :=
  if c = '{' then some r.openChoice
  else if c = '}' then r.closeChoice?
  else if c = ',' then some r.comma
  else some (r.push (.char c))

/-- An escaped text is read character by character. -/
theorem run_escapeChars_cons (r : GlobReading) (last : Option Char) (c : Char)
    (cs rest : List Char) :
    run r last (escapeChars (c :: cs) ++ rest) =
      (r.takeEscaped? c).bind fun r => run r (some c) (escapeChars cs ++ rest) := by
  rw [escapeChars, takeEscaped?]
  split
  next hmark =>
    rw [List.cons_append, List.cons_append, run_escaped]
    have hplain : c ≠ '{' ∧ c ≠ '}' ∧ c ≠ ',' := by
      refine ⟨?_, ?_, ?_⟩ <;> rintro rfl <;> revert hmark <;> decide
    rw [if_neg hplain.1, if_neg hplain.2.1, if_neg hplain.2.2, Option.bind_some]
  next hmark =>
    rw [List.cons_append]
    split_ifs with hopen hclose hcomma
    · rw [hopen, run, Option.bind_some]
    · rw [hclose, run]
      cases r.closeChoice? <;> rfl
    · rw [hcomma, run, Option.bind_some]
    · rw [run_plain, Option.bind_some]
      simp only [marks, List.mem_cons, List.not_mem_nil, or_false, not_or] at hmark
      simp [hopen, hclose, hcomma, hmark]

variable {p : Char → Prop} {r s : GlobReading}

theorem IsOf.push (h : r.IsOf p) {item : Item} (hitem : item.IsOf p) : (r.push item).IsOf p :=
  ⟨List.forall_mem_cons.2 ⟨hitem, h.items⟩, h.choices⟩

theorem IsOf.openChoice (h : r.IsOf p) : r.openChoice.IsOf p := by
  refine ⟨fun _ hitem => absurd hitem List.not_mem_nil, List.forall_mem_cons.2 ⟨?_, h.choices⟩⟩
  exact ⟨h.items, fun _ hg => absurd hg List.not_mem_nil⟩

/-- The alternatives of the innermost choice, with the one that ends here. -/
theorem IsOf.alternatives (h : r.IsOf p) {o : OpenChoice} (ho : o ∈ r.choices) :
    ∀ g ∈ o.alternatives ++ [r.items.reverse], ∀ item ∈ g, item.IsOf p := by
  intro g hg item hitem
  rcases List.mem_append.1 hg with hg | hg
  · exact (h.choices o ho).2 g hg item hitem
  · rw [List.mem_singleton.1 hg, List.mem_reverse] at hitem
    exact h.items item hitem

theorem IsOf.comma (h : r.IsOf p) (hp : p ',') : r.comma.IsOf p := by
  rw [GlobReading.comma]
  split
  next => exact h.push (.char hp)
  next o outer hchoices =>
    have ho : o ∈ r.choices := hchoices ▸ List.mem_cons_self ..
    refine ⟨fun _ hitem => absurd hitem List.not_mem_nil, List.forall_mem_cons.2 ⟨?_, ?_⟩⟩
    · exact ⟨(h.choices o ho).1, h.alternatives ho⟩
    · exact fun c hc => h.choices c (hchoices ▸ List.mem_cons_of_mem _ hc)

theorem IsOf.closeChoice? (h : r.IsOf p) (hs : r.closeChoice? = some s) : s.IsOf p := by
  rw [GlobReading.closeChoice?] at hs
  split at hs
  next => cases hs
  next o outer hchoices =>
    have ho : o ∈ r.choices := hchoices ▸ List.mem_cons_self ..
    cases hs
    refine ⟨List.forall_mem_cons.2 ⟨.choice (h.alternatives ho), (h.choices o ho).1⟩, ?_⟩
    exact fun c hc => h.choices c (hchoices ▸ List.mem_cons_of_mem _ hc)

/-- With one character more, it is made of characters that are no braces as before. -/
theorem IsOf.takeEscaped? (h : r.IsOf NoBrace) {c : Char} (hs : r.takeEscaped? c = some s) :
    s.IsOf NoBrace := by
  rw [GlobReading.takeEscaped?] at hs
  split_ifs at hs with hopen hclose hcomma
  · exact Option.some_inj.1 hs ▸ h.openChoice
  · exact h.closeChoice? hs
  · exact Option.some_inj.1 hs ▸ h.comma ⟨by decide, by decide⟩
  · exact Option.some_inj.1 hs ▸ h.push (.char ⟨hopen, hclose⟩)

/-- The glob of an escaped text is made of characters that are no braces. -/
theorem isOf_of_run {cs : List Char} {last : Option Char} {g : Glob} (h : r.IsOf NoBrace)
    (hg : run r last (escapeChars cs) = some g) : ∀ item ∈ g, item.IsOf NoBrace := by
  induction cs generalizing r last with
  | nil =>
    rw [escapeChars, run] at hg
    split at hg
    · cases hg
    · cases hg
      exact fun item hitem => h.items item (List.mem_reverse.1 hitem)
  | cons c cs ih =>
    rw [← List.append_nil (escapeChars _), run_escapeChars_cons] at hg
    obtain ⟨s, hs, hrun⟩ := Option.bind_eq_some_iff.1 hg
    rw [List.append_nil] at hrun
    exact ih (h.takeEscaped? hs) hrun

/-- An escaped text with a backslash behind it is no glob. -/
theorem run_dangling (r : GlobReading) (last : Option Char) (cs : List Char) :
    run r last (escapeChars cs ++ ['\\']) = none := by
  induction cs generalizing r last with
  | nil => rw [escapeChars, List.nil_append, run]
  | cons c cs ih =>
    rw [run_escapeChars_cons, Option.bind_eq_none_iff]
    exact fun s _ => ih s (some c)

end GlobReading

/-! ### Lines -/

/-- The front of an escaped text is an escaped text, and may have the backslash of
    the next mark behind it. -/
theorem exists_of_prefix_escapeChars {line cs : List Char} (h : line <+: escapeChars cs) :
    ∃ front, front <+: cs ∧ (line = escapeChars front ∨ line = escapeChars front ++ ['\\']) := by
  induction cs generalizing line with
  | nil => exact ⟨[], List.nil_prefix, .inl (List.prefix_nil.1 h)⟩
  | cons c cs ih =>
    have hnil : ([] : List Char) <+: c :: cs := List.nil_prefix
    rw [escapeChars] at h
    split at h
    next hmark =>
      rcases List.prefix_cons_iff.1 h with rfl | ⟨line, rfl, hmarked⟩
      · exact ⟨[], hnil, .inl rfl⟩
      rcases List.prefix_cons_iff.1 hmarked with rfl | ⟨line, rfl, hrest⟩
      · exact ⟨[], hnil, .inr rfl⟩
      obtain ⟨front, hfront, hline⟩ := ih hrest
      refine ⟨c :: front, List.cons_prefix_cons.2 ⟨rfl, hfront⟩, ?_⟩
      rw [escapeChars, if_pos hmark]
      rcases hline with rfl | rfl
      · exact .inl rfl
      · exact .inr rfl
    next hmark =>
      rcases List.prefix_cons_iff.1 h with rfl | ⟨line, rfl, hrest⟩
      · exact ⟨[], hnil, .inl rfl⟩
      obtain ⟨front, hfront, hline⟩ := ih hrest
      refine ⟨c :: front, List.cons_prefix_cons.2 ⟨rfl, hfront⟩, ?_⟩
      rw [escapeChars, if_neg hmark]
      rcases hline with rfl | rfl
      · exact .inl rfl
      · exact .inr rfl

/-- Of the line of a text, at most the end is taken off. -/
theorem exists_withoutBlanks (cs : List Char) :
    ∃ line, line <+: cs ∧ Rule.withoutBlanks ('/' :: cs) = '/' :: line := by
  rw [Rule.withoutBlanks]
  split
  · exact ⟨cs, List.prefix_refl _, rfl⟩
  · exact ⟨_, Text.trimRight_prefix cs, Text.trimRight_cons_of_not_blank rfl⟩

theorem takeEnd_prefix (l : Rule.Line) : (Rule.takeEnd l).glob <+: l.glob := by
  rw [Rule.takeEnd]
  split
  · dsimp only
    split
    · exact (List.dropLast_prefix _).trans (List.dropLast_prefix _)
    · exact List.dropLast_prefix _
  · exact List.prefix_refl _

theorem anchored_takeEnd (l : Rule.Line) : (Rule.takeEnd l).anchored = l.anchored := by
  rw [Rule.takeEnd]
  split <;> rfl

theorem globText_of_anchored {l : Rule.Line} (h : l.anchored = true)
    (hend : ['/', '*', '*'].isSuffixOf l.glob = false) : Rule.globText l = l.glob := by
  rw [Rule.globText, h]
  simp [hend]

/-- The rule of an escaped text is that of its front, and of all of it only if
    nothing is taken off the end of its line. -/
theorem exists_of_ofLine? {cs : List Char} {r : Rule}
    (h : Rule.ofLine? ('/' :: escapeChars cs) = some r) :
    ∃ front, front <+: cs ∧ Glob.ofText? (escapeChars front) = some r.glob ∧
      (front = cs → Rule.withoutBlanks ('/' :: escapeChars cs) = '/' :: escapeChars cs) := by
  obtain ⟨line, hline, hblanks⟩ := exists_withoutBlanks (escapeChars cs)
  obtain ⟨l, hl⟩ : ∃ l, Rule.takeEnd { anchored := true, glob := line } = l := ⟨_, rfl⟩
  have hkept : l.glob <+: line := hl ▸ takeEnd_prefix _
  have hanchored : l.anchored = true := hl ▸ anchored_takeEnd _
  rw [ofLine?_eq (l := l) (by simp) (by simp [hblanks]) (by rw [hblanks]; exact hl)] at h
  obtain ⟨g, hg, rfl⟩ := Option.map_eq_some_iff.1 h
  obtain ⟨front, hfront, hglob | hglob⟩ := exists_of_prefix_escapeChars (hkept.trans hline)
  · have hend : ['/', '*', '*'].isSuffixOf l.glob = false := hglob ▸ not_isSuffixOf_escapeChars _
    rw [globText_of_anchored hanchored hend, hglob] at hg
    refine ⟨front, hfront, hg, fun hwhole => ?_⟩
    have hlength : (escapeChars cs).length ≤ line.length := by
      rw [← hwhole, ← hglob]
      exact hkept.length_le
    rw [hblanks, hline.eq_of_length_le hlength]
  -- A backslash that stood before the slash at the end stands before nothing now.
  · have hend : ['/', '*', '*'].isSuffixOf l.glob = false := by
      rw [hglob, ← Bool.not_eq_true, List.isSuffixOf_iff_suffix]
      rintro ⟨before, hsuffix⟩
      have hlast := congrArg List.getLast? hsuffix
      rw [List.getLast?_concat] at hlast
      simp at hlast
    rw [globText_of_anchored hanchored hend, hglob, Glob.ofText?, GlobReading.run_dangling] at hg
    cases hg

/-! ### Rules -/

/-- What the rule of an escaped text speaks of is a text without braces. -/
theorem noBrace_of_covers {cs : List Char} {r : Rule} {path : Bytes} {isDirectory : Bool}
    (h : Rule.ofLine? ('/' :: escapeChars cs) = some r) (hr : r.covers path isDirectory = true) :
    ∃ ds, path = encode (String.ofList ds) ∧ ∀ c ∈ ds, NoBrace c := by
  obtain ⟨front, _, hglob, _⟩ := exists_of_ofLine? h
  rw [Rule.covers, Bool.and_eq_true] at hr
  exact isOf_of_matches (GlobReading.isOf_of_run ⟨by simp, by simp⟩ hglob) hr.2

/-- The rule of a text that is read as it is written speaks of this text alone. -/
theorem covers_iff_of_isVerbatim {cs : List Char} (hcs : IsVerbatim cs)
    (hslash : cs.getLast? ≠ some '/') {path : Bytes} {isDirectory : Bool} :
    (∃ r, Rule.ofLine? ('/' :: escapeChars cs) = some r ∧ r.covers path isDirectory = true) ↔
      path = encode (String.ofList cs) := by
  rw [ofLine?_escapeChars hcs hslash]
  simp only [Option.some_inj, exists_eq_left', Rule.covers, Bool.not_false, Bool.true_or,
    Bool.true_and, matches_chars_iff]

/-- The rule of any other text does not speak of it. -/
theorem not_covers_of_not_isVerbatim {cs : List Char} (hcs : ¬IsVerbatim cs) {r : Rule}
    (h : Rule.ofLine? ('/' :: escapeChars cs) = some r) {isDirectory : Bool} :
    r.covers (encode (String.ofList cs)) isDirectory = false := by
  rw [← Bool.not_eq_true]
  intro hr
  have heq {ds : List Char} (hds : encode (String.ofList cs) = encode (String.ofList ds)) :
      cs = ds := String.ofList_injective (encode_injective hds)
  have hbrace : '{' ∉ cs ∧ '}' ∉ cs := by
    obtain ⟨ds, hds, hall⟩ := noBrace_of_covers h hr
    obtain rfl := heq hds
    exact ⟨fun hopen => (hall _ hopen).1 rfl, fun hclose => (hall _ hclose).2 rfl⟩
  obtain ⟨front, hfront, hglob, hwhole⟩ := exists_of_ofLine? h
  have hnone {c : Char} (hc : c ∉ cs) : c ∉ front := fun hmem => hc (hfront.subset hmem)
  rw [ofText?_escapeChars ⟨hnone hbrace.1, hnone hbrace.2⟩, Option.some_inj] at hglob
  rw [Rule.covers, Bool.and_eq_true, ← hglob, matches_chars_iff] at hr
  exact hcs ⟨hbrace, (withoutBlanks_escapeChars_iff cs).1 (hwhole (heq hr.2).symm)⟩

end RepoAtlas.Ignore
