import RepoAtlas.Proofs.Text.Blank
import RepoAtlas.Scan.Comment

/-!
# Where comments begin and end

What the patterns of comments find at the front of a text, said without trying
ways to end a run:

* `matchHere?_toLineEnd`: behind the marker, a comment that ends with its line
  takes the first line that is not blank, from its first character on;
* `matchHere?_enclosed`: a comment between two markers takes all up to the first
  closing marker, without the blanks around it, if no line breaks remain.

In both, the blanks that are passed over may reach over line breaks.
-/

namespace RepoAtlas.Scan

open Text (isBlank trimLeft trimRight trimBoth allBlank)

/-- What stands before the first occurrence of a word in a text, and what stands
    behind it. -/
def cutAt? (word : List Char) : List Char → Option (List Char × List Char)
  | [] => (dropWord? word []).map ([], ·)
  | c :: cs =>
    match dropWord? word (c :: cs) with
    | some rest => some ([], rest)
    | none => (cutAt? word cs).map fun (front, rest) => (c :: front, rest)

/-- What stands behind a word that a text begins with, after blanks. -/
def behind? (word cs : List Char) : Option (List Char) := dropWord? word (trimLeft cs)

variable {α : Type} {word cs rest tail front : List Char} {c : Char}

/-! ### Words -/

theorem dropWord?_eq_some_iff : dropWord? word cs = some rest ↔ cs = word ++ rest := by
  induction word generalizing cs with
  | nil => simp [dropWord?, eq_comm]
  | cons w word ih =>
    cases cs with
    | nil => simp [dropWord?]
    | cons c cs =>
      rw [dropWord?]
      split
      · rename_i h
        rw [ih, h]
        simp
      · rename_i h
        simp [Ne.symm h]

theorem dropWord?_append (h : dropWord? word cs = some rest) (tail : List Char) :
    dropWord? word (cs ++ tail) = some (rest ++ tail) := by
  rw [dropWord?_eq_some_iff] at h ⊢
  rw [h, List.append_assoc]

/-- A word does not begin with a character that it does not have. -/
theorem dropWord?_cons_of_notMem (hne : word ≠ []) (h : c ∉ word) (cs : List Char) :
    dropWord? word (c :: cs) = none := by
  obtain ⟨w, word, rfl⟩ := List.exists_cons_of_ne_nil hne
  rw [dropWord?, if_neg]
  rintro rfl
  exact h List.mem_cons_self

/-- A word does not go on behind a text whose next character it does not have. -/
theorem dropWord?_append_of_none (h : dropWord? word cs = none)
    (htail : ∀ c ∈ tail.head?, c ∉ word) : dropWord? word (cs ++ tail) = none := by
  rw [Option.eq_none_iff_forall_ne_some] at h ⊢
  intro rest hrest
  rw [dropWord?_eq_some_iff, List.append_eq_append_iff] at hrest
  obtain ⟨more, rfl, rfl⟩ | ⟨more, rfl, -⟩ := hrest
  · cases more with
    | nil => exact h [] (dropWord?_eq_some_iff.2 (by simp))
    | cons c more => exact htail c (by simp) (by simp)
  · exact h more (dropWord?_eq_some_iff.2 rfl)

/-! ### Runs -/

/-- Blanks are passed over as far as they reach, if nothing that fits behind some
    of them fits only there. -/
theorem tryRun_blanks {f : List Char → Option α}
    (h : ∀ c cs, isBlank c = true → f (trimLeft cs) = none → f (c :: cs) = none)
    (taken cs : List Char) :
    tryRun isBlank false (fun _ rest => f rest) 0 taken cs = f (trimLeft cs) := by
  induction cs generalizing taken with
  | nil => rfl
  | cons c cs ih =>
    rw [tryRun]
    cases hc : isBlank c with
    | true =>
      rw [if_pos rfl, if_neg Bool.false_ne_true, ih, Text.trimLeft_cons_of_blank hc]
      cases hf : f (trimLeft cs) with
      | none => rw [h c cs hc hf]; rfl
      | some a => rfl
    | false => rw [if_neg Bool.false_ne_true, Text.trimLeft_cons_of_not_blank hc]

/-- A run that is followed by nothing takes all it can. -/
theorem tryRun_all (of : Char → Bool) (taken cs : List Char) :
    tryRun of false (fun taken rest => some (Match.mk taken.reverse rest)) 0 taken cs =
      some ⟨taken.reverse ++ cs.takeWhile of, cs.dropWhile of⟩ := by
  induction cs generalizing taken with
  | nil => simp [tryRun]
  | cons c cs ih =>
    rw [tryRun]
    by_cases hc : of c = true
    · rw [if_pos hc, if_neg Bool.false_ne_true, ih]
      simp [hc]
    · simp [hc]

/-! ### Comments up to the end of a line -/

/-- Whether a text can be a marker: it has no blanks, and is not empty. -/
def IsMarker (word : List Char) : Prop := word ≠ [] ∧ ∀ c ∈ word, isBlank c = false

instance (word : List Char) : Decidable (IsMarker word) :=
  have := List.decidableBAll (fun c => isBlank c = false) word
  inferInstanceAs (Decidable (word ≠ [] ∧ ∀ c ∈ word, isBlank c = false))

theorem IsMarker.dropWord? (h : IsMarker word) (hc : isBlank c = true) (cs : List Char) :
    dropWord? word (c :: cs) = none :=
  dropWord?_cons_of_notMem h.1 (fun hmem => by rw [h.2 c hmem] at hc; cases hc) cs

theorem matchFrom?_text (marker : String) (p : Pattern) (kept cs : List Char) :
    Pattern.matchFrom? (.text marker :: p) kept cs =
      (dropWord? marker.toList cs).bind (p.matchFrom? kept) := by
  rw [Piece.text, Pattern.matchFrom?, List.findSome?_singleton]

/-- Blanks in a pattern reach as far as they can, if nothing that fits behind
    some of them fits only there. -/
theorem matchFrom?_someBlanks {p : Pattern} {kept : List Char}
    (h : ∀ c cs, isBlank c = true → p.matchFrom? kept (trimLeft cs) = none →
      p.matchFrom? kept (c :: cs) = none) (cs : List Char) :
    Pattern.matchFrom? (.someBlanks :: p) kept cs = p.matchFrom? kept (trimLeft cs) :=
  tryRun_blanks h [] cs

/-- A marker behind blanks, and what follows it. -/
theorem matchFrom?_marker {marker : String} (h : IsMarker marker.toList) (p : Pattern)
    (kept cs : List Char) :
    Pattern.matchFrom? (.someBlanks :: .text marker :: p) kept cs =
      (behind? marker.toList cs).bind (p.matchFrom? kept) := by
  rw [matchFrom?_someBlanks fun c cs hc _ => by rw [matchFrom?_text, h.dropWord? hc]; rfl,
    matchFrom?_text, behind?]

/-- What stands behind blanks and ends with its line is the first line that is not
    blank, from its first character on. -/
theorem matchFrom?_toLineEnd (cs : List Char) :
    Pattern.matchFrom? [.someBlanks, .run Piece.onLine 0 false true] [] cs =
      some ⟨(trimLeft cs).takeWhile Piece.onLine, (trimLeft cs).dropWhile Piece.onLine⟩ := by
  have hrun (rest : List Char) : Pattern.matchFrom? [.run Piece.onLine 0 false true] [] rest =
      some ⟨rest.takeWhile Piece.onLine, rest.dropWhile Piece.onLine⟩ := tryRun_all _ [] rest
  rw [matchFrom?_someBlanks (fun c cs _ hnone => by rw [hrun] at hnone; cases hnone), hrun]

/-- A comment that ends with its line takes the first line behind its marker that
    is not blank, from its first character on. -/
theorem matchHere?_toLineEnd {marker : String} (h : IsMarker marker.toList) (cs : List Char) :
    (CommentStyle.toLineEnd marker).matchHere? cs =
      (behind? marker.toList cs).map fun rest =>
        ⟨(trimLeft rest).takeWhile Piece.onLine, (trimLeft rest).dropWhile Piece.onLine⟩ := by
  rw [CommentStyle.toLineEnd, Pattern.matchHere?, matchFrom?_marker h, Option.map_eq_bind]
  exact congrArg _ (funext matchFrom?_toLineEnd)

/-! ### Comments between two markers -/

theorem cutAt?_cons_of_none (h : dropWord? word (c :: cs) = none) :
    cutAt? word (c :: cs) = (cutAt? word cs).map fun (front, rest) => (c :: front, rest) := by
  rw [cutAt?, h]

theorem cutAt?_eq (h : cutAt? word cs = some (front, rest)) :
    cs = front ++ word ++ rest := by
  induction cs generalizing front with
  | nil =>
    obtain ⟨_, hdrop, heq⟩ := Option.map_eq_some_iff.1 h
    cases heq
    exact dropWord?_eq_some_iff.1 hdrop
  | cons c cs ih =>
    rw [cutAt?] at h
    split at h
    · rename_i hdrop
      cases h
      exact dropWord?_eq_some_iff.1 hdrop
    · obtain ⟨⟨front, rest⟩, hcut, heq⟩ := Option.map_eq_some_iff.1 h
      cases heq
      exact congrArg (c :: ·) (ih hcut)

theorem cutAt?_append (hne : word ≠ [])
    (htail : ∀ c ∈ tail.head?, c ∉ word) (h : cutAt? word cs = some (front, rest)) :
    cutAt? word (cs ++ tail) = some (front, rest ++ tail) := by
  induction cs generalizing front with
  | nil =>
    obtain ⟨w, word, rfl⟩ := List.exists_cons_of_ne_nil hne
    cases h
  | cons c cs ih =>
    cases hdrop : dropWord? word (c :: cs) with
    | some after =>
      rw [cutAt?, hdrop] at h
      cases h
      rw [List.cons_append, cutAt?, ← List.cons_append, dropWord?_append hdrop]
    | none =>
      rw [cutAt?_cons_of_none hdrop] at h
      obtain ⟨⟨front, rest⟩, hcut, heq⟩ := Option.map_eq_some_iff.1 h
      cases heq
      have hdropTail := dropWord?_append_of_none hdrop htail
      rw [List.cons_append] at hdropTail ⊢
      rw [cutAt?_cons_of_none hdropTail, ih hcut]
      rfl

theorem cutAt?_ne_none (word front rest : List Char) :
    cutAt? word (front ++ word ++ rest) ≠ none := by
  induction front with
  | nil =>
    have hdrop := dropWord?_eq_some_iff.2 (Eq.refl (word ++ rest))
    rw [List.nil_append]
    cases htext : word ++ rest with
    | nil =>
      rw [htext] at hdrop
      simp [cutAt?, hdrop]
    | cons c cs =>
      rw [htext] at hdrop
      simp [cutAt?, hdrop]
  | cons c front ih =>
    rw [List.cons_append, List.cons_append, cutAt?]
    split
    · exact nofun
    · simpa using ih

/-- What is passed over as blanks stands before the first occurrence of a marker. -/
theorem behind?_eq_some_iff (h : IsMarker word) :
    behind? word cs = some rest ↔
      ∃ front, cutAt? word cs = some (front, rest) ∧ allBlank front = true := by
  induction cs with
  | nil =>
    obtain ⟨w, word, rfl⟩ := List.exists_cons_of_ne_nil h.1
    simp [behind?, cutAt?, trimLeft, dropWord?]
  | cons c cs ih =>
    cases hc : isBlank c with
    | true =>
      rw [behind?, Text.trimLeft_cons_of_blank hc, ← behind?, ih,
        cutAt?_cons_of_none (h.dropWord? hc cs)]
      simp [allBlank, hc]
    | false =>
      rw [behind?, Text.trimLeft_cons_of_not_blank hc]
      cases hdrop : dropWord? word (c :: cs) with
      | some tail => simp [cutAt?, hdrop, allBlank]
      | none => simp [cutAt?_cons_of_none hdrop, allBlank, hc]

/-- The mark that closes a comment. -/
def closer : List Char := "*/".toList

theorem isMarker_closer : IsMarker closer := by decide

/-- As short a text as can be on a line, and the closing mark behind blanks: all up
    to the first closing mark, but for the blanks before it. -/
theorem tryRun_closer (taken cs : List Char) :
    tryRun Piece.onLine true
        (fun taken rest => (behind? closer rest).map (Match.mk taken.reverse)) 0 taken cs =
      (cutAt? closer cs).bind fun (front, rest) =>
        if (trimRight front).all Piece.onLine then some ⟨taken.reverse ++ trimRight front, rest⟩
        else none := by
  induction cs generalizing taken with
  | nil => rfl
  | cons c cs ih =>
    rw [tryRun]
    cases hbehind : behind? closer (c :: cs) with
    | some rest =>
      obtain ⟨front, hcut, hblank⟩ := (behind?_eq_some_iff isMarker_closer).1 hbehind
      simp only [hcut, Option.bind_some, Text.trimRight_eq_nil_iff.2 hblank]
      split <;> simp
    | none =>
      -- The closing mark stands further behind, and not behind blanks alone.
      have hdrop : dropWord? closer (c :: cs) = none := by
        cases hc : isBlank c with
        | true => exact isMarker_closer.dropWord? hc cs
        | false => rwa [behind?, Text.trimLeft_cons_of_not_blank hc] at hbehind
      rw [cutAt?_cons_of_none hdrop, Option.bind_map]
      have hnot {front rest : List Char} (hcut : cutAt? closer cs = some (front, rest)) :
          trimRight (c :: front) = c :: trimRight front := by
        refine Text.trimRight_cons_of_not_blank (Bool.eq_false_iff.2 fun hblank => ?_)
        have hsome : behind? closer (c :: cs) = some rest :=
          (behind?_eq_some_iff isMarker_closer).2
            ⟨_, by rw [cutAt?_cons_of_none hdrop, hcut]; rfl, hblank⟩
        rw [hbehind] at hsome
        cases hsome
      rw [if_pos rfl, ih]
      cases hcut : cutAt? closer cs with
      | none => split <;> rfl
      | some cut =>
        obtain ⟨front, rest⟩ := cut
        simp only [Option.bind_some, Function.comp_apply, hnot hcut, List.all_cons]
        cases Piece.onLine c with
        | false => rfl
        | true =>
          rw [List.reverse_cons, List.append_assoc]
          rfl

/-- Blanks at the front of a text stand before any marker in it. -/
theorem cutAt?_trimLeft (h : IsMarker word) (cs : List Char) :
    cutAt? word cs = (cutAt? word (trimLeft cs)).map
      fun (front, rest) => (cs.takeWhile isBlank ++ front, rest) := by
  induction cs with
  | nil => simp [trimLeft]
  | cons c cs ih =>
    cases hc : isBlank c with
    | true =>
      rw [cutAt?_cons_of_none (h.dropWord? hc cs), ih, Text.trimLeft_cons_of_blank hc,
        Option.map_map, List.takeWhile_cons_of_pos hc]
      rfl
    | false => simp [Text.trimLeft_cons_of_not_blank hc, hc]

/-- What stands before a marker begins as the text does. -/
theorem trimLeft_of_cutAt? (h : cutAt? word (trimLeft cs) = some (front, rest)) :
    trimLeft front = front := by
  cases hcs : trimLeft cs with
  | nil =>
    rw [hcs, cutAt?] at h
    obtain ⟨_, -, heq⟩ := Option.map_eq_some_iff.1 h
    cases heq
    rfl
  | cons c ds =>
    have hc := Text.isBlank_of_trimLeft hcs
    rw [hcs, cutAt?] at h
    split at h
    · cases h
      rfl
    · obtain ⟨_, -, heq⟩ := Option.map_eq_some_iff.1 h
      cases heq
      exact Text.trimLeft_cons_of_not_blank hc

/-- A comment between two markers takes all up to the first closing mark, without
    the blanks around it, if that is on one line. -/
theorem matchHere?_enclosed (cs : List Char) :
    CommentStyle.enclosed.matchHere? cs =
      (behind? "/**".toList cs).bind fun rest => (cutAt? closer rest).bind fun (front, rest) =>
        if (trimBoth front).all Piece.onLine then some ⟨trimBoth front, rest⟩ else none := by
  have hcloses (rest : List Char) :
      Pattern.matchFrom? [.run Piece.onLine 0 true true, .someBlanks, .text "*/"] [] rest =
        (cutAt? closer rest).bind fun (front, rest) =>
          if (trimRight front).all Piece.onLine then some ⟨trimRight front, rest⟩ else none := by
    have hend (taken rest : List Char) :
        Pattern.matchFrom? [.someBlanks, .text "*/"] taken.reverse rest =
          (behind? closer rest).map (Match.mk taken.reverse) := by
      rw [matchFrom?_marker isMarker_closer, Option.map_eq_bind]
      rfl
    have hrun := tryRun_closer [] rest
    simp only [← hend] at hrun
    exact hrun
  rw [CommentStyle.enclosed, Pattern.matchHere?, matchFrom?_marker (by decide)]
  refine congrArg _ (funext fun rest => ?_)
  have hblank (cs : List Char) : allBlank (cs.takeWhile isBlank) = true :=
    Text.allBlank_takeWhile cs
  rw [matchFrom?_someBlanks, hcloses]
  · rw [cutAt?_trimLeft isMarker_closer rest, Option.bind_map]
    cases hcut : cutAt? closer (trimLeft rest) with
    | none => rfl
    | some cut =>
      obtain ⟨front, after⟩ := cut
      simp only [Option.bind_some, Function.comp_apply, trimBoth,
        Text.trimLeft_append_of_blank (hblank rest), trimLeft_of_cutAt? hcut]
  · -- Where fewer blanks are passed over, a text begins with blanks, and ends on
    -- another line as before.
    intro c cs hc hnone
    rw [hcloses] at hnone ⊢
    rw [cutAt?_trimLeft isMarker_closer, Text.trimLeft_cons_of_blank hc, Option.bind_map]
    cases hcut : cutAt? closer (trimLeft cs) with
    | none => rfl
    | some cut =>
      obtain ⟨front, after⟩ := cut
      rw [hcut, Option.bind_some] at hnone
      rw [Option.bind_some, Function.comp_apply]
      dsimp only at hnone ⊢
      split at hnone
      · cases hnone
      · rename_i hline
        have hnot : allBlank front = false := by
          refine Bool.eq_false_iff.2 fun hall => hline ?_
          rw [Text.trimRight_eq_nil_iff.2 hall]
          rfl
        rw [Text.trimRight_append_of_not_blank hnot, List.all_append,
          if_neg fun hall => hline (Bool.and_eq_true_iff.1 hall).2]

end RepoAtlas.Scan
