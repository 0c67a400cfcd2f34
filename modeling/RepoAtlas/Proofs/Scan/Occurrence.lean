import RepoAtlas.Proofs.Scan.Comment

/-!
# Where a word occurs

The first occurrence of a word cuts a text in two (`cutAt?`). There is none if the
word is no part of the text (`cutAt?_eq_none_iff`), and it does not begin before a
character that the word does not have (`cutAt?_append_of_none`), so that it is found
behind any text that does not have it (`cutAt?_behind`).

A pattern with a marker at its front is found where the marker first occurs, if the
rest of the pattern fits there (`find?_of_cutAt?`), and not without the marker.
-/

namespace RepoAtlas.Scan

variable {word front back cs rest tail : List Char} {c : Char}

/-! ### Occurrences -/

/-- A word is not found where it does not occur, and only there. -/
theorem cutAt?_eq_none_iff : cutAt? word cs = none ↔ ¬word <:+: cs := by
  constructor
  · rintro h ⟨front, rest, rfl⟩
    exact cutAt?_ne_none word front rest h
  · intro h
    cases hcut : cutAt? word cs with
    | none => rfl
    | some cut => exact absurd ⟨cut.1, cut.2, (cutAt?_eq hcut).symm⟩ h

theorem cutAt?_cons_eq_none_iff :
    cutAt? word (c :: cs) = none ↔ dropWord? word (c :: cs) = none ∧ cutAt? word cs = none := by
  rw [cutAt?]
  split
  · rename_i hdrop
    simp [hdrop]
  · rename_i hdrop
    simp [hdrop]

/-- A text that begins with a word has it at its front first. -/
theorem cutAt?_front (hne : word ≠ []) (rest : List Char) :
    cutAt? word (word ++ rest) = some ([], rest) := by
  obtain ⟨w, word, rfl⟩ := List.exists_cons_of_ne_nil hne
  have hdrop := dropWord?_eq_some_iff.2 (Eq.refl (w :: word ++ rest))
  rw [List.cons_append] at hdrop ⊢
  rw [cutAt?, hdrop]

/-- A word does not reach over a character that it does not have. -/
theorem cutAt?_append_of_none (h : cutAt? word cs = none) (htail : ∀ c ∈ tail.head?, c ∉ word) :
    cutAt? word (cs ++ tail) = (cutAt? word tail).map fun (front, rest) => (cs ++ front, rest) := by
  induction cs with
  | nil => simp
  | cons c cs ih =>
    rw [cutAt?_cons_eq_none_iff] at h
    have hdrop := dropWord?_append_of_none h.1 htail
    rw [List.cons_append] at hdrop ⊢
    rw [cutAt?_cons_of_none hdrop, ih h.2, Option.map_map]
    rfl

/-- A word is found behind a text that does not have it, and a character that it does
    not have itself. -/
theorem cutAt?_behind (hne : word ≠ []) (h : ¬word <:+: front) (hc : c ∉ word)
    (rest : List Char) :
    cutAt? word (front ++ c :: (word ++ rest)) = some (front ++ [c], rest) := by
  have hhead : ∀ d ∈ (c :: (word ++ rest)).head?, d ∉ word := by
    rintro d ⟨⟩
    exact hc
  rw [cutAt?_append_of_none (cutAt?_eq_none_iff.2 h) hhead,
    cutAt?_cons_of_none (dropWord?_cons_of_notMem hne hc _), cutAt?_front hne]
  rfl

/-- Two texts with a character between them that a word does not have contain it only
    if one of them does. -/
theorem not_infix_append (hne : word ≠ []) (hfront : ¬word <:+: front) (hback : ¬word <:+: back)
    (hc : c ∉ word) : ¬word <:+: front ++ c :: back := by
  have hhead : ∀ d ∈ (c :: back).head?, d ∉ word := by
    rintro d ⟨⟩
    exact hc
  rw [← cutAt?_eq_none_iff] at hfront hback ⊢
  rw [cutAt?_append_of_none hfront hhead, cutAt?_cons_of_none (dropWord?_cons_of_notMem hne hc _),
    hback]
  rfl

/-! ### Patterns with a marker -/

variable {marker : String} {p : Pattern} {m : Match}

theorem matchHere?_text (cs : List Char) :
    Pattern.matchHere? (.text marker :: p) cs =
      (dropWord? marker.toList cs).bind (p.matchFrom? []) :=
  matchFrom?_text marker p [] cs

theorem find?_of_cutAt?_none (h : cutAt? marker.toList cs = none) :
    Pattern.find? (.text marker :: p) cs = none := by
  induction cs with
  | nil =>
    rw [cutAt?, Option.map_eq_none_iff] at h
    rw [Pattern.find?, matchHere?_text, h, Option.bind_none]
  | cons c cs ih =>
    rw [cutAt?_cons_eq_none_iff] at h
    rw [Pattern.find?, matchHere?_text, h.1, Option.bind_none, ih h.2]
    rfl

/-- A pattern is found behind the first marker, if the rest of it is. -/
theorem find?_of_cutAt? (h : cutAt? marker.toList cs = some (front, rest))
    (hm : p.matchFrom? [] rest = some m) : Pattern.find? (.text marker :: p) cs = some m := by
  induction cs generalizing front with
  | nil =>
    obtain ⟨_, hdrop, heq⟩ := Option.map_eq_some_iff.1 h
    cases heq
    rw [Pattern.find?, matchHere?_text, hdrop, Option.bind_some, hm]
  | cons c cs ih =>
    rw [cutAt?] at h
    rw [Pattern.find?, matchHere?_text]
    split at h
    · rename_i hdrop
      cases h
      rw [hdrop, Option.bind_some, hm]
      rfl
    · rename_i hdrop
      obtain ⟨⟨front, rest⟩, hcut, heq⟩ := Option.map_eq_some_iff.1 h
      cases heq
      rw [hdrop, Option.bind_none, ih hcut]
      rfl

end RepoAtlas.Scan
