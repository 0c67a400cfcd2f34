import RepoAtlas.Proofs.Text.Blank
import RepoAtlas.Proofs.Text.Lines
import Mathlib.Data.List.Flatten

/-!
# What is seen of a text

The characters of a text that are not blank, in order (`visible`). Trimming leaves
them (`visible_trimLeft`, `visible_trimRight`), and so does a cut at the front if it
takes blanks only (`visible_drop_iff`). Of lines that are put together all is seen
that was seen of each (`visible_joinWith`), and nothing is lost of it if nothing is
lost of any of them (`flatMap_visible_eq_iff`).
-/

namespace RepoAtlas.Text

/-- The characters that are not blank. -/
def visible (cs : List Char) : List Char := cs.filter fun c => !isBlank c

variable {c : Char} {cs : List Char} {lines : List (List Char)}

theorem visible_append (cs ds : List Char) : visible (cs ++ ds) = visible cs ++ visible ds :=
  List.filter_append ..

theorem visible_cons_of_blank (h : isBlank c = true) (cs : List Char) :
    visible (c :: cs) = visible cs :=
  List.filter_cons_of_neg (by simp [h])

/-- Nothing is seen of a blank text, and something of any other. -/
theorem visible_eq_nil_iff : visible cs = [] ↔ allBlank cs = true := by
  simp [visible, allBlank]

theorem allBlank_congr {ds : List Char} (h : visible cs = visible ds) :
    allBlank cs = allBlank ds := by
  rw [Bool.eq_iff_iff, ← visible_eq_nil_iff, h, visible_eq_nil_iff]

/-- To trim a text takes away nothing that is seen. -/
theorem visible_trimLeft (cs : List Char) : visible (trimLeft cs) = visible cs := by
  have hcs := visible_append (cs.takeWhile isBlank) (cs.dropWhile isBlank)
  rw [List.takeWhile_append_dropWhile, visible_eq_nil_iff.2 (allBlank_takeWhile cs),
    List.nil_append] at hcs
  exact hcs.symm

theorem visible_trimRight (cs : List Char) : visible (trimRight cs) = visible cs := by
  induction cs using List.reverseRecOn with
  | nil => rfl
  | append_singleton cs c ih =>
    cases hc : isBlank c with
    | true =>
      rw [trimRight_concat_of_blank hc, ih, visible_append, visible_cons_of_blank hc]
      exact (List.append_nil _).symm
    | false => rw [trimRight_concat_of_not_blank hc]

/-- What is cut off the front of a text is seen, unless it is blank. -/
theorem visible_drop_iff (n : Nat) (cs : List Char) :
    visible (cs.drop n) = visible cs ↔ allBlank (cs.take n) = true := by
  have hcs := visible_append (cs.take n) (cs.drop n)
  rw [List.take_append_drop] at hcs
  rw [hcs, eq_comm, List.append_left_eq_self, visible_eq_nil_iff]

/-- Of lines, what is seen is what is seen of each. -/
theorem visible_joinWith (lines : List (List Char)) :
    visible (joinWith ['\n'] lines) = lines.flatMap visible := by
  induction lines with
  | nil => rfl
  | cons line lines ih =>
    rw [List.flatMap_cons, ← ih]
    by_cases hlast : lines = []
    · rw [hlast]
      exact (List.append_nil _).symm
    · rw [joinWith_cons _ _ hlast, visible_append, visible_append]
      exact congrArg (· ++ _) (List.append_nil _)

/-- Nothing is seen of blank lines. -/
theorem flatMap_visible_of_blank (h : ∀ line ∈ lines, allBlank line = true) :
    lines.flatMap visible = [] := by
  rw [List.flatMap_eq_nil_iff]
  exact fun line hline => visible_eq_nil_iff.2 (h line hline)

/-- If of each line a part is left, the same is seen of all if it is of each. -/
theorem flatMap_visible_eq_iff {f : List Char → List Char}
    (h : ∀ line ∈ lines, (visible (f line)).Sublist (visible line)) :
    lines.flatMap (fun line => visible (f line)) = lines.flatMap visible ↔
      ∀ line ∈ lines, visible (f line) = visible line := by
  induction lines with
  | nil => simp
  | cons line lines ih =>
    rw [List.forall_mem_cons] at h
    rw [List.forall_mem_cons, ← ih h.2, List.flatMap_cons, List.flatMap_cons]
    constructor
    · intro heq
      -- Neither part is longer than it was, so both are as long as before.
      have hrest : (lines.flatMap fun line => visible (f line)).Sublist (lines.flatMap visible) :=
        List.Sublist.flatMap_right lines h.2
      have hlen := congrArg List.length heq
      rw [List.length_append, List.length_append] at hlen
      have hfirst := h.1.length_le
      have hothers := hrest.length_le
      exact ⟨h.1.eq_of_length (by omega), hrest.eq_of_length (by omega)⟩
    · rintro ⟨hfirst, hothers⟩
      rw [hfirst, hothers]

end RepoAtlas.Text
