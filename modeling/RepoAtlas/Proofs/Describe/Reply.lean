import RepoAtlas.Describe.Reply
import RepoAtlas.Describe.Summary
import RepoAtlas.Proofs.Scan.Occurrence
import RepoAtlas.Proofs.Scan.Reading

/-!
# What replies tell

A reply in the form that is asked for has two lines, one for each marker
(`Reply.descriptionLine`, `Reply.considerationLine`). What it tells is what was put
there, without the blanks around it, in either order of the lines, with one
exception (`Reply.ofText_lines_iff`): a description is looked for behind blanks, and
these may reach over the end of the line, so that with nothing on its own line the
line below is taken for it.

* `description_ofText`: the description of any reply;
* `description_eq_empty_iff`: which replies tell an empty description;
* `consideration_ofText`: the consideration of a reply that has its marker once.
-/

namespace RepoAtlas.Reply

open Scan
open Text (isBlank trimLeft trimRight trimBoth allBlank)

/-- The marker of a description. -/
def descriptionMarker : String := "Description:"

/-- The marker of a consideration. -/
def considerationMarker : String := "Developer Consideration:"

variable {text d c : String} {front rest inner : List Char}

theorem eq_mk {r : Reply} {description consideration : Option String}
    (hdescription : r.description = description)
    (hconsideration : r.consideration = consideration) : r = ⟨description, consideration⟩ := by
  rw [← hdescription, ← hconsideration]

/-! ### Descriptions -/

/-- A description is the first line behind the marker that is not blank. -/
theorem description_ofText (text : String) :
    (ofText text).description = (cutAt? descriptionMarker.toList text.toList).map
      fun (_, rest) => String.ofList (trimBoth (lineOf (trimLeft rest))) := by
  change found? descriptionPattern text = _
  rw [found?, descriptionPattern, ← descriptionMarker]
  cases hcut : cutAt? descriptionMarker.toList text.toList with
  | none => rw [find?_of_cutAt?_none hcut]; rfl
  | some cut => rw [find?_of_cutAt? hcut (matchFrom?_toLineEnd _)]; rfl

/-- The first line that is not blank is not blank, if there is one. -/
theorem allBlank_lineOf_trimLeft (cs : List Char) :
    allBlank (lineOf (trimLeft cs)) = allBlank cs := by
  cases hcs : trimLeft cs with
  | nil => exact (Text.trimLeft_eq_nil_iff.1 hcs).symm
  | cons c ds =>
    have hc := Text.isBlank_of_trimLeft hcs
    have hblank : allBlank cs = false := Bool.eq_false_iff.2 fun hall => by
      rw [Text.trimLeft_eq_nil_iff.2 hall] at hcs
      cases hcs
    rw [lineOf_cons_of_not_blank hc, hblank, allBlank, List.all_cons, hc, Bool.false_and]

/-- Whether nothing but blanks stands behind the first marker of a description. -/
def endsAtMarker (text : String) : Bool :=
  (cutAt? descriptionMarker.toList text.toList).any fun (_, rest) => allBlank rest

/-- A reply tells an empty description if it ends at the marker, and only then. -/
theorem description_eq_empty_iff :
    (ofText text).description = some "" ↔ endsAtMarker text = true := by
  have hempty (cs : List Char) : String.ofList (trimBoth (lineOf (trimLeft cs))) = "" ↔
      allBlank cs = true := by
    rw [String.ofList_eq_empty_iff, Text.trimBoth_eq_nil_iff, allBlank_lineOf_trimLeft]
  rw [description_ofText, endsAtMarker]
  cases cutAt? descriptionMarker.toList text.toList with
  | none => simp
  | some cut => simp [hempty]

/-! ### Considerations -/

/-- A text in quotes is kept up to the quote that closes it. -/
theorem tryRun_quoted (hquote : '"' ∉ inner) (hline : '\n' ∉ inner) (taken after : List Char) :
    tryRun Piece.onLine true
        (fun taken rest => Pattern.matchFrom? [.text "\""] taken.reverse rest) 0 taken
        (inner ++ '"' :: after) =
      some ⟨taken.reverse ++ inner, after⟩ := by
  induction inner generalizing taken with
  | nil => simp [tryRun, Piece.onLine, matchFrom?_text, dropWord?, Pattern.matchFrom?]
  | cons e inner ih =>
    rw [List.mem_cons, not_or] at hquote hline
    have honLine : Piece.onLine e = true := by simpa [Piece.onLine] using Ne.symm hline.1
    have hnone : Pattern.matchFrom? [.text "\""] taken.reverse (e :: (inner ++ '"' :: after)) =
        none := by
      simp [matchFrom?_text, dropWord?, hquote.1]
    rw [List.cons_append, tryRun, if_pos honLine, if_pos rfl, hnone, ih hquote.2 hline.2]
    simp

/-- A consideration is what stands in quotes behind its marker. -/
theorem consideration_ofText (hquote : '"' ∉ inner) (hline : '\n' ∉ inner) {after : List Char}
    (hcut : cutAt? considerationMarker.toList text.toList = some (front, rest))
    (hrest : trimLeft rest = '"' :: (inner ++ '"' :: after)) :
    (ofText text).consideration = some (String.ofList (trimBoth inner)) := by
  change found? considerationPattern text = _
  have hopen : behind? "\"".toList rest = some (inner ++ '"' :: after) :=
    dropWord?_eq_some_iff.2 hrest
  have hmatch : Pattern.matchFrom?
      [.someBlanks, .text "\"", .run Piece.onLine 0 true true, .text "\""] [] rest =
        some ⟨inner, after⟩ := by
    rw [matchFrom?_marker (by decide), hopen, Option.bind_some]
    exact tryRun_quoted hquote hline [] after
  rw [found?, considerationPattern, ← considerationMarker, find?_of_cutAt? hcut hmatch]
  rfl

/-! ### Replies of two lines -/

/-- Whether a text fits behind a marker: it is on one line, and has no marker. -/
structure FitsLine (s : String) : Prop where
  onLine : '\n' ∉ s.toList
  description : ¬descriptionMarker.toList <:+: s.toList
  consideration : ¬considerationMarker.toList <:+: s.toList

/-- The line of a reply that tells a description. -/
def descriptionLine (d : String) : String := descriptionMarker ++ " " ++ d

/-- The line of a reply that tells a consideration. -/
def considerationLine (c : String) : String := considerationMarker ++ " \"" ++ c ++ "\""

/-- These are the lines that are asked for. -/
example : Summary.task =
    "You summarize source files for a repository map. Answer in exactly two lines:\n" ++
      descriptionLine "<one sentence describing the file's purpose>" ++ "\n" ++
      considerationLine "<one short, concrete note for developers editing this file>" := rfl

theorem toList_descriptionLine (d : String) :
    (descriptionLine d).toList = descriptionMarker.toList ++ ' ' :: d.toList := by
  rw [descriptionLine, String.toList_append, String.toList_append, List.append_assoc]
  rfl

theorem toList_considerationLine (c : String) :
    (considerationLine c).toList =
      considerationMarker.toList ++ ' ' :: '"' :: (c.toList ++ ['"']) := by
  rw [considerationLine, String.toList_append, String.toList_append, String.toList_append,
    List.append_assoc, List.append_assoc]
  rfl

/-- The marker of a consideration does not begin within the one of a description. -/
theorem lacks_considerationMarker (hd : FitsLine d) :
    ¬considerationMarker.toList <:+: (descriptionLine d).toList := by
  have hnone := cutAt?_eq_none_iff.2 hd.consideration
  rw [← cutAt?_eq_none_iff, toList_descriptionLine]
  simpa [cutAt?_cons_eq_none_iff, considerationMarker, descriptionMarker, dropWord?] using hnone

/-- The marker of a description is no part of a line that tells a consideration: the
    quotes keep it apart. -/
theorem lacks_descriptionMarker (hc : FitsLine c) :
    ¬descriptionMarker.toList <:+: (considerationLine c).toList := by
  have hquoted : ¬descriptionMarker.toList <:+: c.toList ++ '"' :: [] :=
    not_infix_append (by decide) hc.description (by decide) (by decide)
  have hmarker : ¬descriptionMarker.toList <:+: considerationMarker.toList ++ [' '] :=
    cutAt?_eq_none_iff.1 rfl
  have hline := toList_considerationLine c
  rw [← List.singleton_append, ← List.append_assoc] at hline
  rw [hline]
  exact not_infix_append (by decide) hmarker hquoted (by decide)

theorem considerationLine_onLine (hc : FitsLine c) : '\n' ∉ (considerationLine c).toList := by
  rw [toList_considerationLine]
  simpa [considerationMarker] using hc.onLine

/-- What is told behind the marker of a description, if its line is not blank or is
    the last. -/
theorem description_of_line (hd : FitsLine d) {tail : List Char}
    (htail : ∀ c ∈ tail.head?, c = '\n') (hlast : Text.isBlankText d = false ∨ tail = [])
    (hcut : cutAt? descriptionMarker.toList text.toList =
      some (front, ' ' :: (d.toList ++ tail))) :
    (ofText text).description = some (Text.trim d) := by
  have hleft : trimLeft (' ' :: (d.toList ++ tail)) = trimLeft d.toList ++ tail := by
    rw [Text.trimLeft_cons_of_blank rfl]
    rcases hlast with hblank | rfl
    · exact Text.trimLeft_append_of_not_blank hblank
    · rw [List.append_nil, List.append_nil]
  have hline : (trimLeft d.toList).all Piece.onLine = true :=
    all_onLine_iff.2 fun hmem => hd.onLine ((List.dropWhile_suffix isBlank).subset hmem)
  rw [description_ofText, hcut, Option.map_some]
  dsimp only
  rw [hleft, lineOf_append hline htail, Text.trimBoth_trimLeft, Text.trim]

theorem trimBoth_considerationLine (c : String) :
    trimBoth (considerationLine c).toList = (considerationLine c).toList := by
  have hbegins : trimLeft (considerationLine c).toList = (considerationLine c).toList := by
    rw [toList_considerationLine]
    exact Text.trimLeft_cons_of_not_blank rfl
  have hends : (considerationLine c).toList =
      considerationMarker.toList ++ ' ' :: '"' :: c.toList ++ ['"'] := by
    rw [toList_considerationLine, List.append_assoc]
    rfl
  rw [trimBoth, hbegins, hends]
  exact Text.trimRight_concat_of_not_blank rfl

/-- With nothing on its own line, the line below is told as the description. -/
theorem description_of_blank (hc : FitsLine c) (hblank : Text.isBlankText d = true)
    (hcut : cutAt? descriptionMarker.toList text.toList =
      some (front, ' ' :: (d.toList ++ '\n' :: (considerationLine c).toList))) :
    (ofText text).description = some (considerationLine c) := by
  have hleft : trimLeft (' ' :: (d.toList ++ '\n' :: (considerationLine c).toList)) =
      (considerationLine c).toList := by
    rw [Text.trimLeft_cons_of_blank rfl, Text.trimLeft_append_of_blank hblank,
      Text.trimLeft_cons_of_blank rfl, toList_considerationLine]
    exact Text.trimLeft_cons_of_not_blank rfl
  have hline : lineOf ((considerationLine c).toList ++ []) = (considerationLine c).toList :=
    lineOf_append (all_onLine_iff.2 (considerationLine_onLine hc)) nofun
  rw [List.append_nil] at hline
  rw [description_ofText, hcut, Option.map_some]
  dsimp only
  rw [hleft, hline, trimBoth_considerationLine, String.ofList_toList]

/-- What is told behind the marker of a consideration, whatever follows its line. -/
theorem consideration_of_line (hc : FitsLine c) (hquote : '"' ∉ c.toList) {tail : List Char}
    (hcut : cutAt? considerationMarker.toList text.toList =
      some (front, ' ' :: '"' :: (c.toList ++ '"' :: tail))) :
    (ofText text).consideration = some (Text.trim c) :=
  consideration_ofText hquote hc.onLine hcut
    ((Text.trimLeft_cons_of_blank rfl).trans (Text.trimLeft_cons_of_not_blank rfl))

/-! ### Where the markers of two lines are -/

theorem toList_lines (first second : String) :
    (first ++ "\n" ++ second).toList = first.toList ++ '\n' :: second.toList := by
  rw [String.toList_append, String.toList_append, List.append_assoc]
  rfl

theorem cutAt?_description_first (d c : String) :
    cutAt? descriptionMarker.toList (descriptionLine d ++ "\n" ++ considerationLine c).toList =
      some ([], ' ' :: (d.toList ++ '\n' :: (considerationLine c).toList)) := by
  rw [toList_lines, toList_descriptionLine, List.append_assoc]
  exact cutAt?_front (by decide) _

theorem cutAt?_consideration_second (hd : FitsLine d) (c : String) :
    cutAt? considerationMarker.toList (descriptionLine d ++ "\n" ++ considerationLine c).toList =
      some ((descriptionLine d).toList ++ ['\n'], ' ' :: '"' :: (c.toList ++ ['"'])) := by
  rw [toList_lines, toList_considerationLine]
  exact cutAt?_behind (by decide) (lacks_considerationMarker hd) (by decide) _

theorem cutAt?_consideration_first (c d : String) :
    cutAt? considerationMarker.toList (considerationLine c ++ "\n" ++ descriptionLine d).toList =
      some ([], ' ' :: '"' :: (c.toList ++ '"' :: '\n' :: (descriptionLine d).toList)) := by
  rw [toList_lines, toList_considerationLine, List.append_assoc, cutAt?_front (by decide)]
  simp

theorem cutAt?_description_second (hc : FitsLine c) (d : String) :
    cutAt? descriptionMarker.toList (considerationLine c ++ "\n" ++ descriptionLine d).toList =
      some ((considerationLine c).toList ++ ['\n'], ' ' :: (d.toList ++ [])) := by
  rw [toList_lines, toList_descriptionLine, List.append_nil]
  exact cutAt?_behind (by decide) (lacks_descriptionMarker hc) (by decide) _

theorem considerationLine_ne_empty (c : String) : considerationLine c ≠ "" := fun h => by
  have hnil := congrArg String.toList h
  rw [toList_considerationLine] at hnil
  exact List.cons_ne_nil _ _ (List.append_eq_nil_iff.1 hnil).2

/-- A reply of the two lines that are asked for tells what they say if there is a
    description on its line, and only then; without one, the other line is told as the
    description. With the lines swapped, it always tells what they say. -/
theorem ofText_lines_iff (hd : FitsLine d) (hc : FitsLine c) (hquote : '"' ∉ c.toList) :
    (ofText (descriptionLine d ++ "\n" ++ considerationLine c) =
        ⟨some (Text.trim d), some (Text.trim c)⟩ ↔ Text.isBlankText d = false) ∧
      (Text.isBlankText d = true → ofText (descriptionLine d ++ "\n" ++ considerationLine c) =
        ⟨some (considerationLine c), some (Text.trim c)⟩) ∧
      ofText (considerationLine c ++ "\n" ++ descriptionLine d) =
        ⟨some (Text.trim d), some (Text.trim c)⟩ := by
  have hsecond := consideration_of_line hc hquote (cutAt?_consideration_second hd c)
  have hbelow (hblank : Text.isBlankText d = true) :
      ofText (descriptionLine d ++ "\n" ++ considerationLine c) =
        ⟨some (considerationLine c), some (Text.trim c)⟩ :=
    eq_mk (description_of_blank hc hblank (cutAt?_description_first d c)) hsecond
  refine ⟨⟨fun h => Bool.eq_false_iff.2 fun hblank => ?_, fun hblank => ?_⟩, hbelow, ?_⟩
  · have htrim : Text.trim d = "" := by
      rw [Text.trim, Text.trimBoth_eq_nil_iff.2 hblank, String.ofList_nil]
    have hline := congrArg Reply.description ((hbelow hblank).symm.trans h)
    exact considerationLine_ne_empty c ((Option.some_inj.1 hline).trans htrim)
  · exact eq_mk
      (description_of_line hd (by simp) (.inl hblank) (cutAt?_description_first d c)) hsecond
  · exact eq_mk
      (description_of_line hd (by simp) (.inr rfl) (cutAt?_description_second hc d))
      (consideration_of_line hc hquote (cutAt?_consideration_first c d))

/-- A description in quotes with blanks around it, and a consideration of one word. -/
theorem ofText_lines_iff_padded :
    FitsLine " \"Adds\" " ∧ FitsLine "Pure." ∧ '"' ∉ "Pure.".toList ∧
      Text.isBlankText " \"Adds\" " = false ∧
      ofText (descriptionLine " \"Adds\" " ++ "\n" ++ considerationLine "Pure.") =
        ⟨some "\"Adds\"", some "Pure."⟩ := by
  have hd : FitsLine " \"Adds\" " :=
    ⟨by decide, cutAt?_eq_none_iff.1 rfl, cutAt?_eq_none_iff.1 rfl⟩
  have hc : FitsLine "Pure." := ⟨by decide, cutAt?_eq_none_iff.1 rfl, cutAt?_eq_none_iff.1 rfl⟩
  have hquote : '"' ∉ "Pure.".toList := by decide
  have hblank : Text.isBlankText " \"Adds\" " = false := by decide
  have hdescription : Text.trim " \"Adds\" " = "\"Adds\"" := by decide
  have hconsideration : Text.trim "Pure." = "Pure." := by decide
  have htold := (ofText_lines_iff hd hc hquote).1.2 hblank
  rw [hdescription, hconsideration] at htold
  exact ⟨hd, hc, hquote, hblank, htold⟩

/-- With nothing behind the marker of the description, the line of the consideration
    is told as the description. -/
theorem tells_line_below :
    FitsLine "" ∧ FitsLine "x" ∧ '"' ∉ "x".toList ∧
      ofText (descriptionLine "" ++ "\n" ++ considerationLine "x") =
        ⟨some "Developer Consideration: \"x\"", some "x"⟩ ∧ Text.trim "" = "" := by
  refine ⟨⟨by decide, cutAt?_eq_none_iff.1 rfl, cutAt?_eq_none_iff.1 rfl⟩,
    ⟨by decide, cutAt?_eq_none_iff.1 rfl, cutAt?_eq_none_iff.1 rfl⟩, by decide, ?_, ?_⟩ <;> decide

end RepoAtlas.Reply
