import RepoAtlas.Language.Scanned
import RepoAtlas.Proofs.Scan.Reading
import RepoAtlas.Proofs.Text.Lines

/-!
# Documentation line by line

Documentation is meant to be read line by line (`CommentStyle.lineDoc`): a line
tells what stands on it behind its marker, or between its two markers. What is
read differs from that in two ways:

* a comment runs over into lines below its own (`CommentStyle.runsOver`): with
  nothing behind its marker it takes the next line that is not blank, and one
  between two markers takes its text from the lines between them;
* a comment strays (`CommentStyle.strays`): in the hash style, it tells nothing
  where an exclamation mark stands behind blanks, and what is told on a line
  between two markers is not read.

Where no comment strays, the documentation is read line by line if no comment
runs over, and only then (`LineGrammar.doc_eq_iff`): a comment that runs over
says more than the lines do (`CommentStyle.ReadsByLine`).
-/

namespace RepoAtlas.Scan

open Text (isBlank trimLeft trimRight trimBoth allBlank)
open RepoAtlas.Language (java)

/-! ### What the lines tell -/

namespace CommentStyle

/-- The comment on a line, if it has one. -/
def lineComment? (style : CommentStyle) (line : List Char) : Option (List Char) :=
  (style.opening? line).bind fun
    | .toLineEnd rest => if style = .hash ∧ rest.head? = some '!' then none else some rest
    | .enclosed rest => (cutAt? closer rest).map (·.1)

/-- The comments on the lines of a text. -/
def lineComments (style : CommentStyle) (cs : List Char) : List (List Char) :=
  (Text.splitAtBreaks cs).filterMap style.lineComment?

/-- The documentation of a source, line by line: what the lines say, without the
    blanks around it. -/
def lineDoc (style : CommentStyle) (source : List Char) : List Char :=
  Text.joinWith [' '] (((style.lineComments source).map trimBoth).filter fun c => !c.isEmpty)

/-- Whether some line begins a comment that has a property, together with what
    follows the line. `atStart` says whether the text begins a line. -/
def anyFrom (style : CommentStyle) (p : Opening → List Char → Bool) : Bool → List Char → Bool
  | _, [] => false
  | atStart, c :: cs =>
    (atStart && ((style.opening? (lineOf (c :: cs))).any (p · (behindLine (c :: cs))))) ||
      anyFrom style p (c == '\n') cs

/-- Whether some line begins a comment that has a property, together with what
    follows the line. -/
def anyComment (style : CommentStyle) (p : Opening → List Char → Bool) (cs : List Char) : Bool :=
  style.anyFrom p true cs

/-- Whether a comment takes its text from a line below its own: nothing stands
    behind its marker, or it is closed below, around a text on one line. -/
def runsOver (style : CommentStyle) (o : Opening) (below : List Char) : Bool :=
  match o with
  | .toLineEnd rest => allBlank rest && !allBlank below && style.keeps (trimLeft below)
  | .enclosed rest =>
    (cutAt? closer rest).isNone &&
      (cutAt? closer (rest ++ '\n' :: below)).any fun (text, _) =>
        !allBlank text && (trimBoth text).all Piece.onLine

/-- Whether a comment hides what a line tells: its own, for an exclamation mark
    behind blanks, or one below, up to the line on which it is closed. -/
def strays (style : CommentStyle) (o : Opening) (below : List Char) : Bool :=
  match o with
  | .toLineEnd rest => rest.head? != some '!' && !style.keeps (trimLeft rest)
  | .enclosed rest =>
    style.runsOver o below &&
      (cutAt? closer (rest ++ '\n' :: below)).any fun (text, after) =>
        !(style.lineComments (behindLine text ++ closer ++ lineOf after)).isEmpty

/-- What the comments on the lines of a text say. -/
def lineRead (style : CommentStyle) (cs : List Char) : List (List Char) :=
  saying (style.lineComments cs)

end CommentStyle

variable {style : CommentStyle} {cs line rest tail : List Char} {c : Char} {o : Opening}

theorem lineComment?_nil : style.lineComment? [] = none := by
  rw [CommentStyle.lineComment?, opening?_nil, Option.bind_none]

/-- Blanks in front of a line make no difference to its comment. -/
theorem lineComment?_cons (h : isBlank c = true) (cs : List Char) :
    style.lineComment? (c :: cs) = style.lineComment? cs := by
  rw [CommentStyle.lineComment?, opening?_cons h, CommentStyle.lineComment?]

/-- A line on which no comment begins has none. -/
theorem lineComment?_of_none (ho : style.opening? line = none) :
    style.lineComment? line = none := by
  rw [CommentStyle.lineComment?, ho, Option.bind_none]

/-- An enclosed comment is one of its line if it is closed there. -/
theorem lineComment?_of_enclosed (ho : style.opening? line = some (.enclosed rest)) :
    style.lineComment? line = (cutAt? closer rest).map (·.1) := by
  rw [CommentStyle.lineComment?, ho, Option.bind_some]

/-- The first line of a text, and the lines behind it. -/
theorem splitAtBreaks_eq (cs : List Char) :
    Text.splitAtBreaks cs =
      lineOf cs :: if cs.all Piece.onLine then [] else Text.splitAtBreaks (behindLine cs) := by
  induction cs with
  | nil => rfl
  | cons c cs ih =>
    rw [Text.splitAtBreaks]
    cases hc : Piece.onLine c with
    | false => simp [onLine_eq_false_iff.1 hc, Piece.onLine, lineOf, behindLine_break]
    | true =>
      have hne : c ≠ '\n' := fun h => by simp [onLine_eq_false_iff.2 h] at hc
      rw [if_neg hne, ih]
      simp [lineOf_cons hc, behindLine_cons hc, hc]

theorem lineComments_nil : style.lineComments [] = [] := by
  simp [CommentStyle.lineComments, Text.splitAtBreaks, lineComment?_nil]

/-- The comments of a text are that of its first line and those below it. -/
theorem lineComments_eq (cs : List Char) :
    style.lineComments cs =
      (style.lineComment? (lineOf cs)).toList ++ style.lineComments (behindLine cs) := by
  rw [CommentStyle.lineComments, splitAtBreaks_eq, List.filterMap_cons]
  have hbehind : (if cs.all Piece.onLine then [] else Text.splitAtBreaks (behindLine cs)).filterMap
      style.lineComment? = style.lineComments (behindLine cs) := by
    split
    · rename_i hall
      rw [behindLine, List.dropWhile_eq_nil_iff.2 (List.all_eq_true.1 hall), List.drop_nil,
        lineComments_nil, List.filterMap_nil]
    · rfl
  rw [hbehind]
  cases style.lineComment? (lineOf cs) <;> rfl

/-- The comments on the lines of two texts, the second of which begins where a line
    of the first ends. -/
theorem lineComments_append (front : List Char) {after : List Char} (h : IsTail after tail) :
    style.lineComments (front ++ tail) =
      style.lineComments front ++ style.lineComments (behindLine after) := by
  obtain ⟨rfl, hbelow⟩ | rfl := h
  · rw [hbelow, List.append_nil, lineComments_nil, List.append_nil]
  · rw [CommentStyle.lineComments, Text.splitAtBreaks_append, List.filterMap_append]
    rfl

/-- Blanks in front of a text make no difference to its comments. -/
theorem lineComments_cons (h : isBlank c = true) (cs : List Char) :
    style.lineComments (c :: cs) = style.lineComments cs := by
  rw [lineComments_eq]
  cases hc : Piece.onLine c with
  | true => rw [lineOf_cons hc, behindLine_cons hc, lineComment?_cons h, ← lineComments_eq]
  | false =>
    have hline : lineOf ('\n' :: cs) = [] := rfl
    rw [onLine_eq_false_iff.1 hc, behindLine_break, hline, lineComment?_nil]
    rfl

theorem lineDoc_eq (source : List Char) :
    style.lineDoc source = Text.joinWith [' '] (style.lineRead source) := rfl

theorem lineRead_eq (cs : List Char) :
    style.lineRead cs =
      saying (style.lineComment? (lineOf cs)).toList ++ style.lineRead (behindLine cs) := by
  rw [CommentStyle.lineRead, lineComments_eq, saying_append, CommentStyle.lineRead]

/-- A first line without a comment says nothing. -/
theorem lineRead_of_none (h : style.lineComment? (lineOf cs) = none) :
    style.lineRead cs = style.lineRead (behindLine cs) := by
  rw [lineRead_eq, h]
  rfl

theorem lineRead_trimLeft (cs : List Char) : style.lineRead (trimLeft cs) = style.lineRead cs :=
  apply_trimLeft
    (fun c cs hc => by rw [CommentStyle.lineRead, lineComments_cons hc, CommentStyle.lineRead]) cs

/-! ### Where comments run over or stray -/

/-- Within a line nothing begins, so that the next line decides. -/
theorem anyFrom_behind (p : Opening → List Char → Bool) (cs : List Char) :
    style.anyFrom p false cs = style.anyComment p (behindLine cs) := by
  induction cs with
  | nil => rfl
  | cons c cs ih =>
    rw [CommentStyle.anyFrom, Bool.false_and, Bool.false_or]
    cases hc : Piece.onLine c with
    | true =>
      have hne : (c == '\n') = false := by simpa [Piece.onLine] using hc
      rw [hne, ih, behindLine_cons hc]
    | false =>
      rw [onLine_eq_false_iff.1 hc, behindLine_break]
      rfl

/-- Some comment is so if the one on the first line is, or one below it. -/
theorem anyComment_eq (p : Opening → List Char → Bool) (cs : List Char) :
    style.anyComment p cs =
      ((style.opening? (lineOf cs)).any (p · (behindLine cs)) ||
        style.anyComment p (behindLine cs)) := by
  cases cs with
  | nil =>
    have hline : lineOf [] = [] := rfl
    rw [hline, opening?_nil]
    rfl
  | cons c cs =>
    rw [CommentStyle.anyComment, CommentStyle.anyFrom, Bool.true_and, ← anyFrom_behind p (c :: cs),
      CommentStyle.anyFrom, Bool.false_and, Bool.false_or]

/-- Below a comment that no line begins, none begins one. -/
theorem anyComment_behind {p : Opening → List Char → Bool} {front : List Char} {atStart : Bool}
    (h : style.anyFrom p atStart (front ++ cs) = false) :
    style.anyComment p (behindLine cs) = false := by
  induction front generalizing atStart with
  | nil =>
    rw [← anyFrom_behind]
    cases cs with
    | nil => rfl
    | cons c cs =>
      rw [List.nil_append, CommentStyle.anyFrom, Bool.or_eq_false_iff] at h
      rw [CommentStyle.anyFrom, h.2, Bool.false_and, Bool.or_false]
  | cons c front ih =>
    rw [List.cons_append, CommentStyle.anyFrom, Bool.or_eq_false_iff] at h
    exact ih h.2

/-- Blanks in front of a text make no difference to where comments begin. -/
theorem anyComment_cons (p : Opening → List Char → Bool) (h : isBlank c = true) (cs : List Char) :
    style.anyComment p (c :: cs) = style.anyComment p cs := by
  rw [anyComment_eq]
  cases hc : Piece.onLine c with
  | true => rw [lineOf_cons hc, behindLine_cons hc, opening?_cons h, ← anyComment_eq]
  | false =>
    have hline : lineOf ('\n' :: cs) = [] := rfl
    rw [onLine_eq_false_iff.1 hc, behindLine_break, hline, opening?_nil]
    rfl

theorem anyComment_of_none {p : Opening → List Char → Bool}
    (ho : style.opening? (lineOf cs) = none) :
    style.anyComment p cs = style.anyComment p (behindLine cs) := by
  rw [anyComment_eq, ho]
  rfl

theorem anyComment_of_some {p : Opening → List Char → Bool}
    (ho : style.opening? (lineOf cs) = some o) :
    style.anyComment p cs = (p o (behindLine cs) || style.anyComment p (behindLine cs)) := by
  rw [anyComment_eq, ho, Option.any_some]

theorem anyComment_trimLeft (p : Opening → List Char → Bool) (cs : List Char) :
    style.anyComment p (trimLeft cs) = style.anyComment p cs :=
  apply_trimLeft (fun _ cs hc => anyComment_cons p hc cs) cs

/-- A comment that does not stray says what its line tells. -/
theorem saying_lineComment? {below : List Char}
    (ho : style.opening? line = some (.toLineEnd rest))
    (hstray : style.strays (.toLineEnd rest) below = false) :
    saying (style.lineComment? line).toList = (saying [rest]).filter style.keeps := by
  rw [filter_keeps_saying, CommentStyle.lineComment?, ho, Option.bind_some]
  cases style with
  | ignored => rfl
  | slashes => rfl
  | hash =>
    by_cases hhead : rest.head? = some '!'
    · obtain ⟨more, rfl⟩ := List.head?_eq_some_iff.1 hhead
      rfl
    · rw [CommentStyle.strays, bne_iff_ne.2 hhead, Bool.true_and, Bool.not_eq_false'] at hstray
      rw [if_pos hstray]
      simp [hhead]

/-- A line that is not documentation begins no comment. -/
theorem opening?_of_keeps (h : style.keeps cs = false) : style.opening? (lineOf cs) = none := by
  cases style with
  | ignored => rfl
  | slashes => cases h
  | hash =>
    have hhead : cs.head? = some '!' := by simpa [CommentStyle.keeps] using h
    obtain ⟨more, rfl⟩ := List.head?_eq_some_iff.1 hhead
    rfl

/-! ### How much is said -/

/-- How much texts say. -/
def weight : List (List Char) → Nat
  | [] => 0
  | text :: texts => text.length + 1 + weight texts

theorem weight_append (texts others : List (List Char)) :
    weight (texts ++ others) = weight texts + weight others := by
  induction texts with
  | nil => exact (Nat.zero_add _).symm
  | cons text texts ih => rw [List.cons_append, weight, ih, weight, Nat.add_assoc (_ + 1)]

/-- Texts with something in each weigh at least two. -/
theorem two_le_weight {texts : List (List Char)} (hne : texts ≠ [])
    (h : ∀ text ∈ texts, text ≠ []) : 2 ≤ weight texts := by
  obtain ⟨text, texts, rfl⟩ := List.exists_cons_of_ne_nil hne
  have hpos := List.length_pos_of_ne_nil (h text List.mem_cons_self)
  rw [weight]
  omega

theorem length_joinWith {texts : List (List Char)} (h : texts ≠ []) :
    (Text.joinWith [' '] texts).length + 1 = weight texts := by
  induction texts with
  | nil => exact absurd rfl h
  | cons text texts ih =>
    cases texts with
    | nil => rfl
    | cons other texts =>
      have hmore := ih (List.cons_ne_nil other texts)
      rw [Text.joinWith.eq_3 _ _ _ (List.cons_ne_nil _ _), weight, ← hmore, List.length_append,
        List.length_append, List.length_singleton]
      omega

/-- Texts that say more are longer when joined. -/
theorem length_joinWith_lt {told read : List (List Char)} (h : weight told < weight read)
    (hread : ∀ text ∈ read, text ≠ []) :
    (Text.joinWith [' '] told).length < (Text.joinWith [' '] read).length := by
  have hne : read ≠ [] := fun hnil => by rw [hnil] at h; exact absurd h (Nat.not_lt_zero _)
  have hlen := length_joinWith hne
  cases told with
  | nil =>
    have hle := two_le_weight hne hread
    rw [Text.joinWith, List.length_nil]
    omega
  | cons text told =>
    have htold := length_joinWith (List.cons_ne_nil text told)
    omega

/-- What is seen behind a mark is less than the line has. -/
theorem length_text_lt (ho : style.opening? line = some o) :
    (trimRight o.text).length < (trimBoth line).length := by
  obtain ⟨marker, hne, htrim⟩ := exists_marker ho
  have hpos := List.length_pos_of_ne_nil hne
  cases hblank : allBlank o.text with
  | true =>
    rw [Text.trimRight_eq_nil_iff.2 hblank]
    refine List.length_pos_of_ne_nil fun hnil => ?_
    rw [Text.trimLeft_eq_nil_iff.2 (Text.trimBoth_eq_nil_iff.1 hnil)] at htrim
    exact hne (List.append_eq_nil_iff.1 htrim.symm).1
  | false =>
    rw [trimBoth, htrim, Text.trimRight_append_of_not_blank hblank, List.length_append]
    omega

/-- A comment that is closed is no longer than what is left of its line. -/
theorem length_trimBoth_of_cutAt? {text after : List Char}
    (h : cutAt? closer rest = some (text, after)) :
    (trimBoth text).length ≤ (trimRight rest).length := by
  have hmark : allBlank (closer ++ after) = false := rfl
  have hle : (trimRight text).length ≤ text.length :=
    List.IsPrefix.length_le (Text.trimRight_prefix text)
  rw [cutAt?_eq h, List.append_assoc, Text.trimRight_append_of_not_blank hmark, List.length_append]
  exact (Text.length_trimBoth_le text).trans (hle.trans (Nat.le_add_right _ _))

/-- The comment on a line says less than the line. -/
theorem weight_lineComment_lt (h : allBlank line = false) :
    weight (saying (style.lineComment? line).toList) < weight (saying [line]) := by
  rw [saying_of_not_blank h]
  cases htext : style.lineComment? line with
  | none => exact Nat.succ_pos _
  | some text =>
    obtain ⟨o, ho, hsays⟩ := Option.bind_eq_some_iff.1 htext
    have hlt : (trimBoth text).length < (trimBoth line).length := by
      refine Nat.lt_of_le_of_lt ?_ (length_text_lt ho)
      cases o with
      | toLineEnd rest =>
        dsimp only at hsays
        split at hsays
        · cases hsays
        · cases hsays
          exact Text.length_trimBoth_le _
      | enclosed rest =>
        obtain ⟨⟨text, after⟩, hcut, rfl⟩ := Option.map_eq_some_iff.1 hsays
        exact length_trimBoth_of_cutAt? hcut
    rw [Option.toList_some]
    cases hblank : allBlank text with
    | true =>
      rw [saying_of_blank hblank]
      exact Nat.succ_pos _
    | false =>
      rw [saying_of_not_blank hblank]
      exact Nat.succ_lt_succ hlt

/-- What is read is what the lines tell, or more where a comment runs over. -/
def Apart (more : Bool) (told read : List (List Char)) : Prop :=
  if more then weight told < weight read else read = told

/-- What is told says no more than what is read. -/
theorem Apart.weight_le {more : Bool} {told read : List (List Char)} (h : Apart more told read) :
    weight told ≤ weight read := by
  cases more with
  | false => exact Nat.le_of_eq (congrArg weight (Eq.symm h))
  | true => exact Nat.le_of_lt h

/-- The same texts in front of both make no difference. -/
theorem Apart.append {more : Bool} {told read : List (List Char)} (h : Apart more told read)
    (texts : List (List Char)) : Apart more (texts ++ told) (texts ++ read) := by
  cases more with
  | false => exact congrArg (texts ++ ·) h
  | true =>
    have hlt : weight told < weight read := h
    exact show weight _ < weight _ by rw [weight_append, weight_append]; omega

/-! ### Line after line -/

namespace CommentStyle

/-- What is read of a text is what its lines tell, or more if a comment runs over. -/
def ReadsByLine (style : CommentStyle) (cs : List Char) : Prop :=
  Apart (style.anyComment style.runsOver cs) (style.lineRead cs) (style.read cs)

namespace ReadsByLine

theorem nil (style : CommentStyle) : style.ReadsByLine [] := by cases style <;> exact rfl

/-- A line without a comment is passed over. -/
theorem of_none (ho : style.opening? (lineOf cs) = none)
    (h : style.ReadsByLine (behindLine cs)) : style.ReadsByLine cs := by
  rw [ReadsByLine, anyComment_of_none ho, lineRead_of_none (lineComment?_of_none ho),
    read_of_opening?_none ho]
  exact h

/-- A comment that says something on its line is read up to the end of the line. -/
theorem of_toLineEnd (ho : style.opening? (lineOf cs) = some (.toLineEnd rest))
    (hrest : allBlank rest = false)
    (hstray : style.strays (.toLineEnd rest) (behindLine cs) = false)
    (h : style.ReadsByLine (behindLine cs)) : style.ReadsByLine cs := by
  rw [ReadsByLine, anyComment_of_some ho, runsOver, hrest, Bool.false_and, Bool.false_and,
    Bool.false_or, lineRead_eq, saying_lineComment? ho hstray, read_of_toLineEnd ho hrest]
  exact h.append _

/-- A comment that is closed on its line is read up to there. -/
theorem of_closed {text after : List Char}
    (ho : style.opening? (lineOf cs) = some (.enclosed rest))
    (hcut : cutAt? closer rest = some (text, after))
    (h : style.ReadsByLine (behindLine cs)) : style.ReadsByLine cs := by
  have htext : style.lineComment? (lineOf cs) = some text := by
    rw [lineComment?_of_enclosed ho, hcut, Option.map_some]
  have hkeeps : (saying [text]).filter style.keeps = saying [text] :=
    List.filter_eq_self.2 fun _ _ => by rw [style_of_enclosed ho]; rfl
  have hover : style.runsOver (.enclosed rest) (behindLine cs) = false := by
    rw [runsOver, hcut, Option.isNone_some, Bool.false_and]
  rw [ReadsByLine, anyComment_of_some ho, hover, Bool.false_or, lineRead_eq, htext,
    read_of_closed ho hcut, hkeeps]
  exact h.append _

/-- A comment that is not closed on its line is not read, unless it runs over. -/
theorem of_open (ho : style.opening? (lineOf cs) = some (.enclosed rest))
    (hnone : cutAt? closer rest = none)
    (hover : style.runsOver (.enclosed rest) (behindLine cs) = false)
    (h : style.ReadsByLine (behindLine cs)) : style.ReadsByLine cs := by
  have hbelow (text after : List Char)
      (hcut : cutAt? closer (rest ++ '\n' :: behindLine cs) = some (text, after))
      (hall : (trimBoth text).all Piece.onLine = true) : allBlank text = true := by
    simpa [runsOver, hnone, hcut, hall] using hover
  rw [ReadsByLine, anyComment_of_some ho, hover, Bool.false_or,
    lineRead_of_none (by rw [lineComment?_of_enclosed ho, hnone, Option.map_none]),
    read_of_open ho hnone hbelow]
  exact h

/-- A comment that runs over is read up to where it is closed, and says what no line
    tells. -/
theorem of_reaching {text after : List Char}
    (ho : style.opening? (lineOf cs) = some (.enclosed rest)) (hnone : cutAt? closer rest = none)
    (hcut : cutAt? closer (rest ++ '\n' :: behindLine cs) = some (text, after))
    (hover : style.runsOver (.enclosed rest) (behindLine cs) = true)
    (hstray : style.strays (.enclosed rest) (behindLine cs) = false)
    (h : style.ReadsByLine (behindLine after)) : style.ReadsByLine cs := by
  have htext : allBlank text = false ∧ (trimBoth text).all Piece.onLine = true := by
    simpa [runsOver, hnone, hcut] using hover
  have htold : style.lineComments (behindLine cs) = style.lineComments (behindLine after) := by
    obtain ⟨more, rfl, hbelow⟩ := below_eq_of_cutAt? hnone hcut
    obtain ⟨tail, hafter, htail⟩ := exists_tail after
    have hmore : behindLine (rest ++ '\n' :: more) = more :=
      (behindLine_append (all_text ho) _).trans (behindLine_break more)
    have hspan : style.lineComments (more ++ closer ++ lineOf after) = [] := by
      simpa [strays, hover, hcut, hmore] using hstray
    have hsplit : behindLine cs = more ++ closer ++ lineOf after ++ tail := by
      rw [hbelow, List.append_assoc (more ++ closer), ← hafter]
    rw [hsplit, lineComments_append _ htail, hspan, List.nil_append]
  have hkeeps : (saying [text]).filter style.keeps = [trimBoth text] := by
    rw [saying_of_not_blank htext.1, List.filter_eq_self]
    exact fun _ _ => by rw [style_of_enclosed ho]; rfl
  have hle := h.weight_le
  have hpos : 0 < weight [trimBoth text] := Nat.succ_pos _
  rw [ReadsByLine, anyComment_of_some ho, hover, Bool.true_or,
    lineRead_of_none (by rw [lineComment?_of_enclosed ho, hnone, Option.map_none]),
    read_of_reaching ho hnone hcut htext.2, hkeeps, lineRead, htold, ← lineRead]
  exact show weight _ < weight _ by rw [weight_append]; omega

/-- Behind an enclosed comment, the text goes on on the next line, or behind the line on
    which the comment is closed. -/
theorem of_enclosed (ho : style.opening? (lineOf cs) = some (.enclosed rest))
    (hstray : style.strays (.enclosed rest) (behindLine cs) = false)
    (h : style.ReadsByLine (behindLine cs))
    (hbelow : ∀ more after, behindLine cs = more ++ closer ++ after →
      style.ReadsByLine (behindLine after)) : style.ReadsByLine cs := by
  cases hclosed : cutAt? closer rest with
  | some cut => exact of_closed ho hclosed h
  | none =>
    cases hover : style.runsOver (.enclosed rest) (behindLine cs) with
    | false => exact of_open ho hclosed hover h
    | true =>
      cases hcut : cutAt? closer (rest ++ '\n' :: behindLine cs) with
      | none => simp [runsOver, hcut] at hover
      | some cut =>
        obtain ⟨text, after⟩ := cut
        obtain ⟨more, -, hmark⟩ := below_eq_of_cutAt? hclosed hcut
        exact of_reaching ho hclosed hcut hover hstray (hbelow more after hmark)

/-- A line that a comment above it takes says more than it tells, if it is taken as
    documentation, and nothing otherwise. -/
theorem of_taken (hc : isBlank c = false) (h : style.ReadsByLine (behindLine (c :: cs))) :
    Apart (style.keeps (c :: cs) || style.anyComment style.runsOver (c :: cs))
      (style.lineRead (c :: cs))
      ((saying [lineOf (c :: cs)]).filter style.keeps ++ style.read (behindLine (c :: cs))) := by
  have hline := lineOf_cons_of_not_blank hc cs
  have htaken : (saying [lineOf (c :: cs)]).filter style.keeps =
      if style.keeps (c :: cs) then saying [lineOf (c :: cs)] else [] := by
    have hhead : (trimLeft (lineOf (c :: cs))).head? = (c :: cs).head? := by
      rw [hline, Text.trimLeft_cons_of_not_blank hc, List.head?_cons, List.head?_cons]
    rw [filter_keeps_saying, keeps_congr hhead]
  rw [htaken]
  cases hkeeps : style.keeps (c :: cs) with
  | true =>
    have hlt : weight (saying (style.lineComment? (lineOf (c :: cs))).toList) <
        weight (saying [lineOf (c :: cs)]) :=
      weight_lineComment_lt (by rw [hline, allBlank, List.all_cons, hc, Bool.false_and])
    have hle := h.weight_le
    rw [if_pos rfl, Bool.true_or, lineRead_eq]
    exact show weight _ < weight _ by rw [weight_append, weight_append]; omega
  | false =>
    have ho := opening?_of_keeps hkeeps
    rw [if_neg Bool.false_ne_true, Bool.false_or, anyComment_of_none ho,
      lineRead_of_none (lineComment?_of_none ho)]
    exact h

/-- A comment that says nothing on its line takes the next line that is not blank. -/
theorem of_empty (ho : style.opening? (lineOf cs) = some (.toLineEnd rest))
    (hrest : allBlank rest = true)
    (hstray : style.strays (.toLineEnd rest) (behindLine cs) = false)
    (h : style.ReadsByLine (behindLine (trimLeft (behindLine cs)))) : style.ReadsByLine cs := by
  rw [ReadsByLine, anyComment_of_some ho, runsOver, hrest, Bool.true_and, lineRead_eq,
    saying_lineComment? ho hstray, read_of_empty ho hrest, saying_of_blank hrest, List.filter_nil,
    List.nil_append, ← anyComment_trimLeft, ← lineRead_trimLeft]
  cases hnext : trimLeft (behindLine cs) with
  | nil =>
    rw [Text.trimLeft_eq_nil_iff.1 hnext]
    exact nil style
  | cons c next =>
    have hblank : allBlank (behindLine cs) = false := Bool.eq_false_iff.2 fun hall => by
      rw [Text.trimLeft_eq_nil_iff.2 hall] at hnext
      cases hnext
    rw [hnext] at h
    rw [hblank, Bool.not_false, Bool.true_and]
    exact of_taken (Text.isBlank_of_trimLeft hnext) h

end ReadsByLine

/-- Where no comment strays, a text is read line by line, or says more than its lines. -/
theorem readsByLine (cs : List Char) (h : style.anyComment style.strays cs = false) :
    style.ReadsByLine cs := by
  induction hlen : cs.length using Nat.strong_induction_on generalizing cs with
  | _ n ih =>
    subst hlen
    by_cases hnil : cs = []
    · exact hnil ▸ .nil style
    have hlt := length_behindLine_lt hnil
    cases ho : style.opening? (lineOf cs) with
    | none =>
      rw [anyComment_of_none ho] at h
      exact .of_none ho (ih _ hlt _ h rfl)
    | some o =>
      rw [anyComment_of_some ho, Bool.or_eq_false_iff] at h
      have hbelow := ih _ hlt _ h.2 rfl
      cases o with
      | enclosed rest =>
        refine .of_enclosed ho h.1 hbelow fun more after hmark => ?_
        have hlen := congrArg List.length hmark
        have hle := length_behindLine_le after
        rw [List.length_append] at hlen
        rw [hmark] at h
        exact ih _ (by omega) _ (anyComment_behind h.2) rfl
      | toLineEnd rest =>
        cases hrest : allBlank rest with
        | false => exact .of_toLineEnd ho hrest h.1 hbelow
        | true =>
          have hle : (behindLine (trimLeft (behindLine cs))).length < cs.length :=
            (length_behindLine_le _).trans_lt
              ((List.dropWhile_suffix isBlank).length_le.trans_lt hlt)
          have hnext := (anyComment_trimLeft style.strays (behindLine cs)).trans h.2
          rw [anyComment_eq, Bool.or_eq_false_iff] at hnext
          exact .of_empty ho hrest h.1 (ih _ hle _ hnext.2 rfl)

end CommentStyle

/-- If no comment strays, the documentation of a source is what its lines tell if
    no comment runs over, and only then. -/
theorem LineGrammar.doc_eq_iff (g : LineGrammar) (source : List Char)
    (h : g.comments.anyComment g.comments.strays source = false) :
    g.doc source = String.ofList (g.comments.lineDoc source) ↔
      g.comments.anyComment g.comments.runsOver source = false := by
  have hread := CommentStyle.readsByLine source h
  rw [doc, String.ofList_inj, doc_eq, lineDoc_eq]
  unfold CommentStyle.ReadsByLine at hread
  cases hover : g.comments.anyComment g.comments.runsOver source with
  | false =>
    rw [hover] at hread
    have heq : g.comments.read source = g.comments.lineRead source := hread
    simp [heq]
  | true =>
    rw [hover] at hread
    have hlt := length_joinWith_lt hread fun _ => ne_nil_of_mem_read
    simp only [Bool.true_eq_false, iff_false]
    exact fun heq => Nat.ne_of_gt hlt (congrArg List.length heq)

/-- A source with a comment of each kind, one of them on two lines. -/
def annotated : List Char :=
  ("// Keeps the index.\n\n/** Opened once. */\nclass Index \x7b\n" ++
    "  /** Read\n   * on. */\n  // Closed.\n\x7d\n").toList

theorem LineGrammar.doc_eq_iff_annotated :
    java.comments.anyComment java.comments.strays annotated = false ∧
      java.comments.anyComment java.comments.runsOver annotated = false ∧
      java.doc annotated = String.ofList (java.comments.lineDoc annotated) ∧
      String.ofList (java.comments.lineDoc annotated) = "Keeps the index. Opened once. Closed." :=
  ⟨by decide, by decide, (LineGrammar.doc_eq_iff java annotated (by decide)).2 (by decide),
    by decide⟩

/-- The code below a comment with nothing behind its marker is taken for its text. -/
theorem LineGrammar.takes_line_below :
    java.doc "//\nint x = 1;\n".toList = "int x = 1;" ∧
      java.comments.lineDoc "//\nint x = 1;\n".toList = [] := by
  decide

end RepoAtlas.Scan
