import RepoAtlas.Proofs.Scan.Comment
import RepoAtlas.Scan.LineGrammar

/-!
# Comments one after the other

A comment is seen where a line begins one (`Opening`), and read from there
(`Opening.read?`); the next is looked for behind the line on which it ends
(`found_eq`). So what a text says (`CommentStyle.read`) is what the comment on
its first line says, and what is read below:

* `read_of_opening?_none`, `read_of_toLineEnd`, `read_of_closed`: below the line,
  as one expects;
* `read_of_empty`: below the next line that is not blank, which is taken for the
  text of a comment that has none;
* `read_of_reaching`: below the line of the closing mark, where it stands below
  and the text between the marks is on one line, which is said;
* `read_of_open`: below the line, where a comment goes on there in any other way.
-/

namespace RepoAtlas.Scan

open Text (isBlank trimLeft trimRight trimBoth allBlank)

/-! ### Lines of a text -/

/-- The first line of a text. -/
def lineOf (cs : List Char) : List Char := cs.takeWhile Piece.onLine

/-- What follows the first line of a text. -/
def behindLine (cs : List Char) : List Char := (cs.dropWhile Piece.onLine).drop 1

/-- What stands behind the first line of a text, its break included. -/
def IsTail (cs tail : List Char) : Prop :=
  tail = [] ∧ behindLine cs = [] ∨ tail = '\n' :: behindLine cs

variable {style : CommentStyle} {cs line rest tail : List Char} {c : Char}

theorem onLine_eq_false_iff : Piece.onLine c = false ↔ c = '\n' := by simp [Piece.onLine]

theorem all_onLine_iff : cs.all Piece.onLine = true ↔ '\n' ∉ cs := by
  simp only [List.all_eq_true, Piece.onLine, bne_iff_ne]
  exact ⟨fun h hmem => h _ hmem rfl, fun h c hc heq => h (heq ▸ hc)⟩

theorem lineOf_cons (h : Piece.onLine c = true) : lineOf (c :: cs) = c :: lineOf cs :=
  List.takeWhile_cons_of_pos h

theorem lineOf_cons_of_not_blank (h : isBlank c = false) (cs : List Char) :
    lineOf (c :: cs) = c :: lineOf cs := by
  refine lineOf_cons (Bool.of_not_eq_false fun hbreak => ?_)
  rw [onLine_eq_false_iff.1 hbreak] at h
  cases h

theorem behindLine_cons (h : Piece.onLine c = true) : behindLine (c :: cs) = behindLine cs := by
  rw [behindLine, List.dropWhile_cons_of_pos h, behindLine]

theorem behindLine_break (cs : List Char) : behindLine ('\n' :: cs) = cs := rfl

theorem behindLine_append (h : line.all Piece.onLine = true) (tail : List Char) :
    behindLine (line ++ tail) = behindLine tail := by
  rw [behindLine, List.dropWhile_append_of_pos (List.all_eq_true.1 h), behindLine]

/-- A line ends where a break follows. -/
theorem lineOf_append (h : line.all Piece.onLine = true) (htail : ∀ c ∈ tail.head?, c = '\n') :
    lineOf (line ++ tail) = line := by
  have hnil : tail.takeWhile Piece.onLine = [] := by
    cases tail with
    | nil => rfl
    | cons c tail => rw [htail c rfl]; rfl
  rw [lineOf, List.takeWhile_append_of_pos (List.all_eq_true.1 h), hnil, List.append_nil]

theorem behindLine_dropWhile (cs : List Char) :
    behindLine (cs.dropWhile Piece.onLine) = behindLine cs := by
  rw [behindLine, List.dropWhile_idempotent, behindLine]

theorem all_lineOf (cs : List Char) : (lineOf cs).all Piece.onLine = true := List.all_takeWhile

/-- A text is its first line, and nothing or a break and what follows the line. -/
theorem exists_tail (cs : List Char) : ∃ tail, cs = lineOf cs ++ tail ∧ IsTail cs tail := by
  refine ⟨_, (List.takeWhile_append_dropWhile (p := Piece.onLine)).symm, ?_⟩
  unfold IsTail behindLine
  cases htail : cs.dropWhile Piece.onLine with
  | nil => exact .inl ⟨rfl, rfl⟩
  | cons c tail =>
    have hne : cs.dropWhile Piece.onLine ≠ [] := htail ▸ List.cons_ne_nil _ _
    have hhead := List.head_dropWhile_not Piece.onLine hne
    simp only [htail, List.head_cons] at hhead
    exact .inr (by rw [onLine_eq_false_iff.1 hhead, List.drop_one, List.tail_cons])

theorem length_behindLine_le (cs : List Char) : (behindLine cs).length ≤ cs.length := by
  rw [behindLine, List.length_drop]
  exact (Nat.sub_le _ _).trans (List.dropWhile_suffix _).length_le

/-- Behind its first line, a text that is not empty is shorter. -/
theorem length_behindLine_lt (h : cs ≠ []) : (behindLine cs).length < cs.length := by
  have hle : (cs.dropWhile Piece.onLine).length ≤ cs.length := (List.dropWhile_suffix _).length_le
  have hpos := List.length_pos_of_ne_nil h
  rw [behindLine, List.length_drop]
  omega

/-- Behind what is left of a line stands what stands behind the line. -/
theorem IsTail.behindLine_eq (h : IsTail cs tail) : behindLine tail = behindLine cs := by
  obtain ⟨rfl, hbelow⟩ | rfl := h
  · rw [hbelow]
    rfl
  · rfl

theorem IsTail.onLine_head? (h : IsTail cs tail) : ∀ c ∈ tail.head?, c = '\n' := by
  obtain ⟨rfl, -⟩ | rfl := h <;> simp

theorem IsTail.trimLeft_eq (h : IsTail cs tail) : trimLeft tail = trimLeft (behindLine cs) := by
  obtain ⟨rfl, hbelow⟩ | rfl := h
  · rw [hbelow]
  · exact Text.trimLeft_cons_of_blank rfl

/-- What does not see a blank at the front does not see any of them. -/
theorem apply_trimLeft {β : Type} {f : List Char → β}
    (h : ∀ c cs, isBlank c = true → f (c :: cs) = f cs) (cs : List Char) :
    f (trimLeft cs) = f cs := by
  induction cs with
  | nil => rfl
  | cons c cs ih =>
    cases hc : isBlank c with
    | true => rw [Text.trimLeft_cons_of_blank hc, ih, h c cs hc]
    | false => rw [Text.trimLeft_cons_of_not_blank hc]

/-! ### Openings -/

/-- How a line begins a comment. -/
inductive Opening where
  /-- The comment ends with its line, and has the given text behind its marker. -/
  | toLineEnd (rest : List Char)
  /-- The comment ends with a closing mark, and has the given text behind the
      opening one. -/
  | enclosed (rest : List Char)
  deriving DecidableEq

namespace Opening

/-- A comment of which more is seen. -/
def append (o : Opening) (more : List Char) : Opening :=
  match o with
  | .toLineEnd rest => .toLineEnd (rest ++ more)
  | .enclosed rest => .enclosed (rest ++ more)

/-- What is seen behind the mark of an opening. -/
def text : Opening → List Char
  | .toLineEnd rest => rest
  | .enclosed rest => rest

/-- The comment that an opening begins, and what follows it. -/
def read? : Opening → Option Match
  | .toLineEnd rest =>
    some ⟨(trimLeft rest).takeWhile Piece.onLine, (trimLeft rest).dropWhile Piece.onLine⟩
  | .enclosed rest =>
    (cutAt? closer rest).bind fun (front, rest) =>
      if (trimBoth front).all Piece.onLine then some ⟨trimBoth front, rest⟩ else none

end Opening

/-- How a text begins a comment, if it does. -/
def CommentStyle.opening? (style : CommentStyle) (cs : List Char) : Option Opening :=
  match style with
  | .ignored => none
  | .slashes =>
    (behind? "//".toList cs).map .toLineEnd <|> (behind? "/**".toList cs).map .enclosed
  | .hash => (behind? "#".toList cs).map .toLineEnd

variable {o : Opening}

theorem opening?_nil : style.opening? [] = none := by cases style <;> rfl

/-- Blanks in front make no difference to how a comment begins. -/
theorem opening?_cons (h : isBlank c = true) (cs : List Char) :
    style.opening? (c :: cs) = style.opening? cs := by
  simp only [CommentStyle.opening?, behind?, Text.trimLeft_cons_of_blank h]

/-- An opening has a mark, with nothing but blanks before it. -/
theorem exists_marker (h : style.opening? cs = some o) :
    ∃ marker, marker ≠ [] ∧ trimLeft cs = marker ++ o.text := by
  cases style with
  | ignored => cases h
  | slashes =>
    rw [CommentStyle.opening?] at h
    cases hslashes : behind? "//".toList cs with
    | some rest =>
      rw [hslashes] at h
      cases h
      exact ⟨_, by decide, dropWord?_eq_some_iff.1 hslashes⟩
    | none =>
      rw [hslashes] at h
      obtain ⟨rest, hrest, rfl⟩ := Option.map_eq_some_iff.1 h
      exact ⟨_, by decide, dropWord?_eq_some_iff.1 hrest⟩
  | hash =>
    obtain ⟨rest, hrest, rfl⟩ := Option.map_eq_some_iff.1 h
    exact ⟨_, by decide, dropWord?_eq_some_iff.1 hrest⟩

/-- A comment begins on a line that is not blank. -/
theorem allBlank_of_opening? (ho : style.opening? line = some o) :
    allBlank line = false := by
  refine Bool.eq_false_iff.2 fun hblank => ?_
  obtain ⟨marker, hne, htrim⟩ := exists_marker ho
  rw [Text.trimLeft_eq_nil_iff.2 hblank] at htrim
  exact hne (List.append_eq_nil_iff.1 htrim.symm).1

/-- Enclosed comments are those of slashes. -/
theorem style_of_enclosed (ho : style.opening? line = some (.enclosed rest)) :
    style = .slashes := by
  cases style with
  | ignored => cases ho
  | slashes => rfl
  | hash => simp [CommentStyle.opening?] at ho

/-- What a line has behind a marker goes on behind the line. -/
theorem behind?_append {word : List Char} (hword : IsMarker word) (h : allBlank line = false)
    (htail : ∀ c ∈ tail.head?, isBlank c = true) :
    behind? word (line ++ tail) = (behind? word line).map (· ++ tail) := by
  rw [behind?, behind?, Text.trimLeft_append_of_not_blank h]
  cases hdrop : dropWord? word (trimLeft line) with
  | some rest => exact dropWord?_append hdrop tail
  | none =>
    refine dropWord?_append_of_none hdrop fun c hc hmem => ?_
    have hblank := htail c hc
    rw [hword.2 c hmem] at hblank
    cases hblank

theorem opening?_append (h : allBlank line = false) (htail : ∀ c ∈ tail.head?, isBlank c = true) :
    style.opening? (line ++ tail) = (style.opening? line).map (·.append tail) := by
  cases style with
  | ignored => rfl
  | slashes =>
    rw [CommentStyle.opening?, CommentStyle.opening?, behind?_append (by decide) h htail,
      behind?_append (by decide) h htail]
    cases behind? "//".toList line <;> cases behind? "/**".toList line <;> rfl
  | hash =>
    rw [CommentStyle.opening?, CommentStyle.opening?, behind?_append (by decide) h htail]
    cases behind? "#".toList line <;> rfl

/-- A comment that begins on a line that is not blank goes on behind the line. -/
theorem opening?_eq (style : CommentStyle) (hline : allBlank (lineOf cs) = false) :
    ∃ tail, IsTail cs tail ∧
      style.opening? cs = (style.opening? (lineOf cs)).map (·.append tail) := by
  obtain ⟨tail, hcs, htail⟩ := exists_tail cs
  refine ⟨tail, htail, ?_⟩
  conv => lhs; rw [hcs]
  refine opening?_append hline fun c hc => ?_
  rw [htail.onLine_head? c hc]
  rfl

/-- What is seen behind a mark is on the line of the mark. -/
theorem all_text (ho : style.opening? (lineOf cs) = some o) :
    o.text.all Piece.onLine = true := by
  obtain ⟨marker, -, htrim⟩ := exists_marker ho
  have hsuffix : o.text <:+ lineOf cs :=
    (htrim ▸ List.suffix_append marker o.text).trans (List.dropWhile_suffix _)
  exact List.all_eq_true.2 fun c hc => List.all_eq_true.1 (all_lineOf cs) c (hsuffix.subset hc)

/-! ### Comments -/

/-- The comments of a text that begins a line. -/
def CommentStyle.found (style : CommentStyle) (cs : List Char) : List (List Char) :=
  commentsFrom style.patterns (cs.length + 1) true cs

/-- The first pattern that fits reads what the opening of the text begins. -/
theorem findSome?_patterns (cs : List Char) :
    style.patterns.findSome? (·.matchHere? cs) = (style.opening? cs).bind Opening.read? := by
  have hline {marker : String} (h : IsMarker marker.toList) :
      (CommentStyle.toLineEnd marker).matchHere? cs =
        ((behind? marker.toList cs).map .toLineEnd).bind Opening.read? := by
    rw [matchHere?_toLineEnd h, Option.bind_map, Option.map_eq_bind]
    rfl
  have henclosed : CommentStyle.enclosed.matchHere? cs =
      ((behind? "/**".toList cs).map .enclosed).bind Opening.read? := by
    rw [matchHere?_enclosed, Option.bind_map]
    rfl
  cases style with
  | ignored => rfl
  | slashes =>
    rw [CommentStyle.patterns, List.findSome?_cons, List.findSome?_singleton, henclosed,
      hline (by decide), CommentStyle.opening?]
    cases behind? "//".toList cs <;> rfl
  | hash =>
    rw [CommentStyle.patterns, List.findSome?_singleton, hline (by decide), CommentStyle.opening?]

/-- What stands behind a comment is part of what stands behind its opening. -/
theorem length_read?_le {m : Match} (h : o.read? = some m) :
    m.rest.length ≤ o.text.length := by
  cases o with
  | toLineEnd rest =>
    cases h
    exact ((List.dropWhile_suffix _).trans (List.dropWhile_suffix _)).length_le
  | enclosed rest =>
    obtain ⟨⟨front, after⟩, hcut, hsome⟩ := Option.bind_eq_some_iff.1 h
    dsimp only at hsome
    split at hsome
    · cases hsome
      rw [Opening.text, cutAt?_eq hcut, List.length_append]
      exact Nat.le_add_left _ _
    · cases hsome

/-- A comment is not empty. -/
theorem length_comment_lt {m : Match} (h : (style.opening? cs).bind Opening.read? = some m) :
    m.rest.length < cs.length := by
  obtain ⟨o, ho, hread⟩ := Option.bind_eq_some_iff.1 h
  obtain ⟨marker, hne, hcs⟩ := exists_marker ho
  have hlen := congrArg List.length hcs
  have htrim : (trimLeft cs).length ≤ cs.length := (List.dropWhile_suffix isBlank).length_le
  have hpos := List.length_pos_of_ne_nil hne
  have hle := length_read?_le hread
  rw [List.length_append] at hlen
  omega

theorem commentsFrom_succ (fuel : Nat) (atStart : Bool) (cs : List Char) :
    CommentStyle.commentsFrom style.patterns (fuel + 1) atStart cs =
      match if atStart then (style.opening? cs).bind Opening.read? else none with
      | some m => m.kept :: CommentStyle.commentsFrom style.patterns fuel false m.rest
      | none =>
        match cs with
        | [] => []
        | c :: rest => CommentStyle.commentsFrom style.patterns fuel (c == '\n') rest := by
  rw [← findSome?_patterns]
  rfl

/-- More fuel than there is text does not matter. -/
theorem commentsFrom_fuel {fuel more : Nat} (h : cs.length < fuel) (hle : fuel ≤ more)
    (atStart : Bool) :
    CommentStyle.commentsFrom style.patterns more atStart cs =
      CommentStyle.commentsFrom style.patterns fuel atStart cs := by
  induction fuel generalizing more atStart cs with
  | zero => omega
  | succ fuel ih =>
    obtain ⟨more, rfl⟩ : ∃ n, more = n + 1 := ⟨more - 1, by omega⟩
    rw [commentsFrom_succ, commentsFrom_succ]
    split
    · rename_i m hm
      have hlt : m.rest.length < cs.length := by
        split at hm
        · exact length_comment_lt hm
        · cases hm
      rw [ih (by omega) (by omega)]
    · cases cs with
      | nil => rfl
      | cons c cs =>
        rw [List.length_cons] at h
        exact ih (by omega) (by omega) _

/-- Within a line, comments are looked for behind it. -/
theorem commentsFrom_behind {fuel : Nat} (h : cs.length < fuel) :
    CommentStyle.commentsFrom style.patterns fuel false cs = style.found (behindLine cs) := by
  induction cs generalizing fuel with
  | nil =>
    obtain ⟨fuel, rfl⟩ : ∃ n, fuel = n + 1 := ⟨fuel - 1, by omega⟩
    rw [commentsFrom_succ, CommentStyle.found, behindLine, List.dropWhile_nil, List.drop_nil,
      commentsFrom_succ, opening?_nil]
    rfl
  | cons c cs ih =>
    obtain ⟨fuel, rfl⟩ : ∃ n, fuel = n + 1 := ⟨fuel - 1, by omega⟩
    rw [List.length_cons] at h
    rw [commentsFrom_succ, if_neg Bool.false_ne_true]
    dsimp only
    cases hc : Piece.onLine c with
    | true =>
      have hne : (c == '\n') = false := by simpa [Piece.onLine] using hc
      rw [hne, ih (by omega), behindLine_cons hc]
    | false =>
      rw [onLine_eq_false_iff.1 hc, behindLine_break, CommentStyle.found]
      exact commentsFrom_fuel (Nat.lt_succ_self _) (by omega) true

/-- The comments of a text: the one that it begins, and those behind the line on
    which that ends, or else those behind the first line. -/
theorem found_eq (cs : List Char) :
    style.found cs =
      match (style.opening? cs).bind Opening.read? with
      | some m => m.kept :: style.found (behindLine m.rest)
      | none => style.found (behindLine cs) := by
  rw [CommentStyle.found, commentsFrom_succ, if_pos rfl]
  cases hm : (style.opening? cs).bind Opening.read? with
  | some m => exact congrArg (m.kept :: ·) (commentsFrom_behind (length_comment_lt hm))
  | none =>
    rw [← commentsFrom_behind (Nat.lt_succ_self cs.length), commentsFrom_succ,
      if_neg Bool.false_ne_true]

/-- Blanks in front make no difference to the comments that are found. -/
theorem found_cons (h : isBlank c = true) (cs : List Char) :
    style.found (c :: cs) = style.found cs := by
  rw [found_eq, opening?_cons h]
  cases hc : Piece.onLine c with
  | true => rw [behindLine_cons hc, ← found_eq]
  | false =>
    rw [onLine_eq_false_iff.1 hc, behindLine_break]
    cases hm : (style.opening? cs).bind Opening.read? with
    | some m => rw [found_eq cs, hm]
    | none => rfl

/-! ### What comments say -/

/-- The texts that say something, without the blanks around them. -/
def saying (texts : List (List Char)) : List (List Char) :=
  (texts.map trimBoth).filter fun text => !text.isEmpty

theorem saying_append (texts others : List (List Char)) :
    saying (texts ++ others) = saying texts ++ saying others := by
  rw [saying, List.map_append, List.filter_append, saying, saying]

theorem saying_of_blank (h : allBlank cs = true) : saying [cs] = [] := by
  rw [saying, List.map_singleton, Text.trimBoth_eq_nil_iff.2 h]
  rfl

theorem saying_of_not_blank (h : allBlank cs = false) : saying [cs] = [trimBoth cs] := by
  have hne : trimBoth cs ≠ [] := fun hnil => by
    rw [Text.trimBoth_eq_nil_iff.1 hnil] at h
    cases h
  simp [saying, hne]

theorem saying_trimLeft (cs : List Char) : saying [trimLeft cs] = saying [cs] := by
  rw [saying, List.map_singleton, Text.trimBoth_trimLeft, saying, List.map_singleton]

theorem saying_trimBoth (cs : List Char) : saying [trimBoth cs] = saying [cs] := by
  rw [saying, List.map_singleton, Text.trimBoth_idempotent, saying, List.map_singleton]

/-- What a style keeps depends on the first character alone. -/
theorem keeps_congr (h : cs.head? = line.head?) : style.keeps cs = style.keeps line := by
  cases style <;> simp [CommentStyle.keeps, h]

/-- Whether a text is documentation is seen at its first character that is not blank. -/
theorem filter_keeps_saying (cs : List Char) :
    (saying [cs]).filter style.keeps = if style.keeps (trimLeft cs) then saying [cs] else [] := by
  cases hblank : allBlank cs with
  | true => simp [saying_of_blank hblank]
  | false =>
    rw [saying_of_not_blank hblank, List.filter_singleton, keeps_congr (Text.head?_trimBoth cs),
      cond_eq_ite]

/-- What the comments of a text say that is documentation. -/
def CommentStyle.read (style : CommentStyle) (cs : List Char) : List (List Char) :=
  (saying (style.found cs)).filter style.keeps

theorem doc_eq (source : List Char) :
    style.doc source = Text.joinWith [' '] (style.read source) := by
  rw [CommentStyle.doc, CommentStyle.read, saying, List.filter_filter]
  simp only [Bool.and_comm]
  rfl

/-- All that is read says something. -/
theorem ne_nil_of_mem_read {text : List Char} (h : text ∈ style.read cs) : text ≠ [] := by
  have hsaying := (List.mem_filter.1 (List.mem_filter.1 h).1).2
  rintro rfl
  cases hsaying

/-- A comment says what it keeps, and then what stands below is read. -/
theorem read_of_some {m : Match} (h : (style.opening? cs).bind Opening.read? = some m) :
    style.read cs = (saying [m.kept]).filter style.keeps ++ style.read (behindLine m.rest) := by
  rw [CommentStyle.read, found_eq, h, CommentStyle.read, ← List.filter_append, ← saying_append]
  rfl

/-- A line without a comment is passed over. -/
theorem read_of_none (h : (style.opening? cs).bind Opening.read? = none) :
    style.read cs = style.read (behindLine cs) := by
  rw [CommentStyle.read, found_eq, h, CommentStyle.read]

theorem read_trimLeft (cs : List Char) : style.read (trimLeft cs) = style.read cs :=
  apply_trimLeft (fun c cs hc => by rw [CommentStyle.read, found_cons hc, CommentStyle.read]) cs

/-! ### The comment on the first line -/

/-- A line that begins no comment is not read. -/
theorem read_of_opening?_none (ho : style.opening? (lineOf cs) = none) :
    style.read cs = style.read (behindLine cs) := by
  cases hline : allBlank (lineOf cs) with
  | true =>
    obtain ⟨tail, hcs, htail⟩ := exists_tail cs
    have htrim : trimLeft cs = trimLeft (behindLine cs) := by
      conv => lhs; rw [hcs]
      rw [Text.trimLeft_append_of_blank hline, htail.trimLeft_eq]
    rw [← read_trimLeft, htrim, read_trimLeft]
  | false =>
    obtain ⟨tail, -, hopening⟩ := opening?_eq style hline
    exact read_of_none (by rw [hopening, ho]; rfl)

theorem trimLeft_onLine_append (h : rest.all Piece.onLine = true)
    (htail : ∀ c ∈ tail.head?, c = '\n') :
    (trimLeft rest ++ tail).takeWhile Piece.onLine = trimLeft rest ∧
      (trimLeft rest ++ tail).dropWhile Piece.onLine = tail := by
  have hall : ∀ c ∈ trimLeft rest, Piece.onLine c = true := fun c hc =>
    List.all_eq_true.1 h c ((List.dropWhile_suffix _).subset hc)
  rw [List.takeWhile_append_of_pos hall, List.dropWhile_append_of_pos hall]
  cases tail with
  | nil => simp
  | cons c tail =>
    rw [htail c rfl]
    simp [Piece.onLine]

/-- A comment with text behind its marker says that text. -/
theorem read_of_toLineEnd (ho : style.opening? (lineOf cs) = some (.toLineEnd rest))
    (hrest : allBlank rest = false) :
    style.read cs = (saying [rest]).filter style.keeps ++ style.read (behindLine cs) := by
  obtain ⟨tail, htail, hopening⟩ := opening?_eq style (allBlank_of_opening? ho)
  obtain ⟨hkept, hafter⟩ := trimLeft_onLine_append (all_text ho) htail.onLine_head?
  have hread : (style.opening? cs).bind Opening.read? = some ⟨trimLeft rest, tail⟩ := by
    rw [hopening, ho, Option.map_some, Option.bind_some, Opening.append, Opening.read?,
      Text.trimLeft_append_of_not_blank hrest]
    rw [Opening.text] at hkept hafter
    rw [hkept, hafter]
  rw [read_of_some hread, saying_trimLeft, htail.behindLine_eq]

/-- A comment with nothing behind its marker says the next line that is not blank. -/
theorem read_of_empty (ho : style.opening? (lineOf cs) = some (.toLineEnd rest))
    (hrest : allBlank rest = true) :
    style.read cs =
      (saying [lineOf (trimLeft (behindLine cs))]).filter style.keeps ++
        style.read (behindLine (trimLeft (behindLine cs))) := by
  obtain ⟨tail, htail, hopening⟩ := opening?_eq style (allBlank_of_opening? ho)
  have hread : (style.opening? cs).bind Opening.read? =
      some ⟨lineOf (trimLeft (behindLine cs)),
        (trimLeft (behindLine cs)).dropWhile Piece.onLine⟩ := by
    rw [hopening, ho, Option.map_some, Option.bind_some, Opening.append, Opening.read?,
      Text.trimLeft_append_of_blank hrest, htail.trimLeft_eq, lineOf]
  rw [read_of_some hread, behindLine_dropWhile]

/-- A comment between two markers on a line says what stands between them. -/
theorem read_of_closed {text after : List Char}
    (ho : style.opening? (lineOf cs) = some (.enclosed rest))
    (hcut : cutAt? closer rest = some (text, after)) :
    style.read cs = (saying [text]).filter style.keeps ++ style.read (behindLine cs) := by
  obtain ⟨tail, htail, hopening⟩ := opening?_eq style (allBlank_of_opening? ho)
  have hrest : (text ++ closer ++ after).all Piece.onLine = true := cutAt?_eq hcut ▸ all_text ho
  rw [List.all_append, List.all_append, Bool.and_eq_true, Bool.and_eq_true] at hrest
  have htext : (trimBoth text).all Piece.onLine = true := List.all_eq_true.2 fun c hc =>
    List.all_eq_true.1 hrest.1.1 c
      ((List.dropWhile_suffix _).subset ((Text.trimRight_prefix _).subset hc))
  have hread : (style.opening? cs).bind Opening.read? = some ⟨trimBoth text, after ++ tail⟩ := by
    have hcut' : cutAt? closer (rest ++ tail) = some (text, after ++ tail) :=
      cutAt?_append (by decide) (fun c hc => by rw [htail.onLine_head? c hc]; decide) hcut
    rw [hopening, ho, Option.map_some, Option.bind_some, Opening.append, Opening.read?, hcut',
      Option.bind_some]
    exact if_pos htext
  rw [read_of_some hread, saying_trimBoth, behindLine_append hrest.2, htail.behindLine_eq]

/-- A closing mark behind a line without one stands below the line. -/
theorem below_eq_of_cutAt? {front below after : List Char} (hnone : cutAt? closer rest = none)
    (hcut : cutAt? closer (rest ++ '\n' :: below) = some (front, after)) :
    ∃ more, front = rest ++ '\n' :: more ∧ below = more ++ closer ++ after := by
  have heq := cutAt?_eq hcut
  rw [List.append_assoc, List.append_eq_append_iff] at heq
  obtain ⟨front', rfl, hbelow⟩ | ⟨rest', rfl, hafter⟩ := heq
  · cases front' with
    | nil => simp [closer] at hbelow
    | cons c more =>
      rw [List.cons_append, List.cons.injEq] at hbelow
      exact ⟨more, by rw [hbelow.1], by rw [hbelow.2, List.append_assoc]⟩
  · -- The mark would begin on the line, and has no break in it.
    have hcloser : closer = ['*', '/'] := rfl
    rw [hcloser] at hafter
    match rest', hafter with
    | [], hafter => simp at hafter
    | [_], hafter => simp at hafter
    | _ :: _ :: more, hafter =>
      simp only [List.cons_append, List.nil_append, List.cons.injEq] at hafter
      obtain ⟨rfl, rfl, -⟩ := hafter
      exact absurd hnone (by simpa [hcloser] using cutAt?_ne_none closer front more)

/-- A closing mark by itself tells nothing. -/
theorem read_of_closer {more after : List Char} (hmore : allBlank more = true) :
    style.read (more ++ closer ++ after) = style.read (behindLine after) := by
  have htrim : trimLeft (more ++ closer ++ after) = closer ++ after := by
    rw [List.append_assoc, Text.trimLeft_append_of_blank hmore]
    rfl
  have hnone : (style.opening? (closer ++ after)).bind Opening.read? = none := by
    cases style <;> rfl
  rw [← read_trimLeft, htrim, read_of_none hnone]
  rfl

/-- A comment that is not closed on its line may go on below. -/
theorem read?_of_open (ho : style.opening? (lineOf cs) = some (.enclosed rest))
    (hnone : cutAt? closer rest = none) :
    (style.opening? cs).bind Opening.read? =
      (cutAt? closer (rest ++ '\n' :: behindLine cs)).bind fun (text, after) =>
        if (trimBoth text).all Piece.onLine then some ⟨trimBoth text, after⟩ else none := by
  obtain ⟨tail, htail, hopening⟩ := opening?_eq style (allBlank_of_opening? ho)
  rw [hopening, ho, Option.map_some, Option.bind_some, Opening.append, Opening.read?]
  obtain ⟨rfl, hbelow⟩ | rfl := htail
  · rw [hbelow, List.append_nil, hnone]
    cases hcut : cutAt? closer (rest ++ ['\n']) with
    | none => rfl
    | some cut =>
      obtain ⟨more, -, hmark⟩ := below_eq_of_cutAt? hnone hcut
      simp [closer] at hmark
  · rfl

/-- A comment that is closed below its line says what stands between its marks, if
    that is on one line. -/
theorem read_of_reaching {text after : List Char}
    (ho : style.opening? (lineOf cs) = some (.enclosed rest)) (hnone : cutAt? closer rest = none)
    (hcut : cutAt? closer (rest ++ '\n' :: behindLine cs) = some (text, after))
    (hall : (trimBoth text).all Piece.onLine = true) :
    style.read cs = (saying [text]).filter style.keeps ++ style.read (behindLine after) := by
  have hread : (style.opening? cs).bind Opening.read? = some ⟨trimBoth text, after⟩ := by
    rw [read?_of_open ho hnone, hcut, Option.bind_some]
    exact if_pos hall
  rw [read_of_some hread, saying_trimBoth]

/-- A comment that is not closed on its line, and not around one line below it, says
    nothing. -/
theorem read_of_open (ho : style.opening? (lineOf cs) = some (.enclosed rest))
    (hnone : cutAt? closer rest = none)
    (hbelow : ∀ text after, cutAt? closer (rest ++ '\n' :: behindLine cs) = some (text, after) →
      (trimBoth text).all Piece.onLine = true → allBlank text = true) :
    style.read cs = style.read (behindLine cs) := by
  have hread := read?_of_open ho hnone
  cases hcut : cutAt? closer (rest ++ '\n' :: behindLine cs) with
  | none => exact read_of_none (by rw [hread, hcut, Option.bind_none])
  | some cut =>
    obtain ⟨text, after⟩ := cut
    cases hall : (trimBoth text).all Piece.onLine with
    | false =>
      rw [hcut, Option.bind_some] at hread
      exact read_of_none (hread.trans (if_neg (by simp [hall])))
    | true =>
      have hblank := hbelow text after hcut hall
      obtain ⟨more, rfl, hmark⟩ := below_eq_of_cutAt? hnone hcut
      have hmore : allBlank more = true :=
        List.all_eq_true.2 fun c hc => List.all_eq_true.1 hblank c (by simp [hc])
      rw [read_of_reaching ho hnone hcut hall, saying_of_blank hblank, List.filter_nil,
        List.nil_append, hmark, read_of_closer hmore]

end RepoAtlas.Scan
