import RepoAtlas.Dialogue
import RepoAtlas.Proofs.Bytes.Decoding
import Mathlib.Data.List.Basic
import Mathlib.Logic.Relation
import Mathlib.Order.WellFounded

/-!
# The course of the dialogue

The dialogue goes on in rounds (`Round`): it asks, reads a line of what is unread
(`Reads`), and complains about it if it is unclear. It ends where a line decides
something, or where nothing is left to read (`Ends`). Each round leaves less unread, so
the rounds come to an end (`wellFounded_round`), and all that a stage can come to is told
by its unread lines (`ends_iff`).

What is said depends on the lines up to the first that decides something alone: a
question and a complaint for each before it, and one more question (`askOver_append`).
-/

namespace RepoAtlas.Dialogue

variable {input line rest : Bytes} {lines unclear others : List Bytes} {v : Verdict} {r : Result}

/-! ### What a line decides -/

/-- The answer in a text: its ends are trimmed, and its letters small. -/
def answerOf (text : String) : String := Text.lowerAscii (Text.trim text)

/-- What the bytes of a line decide. -/
inductive Decides (line : Bytes) : Verdict → Prop
  | accepted {text : String} : line = Utf8.encode text → answerOf text ∈ ["", "y", "yes"] →
      Decides line .accepted
  | declined {text : String} : line = Utf8.encode text → answerOf text ∈ ["n", "no"] →
      Decides line .declined
  | notText : (∀ text, line ≠ Utf8.encode text) → Decides line .notText

/-- Whether a line is a text that decides nothing. -/
def IsUnclear (line : Bytes) : Prop :=
  ∃ text, line = Utf8.encode text ∧ answerOf text ∉ ["", "y", "yes", "n", "no"]

theorem verdict?_encode (text : String) :
    verdict? (Utf8.encode text) =
      if answerOf text ∈ ["", "y", "yes"] then some .accepted
      else if answerOf text ∈ ["n", "no"] then some .declined
      else none := by
  rw [verdict?, Utf8.decode?_encode]
  dsimp only
  simp only [List.contains_iff_mem]
  rfl

theorem verdict?_of_notText (h : ∀ text, line ≠ Utf8.encode text) :
    verdict? line = some .notText := by
  rw [verdict?, Utf8.decode?_eq_none_iff.2 h]

/-- What decides has the verdict that it decides on. -/
theorem Decides.verdict?_eq (h : Decides line v) : verdict? line = some v := by
  cases h with
  | accepted htext hanswer => rw [htext, verdict?_encode, if_pos hanswer]
  | @declined text htext hanswer =>
    have hnot : answerOf text ∉ ["", "y", "yes"] := by
      simp only [List.mem_cons, List.not_mem_nil, or_false] at hanswer
      rcases hanswer with hanswer | hanswer <;> rw [hanswer] <;> decide
    rw [htext, verdict?_encode, if_neg hnot, if_pos hanswer]
  | notText htext => exact verdict?_of_notText htext

theorem IsUnclear.verdict?_eq (h : IsUnclear line) : verdict? line = none := by
  obtain ⟨text, rfl, hanswer⟩ := h
  have hnot (answers : List String) (h : answers ⊆ ["", "y", "yes", "n", "no"]) :
      answerOf text ∉ answers := fun hmem => hanswer (h hmem)
  rw [verdict?_encode, if_neg (hnot _ (by decide)), if_neg (hnot _ (by decide))]

/-- A line decides something, or it is unclear. -/
theorem decides_or_isUnclear (line : Bytes) : (∃ v, Decides line v) ∨ IsUnclear line := by
  by_cases htext : ∃ text, line = Utf8.encode text
  · obtain ⟨text, rfl⟩ := htext
    by_cases hyes : answerOf text ∈ ["", "y", "yes"]
    · exact .inl ⟨_, .accepted rfl hyes⟩
    · by_cases hno : answerOf text ∈ ["n", "no"]
      · exact .inl ⟨_, .declined rfl hno⟩
      · refine .inr ⟨text, rfl, fun hmem => ?_⟩
        rw [show ["", "y", "yes", "n", "no"] = ["", "y", "yes"] ++ ["n", "no"] from rfl,
          List.mem_append] at hmem
        exact hmem.elim hyes hno
  · exact .inl ⟨_, .notText (not_exists.1 htext)⟩

/-- A line has a verdict if it decides, and only then. -/
theorem verdict?_eq_some_iff : verdict? line = some v ↔ Decides line v := by
  refine ⟨fun h => ?_, Decides.verdict?_eq⟩
  rcases decides_or_isUnclear line with ⟨w, hdecides⟩ | hunclear
  · rw [hdecides.verdict?_eq, Option.some.injEq] at h
    exact h ▸ hdecides
  · rw [hunclear.verdict?_eq] at h
    cases h

/-- A line has no verdict if it is unclear, and only then. -/
theorem verdict?_eq_none_iff : verdict? line = none ↔ IsUnclear line := by
  refine ⟨fun h => ?_, IsUnclear.verdict?_eq⟩
  rcases decides_or_isUnclear line with ⟨w, hdecides⟩ | hunclear
  · rw [hdecides.verdict?_eq] at h
    cases h
  · exact hunclear

/-! ### Lines -/

/-- How a line is read: what it holds, and what is left behind it. A line ends with a
    break, but for the last, which may end with the input. -/
inductive Reads : Bytes → Bytes → Bytes → Prop
  | broken {line rest : Bytes} : 10 ∉ line → Reads (line ++ 10 :: rest) line rest
  | last {line : Bytes} : 10 ∉ line → line ≠ [] → Reads line line []

/-- The lines of an input, read one after the other. -/
inductive Lined : Bytes → List Bytes → Prop
  | nil : Lined [] []
  | cons {input line rest : Bytes} {lines : List Bytes} :
      Reads input line rest → Lined rest lines → Lined input (line :: lines)

theorem linesOf_append (h : 10 ∉ line) (rest : Bytes) :
    linesOf (line ++ 10 :: rest) = line :: linesOf rest := by
  induction line with
  | nil => rw [List.nil_append, linesOf, if_pos rfl]
  | cons b line ih =>
    rw [List.mem_cons, not_or] at h
    rw [List.cons_append, linesOf, if_neg (Ne.symm h.1), ih h.2]

theorem linesOf_of_notMem (h : 10 ∉ line) (hne : line ≠ []) : linesOf line = [line] := by
  induction line with
  | nil => exact absurd rfl hne
  | cons b line ih =>
    rw [List.mem_cons, not_or] at h
    rw [linesOf, if_neg (Ne.symm h.1)]
    rcases line with _ | ⟨c, line⟩
    · rfl
    · rw [ih h.2 (List.cons_ne_nil c line)]

/-- The line that is read is the first of the lines. -/
theorem Reads.linesOf_eq (h : Reads input line rest) : linesOf input = line :: linesOf rest := by
  cases h with
  | broken hbreak => exact linesOf_append hbreak rest
  | last hbreak hne => exact linesOf_of_notMem hbreak hne

theorem Reads.length_lt (h : Reads input line rest) : rest.length < input.length := by
  cases h with
  | broken => simp; omega
  | last _ hne => exact List.length_pos_iff.2 hne

/-- A line can be read as long as anything is left. -/
theorem exists_reads (hne : input ≠ []) : ∃ line rest, Reads input line rest := by
  by_cases hbreak : 10 ∈ input
  · obtain ⟨line, rest, rfl, hline⟩ := List.eq_append_cons_of_mem hbreak
    exact ⟨line, rest, .broken hline⟩
  · exact ⟨input, [], .last hbreak hne⟩

theorem Lined.eq (h : Lined input lines) : lines = linesOf input := by
  induction h with
  | nil => rfl
  | cons hreads _ ih => rw [hreads.linesOf_eq, ih]

/-- Every input has its lines. -/
theorem lined_linesOf (input : Bytes) : Lined input (linesOf input) := by
  by_cases hne : input = []
  · subst hne
    exact .nil
  · obtain ⟨line, rest, hreads⟩ := exists_reads hne
    have hlt := hreads.length_lt
    rw [hreads.linesOf_eq]
    exact .cons hreads (lined_linesOf rest)
termination_by input.length

/-- An input has lines in one way. -/
theorem lined_iff : Lined input lines ↔ lines = linesOf input :=
  ⟨Lined.eq, fun h => h ▸ lined_linesOf input⟩

theorem Lined.notMem (h : Lined input lines) : ∀ line ∈ lines, 10 ∉ line := by
  induction h with
  | nil => exact List.forall_mem_nil _
  | cons hreads _ ih =>
    refine List.forall_mem_cons.2 ⟨?_, ih⟩
    cases hreads with
    | broken hbreak => exact hbreak
    | last hbreak => exact hbreak

/-! ### Rounds -/

/-- How far the dialogue has come: what was said, and what is unread. -/
structure Stage where
  said : String
  unread : Bytes

/-- A round of the dialogue behind which it goes on. -/
inductive Round : Stage → Stage → Prop
  | again {said : String} {unread line rest : Bytes} : Reads unread line rest → IsUnclear line →
      Round ⟨said, unread⟩ ⟨said ++ question ++ complaint, rest⟩

/-- A round with which the dialogue ends. -/
inductive Ends : Stage → Result → Prop
  | unanswered {said : String} : Ends ⟨said, []⟩ ⟨said ++ question, .declined⟩
  | answered {said : String} {unread line rest : Bytes} {v : Verdict} :
      Reads unread line rest → Decides line v → Ends ⟨said, unread⟩ ⟨said ++ question, v⟩

/-- What a stage comes to. -/
def Stage.result (s : Stage) : Result :=
  ⟨s.said ++ (askOver (linesOf s.unread)).output, (askOver (linesOf s.unread)).verdict⟩

variable {s t : Stage}

theorem askOver_of_decides (h : Decides line v) (others : List Bytes) :
    askOver (line :: others) = ⟨question, v⟩ := by
  rw [askOver, h.verdict?_eq]

theorem askOver_of_isUnclear (h : IsUnclear line) (others : List Bytes) :
    askOver (line :: others) =
      ⟨question ++ complaint ++ (askOver others).output, (askOver others).verdict⟩ := by
  rw [askOver, h.verdict?_eq]

/-- A round leaves open what the dialogue comes to. -/
theorem Round.result_eq (h : Round s t) : s.result = t.result := by
  cases h with
  | again hreads hunclear =>
    rw [Stage.result, hreads.linesOf_eq, askOver_of_isUnclear hunclear, Stage.result]
    simp only [String.append_assoc]

/-- A dialogue ends in what it comes to. -/
theorem Ends.result_eq (h : Ends s r) : r = s.result := by
  cases h with
  | unanswered => rfl
  | answered hreads hdecides =>
    rw [Stage.result, hreads.linesOf_eq, askOver_of_decides hdecides]

/-- At every stage the dialogue goes on or ends. -/
theorem exists_round_or_ends (s : Stage) : (∃ t, Round s t) ∨ ∃ r, Ends s r := by
  obtain ⟨said, unread⟩ := s
  by_cases hne : unread = []
  · subst hne
    exact .inr ⟨_, .unanswered⟩
  · obtain ⟨line, rest, hreads⟩ := exists_reads hne
    rcases decides_or_isUnclear line with ⟨v, hdecides⟩ | hunclear
    · exact .inr ⟨_, .answered hreads hdecides⟩
    · exact .inl ⟨_, .again hreads hunclear⟩

/-- The rounds come to an end: each leaves less unread. -/
theorem wellFounded_round : WellFounded fun t s => Round s t := by
  refine Subrelation.wf (fun {t s} h => ?_) (measure fun s : Stage => s.unread.length).wf
  cases h with
  | again hreads => exact hreads.length_lt

/-- However the dialogue goes on from a stage, it ends in one way. -/
theorem ends_iff (s : Stage) (r : Result) :
    (∃ t, Relation.ReflTransGen Round s t ∧ Ends t r) ↔ r = s.result := by
  constructor
  · rintro ⟨t, hrounds, hends⟩
    induction hrounds using Relation.ReflTransGen.head_induction_on with
    | refl => exact hends.result_eq
    | head hround _ ih => rw [ih, hround.result_eq]
  · rintro rfl
    -- By induction on what is unread: a stage that does not end goes on to one with less.
    induction s using wellFounded_round.induction with
    | _ s ih =>
      rcases exists_round_or_ends s with ⟨t, hround⟩ | ⟨r, hends⟩
      · obtain ⟨u, hrounds, hends⟩ := ih t hround
        exact ⟨u, .head hround hrounds, hround.result_eq ▸ hends⟩
      · exact ⟨s, .refl, hends.result_eq ▸ hends⟩

/-! ### The whole dialogue -/

/-- What is said to so many unclear lines. -/
def exchanges (n : Nat) : String := String.join (List.replicate n (question ++ complaint))

theorem exchanges_zero : exchanges 0 = "" := String.join_nil

theorem exchanges_succ (n : Nat) : exchanges (n + 1) = question ++ complaint ++ exchanges n := by
  rw [exchanges, List.replicate_succ, String.join_cons, exchanges]

/-- Behind unclear lines the dialogue goes on as if it began there. -/
theorem askOver_append (h : ∀ line ∈ unclear, IsUnclear line) (others : List Bytes) :
    askOver (unclear ++ others) =
      ⟨exchanges unclear.length ++ (askOver others).output, (askOver others).verdict⟩ := by
  induction unclear with
  | nil => rw [List.nil_append, List.length_nil, exchanges_zero, String.empty_append]
  | cons line unclear ih =>
    rw [List.forall_mem_cons] at h
    rw [List.cons_append, askOver_of_isUnclear h.1, ih h.2, List.length_cons, exchanges_succ]
    simp only [String.append_assoc]

/-- Of some lines one is the first to decide something, or all are unclear. -/
theorem exists_decides_or_isUnclear (lines : List Bytes) :
    (∃ unclear line others v, lines = unclear ++ line :: others ∧
      (∀ line ∈ unclear, IsUnclear line) ∧ Decides line v) ∨ ∀ line ∈ lines, IsUnclear line := by
  rcases h : lines.findSome? verdict? with _ | v
  · exact .inr fun line hline => verdict?_eq_none_iff.1 (List.findSome?_eq_none_iff.1 h line hline)
  · obtain ⟨unclear, line, others, hlines, hdecides, hunclear⟩ := List.findSome?_eq_some_iff.1 h
    exact .inl ⟨unclear, line, others, v, hlines,
      fun line hline => verdict?_eq_none_iff.1 (hunclear line hline),
      verdict?_eq_some_iff.1 hdecides⟩

/-- The first line that decides ends the dialogue, after one exchange for each before it. -/
theorem run_of_decides (hlines : linesOf input = unclear ++ line :: others)
    (hunclear : ∀ line ∈ unclear, IsUnclear line) (hdecides : Decides line v) :
    run input = ⟨disclaimer ++ exchanges unclear.length ++ question, v⟩ := by
  rw [run, hlines, askOver_append hunclear, askOver_of_decides hdecides, String.append_assoc]

/-- With no line that decides, every line is asked about, and the dialogue ends declined. -/
theorem run_of_isUnclear (h : ∀ line ∈ linesOf input, IsUnclear line) :
    run input = ⟨disclaimer ++ exchanges (linesOf input).length ++ question, .declined⟩ := by
  have hasked := askOver_append h []
  rw [List.append_nil, askOver] at hasked
  rw [run, hasked, String.append_assoc]

theorem linesOf_flatMap_append (h : ∀ line ∈ unclear, 10 ∉ line) (rest : Bytes) :
    linesOf (unclear.flatMap (· ++ [10]) ++ rest) = unclear ++ linesOf rest := by
  induction unclear with
  | nil => rfl
  | cons line unclear ih =>
    rw [List.forall_mem_cons] at h
    rw [List.flatMap_cons, List.append_assoc, List.append_assoc, List.singleton_append,
      linesOf_append h.1, ih h.2, List.cons_append]

/-- The dialogue over any input. Its rounds come to an end, and to one end alone. The
    input has lines in one way; either some line is the first that decides something,
    and the dialogue ends with what it decides, whatever else follows it, or none is, and
    the dialogue ends with no. There is a question and a complaint for each line before,
    and one more question. -/
theorem run_settled (input : Bytes) :
    (¬∃ stages : ℕ → Stage, stages 0 = ⟨disclaimer, input⟩ ∧
      ∀ n, Round (stages n) (stages (n + 1))) ∧
    (∀ r, (∃ s, Relation.ReflTransGen Round ⟨disclaimer, input⟩ s ∧ Ends s r) ↔ r = run input) ∧
    ∃ lines, (∀ others, Lined input others ↔ others = lines) ∧
      ((∃ unclear line others v, lines = unclear ++ line :: others ∧
        (∀ line ∈ unclear, IsUnclear line) ∧ Decides line v ∧
        run input = ⟨disclaimer ++ exchanges unclear.length ++ question, v⟩ ∧
        ∀ rest, run (unclear.flatMap (· ++ [10]) ++ (line ++ 10 :: rest)) = run input) ∨
      (∀ line ∈ lines, IsUnclear line) ∧
        run input = ⟨disclaimer ++ exchanges lines.length ++ question, .declined⟩) := by
  refine ⟨?_, ends_iff ⟨disclaimer, input⟩, linesOf input, fun others => lined_iff, ?_⟩
  · rintro ⟨stages, -, hrounds⟩
    exact (wellFounded_iff_isEmpty_descending_chain.1 wellFounded_round).false ⟨stages, hrounds⟩
  · rcases exists_decides_or_isUnclear (linesOf input) with
      ⟨unclear, line, others, v, hlines, hunclear, hdecides⟩ | hall
    · have hrun := run_of_decides hlines hunclear hdecides
      refine .inl ⟨unclear, line, others, v, hlines, hunclear, hdecides, hrun, fun rest => ?_⟩
      have hbreak : ∀ line ∈ linesOf input, 10 ∉ line := (lined_iff.2 rfl).notMem
      rw [hlines, List.forall_mem_append, List.forall_mem_cons] at hbreak
      have hlines' : linesOf (unclear.flatMap (· ++ [10]) ++ (line ++ 10 :: rest)) =
          unclear ++ line :: linesOf rest := by
        rw [linesOf_flatMap_append hbreak.1, linesOf_append hbreak.2.1]
      rw [hrun, run_of_decides hlines' hunclear hdecides]
    · exact .inr ⟨hall, run_of_isUnclear hall⟩

end RepoAtlas.Dialogue
