import RepoAtlas.Proofs.Describe.Content
import RepoAtlas.Proofs.Describe.Records
import RepoAtlas.Proofs.Text.Blank
import Mathlib.Data.List.Forall2

/-!
# What a completion answers

A body says the messages of its choices (`Says`): it is an object whose choices are an
array of objects with a message, which is an object with a content. Fields of other names
are skipped wherever they stand, and a body without choices says none. The content is one
text, or an array of parts, of which each may have a text (`IsMessage`).

The answer in a body is what its first message says without the blanks around it, unless
that is nothing (`ofBody_answers`). A body that says nothing in this way is no completion,
and the fault is one of its text.
-/

namespace RepoAtlas.Completion

open Json

/-! ### Messages -/

/-- A text that may be null. -/
inductive IsText : Content → Option String → Prop where
  | null : IsText .null none
  | string (s : String) : IsText (.string s) (some s)

/-- A part of a message: an object with a text or without, or an array of no more than
    a text. -/
inductive IsPart : Content → Option String → Prop where
  | silent {fields : List (String × Content)} (h : ∀ f ∈ fields, f.1 ≠ "text") :
    IsPart (.object fields) none
  | object {before after : List (String × Content)} {v : Content} {t : Option String}
    (hbefore : ∀ f ∈ before, f.1 ≠ "text") (ht : IsText v t) (hafter : ∀ f ∈ after, f.1 ≠ "text") :
    IsPart (.object (before ++ ("text", v) :: after)) t
  | empty : IsPart (.array []) none
  | array {v : Content} {t : Option String} (ht : IsText v t) : IsPart (.array [v]) t

/-- The values that are messages: a text, or an array of parts. -/
inductive IsMessage : Content → Message → Prop where
  | text (s : String) : IsMessage (.string s) (.text s)
  | parts {items : List Content} {texts : List (Option String)}
    (h : List.Forall₂ IsPart items texts) : IsMessage (.array items) (.parts texts)

variable {v : Content} {t : Option String} {m : Message}

theorem isPart_of_field {fields : List (String × Content)} {key : String}
    (h : fields.filter (·.1 = "text") = [(key, v)]) (ht : IsText v t) :
    IsPart (.object fields) t := by
  obtain ⟨before, after, rfl, hbefore, hkey, hafter⟩ := List.filter_eq_cons_iff.1 h
  obtain rfl : key = "text" := by simpa using hkey
  rw [List.filter_eq_nil_iff] at hafter
  exact .object (by simpa using hbefore) ht (by simpa using hafter)

theorem isPart_of_partText? (h : partText? v = some t) : IsPart v t := by
  unfold partText? at h
  split at h
  · split at h
    · rename_i hfilter
      cases h
      exact .silent (by simpa using hfilter)
    · rename_i hfilter
      cases h
      exact isPart_of_field hfilter .null
    · rename_i hfilter
      cases h
      exact isPart_of_field hfilter (.string _)
    · cases h
  · cases h
    exact .empty
  · cases h
    exact .array .null
  · cases h
    exact .array (.string _)
  · cases h

theorem partText?_of_isPart (h : IsPart v t) : partText? v = some t := by
  cases h with
  | @silent fields h =>
    have hfilter : fields.filter (·.1 = "text") = [] := by simpa using h
    rw [partText?, hfilter]
  | @object before after v _ hbefore ht hafter =>
    have hfilter : (before ++ ("text", v) :: after).filter (·.1 = "text") = [("text", v)] := by
      rw [List.filter_append, List.filter_cons_of_pos (by simp),
        List.filter_eq_nil_iff.2 (by simpa using hbefore),
        List.filter_eq_nil_iff.2 (by simpa using hafter), List.nil_append]
    rw [partText?, hfilter]
    cases ht with
    | null => rfl
    | string => rfl
  | empty => rfl
  | array ht =>
    cases ht with
    | null => rfl
    | string => rfl

/-- Parts have texts if each of them does. -/
theorem mapM_partText?_eq_some_iff {items : List Content} {texts : List (Option String)} :
    items.mapM partText? = some texts ↔ List.Forall₂ IsPart items texts := by
  induction items generalizing texts with
  | nil => simp [eq_comm]
  | cons v items ih =>
    have hpart (t : Option String) : partText? v = some t ↔ IsPart v t :=
      ⟨isPart_of_partText?, partText?_of_isPart⟩
    rw [List.mapM_cons, List.forall₂_cons_left_iff]
    simp only [Option.bind_eq_bind, Option.bind_eq_some_iff, hpart, ih, Option.pure_def,
      Option.some.injEq]
    constructor
    · rintro ⟨t, ht, others, hothers, rfl⟩
      exact ⟨t, others, ht, hothers, rfl⟩
    · rintro ⟨t, others, ht, hothers, rfl⟩
      exact ⟨t, ht, others, hothers, rfl⟩

/-- A value is read as the message that it is, and no other value is one. -/
theorem message?_eq_some_iff : message? v = some m ↔ IsMessage v m := by
  constructor
  · intro h
    unfold message? at h
    split at h
    · cases h
      exact .text _
    · obtain ⟨texts, htexts, rfl⟩ := Option.map_eq_some_iff.1 h
      exact .parts (mapM_partText?_eq_some_iff.1 htexts)
    · cases h
  · intro h
    cases h with
    | text => rfl
    | parts h => rw [message?, mapM_partText?_eq_some_iff.2 h, Option.map_some]

/-- Messages; a body opens four brackets around them. -/
def message : Spelling Message where
  Writes cs m rest := ∃ v, (valueWithin (deepest - 4)).Writes cs v rest ∧ IsMessage v m
  starts := by
    rintro _ _ _ ⟨v, h, -⟩
    exact Spelling.starts _ h
  length_lt := by
    rintro _ _ _ ⟨v, h, -⟩
    exact Spelling.length_lt _ h

/-- Messages are read exactly as they are written. -/
theorem accepts_content : Accepts content message := by
  intro cs m rest
  rw [Spelling.spells_iff]
  constructor
  · intro h
    obtain ⟨⟨v, left⟩, hv, h⟩ := exists_of_bind h
    dsimp only at h
    split at h
    · rename_i hm
      cases h
      rw [contentIn_eq_ok_iff (Nat.le_succ _), Spelling.spells_iff] at hv
      exact ⟨v, hv, message?_eq_some_iff.1 hm⟩
    · cases h
  · rintro ⟨v, hv, hm⟩
    have hread := (contentIn_eq_ok_iff (Nat.le_succ _)).2 (Spelling.spells_iff.2 hv)
    simp only [content, bind, Except.bind, hread, message?_eq_some_iff.2 hm]
    rfl

/-! ### Bodies -/

/-- Responses: the choices, if there are any, and the message of each. -/
def response : Spelling (Option (List (Option (Option Message)))) :=
  record false "choices" (Spelling.list (record true "message" (record true "content" message)))

/-- Whether a body says these messages, one for each choice. -/
def Says (body : String) (messages : List Message) : Prop :=
  ∃ found, response.Whole body found ∧ found.getD [] = messages.map fun m => some (some m)

/-- Responses are read exactly as they are written. -/
theorem accepts_choices : Accepts choices response :=
  accepts_record (Accepts.list (accepts_record (accepts_record accepts_content)))

variable {body : String} {messages : List Message}
  {found : Option (List (Option (Option Message)))}

/-- Every choice that is read has a message, and the message a content. -/
theorem yields_choice : Yields choice fun o => ∃ m, o = some (some m) := by
  intro cs o rest h
  have hreply : Yields (.record (oneField "ChatMessageResponse" "content" true content))
      fun o => o.isSome = true := yields_required accepts_content
  have hchoice := yields_required (accepts_record accepts_content) h
  obtain ⟨p, rfl⟩ := Option.isSome_iff_exists.1 hchoice
  obtain ⟨m, rfl⟩ := Option.isSome_iff_exists.1 (yields_oneField hreply h p rfl)
  exact ⟨m, rfl⟩

theorem exists_eq_map {l : List (Option (Option Message))}
    (h : ∀ o ∈ l, ∃ m, o = some (some m)) :
    ∃ messages : List Message, l = messages.map fun m => some (some m) := by
  induction l with
  | nil => exact ⟨[], rfl⟩
  | cons o l ih =>
    obtain ⟨⟨m, rfl⟩, hl⟩ := List.forall_mem_cons.1 h
    obtain ⟨messages, rfl⟩ := ih hl
    exact ⟨m :: messages, rfl⟩

theorem says_of_run (h : choices.run body = .ok found)
    (hfound : found.getD [] = messages.map fun m => some (some m)) : Says body messages :=
  ⟨found, accepts_choices.run.1 h, hfound⟩

/-- A response that is read says some messages. -/
theorem exists_messages (h : choices.run body = .ok found) : ∃ messages, Says body messages := by
  have hall : ∀ o ∈ found.getD [], ∃ m, o = some (some m) := by
    cases found with
    | none => simp
    | some l => exact Yields.run (yields_oneField yields_choice.list) h l rfl
  obtain ⟨messages, hmessages⟩ := exists_eq_map hall
  exact ⟨messages, says_of_run h hmessages⟩

theorem ofBody_of_says_nil (h : Says body []) : ofBody body = .error .noChoice := by
  obtain ⟨found, hwhole, hfound⟩ := h
  rw [ofBody, accepts_choices.run.2 hwhole]
  dsimp only
  rw [hfound]
  rfl

/-- The first message is the answer, if it says anything. -/
theorem ofBody_of_says_cons (h : Says body (m :: messages)) :
    ofBody body = if m.said = "" then .error .noContent else .ok m.said := by
  obtain ⟨found, hwhole, hfound⟩ := h
  rw [ofBody, accepts_choices.run.2 hwhole]
  dsimp only
  rw [hfound]
  simp

/-- A body that says no messages is no completion. -/
theorem ofBody_of_silent (h : ∀ messages, ¬Says body messages) :
    ∃ e, ofBody body = .error (.notJson e body) := by
  cases hrun : choices.run body with
  | error e => exact ⟨e, by rw [ofBody, hrun]⟩
  | ok found =>
    obtain ⟨messages, hbody⟩ := exists_messages hrun
    exact absurd hbody (h messages)

/-! ### Answers -/

/-- The texts of the parts that say something. -/
theorem said_parts (texts : List (Option String)) :
    (Message.parts texts).said =
      "\n".intercalate (((texts.filterMap id).map Text.trim).filter (· ≠ "")) := by
  have hempty (s : String) : (!s.isEmpty) = decide (s ≠ "") := by
    rw [Bool.eq_iff_iff]
    simp
  rw [Message.said]
  simp only [hempty]

/-- What parts say begins and ends with no blank, if any of them says something. -/
theorem isTidy_said_parts {texts : List (Option String)} {s : String} (hs : some s ∈ texts)
    (hne : Text.trim s ≠ "") : Text.IsTidy (Message.parts texts).said := by
  rw [said_parts]
  refine Text.isTidy_intercalate (fun t ht => ?_) (List.ne_nil_of_mem (a := Text.trim s) ?_) _
  · obtain ⟨ht, hne⟩ := List.mem_filter.1 ht
    obtain ⟨t, -, rfl⟩ := List.mem_map.1 ht
    exact Text.isTidy_trim (by simpa using hne)
  · exact List.mem_filter.2 ⟨List.mem_map_of_mem (List.mem_filterMap.2 ⟨_, hs, rfl⟩), by simpa⟩

theorem said_parts_eq_empty_iff {texts : List (Option String)} :
    (Message.parts texts).said = "" ↔ ∀ s, some s ∈ texts → Text.trim s = "" := by
  constructor
  · intro h s hs
    by_contra hne
    exact (isTidy_said_parts hs hne).ne_empty h
  · intro h
    have hnil : ((texts.filterMap id).map Text.trim).filter (· ≠ "") = [] := by
      simpa [List.filter_eq_nil_iff] using h
    rw [said_parts, hnil]
    rfl

/-- What a message says has no blanks at its ends. -/
theorem isTidy_said (h : m.said ≠ "") : Text.IsTidy m.said := by
  cases m with
  | text s => exact Text.isTidy_trim h
  | parts texts =>
    rw [ne_eq, said_parts_eq_empty_iff] at h
    push Not at h
    obtain ⟨s, hs, hne⟩ := h
    exact isTidy_said_parts hs hne

/-- The answer in a body is what its first message says: a text without the blanks around
    it, or a line for each part that is not blank. Any other body is answered by an error, be
    it that there is no choice, that the first message says nothing, or that the text is no
    such body; and whatever is answered begins and ends with no blank. -/
theorem ofBody_answers (body : String) :
    (∀ x others, Says body (.text x :: others) → Text.trim x ≠ "" →
      ofBody body = .ok (Text.trim x)) ∧
    (∀ texts others, Says body (.parts texts :: others) →
      (∃ s, some s ∈ texts ∧ Text.trim s ≠ "") →
      ofBody body =
        .ok ("\n".intercalate (((texts.filterMap id).map Text.trim).filter (· ≠ "")))) ∧
    ((∃ t, ofBody body = .ok t ∧ Text.IsTidy t ∧
        ∃ m others, Says body (m :: others) ∧ m.said = t) ∨
      ofBody body = .error .noChoice ∨ ofBody body = .error .noContent ∨
      ∃ e, ofBody body = .error (.notJson e body)) ∧
    (Says body [] → ofBody body = .error .noChoice) ∧
    (∀ x others, Says body (.text x :: others) → Text.trim x = "" →
      ofBody body = .error .noContent) ∧
    (∀ texts others, Says body (.parts texts :: others) →
      (∀ s, some s ∈ texts → Text.trim s = "") → ofBody body = .error .noContent) ∧
    ((∀ messages, ¬Says body messages) → ∃ e, ofBody body = .error (.notJson e body)) := by
  refine ⟨fun x others h hne => ?text, fun texts others h ⟨s, hs, hne⟩ => ?parts, ?all,
    ofBody_of_says_nil, fun x others h hblank => ?blank, fun texts others h hblank => ?silent,
    ofBody_of_silent⟩
  case text =>
    have hsaid : (Message.text x).said ≠ "" := hne
    rw [ofBody_of_says_cons h, if_neg hsaid]
    rfl
  case parts => rw [ofBody_of_says_cons h, if_neg (isTidy_said_parts hs hne).ne_empty, said_parts]
  case all =>
    by_cases hbody : ∃ messages, Says body messages
    · obtain ⟨messages, hbody⟩ := hbody
      cases messages with
      | nil => exact .inr (.inl (ofBody_of_says_nil hbody))
      | cons m others =>
        have hanswer := ofBody_of_says_cons hbody
        split at hanswer
        · exact .inr (.inr (.inl hanswer))
        · rename_i hne
          exact .inl ⟨m.said, hanswer, isTidy_said hne, m, others, hbody, rfl⟩
    · exact .inr (.inr (.inr (ofBody_of_silent (not_exists.1 hbody))))
  case blank =>
    have hsaid : (Message.text x).said = "" := hblank
    rw [ofBody_of_says_cons h, if_pos hsaid]
  case silent => rw [ofBody_of_says_cons h, if_pos (said_parts_eq_empty_iff.2 hblank)]

/-- A body that says a text, behind a field of no interest and in front of another choice. -/
def greeting : String :=
  "\x7b\"id\": 7e999, \"choices\": [\x7b\"message\": \x7b\"content\": \" \\u0048i\\n\"\x7d\x7d, " ++
    "\x7b\"message\": \x7b\"content\": []\x7d\x7d]\x7d"

/-- A body that says parts. -/
def outline : String :=
  "\x7b\"choices\": [\x7b\"message\": \x7b\"content\": [\x7b\"type\": 1e5, \"text\": \"a\"\x7d, " ++
    "\x7b\"text\": null\x7d, \x7b\"text\": \" \"\x7d, \x7b\"text\": \" b\"\x7d]\x7d\x7d]\x7d"

theorem ofBody_answers_greeting :
    Says greeting [.text " Hi\n", .parts []] ∧ ofBody greeting = .ok "Hi" ∧
      Says outline [.parts [some "a", none, some " ", some " b"]] ∧ ofBody outline = .ok "a\nb" ∧
      Says "[[]]" [] ∧ ofBody "[[]]" = .error .noChoice := by
  have hgreeting : Says greeting [.text " Hi\n", .parts []] := by
    have hrun : choices.run greeting =
        .ok (some [some (some (.text " Hi\n")), some (some (.parts []))]) := by decide +kernel
    exact says_of_run hrun rfl
  have houtline : Says outline [.parts [some "a", none, some " ", some " b"]] := by
    have hrun : choices.run outline =
        .ok (some [some (some (.parts [some "a", none, some " ", some " b"]))]) := by
      decide +kernel
    exact says_of_run hrun rfl
  have hempty : Says "[[]]" [] := by
    have hrun : choices.run "[[]]" = .ok (some []) := by decide +kernel
    exact says_of_run hrun rfl
  obtain ⟨htext, -⟩ := ofBody_answers greeting
  obtain ⟨-, hparts, -⟩ := ofBody_answers outline
  obtain ⟨-, -, -, hnone, -⟩ := ofBody_answers "[[]]"
  refine ⟨hgreeting, ?_, houtline, ?_, hempty, hnone hempty⟩
  · exact (htext _ _ hgreeting (by decide +kernel)).trans (by decide +kernel)
  · exact (hparts _ _ houtline ⟨"a", by decide, by decide +kernel⟩).trans (by decide +kernel)

end RepoAtlas.Completion
