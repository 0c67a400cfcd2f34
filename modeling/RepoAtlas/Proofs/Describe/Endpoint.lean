import RepoAtlas.Describe.Chat
import RepoAtlas.Proofs.Text.Blank
import Mathlib.Data.List.DropRight
import Mathlib.Data.List.Infix

/-!
# The address of an endpoint

Of an endpoint the blanks around it and then the slashes at its end are dropped, and
behind what is kept goes what is missing of the path (`toList_endpointUrl`). An address
made so begins and ends with characters that are never dropped, and nothing is missing
of it, so that it is its own address.

Slashes and then blanks behind an endpoint make no difference to what is kept
(`kept_trailed`). How often a word stands in an endpoint (`places`) is changed neither by
dropping what it does not begin or end with (`places_trimLeft`, `places_append_of_last`)
nor by adding what none of its ends begins (`places_append`), so that what is added can
be told from the numbers of places.
-/

namespace RepoAtlas.Chat

open Text (isBlank allBlank trimLeft trimRight trimBoth isBlankText)

variable {word cs ds : List Char} {c : Char} {e blanks : String} {n : Nat}

/-! ### What is kept and what is missing -/

/-- What is kept of an endpoint. -/
def kept (e : String) : List Char := dropSlashes (trimBoth e.toList)

/-- What is missing of the path behind what is kept. -/
def missing (cs : List Char) : String :=
  if endsWith cs completionsPath then ""
  else if endsWith cs "/v1" then completionsPath
  else "/v1" ++ completionsPath

theorem toList_endpointUrl (e : String) :
    (endpointUrl e).toList = kept e ++ (missing (kept e)).toList := by
  rw [endpointUrl, ← kept, missing]
  split
  · simp
  · split <;> simp [String.toList_append]

theorem endsWith_iff {text : String} : endsWith cs text = true ↔ text.toList <:+ cs :=
  List.isSuffixOf_iff_suffix

/-- An address ends with the whole path. -/
theorem path_suffix (e : String) : completionsPath.toList <:+ (endpointUrl e).toList := by
  rw [toList_endpointUrl, missing]
  split
  · rename_i h
    rw [String.toList_empty, List.append_nil]
    exact endsWith_iff.1 h
  · split
    · exact List.suffix_append ..
    · rw [String.toList_append, ← List.append_assoc]
      exact List.suffix_append ..

/-! ### Endings of an endpoint -/

/-- Whether a text begins with a slash and ends with neither a blank nor a slash. -/
structure IsEnding (word : List Char) : Prop where
  head : word.head? = some '/'
  last : ∃ c, word.getLast? = some c ∧ isBlank c = false ∧ c ≠ '/'

theorem IsEnding.isBlank_head (hword : IsEnding word) : ∀ c ∈ word.head?, isBlank c = false := by
  rw [hword.head]
  rintro c ⟨⟩
  decide

theorem isEnding_version : IsEnding "/v1".toList := ⟨rfl, '1', rfl, by decide, by decide⟩

theorem isEnding_path : IsEnding completionsPath.toList := ⟨rfl, 's', rfl, by decide, by decide⟩

theorem IsEnding.last_of_suffix (hword : IsEnding word) (h : word <:+ cs) :
    ∀ c ∈ cs.getLast?, isBlank c = false ∧ c ≠ '/' := by
  obtain ⟨front, rfl⟩ := h
  obtain ⟨c, hc, hlast⟩ := hword.last
  rw [List.getLast?_append, hc]
  rintro d ⟨⟩
  exact hlast

/-! ### What is dropped -/

theorem dropSlashes_eq (cs : List Char) : dropSlashes cs = cs.rdropWhile (· == '/') := rfl

theorem dropSlashes_of_last (h : ∀ c ∈ cs.getLast?, c ≠ '/') : dropSlashes cs = cs := by
  rw [dropSlashes_eq, List.rdropWhile_eq_self_iff]
  intro hne
  simpa using h _ (List.getLast?_eq_some_getLast hne)

theorem dropSlashes_append_slashes (cs : List Char) (n : Nat) :
    dropSlashes (cs ++ List.replicate n '/') = dropSlashes cs := by
  rw [dropSlashes, List.reverse_append, List.reverse_replicate,
    List.dropWhile_append_of_pos (by simp), dropSlashes]

/-- What is kept does not begin with a blank. -/
theorem head?_kept (e : String) : ∀ c ∈ (kept e).head?, isBlank c = false := by
  intro c hc
  obtain ⟨rest, hrest⟩ := List.head?_eq_some_iff.1 hc
  obtain ⟨dropped, hdropped⟩ := List.rdropWhile_prefix (· == '/') (trimBoth e.toList)
  rw [← dropSlashes_eq, ← kept, hrest] at hdropped
  have hhead := Text.head?_trimBoth e.toList
  rw [← hdropped] at hhead
  obtain ⟨others, hothers⟩ := List.head?_eq_some_iff.1 hhead.symm
  exact Text.isBlank_of_trimLeft hothers

/-- An address is kept as it is. -/
theorem kept_endpointUrl (e : String) : kept (endpointUrl e) = (endpointUrl e).toList := by
  have hhead : ∀ c ∈ (endpointUrl e).toList.head?, isBlank c = false := by
    rw [toList_endpointUrl]
    cases hkept : kept e with
    | nil =>
      rintro c ⟨⟩
      decide
    | cons c rest =>
      rintro d ⟨⟩
      exact head?_kept e c (by rw [hkept]; rfl)
  have hlast := isEnding_path.last_of_suffix (path_suffix e)
  rw [kept, Text.trimBoth_eq_self hhead fun c hc => (hlast c hc).1,
    dropSlashes_of_last fun c hc => (hlast c hc).2]

theorem missing_of_suffix (h : completionsPath.toList <:+ cs) : missing cs = "" :=
  if_pos (endsWith_iff.2 h)

/-- An address is its own. -/
theorem endpointUrl_endpointUrl (e : String) : endpointUrl (endpointUrl e) = endpointUrl e := by
  rw [← String.toList_inj, toList_endpointUrl, kept_endpointUrl, missing_of_suffix (path_suffix e)]
  simp

/-! ### Slashes and blanks behind an endpoint -/

/-- An endpoint with slashes and then other characters behind it. -/
def trailed (e : String) (n : Nat) (blanks : String) : String :=
  e ++ String.ofList (List.replicate n '/') ++ blanks

theorem toList_trailed :
    (trailed e n blanks).toList = e.toList ++ (List.replicate n '/' ++ blanks.toList) := by
  simp [trailed, String.toList_append]

/-- Slashes are not trimmed, and what stands in front of them only from the left. -/
theorem trimBoth_append_slashes (h : ∀ c ∈ cs.getLast?, isBlank c = false) (n : Nat) :
    trimBoth (cs ++ List.replicate n '/') = trimLeft cs ++ List.replicate n '/' := by
  have hslash : isBlank '/' = false := by decide
  rw [Text.trimBoth_of_last]
  · cases hall : allBlank cs with
    | true =>
      have hnil : cs = [] := by
        rcases List.eq_nil_or_concat cs with hnil | ⟨front, c, rfl⟩
        · exact hnil
        · have hc := List.all_eq_true.1 hall c (by simp)
          rw [h c (by simp)] at hc
          cases hc
      subst hnil
      cases n with
      | zero => rfl
      | succ n => exact Text.trimLeft_cons_of_not_blank hslash
    | false => exact Text.trimLeft_append_of_not_blank hall
  · intro c hc
    cases n with
    | zero => exact h c (by simpa using hc)
    | succ n =>
      rw [List.replicate_succ', ← List.append_assoc, List.getLast?_concat] at hc
      cases hc
      exact hslash

/-- Slashes and then blanks behind an endpoint that does not end with a blank make no
    difference to what is kept. -/
theorem kept_trailed (he : ∀ c ∈ e.toList.getLast?, isBlank c = false)
    (hblanks : isBlankText blanks = true) : kept (trailed e n blanks) = kept e := by
  rw [kept, toList_trailed, ← List.append_assoc, Text.trimBoth_append_of_blank hblanks,
    trimBoth_append_slashes he, dropSlashes_append_slashes, kept, Text.trimBoth_of_last he]

/-- Only blanks in front are dropped from an endpoint with an ending, and slashes and
    blanks behind it. -/
theorem IsEnding.kept_trailed (hword : IsEnding word) (h : word <:+ e.toList)
    (hblanks : isBlankText blanks = true) : kept (trailed e n blanks) = trimLeft e.toList := by
  have hlast : ∀ c ∈ e.toList.getLast?, isBlank c = false := fun c hc =>
    (hword.last_of_suffix h c hc).1
  have hkept := hword.last_of_suffix (Text.suffix_trimLeft h hword.isBlank_head)
  rw [Chat.kept_trailed hlast hblanks, kept, Text.trimBoth_of_last hlast,
    dropSlashes_of_last fun c hc => (hkept c hc).2]

/-! ### Places of a word -/

/-- The number of places where a word stands in a text. -/
def places (word cs : List Char) : Nat := cs.tails.countP (word.isPrefixOf ·)

theorem places_nil (hne : word ≠ []) : places word [] = 0 := by
  simp [places, hne]

theorem places_cons (word : List Char) (c : Char) (cs : List Char) :
    places word (c :: cs) = places word cs + if word <+: c :: cs then 1 else 0 := by
  rw [places, List.tails_cons, List.countP_cons, ← places]
  simp

/-- A word stands nowhere in a text without one of its characters. -/
theorem places_eq_zero (hc : c ∈ word) (h : c ∉ cs) : places word cs = 0 := by
  rw [places, List.countP_eq_zero]
  intro tail htail hbegin
  rw [List.mem_tails] at htail
  exact h (htail.subset ((List.isPrefixOf_iff_prefix.1 hbegin).subset hc))

/-- No place of a word reaches over the end of a text into another that none of its own
    ends begins. -/
theorem places_append (hne : word ≠ [])
    (h : ∀ back ∈ word.tails, back ≠ [] → back ≠ word → ¬back <+: ds) :
    places word (cs ++ ds) = places word cs + places word ds := by
  induction cs with
  | nil => rw [List.nil_append, places_nil hne, Nat.zero_add]
  | cons c cs ih =>
    have hplace : word <+: c :: (cs ++ ds) ↔ word <+: c :: cs := by
      constructor
      · intro hword
        rcases List.prefix_or_prefix_of_prefix hword (List.prefix_append (c :: cs) ds) with
          hin | ⟨back, rfl⟩
        · exact hin
        · by_cases hback : back = []
          · rw [hback, List.append_nil]
          · refine absurd ((List.prefix_append_right_inj (c :: cs)).1 hword) (h back ?_ hback ?_)
            · exact (List.mem_tails _ _).2 (List.suffix_append ..)
            · intro heq
              have hlength := congrArg List.length heq
              simp only [List.length_append, List.length_cons] at hlength
              omega
      · exact fun hword => hword.trans (List.prefix_append (c :: cs) ds)
    rw [List.cons_append, places_cons, places_cons, ih]
    simp only [hplace]
    omega

/-- A word does not stand where its last character does not. -/
theorem places_append_of_last (hlast : word.getLast? = some c) (h : c ∉ ds) :
    places word (cs ++ ds) = places word cs := by
  have hmem : c ∈ word := List.mem_of_getLast? hlast
  have hne : word ≠ [] := List.ne_nil_of_mem hmem
  rw [places_append hne, places_eq_zero hmem h, Nat.add_zero]
  intro back hback hnil _ hbegin
  obtain ⟨front, rfl⟩ := (List.mem_tails _ _).1 hback
  refine h (hbegin.subset ?_)
  rw [List.getLast?_append_of_ne_nil _ hnil] at hlast
  exact List.mem_of_getLast? hlast

/-- A word that does not begin with a blank does not stand among blanks in front. -/
theorem places_trimLeft (hhead : word.head? = some c) (hc : isBlank c = false) :
    places word (trimLeft cs) = places word cs := by
  induction cs with
  | nil => rfl
  | cons d cs ih =>
    cases hd : isBlank d with
    | true =>
      rw [Text.trimLeft_cons_of_blank hd, ih, places_cons, if_neg, Nat.add_zero]
      rintro ⟨rest, hrest⟩
      obtain ⟨others, rfl⟩ := List.head?_eq_some_iff.1 hhead
      cases hrest
      rw [hd] at hc
      cases hc
    | false => rw [Text.trimLeft_cons_of_not_blank hd]

/-- A word with the form of an ending stands in what is kept as often as in the endpoint
    with slashes and blanks behind it. -/
theorem IsEnding.places_trailed (hword : IsEnding word) (hblanks : isBlankText blanks = true) :
    places word (trailed e n blanks).toList = places word (trimLeft e.toList) := by
  obtain ⟨c, hc, hblank, hslash⟩ := hword.last
  rw [toList_trailed, places_append_of_last hc, places_trimLeft hword.head (by decide)]
  rw [List.mem_append, not_or]
  constructor
  · exact fun hmem => hslash (List.eq_of_mem_replicate hmem)
  · intro hmem
    rw [List.all_eq_true.1 hblanks c hmem] at hblank
    cases hblank

/-! ### What an address gets -/

/-- Behind the version the path is missing, and behind the path nothing. -/
theorem missing_of_version (h : "/v1".toList <:+ cs) : missing cs = completionsPath := by
  have hpath : ¬endsWith cs completionsPath = true := by
    rw [endsWith_iff]
    intro hpath
    have hboth := List.suffix_of_suffix_length_le h hpath (by decide)
    revert hboth
    decide
  rw [missing, if_neg hpath, if_pos (endsWith_iff.2 h)]

theorem toList_endpointUrl_of_version (h : "/v1".toList <:+ e.toList)
    (hblanks : isBlankText blanks = true) :
    (endpointUrl (trailed e n blanks)).toList =
      trimLeft e.toList ++ completionsPath.toList := by
  rw [toList_endpointUrl, isEnding_version.kept_trailed h hblanks,
    missing_of_version (Text.suffix_trimLeft h isEnding_version.isBlank_head)]

theorem toList_endpointUrl_of_path (h : completionsPath.toList <:+ e.toList)
    (hblanks : isBlankText blanks = true) :
    (endpointUrl (trailed e n blanks)).toList = trimLeft e.toList := by
  rw [toList_endpointUrl, isEnding_path.kept_trailed h hblanks,
    missing_of_suffix (Text.suffix_trimLeft h isEnding_path.isBlank_head), String.toList_empty,
    List.append_nil]

/-- The path adds no place of the version. -/
theorem places_version_path (cs : List Char) :
    places "/v1".toList (cs ++ completionsPath.toList) = places "/v1".toList cs := by
  rw [places_append (by decide) (by decide)]
  rfl

/-- The path adds one place of the path. -/
theorem places_path_path (cs : List Char) :
    places completionsPath.toList (cs ++ completionsPath.toList) =
      places completionsPath.toList cs + 1 := by
  rw [places_append (by decide) (by decide)]
  rfl

/-- The address of an endpoint ends with the path, and is its own address. Slashes and
    then blanks behind an endpoint that does not end with a blank make no difference to
    it. Behind the version the path is added, and nothing behind the path, so that an
    endpoint with one of these endings gets no second one: the version stands in the
    address as often as in the endpoint, and the path once more or as often. -/
theorem endpointUrl_normal (e : String) :
    completionsPath.toList <:+ (endpointUrl e).toList ∧
      endpointUrl (endpointUrl e) = endpointUrl e ∧
        ∀ n blanks, isBlankText blanks = true →
          ((∀ c ∈ e.toList.getLast?, isBlank c = false) →
            endpointUrl (trailed e n blanks) = endpointUrl e) ∧
          ("/v1".toList <:+ e.toList →
            (endpointUrl (trailed e n blanks)).toList =
                trimLeft e.toList ++ completionsPath.toList ∧
              places "/v1".toList (endpointUrl (trailed e n blanks)).toList =
                places "/v1".toList (trailed e n blanks).toList ∧
              places completionsPath.toList (endpointUrl (trailed e n blanks)).toList =
                places completionsPath.toList (trailed e n blanks).toList + 1) ∧
          (completionsPath.toList <:+ e.toList →
            (endpointUrl (trailed e n blanks)).toList = trimLeft e.toList ∧
              places "/v1".toList (endpointUrl (trailed e n blanks)).toList =
                places "/v1".toList (trailed e n blanks).toList ∧
              places completionsPath.toList (endpointUrl (trailed e n blanks)).toList =
                places completionsPath.toList (trailed e n blanks).toList) := by
  refine ⟨path_suffix e, endpointUrl_endpointUrl e, fun n blanks hblanks => ⟨?_, ?_, ?_⟩⟩
  · intro he
    rw [← String.toList_inj, toList_endpointUrl, toList_endpointUrl, kept_trailed he hblanks]
  · intro hversion
    rw [toList_endpointUrl_of_version hversion hblanks, places_version_path, places_path_path,
      isEnding_version.places_trailed hblanks, isEnding_path.places_trailed hblanks]
    exact ⟨rfl, rfl, rfl⟩
  · intro hpath
    rw [toList_endpointUrl_of_path hpath hblanks, isEnding_version.places_trailed hblanks,
      isEnding_path.places_trailed hblanks]
    exact ⟨rfl, rfl, rfl⟩

theorem endpointUrl_normal_spaced :
    isBlankText "\t " = true ∧ "/v1".toList <:+ " http://host/v1".toList ∧
      endpointUrl (trailed " http://host/v1" 2 "\t ") = "http://host/v1/chat/completions" := by
  have hblanks : isBlankText "\t " = true := by decide
  have hversion : "/v1".toList <:+ " http://host/v1".toList := by decide
  obtain ⟨-, -, h⟩ := endpointUrl_normal " http://host/v1"
  obtain ⟨hurl, -⟩ := (h 2 "\t " hblanks).2.1 hversion
  refine ⟨hblanks, hversion, String.toList_inj.1 ?_⟩
  rw [hurl]
  decide

end RepoAtlas.Chat
