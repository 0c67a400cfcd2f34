import Mathlib.Tactic.SplitIfs
import RepoAtlas.Syntax.Automaton

/-!
# What an automaton says of a text

An item of a state says how far into a production the text read so far leads. The items
of a kernel behind a symbol have taken one step more than items of the state before it,
and the step is of this symbol (`Tables.isBehind_of_mem_kernelAfter`). The productions to
complete by a plan are those of items without a next step (`Tables.isComplete_of_mem_plan`).

What an automaton remembers is what its tables say (`Automaton.Faithful`), and it builds
new states without changing those there are (`Automaton.Evolves`).
-/

namespace RepoAtlas.Syntax

variable {T N R : Type}

/-! ### The tables of productions -/

section

variable [DecidableEq T]

namespace Tables

/-- How the states see a symbol. -/
def code (t : Tables T N R) : Symbol T → Bool × Nat
  | .token token => (true, t.tokenNumber token)
  | .rule i => (false, i)

theorem cell_eq_code (t : Tables T N R) (s : Step T N R) :
    ((t.cell s).isToken, (t.cell s).number) = t.code s.symbol := by
  unfold cell
  split <;> rename_i h <;> rw [h] <;> rfl

/-- A token of the tables has a number of its own. -/
theorem tokenNumber_injective {t : Tables T N R} {token other : T} (h : token ∈ t.tokens)
    (hnumber : t.tokenNumber token = t.tokenNumber other) : token = other := by
  unfold tokenNumber at hnumber
  cases hi : t.tokens.toList.idxOf? token with
  | none => exact absurd (Array.mem_toList_iff.2 h) (List.idxOf?_eq_none_iff.1 hi)
  | some i =>
    cases hj : t.tokens.toList.idxOf? other with
    | none =>
      rw [hi, hj] at hnumber
      cases hnumber
    | some j =>
      rw [hi, hj] at hnumber
      cases Nat.succ.inj hnumber
      obtain ⟨_, htoken, -⟩ := List.idxOf?_eq_some_iff.1 hi
      obtain ⟨_, hother, -⟩ := List.idxOf?_eq_some_iff.1 hj
      exact htoken.symm.trans hother

section

variable {productions : List (Production T N R)} {item : Item}

theorem exists_widenStarts_eq (t : Tables T N R) :
    ∃ starts, t.widenStarts = { t with starts } := by
  rw [widenStarts, ← Array.foldl_toList]
  refine List.foldlRecOn
    (motive := fun (wider : Tables T N R) => ∃ starts, wider = { t with starts })
    _ _ ⟨t.starts, rfl⟩ ?_
  rintro wider ⟨starts, rfl⟩ p -
  dsimp only
  split
  · exact ⟨_, rfl⟩
  · exact ⟨_, rfl⟩

/-- While the tokens that rules begin with are completed, nothing else changes. -/
theorem exists_untilStable_eq (fuel : Nat) (t : Tables T N R) :
    ∃ starts, untilStable (·.starts) widenStarts fuel t = { t with starts } := by
  induction fuel generalizing t with
  | zero => exact ⟨t.starts, rfl⟩
  | succ fuel ih =>
    rw [untilStable]
    split
    · exact ⟨t.starts, rfl⟩
    · obtain ⟨starts, hstarts⟩ := exists_widenStarts_eq t
      rw [hstarts]
      exact ih _

theorem productions_untilStable (fuel : Nat) (t : Tables T N R) :
    (untilStable (·.starts) widenStarts fuel t).productions = t.productions := by
  obtain ⟨starts, h⟩ := exists_untilStable_eq fuel t
  rw [h]

theorem tokens_untilStable (fuel : Nat) (t : Tables T N R) :
    (untilStable (·.starts) widenStarts fuel t).tokens = t.tokens := by
  obtain ⟨starts, h⟩ := exists_untilStable_eq fuel t
  rw [h]

theorem productions_ofProductions :
    (ofProductions productions).productions = productions.toArray :=
  productions_untilStable ..

/-- The tokens that stand in productions are those of the tables. -/
theorem mem_tokens_ofProductions {p : Production T N R} {s : Step T N R} {token : T}
    (hp : p ∈ productions) (hs : s ∈ p.steps) (htoken : s.symbol = .token token) :
    token ∈ (ofProductions productions).tokens := by
  have htokens : (ofProductions productions).tokens = _ := tokens_untilStable ..
  rw [htokens]
  simp only [List.mem_toArray, List.mem_eraseDups, List.mem_flatMap, List.mem_filterMap]
  exact ⟨p, hp, s, hs, by rw [htoken]⟩

theorem cells_ofProductions :
    (ofProductions productions).cells = (ofProductions productions).productions.map
      fun p => (p.steps.map (ofProductions productions).cell).toArray :=
  rfl

theorem next?_ofProductions :
    (ofProductions productions).next? item =
      (productions[item.production]?.bind fun p => p.steps[item.dot]?).map
        (ofProductions productions).cell := by
  rw [next?, cells_ofProductions, productions_ofProductions]
  cases h : productions[item.production]? with
  | none => simp [h]
  | some p => simp [h]

/-- Before a step of a production, an item sees a cell of the step. -/
theorem exists_of_next?_eq_some {cell : Cell}
    (h : (ofProductions productions).next? item = some cell) :
    ∃ p s, productions[item.production]? = some p ∧ p.steps[item.dot]? = some s ∧
      (ofProductions productions).code s.symbol = (cell.isToken, cell.number) := by
  rw [next?_ofProductions, Option.map_eq_some_iff] at h
  obtain ⟨s, hs, rfl⟩ := h
  obtain ⟨p, hp, hs⟩ := Option.bind_eq_some_iff.1 hs
  exact ⟨p, s, hp, hs, (cell_eq_code _ s).symm⟩

/-- Behind the last step of a production, an item sees none. -/
theorem length_le_of_next?_eq_none {p : Production T N R}
    (h : (ofProductions productions).next? item = none)
    (hp : productions[item.production]? = some p) : p.steps.length ≤ item.dot := by
  rwa [next?_ofProductions, hp, Option.bind_some, Option.map_eq_none_iff,
    List.getElem?_eq_none_iff] at h

/-- A symbol of a production is the one that states see it as. -/
theorem symbol_eq_of_code_eq {p : Production T N R} {s : Step T N R} {X : Symbol T}
    (hp : p ∈ productions) (hs : s ∈ p.steps)
    (h : (ofProductions productions).code s.symbol = (ofProductions productions).code X) :
    s.symbol = X := by
  cases hsymbol : s.symbol with
  | token token =>
    have htoken := mem_tokens_ofProductions hp hs hsymbol
    rw [hsymbol] at h
    cases X with
    | token other => rw [tokenNumber_injective htoken (Prod.mk.inj h).2]
    | rule => cases (Prod.mk.inj h).1
  | rule i =>
    rw [hsymbol] at h
    cases X with
    | token => cases (Prod.mk.inj h).1
    | rule => rw [(Prod.mk.inj h).2]

end

end Tables

end

/-! ### The items of a state -/

/-- Whether two items have gone equally far into a production. -/
structure Item.Meets (item other : Item) : Prop where
  production : item.production = other.production
  dot : item.dot = other.dot

/-- A kernel that an item is entered into has this item and those it had, up to what may
    follow. -/
theorem exists_of_mem_insertItem {item new : Item} {kernel : List Item}
    (h : item ∈ insertItem new kernel) : item.Meets new ∨ ∃ old ∈ kernel, item.Meets old := by
  fun_induction insertItem new kernel with
  | case1 =>
    rw [List.mem_singleton.1 h]
    exact .inl ⟨rfl, rfl⟩
  | case2 other rest heq =>
    rcases List.mem_cons.1 h with rfl | h
    · exact .inl ⟨heq.1.symm, heq.2.symm⟩
    · exact .inr ⟨item, List.mem_cons_of_mem _ h, rfl, rfl⟩
  | case3 other rest _ _ =>
    rcases List.mem_cons.1 h with rfl | h
    · exact .inl ⟨rfl, rfl⟩
    · exact .inr ⟨item, h, rfl, rfl⟩
  | case4 other rest _ _ ih =>
    rcases List.mem_cons.1 h with rfl | h
    · exact .inr ⟨item, List.mem_cons_self .., rfl, rfl⟩
    · refine (ih h).imp_right ?_
      rintro ⟨old, hold, hmeets⟩
      exact ⟨old, List.mem_cons_of_mem _ hold, hmeets⟩

namespace Tables

variable {t : Tables T N R} {s : State T} {item : Item} {isToken : Bool} {number token i : Nat}

/-- An item of a state is one of its kernel, or begins a production. -/
theorem mem_kernel_or_dot_eq_zero (h : item ∈ t.items s) : item ∈ s.kernel ∨ item.dot = 0 := by
  refine (List.mem_append.1 h).imp_right fun hopened => ?_
  obtain ⟨rule, -, hitem⟩ := List.mem_flatMap.1 hopened
  obtain ⟨p, -, rfl⟩ := List.mem_map.1 hitem
  rfl

/-- Whether an item has taken a step of a symbol behind an item of a state. -/
def IsBehind (t : Tables T N R) (s : State T) (isToken : Bool) (number : Nat) (item : Item) :
    Prop :=
  ∃ before ∈ t.items s, ∃ cell, t.next? before = some cell ∧
    (cell.isToken, cell.number) = (isToken, number) ∧ item.production = before.production ∧
    item.dot = before.dot + 1

/-- An item of the kernel behind a symbol has taken a step of it. -/
theorem isBehind_of_mem_kernelAfter (h : item ∈ t.kernelAfter s isToken number) :
    t.IsBehind s isToken number item := by
  suffices hall : ∀ item ∈ t.kernelAfter s isToken number, t.IsBehind s isToken number item from
    hall item h
  refine List.foldlRecOn (motive := fun kernel => ∀ item ∈ kernel, t.IsBehind s isToken number item)
    _ _ (List.forall_mem_nil _) fun kernel hkernel before hbefore => ?_
  split
  · rename_i cell hcell
    split
    · rename_i hsame
      simp only [Bool.and_eq_true, beq_iff_eq] at hsame
      intro item hitem
      rcases exists_of_mem_insertItem hitem with hmeets | ⟨old, hold, hmeets⟩
      · exact ⟨before, hbefore, cell, hcell, Prod.ext hsame.1 hsame.2, hmeets.production,
          hmeets.dot⟩
      · rw [IsBehind, hmeets.production, hmeets.dot]
        exact hkernel old hold
    · exact hkernel
  · exact hkernel

/-- Whether a production is complete in a state: an item has no next step. -/
def IsComplete (t : Tables T N R) (s : State T) (i : Nat) : Prop :=
  ∃ item ∈ t.items s, item.production = i ∧ t.next? item = none

theorem isComplete_of_mem_completions (h : i ∈ (t.completions s token).1) : t.IsComplete s i := by
  suffices hall : ∀ i ∈ (t.completions s token).1, t.IsComplete s i from hall i h
  refine List.foldlRecOn
    (motive := fun (result : List Nat × Int) => ∀ i ∈ result.1, t.IsComplete s i)
    _ _ (List.forall_mem_nil _) ?_
  rintro ⟨found, rank⟩ hfound item hitem
  dsimp only
  split
  · rename_i hcomplete
    have hnew : t.IsComplete s item.production :=
      ⟨item, hitem, rfl, Option.isNone_iff_eq_none.1 (Bool.and_eq_true_iff.1 hcomplete).1⟩
    split
    · exact List.forall_mem_singleton.2 hnew
    · split
      · exact List.forall_mem_append.2 ⟨hfound, List.forall_mem_singleton.2 hnew⟩
      · exact hfound
  · exact hfound

/-- A plan completes all productions that are complete before the token, or none. -/
theorem complete_plan (t : Tables T N R) (s : State T) (token : Nat) :
    (t.plan s token).complete = [] ∨
      (t.plan s token).complete = (t.completions s token).1 := by
  unfold plan
  dsimp only
  split_ifs <;> simp

/-- What a plan completes is complete. -/
theorem isComplete_of_mem_plan (h : i ∈ (t.plan s token).complete) : t.IsComplete s i := by
  rcases t.complete_plan s token with hnone | hall
  · rw [hnone] at h
    cases h
  · exact isComplete_of_mem_completions (hall ▸ h)

end Tables

/-! ### What is remembered -/

namespace Automaton

/-- Whether a state has a kernel. -/
def HasKernel (a : Automaton T) (i : Nat) (kernel : List Item) : Prop :=
  ∃ s, a.states[i]? = some s ∧ s.kernel = kernel

/-- Whether a symbol leads from a state to another. -/
def Leads (t : Tables T N R) (a : Automaton T) (i : Nat) (isToken : Bool) (number j : Nat) : Prop :=
  ∃ s, a.states[i]? = some s ∧ a.HasKernel j (t.kernelAfter s isToken number)

/-- Whether a production is complete in a state. -/
def Completes (t : Tables T N R) (a : Automaton T) (i p : Nat) : Prop :=
  ∃ s, a.states[i]? = some s ∧ t.IsComplete s p

/-- Whether what is remembered of the states built so far is what the tables say. -/
structure Faithful (t : Tables T N R) (a : Automaton T) : Prop where
  byKernel {kernel : List Item} {i : Nat} : a.byKernel[kernel]? = some i → a.HasKernel i kernel
  moves {i number j : Nat} {isToken : Bool} :
    a.moves[(i, isToken, number)]? = some (some j) → a.Leads t i isToken number j
  plans {i token : Nat} {plan : Plan} :
    a.plans[(i, token)]? = some plan → ∀ p ∈ plan.complete, a.Completes t i p

/-- Whether an automaton has all states of another. -/
def Extends (larger a : Automaton T) : Prop :=
  ∀ (i : Nat) (s : State T), a.states[i]? = some s → larger.states[i]? = some s

/-- Whether an automaton has all states of another, and is as the tables say. -/
structure Evolves (t : Tables T N R) (a later : Automaton T) : Prop where
  isExtension : later.Extends a
  faithful : later.Faithful t

variable {t : Tables T N R} {a b c : Automaton T} {kernel : List Item} {i j number p : Nat}
  {isToken : Bool}

theorem faithful_empty : (empty : Automaton T).Faithful t where
  byKernel h := by simp [empty] at h
  moves h := by simp [empty] at h
  plans h := by simp [empty] at h

/-- The first state built is that at the start of a text. -/
theorem enter_empty [DecidableEq T] (kernel : List Item) :
    ((empty : Automaton T).enter t kernel).1 = 0 := by
  simp [Automaton.enter, empty]

namespace Evolves

theorem refl (h : a.Faithful t) : Evolves t a a := ⟨fun _ _ hs => hs, h⟩

theorem trans (h : Evolves t a b) (h' : Evolves t b c) : Evolves t a c :=
  ⟨fun i s hs => h'.isExtension i s (h.isExtension i s hs), h'.faithful⟩

end Evolves

theorem HasKernel.mono (h : b.Extends a) (hkernel : a.HasKernel i kernel) :
    b.HasKernel i kernel := by
  obtain ⟨s, hs, rfl⟩ := hkernel
  exact ⟨s, h i s hs, rfl⟩

theorem Leads.mono (h : b.Extends a) (hleads : a.Leads t i isToken number j) :
    b.Leads t i isToken number j := by
  obtain ⟨s, hs, hnext⟩ := hleads
  exact ⟨s, h i s hs, hnext.mono h⟩

theorem Completes.mono (h : b.Extends a) (hcompletes : a.Completes t i p) :
    b.Completes t i p := by
  obtain ⟨s, hs, hp⟩ := hcompletes
  exact ⟨s, h i s hs, hp⟩

namespace Faithful

theorem insertMove [DecidableEq T] (h : a.Faithful t) {target : Option Nat}
    (htarget : ∀ j, target = some j → a.Leads t i isToken number j) :
    Faithful t { a with moves := a.moves.insert (i, isToken, number) target } where
  byKernel := h.byKernel
  moves hmove := by
    rw [Std.HashMap.getElem?_insert] at hmove
    split at hmove
    · rename_i hsame
      cases beq_iff_eq.1 hsame
      exact htarget _ (Option.some.inj hmove)
    · exact h.moves hmove
  plans := h.plans

/-- Entering a kernel leads to a state with it. -/
theorem enter [DecidableEq T] (h : a.Faithful t) (kernel : List Item) :
    Evolves t a (a.enter t kernel).2 ∧
      (a.enter t kernel).2.HasKernel (a.enter t kernel).1 kernel := by
  unfold Automaton.enter
  split
  · rename_i i hi
    exact ⟨.refl h, h.byKernel hi⟩
  · -- A new state goes behind those there are.
    let larger : Automaton T := { a with
      states := a.states.push (t.state kernel), byKernel := a.byKernel.insert kernel a.states.size }
    have hextends : larger.Extends a := by
      intro i s hs
      obtain ⟨hlt, -⟩ := Array.getElem?_eq_some_iff.1 hs
      exact (Array.getElem?_push_lt hlt).trans ((Array.getElem?_eq_getElem hlt).symm.trans hs)
    have hnew : larger.HasKernel a.states.size kernel :=
      ⟨t.state kernel, Array.getElem?_push_size, rfl⟩
    refine ⟨⟨hextends, ?_, fun hmove => (h.moves hmove).mono hextends,
      fun hplan p hp => (h.plans hplan p hp).mono hextends⟩, hnew⟩
    intro other i hi
    rw [Std.HashMap.getElem?_insert] at hi
    split at hi
    · rename_i hsame
      cases hi
      cases beq_iff_eq.1 hsame
      exact hnew
    · exact (h.byKernel hi).mono hextends

/-- A move leads to the state behind a symbol. -/
theorem move [DecidableEq T] (h : a.Faithful t) (i : Nat) (isToken : Bool) (number : Nat) :
    Evolves t a (a.move t i isToken number).2 ∧
      ∀ j, (a.move t i isToken number).1 = some j →
        (a.move t i isToken number).2.Leads t i isToken number j := by
  unfold Automaton.move
  dsimp only
  split
  · rename_i target htarget
    refine ⟨.refl h, fun j hj => h.moves ?_⟩
    rw [htarget]
    exact congrArg some hj
  · split
    · exact ⟨.refl h, fun j hj => nomatch hj⟩
    · rename_i s hs
      split
      · exact ⟨⟨fun _ _ hs => hs, h.insertMove fun j hj => nomatch hj⟩, fun j hj => nomatch hj⟩
      · obtain ⟨hevolves, hkernel⟩ := h.enter (t.kernelAfter s isToken number)
        have hleads : (a.enter t (t.kernelAfter s isToken number)).2.Leads t i isToken number
            (a.enter t (t.kernelAfter s isToken number)).1 :=
          ⟨s, hevolves.isExtension i s hs, hkernel⟩
        refine ⟨⟨hevolves.isExtension, hevolves.faithful.insertMove ?_⟩, ?_⟩
        · rintro j ⟨⟩
          exact hleads
        · rintro j ⟨⟩
          exact hleads

/-- A plan completes what is complete in its state. -/
theorem planAt [DecidableEq T] (h : a.Faithful t) (i token : Nat) :
    Evolves t a (a.planAt t i token).2 ∧
      ∀ p ∈ (a.planAt t i token).1.complete, a.Completes t i p := by
  unfold Automaton.planAt
  split
  · rename_i plan hplan
    exact ⟨.refl h, h.plans hplan⟩
  · -- Where there is no state, nothing is complete.
    have hnew : ∀ p ∈ ((a.states[i]?).elim (⟨false, []⟩ : Plan) (t.plan · token)).complete,
        a.Completes t i p := by
      intro p hp
      cases hs : a.states[i]? with
      | none =>
        rw [hs] at hp
        cases hp
      | some s =>
        rw [hs] at hp
        exact ⟨s, hs, Tables.isComplete_of_mem_plan hp⟩
    refine ⟨⟨fun _ _ hs => hs, h.byKernel, h.moves, fun hplan => ?_⟩, hnew⟩
    rw [Std.HashMap.getElem?_insert] at hplan
    split at hplan
    · rename_i hsame
      cases beq_iff_eq.1 hsame
      cases hplan
      exact hnew
    · exact h.plans hplan

end Faithful

end Automaton

end RepoAtlas.Syntax
