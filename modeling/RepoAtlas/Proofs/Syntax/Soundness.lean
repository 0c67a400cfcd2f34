import RepoAtlas.Proofs.Syntax.Stack
import RepoAtlas.Syntax.Parse

/-!
# Soundness of the parser

A tree that is read without a fault is one of the language (`Language.isSound_parse`).
All that reading does keeps to stacks that the automaton supports: completing
productions (`Language.settle`), taking a token (`Carries.advance`), and going on behind
a fault (`Language.recover`), which is a node with a fault before the next token. When
the text is complete, the start of the grammar is completed on such a stack.

The functions that a reader folds over its stacks and readings are named here
(`settleBy`, `takeBy`, `growBy`, `advanceBy`), each with what one step keeps.
-/

namespace RepoAtlas.Syntax

variable {T N R : Type} [DecidableEq T] [DecidableEq N] [DecidableEq R]

namespace Language

variable {l : Language T N R} {p : Production T N R} {parts : List (Array (Node T N R))}
  {stack : Stack T N R} {a b c : Automaton T}

/-! ### Readings -/

/-- Whether a tree is one of the language, unless it has a fault. -/
def IsSound (l : Language T N R) (tree : Node T N R) : Prop :=
  tree.hasFault = true ∨ l.Describes (.rule l.start) [tree]

/-- Whether a turn has come to stacks that the automaton supports, and to a whole tree. -/
structure Sustains (l : Language T N R) (a : Automaton T) (turn : Turn T N R) : Prop where
  ready : ∀ stack ∈ turn.ready, l.Supports a stack
  isSound : ∀ tree, turn.tree = some tree → l.IsSound tree ∧
    ∃ parts, tree = .branch l.start none parts

theorem Sustains.mono {turn : Turn T N R} (hb : b.Extends a) (h : l.Sustains a turn) :
    l.Sustains b turn :=
  ⟨fun stack hstack => (h.ready stack hstack).mono hb, h.isSound⟩

omit [DecidableEq T] [DecidableEq N] [DecidableEq R] in
theorem eq_some_of_orElse {first other : Option (Node T N R)} {tree : Node T N R}
    (h : (first <|> other) = some tree) : first = some tree ∨ other = some tree := by
  cases first with
  | none => exact .inr h
  | some _ => exact .inl h

/-- A completed start is a whole tree. -/
theorem isSound_of_tells (hwf : l.WellFormed) (hrule : p.rule = l.number l.start)
    (htells : l.Tells (.rule p.rule) ((Engine.ofLanguage l).assemble p parts)) {tree : Node T N R}
    (htree : ((Engine.ofLanguage l).assemble p parts)[0]? = some tree) :
    l.IsSound tree ∧ ∃ parts, tree = .branch l.start none parts := by
  obtain ⟨e, hmem⟩ := hwf.exists_start
  rw [Tells, toList_assemble, hrule, enclose_number hwf hmem, hwf.isHidden_start] at htells
  rw [← Array.getElem?_toList, toList_assemble, hrule, enclose_number hwf hmem,
    hwf.isHidden_start] at htree
  cases htree
  refine ⟨htells.imp (fun hfault => ?_) fun hmeans => hmeans _ .rule, _, rfl⟩
  simpa [Node.anyFault] using hfault

/-- A production completed on a stack: what is left to do, the turn and the automaton. -/
def settleBy (l : Language T N R) (stack : Stack T N R) :
    List (Stack T N R) × Turn T N R × Automaton T → Nat →
      List (Stack T N R) × Turn T N R × Automaton T
  | (work, turn, a), i =>
    match (Engine.ofLanguage l).tables.productions[i]? with
    | none => (work, turn, a)
    | some p =>
      let nodes := (Engine.ofLanguage l).assemble p
        ((stack.take p.steps.length).reverse.map (·.nodes))
      let below := stack.drop p.steps.length
      if p.rule == (Engine.ofLanguage l).start && below.isEmpty then
        (work, { turn with tree := turn.tree <|> nodes[0]? }, a)
      else
        match a.move (Engine.ofLanguage l).tables (topState below) false p.rule with
        | (some state, a) => ((⟨state, nodes⟩ :: below) :: work, turn, a)
        | (none, a) => (work, turn, a)

theorem settle_cons (token fuel : Nat) (stack : Stack T N R) (work : List (Stack T N R))
    (turn : Turn T N R) (a : Automaton T) :
    (Engine.ofLanguage l).settle token (fuel + 1) (stack :: work) turn a =
      let planned := a.planAt l.tables (topState stack) token
      let turn := if planned.1.read then { turn with ready := turn.ready ++ [stack] } else turn
      let next := planned.1.complete.foldl (l.settleBy stack) (work, turn, planned.2)
      (Engine.ofLanguage l).settle token fuel next.1 next.2.1 next.2.2 :=
  rfl

/-- Whether, since an automaton, only stacks that it supports have been come to, and whole
    trees. -/
structure Settles (l : Language T N R) (a : Automaton T)
    (now : List (Stack T N R) × Turn T N R × Automaton T) : Prop where
  keeps : l.Keeps a (now.1, now.2.2)
  turn : l.Sustains now.2.2 now.2.1

/-- Completing a production that is complete on a stack keeps to supported stacks. -/
theorem Settles.settleBy {now : List (Stack T N R) × Turn T N R × Automaton T} {i : Nat}
    (hwf : l.WellFormed) (h : l.Settles a now) (hstack : l.Supports a stack)
    (hcompletes : a.Completes l.tables (topState stack) i) :
    l.Settles a (l.settleBy stack now i) := by
  obtain ⟨work, turn, b⟩ := now
  have hextension := h.keeps.evolves.isExtension
  replace hstack := hstack.mono hextension
  replace hcompletes := hcompletes.mono hextension
  unfold Language.settleBy
  cases hp : l.tables.productions[i]? with
  | none => simpa [hp] using h
  | some p =>
    dsimp only
    rw [hp]
    dsimp only
    split
    · rename_i hstart
      rw [Bool.and_eq_true, beq_iff_eq] at hstart
      refine ⟨h.keeps, h.turn.ready, fun tree htree => ?_⟩
      rcases eq_some_of_orElse htree with htree | htree
      · exact h.turn.isSound tree htree
      · exact isSound_of_tells hwf hstart.1 (hstack.tells_assemble hwf hcompletes hp) htree
    · have hmove := hstack.complete hwf h.keeps.evolves.faithful hcompletes hp
      dsimp only at hmove
      generalize b.move l.tables (topState (stack.drop p.steps.length)) false p.rule = moved
        at hmove ⊢
      obtain ⟨target, c⟩ := moved
      obtain ⟨hevolves, hpushed⟩ := hmove
      have hkeeps := h.keeps.later hevolves
      have hturn := h.turn.mono hevolves.isExtension
      cases target with
      | none => exact ⟨hkeeps, hturn⟩
      | some j =>
        exact ⟨⟨hkeeps.evolves, List.forall_mem_cons.2 ⟨hpushed j rfl, hkeeps.supports⟩⟩, hturn⟩

/-- Completing productions keeps to stacks that the automaton supports. -/
theorem settle (hwf : l.WellFormed) (token fuel : Nat) {work : List (Stack T N R)}
    {turn : Turn T N R} (hfaithful : a.Faithful l.tables)
    (hwork : ∀ stack ∈ work, l.Supports a stack) (hturn : l.Sustains a turn) :
    let result := (Engine.ofLanguage l).settle token fuel work turn a
    a.Evolves l.tables result.2 ∧ l.Sustains result.2 result.1 := by
  induction fuel generalizing work turn a with
  | zero => exact ⟨.refl hfaithful, hturn⟩
  | succ fuel ih =>
    cases work with
    | nil => exact ⟨.refl hfaithful, hturn⟩
    | cons stack work =>
      obtain ⟨hevolves, hcompletes⟩ := hfaithful.planAt (topState stack) token
      rw [settle_cons]
      dsimp only
      generalize a.planAt l.tables (topState stack) token = planned at hevolves hcompletes ⊢
      obtain ⟨plan, b⟩ := planned
      dsimp only at hevolves hcompletes ⊢
      -- All that the automaton supported before the plan was made, it still does.
      have hextension := hevolves.isExtension
      replace hwork := fun other hother => (hwork other hother).mono hextension
      rw [List.forall_mem_cons] at hwork
      replace hturn := hturn.mono hextension
      have hfirst : l.Settles b
          (work, if plan.read then { turn with ready := turn.ready ++ [stack] } else turn, b) := by
        refine ⟨⟨.refl hevolves.faithful, hwork.2⟩, ?_⟩
        dsimp only
        split
        · exact ⟨List.forall_mem_append.2 ⟨hturn.ready, List.forall_mem_singleton.2 hwork.1⟩,
            hturn.isSound⟩
        · exact hturn
      have hnext := List.foldlRecOn (motive := l.Settles b) plan.complete (l.settleBy stack) hfirst
        fun now hnow i hi => hnow.settleBy hwf hwork.1 ((hcompletes i hi).mono hextension)
      obtain ⟨hlater, hresult⟩ :=
        ih hnext.keeps.evolves.faithful hnext.keeps.supports hnext.turn
      exact ⟨(hevolves.trans hnext.keeps.evolves).trans hlater, hresult⟩

variable {C : Type}

/-- Whether a reading has a stack that the automaton supports, and no nodes before the next
    token but faults. -/
structure Carries (l : Language T N R) (a : Automaton T) (r : Reading T N R C) : Prop where
  supports : l.Supports a r.stack
  faults : r.faults = #[] ∨ Node.anyFault r.faults.toList = true

theorem Carries.mono {r : Reading T N R C} (hb : b.Extends a) (h : l.Carries a r) :
    l.Carries b r :=
  ⟨h.supports.mono hb, h.faults⟩

/-- Whether, since an automaton, reading has come to readings that it carries, and to sound
    trees. -/
structure Proceeds (l : Language T N R) (a : Automaton T) (readings : List (Reading T N R C))
    (tree : Option (Node T N R)) (b : Automaton T) : Prop where
  evolves : a.Evolves l.tables b
  carries : ∀ r ∈ readings, l.Carries b r
  isSound : ∀ found, tree = some found → l.IsSound found

/-- The leaf of a token is what the token means. -/
theorem means_leaves (lexeme : Lexeme T) (token : T) :
    l.Means (.token token) ((Engine.ofLanguage l).leaves lexeme token).toList := by
  rintro _ ⟨⟩
  unfold Engine.leaves
  split
  · rename_i hsilent
    exact .silent hsilent
  · rename_i hsilent
    exact .leaf _ _ _ (Bool.eq_false_iff.2 hsilent)

theorem Carries.tells {r : Reading T N R C} (h : l.Carries a r) (lexeme : Lexeme T) (token : T) :
    l.Tells (.token token) (r.faults ++ (Engine.ofLanguage l).leaves lexeme token) := by
  rw [Tells, Array.toList_append, Node.anyFault_append]
  rcases h.faults with hnone | hfault
  · rw [hnone]
    exact .inr (means_leaves lexeme token)
  · rw [hfault]
    exact .inl rfl

/-- A whole tree stays sound with the faults behind it. -/
theorem Carries.isSound_append {r : Reading T N R C} (h : l.Carries a r) {tree : Node T N R}
    (hsound : l.IsSound tree) (hbranch : ∃ parts, tree = .branch l.start none parts) :
    l.IsSound (tree.append r.faults.toList) := by
  obtain ⟨parts, rfl⟩ := hbranch
  rw [Node.append]
  rcases h.faults with hnone | hfault
  · rw [hnone, List.append_nil]
    exact hsound
  · refine .inl ?_
    rw [Node.hasFault, Node.anyFault_append, hfault, Bool.or_true]

theorem Proceeds.refl (h : a.Faithful l.tables) :
    l.Proceeds a ([] : List (Reading T N R C)) none a :=
  ⟨.refl h, List.forall_mem_nil _, fun _ hfound => nomatch hfound⟩

theorem Proceeds.later {readings : List (Reading T N R C)} {tree : Option (Node T N R)}
    (h : l.Proceeds a readings tree b) (hc : b.Evolves l.tables c) :
    l.Proceeds a readings tree c :=
  ⟨h.evolves.trans hc, fun r hr => (h.carries r hr).mono hc.isExtension, h.isSound⟩

/-- A token taken on a stack: the readings so far and the automaton. -/
def takeBy (l : Language T N R) (nodes : Array (Node T N R)) (cursor : C) (number : Nat) :
    List (Reading T N R C) × Automaton T → Stack T N R → List (Reading T N R C) × Automaton T
  | (readings, a), stack =>
    match a.move l.tables (topState stack) true number with
    | (some state, a) => (readings ++ [{ stack := ⟨state, nodes⟩ :: stack, cursor }], a)
    | (none, a) => (readings, a)

/-- Taking a token on a supported stack leads to a reading that the automaton carries. -/
theorem Proceeds.takeBy {now : List (Reading T N R C) × Automaton T} {token : T}
    {nodes : Array (Node T N R)} {cursor : C} (h : l.Proceeds a now.1 none now.2)
    (hstack : l.Supports now.2 stack) (htells : l.Tells (.token token) nodes) :
    let next := l.takeBy nodes cursor (l.tables.tokenNumber token) now stack
    l.Proceeds a next.1 none next.2 := by
  obtain ⟨readings, b⟩ := now
  have hmove := hstack.move h.evolves.faithful rfl htells
  unfold Language.takeBy
  dsimp only at hmove ⊢
  generalize b.move l.tables (topState stack) true (l.tables.tokenNumber token) = moved at hmove ⊢
  obtain ⟨target, c⟩ := moved
  obtain ⟨hevolves, hpushed⟩ := hmove
  have hlater := h.later hevolves
  cases target with
  | none => exact hlater
  | some j =>
    have hnew : l.Carries c { stack := ⟨j, nodes⟩ :: stack, cursor } := ⟨hpushed j rfl, .inl rfl⟩
    exact ⟨hlater.evolves, List.forall_mem_append.2
      ⟨hlater.carries, List.forall_mem_singleton.2 hnew⟩, hlater.isSound⟩

/-- Taking a token keeps to readings that the automaton carries. -/
theorem Carries.advance (hwf : l.WellFormed) (sc : Scanner T C) {r : Reading T N R C}
    (hfaithful : a.Faithful l.tables) (h : l.Carries a r) :
    let result := (Engine.ofLanguage l).advance sc r a
    l.Proceeds a result.1.1 result.1.2 result.2 := by
  unfold Engine.advance
  split
  · exact .refl hfaithful
  · split
    · exact .refl hfaithful
    · rename_i lexeme cursor _
      dsimp only
      have hfirst : l.Sustains a ⟨[], none⟩ :=
        ⟨List.forall_mem_nil _, fun _ htree => nomatch htree⟩
      obtain ⟨hevolves, hturn⟩ := settle hwf (lexeme.token.elim 0 l.tables.tokenNumber)
        (settleFuel r.stack) hfaithful (List.forall_mem_singleton.2 h.supports) hfirst
      generalize Engine.settle _ _ _ _ _ a = settled at hevolves hturn ⊢
      obtain ⟨turn, b⟩ := settled
      dsimp only at hevolves hturn ⊢
      cases htoken : lexeme.token with
      | none =>
        refine ⟨hevolves, List.forall_mem_nil _, fun found hfound => ?_⟩
        obtain ⟨tree, htree, rfl⟩ := Option.map_eq_some_iff.1 hfound
        obtain ⟨hsound, hbranch⟩ := hturn.isSound tree htree
        exact h.isSound_append hsound hbranch
      | some token =>
        have hall : let now := turn.ready.foldl (l.takeBy
              (r.faults ++ (Engine.ofLanguage l).leaves lexeme token) cursor
              (l.tables.tokenNumber token)) ([], b)
            l.Proceeds b now.1 none now.2 := by
          refine List.foldlRecOn (motive := fun (now : List (Reading T N R C) × Automaton T) =>
            l.Proceeds b now.1 none now.2) _ _ (.refl hevolves.faithful)
            fun now hnow stack hstack => hnow.takeBy ?_ (h.tells lexeme token)
          exact (hturn.ready stack hstack).mono hnow.evolves.isExtension
        exact ⟨hevolves.trans hall.evolves, hall.carries, hall.isSound⟩

/-! ### Recovery -/

theorem completes_of_mem_completeIn {i : Nat}
    (h : p ∈ (Engine.ofLanguage l).completeIn i a) :
    ∃ j, l.tables.productions[j]? = some p ∧ a.Completes l.tables i j := by
  unfold Engine.completeIn at h
  split at h
  · cases h
  · rename_i s hs
    obtain ⟨item, hitem, hp⟩ := List.mem_filterMap.1 h
    split at hp
    · rename_i hnext
      exact ⟨item.production, hp, s, hs, item, List.mem_append_left _ hitem, rfl,
        Option.isNone_iff_eq_none.1 hnext⟩
    · cases hp

/-- A production completed on a stack, with the stacks so far and the automaton. -/
def growBy (l : Language T N R) (stack : Stack T N R) :
    List (Stack T N R) × Automaton T → Production T N R → List (Stack T N R) × Automaton T
  | (more, a), p =>
    match (Engine.ofLanguage l).completeBy stack p a with
    | (some s, a) => (more ++ [s], a)
    | (none, a) => (more, a)

theorem completeAll_cons (fuel : Nat) (stack : Stack T N R) (work done : List (Stack T N R))
    (a : Automaton T) :
    (Engine.ofLanguage l).completeAll (fuel + 1) (stack :: work) done a =
      let more := ((Engine.ofLanguage l).completeIn (topState stack) a).foldl
        (l.growBy stack) ([], a)
      (Engine.ofLanguage l).completeAll fuel (work ++ more.1) (done ++ [stack]) more.2 :=
  rfl

theorem Keeps.growBy (hwf : l.WellFormed) {now : List (Stack T N R) × Automaton T}
    (h : l.Keeps a now) (hstack : l.Supports a stack)
    (hp : p ∈ (Engine.ofLanguage l).completeIn (topState stack) a) :
    l.Keeps a (l.growBy stack now p) := by
  obtain ⟨more, b⟩ := now
  obtain ⟨i, hp, hcompletes⟩ := completes_of_mem_completeIn hp
  have hextension := h.evolves.isExtension
  have hmove := (hstack.mono hextension).complete hwf h.evolves.faithful
    (hcompletes.mono hextension) hp
  unfold Language.growBy Engine.completeBy
  dsimp only at hmove ⊢
  generalize b.move l.tables (topState (stack.drop p.steps.length)) false p.rule = moved
    at hmove ⊢
  obtain ⟨target, c⟩ := moved
  obtain ⟨hevolves, hpushed⟩ := hmove
  have hlater := h.later hevolves
  cases target with
  | none => exact hlater
  | some j =>
    exact ⟨hlater.evolves, List.forall_mem_append.2
      ⟨hlater.supports, List.forall_mem_singleton.2 (hpushed j rfl)⟩⟩

/-- Completing all productions keeps to supported stacks. -/
theorem completeAll (hwf : l.WellFormed) (fuel : Nat) {work done : List (Stack T N R)}
    (hfaithful : a.Faithful l.tables) (hwork : ∀ stack ∈ work, l.Supports a stack)
    (hdone : ∀ stack ∈ done, l.Supports a stack) :
    l.Keeps a ((Engine.ofLanguage l).completeAll fuel work done a) := by
  induction fuel generalizing work done a with
  | zero => exact ⟨.refl hfaithful, List.forall_mem_append.2 ⟨hdone, hwork⟩⟩
  | succ fuel ih =>
    cases work with
    | nil => exact ⟨.refl hfaithful, hdone⟩
    | cons stack work =>
      have hfirst : l.Keeps a ([], a) := ⟨.refl hfaithful, List.forall_mem_nil _⟩
      have hmore := List.foldlRecOn (motive := l.Keeps a)
        ((Engine.ofLanguage l).completeIn (topState stack) a) (l.growBy stack) hfirst
        fun now hnow p hp => hnow.growBy hwf (hwork stack (List.mem_cons_self ..)) hp
      have hextension := hmore.evolves.isExtension
      replace hwork := fun other hother => (hwork other hother).mono hextension
      replace hdone := fun other hother => (hdone other hother).mono hextension
      rw [List.forall_mem_cons] at hwork
      rw [completeAll_cons]
      have hlater := ih hmore.evolves.faithful
        (List.forall_mem_append.2 ⟨hwork.2, hmore.supports⟩)
        (List.forall_mem_append.2 ⟨hdone, List.forall_mem_singleton.2 hwork.1⟩)
      exact ⟨hmore.evolves.trans hlater.evolves, hlater.supports⟩

/-- What is gone on from is what is left of a stack that is supported. -/
theorem retreatBy? (token n : Nat) (skipped : Array (Node T N R))
    {candidates : List (Stack T N R)} (hfaithful : a.Faithful l.tables)
    (hcandidates : ∀ stack ∈ candidates, l.Supports a stack) :
    let result := (Engine.ofLanguage l).retreatBy? token n skipped candidates a
    a.Evolves l.tables result.2 ∧ ∀ found, result.1 = some found → l.Supports result.2 found.1 := by
  induction candidates generalizing a with
  | nil => exact ⟨.refl hfaithful, fun _ hfound => nomatch hfound⟩
  | cons stack rest ih =>
    rw [List.forall_mem_cons] at hcandidates
    rw [Engine.retreatBy?]
    dsimp only
    split
    · exact ih hfaithful hcandidates.2
    · obtain ⟨hevolves, -⟩ := hfaithful.planAt (topState (stack.drop n)) token
      split
      · refine ⟨hevolves, ?_⟩
        rintro _ ⟨⟩
        exact (hcandidates.1.drop n).mono hevolves.isExtension
      · obtain ⟨hlater, hfound⟩ := ih hevolves.faithful
          fun other hother => (hcandidates.2 other hother).mono hevolves.isExtension
        exact ⟨hevolves.trans hlater, hfound⟩

theorem retreat? (token : Nat) (skipped : Array (Node T N R)) {candidates : List (Stack T N R)}
    (fuel n : Nat) (hfaithful : a.Faithful l.tables)
    (hcandidates : ∀ stack ∈ candidates, l.Supports a stack) :
    let result := (Engine.ofLanguage l).retreat? token skipped candidates fuel n a
    a.Evolves l.tables result.2 ∧ ∀ found, result.1 = some found → l.Supports result.2 found.1 := by
  induction fuel generalizing n a with
  | zero => exact ⟨.refl hfaithful, fun _ hfound => nomatch hfound⟩
  | succ fuel ih =>
    obtain ⟨hevolves, hfound⟩ := retreatBy? token n skipped hfaithful hcandidates
    rw [Engine.retreat?]
    generalize (Engine.ofLanguage l).retreatBy? token n skipped candidates a = result
      at hevolves hfound ⊢
    obtain ⟨_ | found, b⟩ := result
    · obtain ⟨hlater, hfound⟩ := ih (n + 1) hevolves.faithful
        fun other hother => (hcandidates other hother).mono hevolves.isExtension
      exact ⟨hevolves.trans hlater, hfound⟩
    · exact ⟨hevolves, hfound⟩

/-- What is given up is a fault. -/
theorem carries_faultOf {line : Nat} {nodes : Array (Node T N R)} {cursor : C}
    (h : l.Supports a stack) :
    l.Carries a ({ stack, cursor, faults := #[faultOf line nodes] } : Reading T N R C) :=
  ⟨h, .inr rfl⟩

/-- Looking for a token to go on with leads to a reading that the automaton carries. -/
theorem seek (sc : Scanner T C) {candidates : List (Stack T N R)} (fuel first : Nat)
    (found : Found T C) (cursor : C) (skipped : Array (Node T N R))
    (hfaithful : a.Faithful l.tables) (hcandidates : ∀ stack ∈ candidates, l.Supports a stack) :
    let result := (Engine.ofLanguage l).seek sc candidates fuel first found cursor skipped a
    a.Evolves l.tables result.2 ∧ ∀ r, result.1 = some r → l.Carries result.2 r := by
  induction fuel generalizing first found cursor skipped a with
  | zero => exact ⟨.refl hfaithful, fun _ hr => nomatch hr⟩
  | succ fuel ih =>
    cases found with
    | nothing => exact ⟨.refl hfaithful, fun _ hr => nomatch hr⟩
    | stray line behind => exact ih 0 _ behind _ hfaithful hcandidates
    | lexeme lexeme behind =>
      rw [Engine.seek]
      dsimp only
      obtain ⟨hevolves, hfound⟩ := retreat? (lexeme.token.elim 0 l.tables.tokenNumber) skipped
        (retreatLimit + 1 - first) first hfaithful hcandidates
      generalize (Engine.ofLanguage l).retreat? _ _ _ _ _ a = result at hevolves hfound ⊢
      obtain ⟨_ | ⟨stack, lost⟩, b⟩ := result
      · cases lexeme.token with
        | none => exact ⟨hevolves, fun _ hr => nomatch hr⟩
        | some token =>
          obtain ⟨hlater, hr⟩ := ih 0 (lookAnywhere sc behind) behind
            (skipped ++ (Engine.ofLanguage l).leaves lexeme token) hevolves.faithful
            fun other hother => (hcandidates other hother).mono hevolves.isExtension
          exact ⟨hevolves.trans hlater, hr⟩
      · refine ⟨hevolves, ?_⟩
        rintro _ ⟨⟩
        exact carries_faultOf (hfound _ rfl)

/-- Where no reading goes on, recovery leads to one that the automaton carries. -/
theorem recover (hwf : l.WellFormed) (sc : Scanner T C) (limit : Nat)
    {rs : List (Reading T N R C)} (hfaithful : a.Faithful l.tables)
    (hrs : ∀ r ∈ rs, l.Carries a r) :
    let result := (Engine.ofLanguage l).recover sc limit rs a
    a.Evolves l.tables result.2 ∧ ∀ r, result.1 = some r → l.Carries result.2 r := by
  cases rs with
  | nil => exact ⟨.refl hfaithful, fun _ hr => nomatch hr⟩
  | cons r rs =>
    have hkeeps := completeAll hwf (settleFuel r.stack) hfaithful
      (List.forall_mem_map.2 fun r hr => (hrs r hr).supports) (List.forall_mem_nil _)
    obtain ⟨hlater, hr⟩ := seek sc limit 1 _ r.cursor r.faults hkeeps.evolves.faithful
      hkeeps.supports
    exact ⟨hkeeps.evolves.trans hlater, hr⟩

/-! ### Whole texts -/

omit [DecidableEq T] [DecidableEq N] [DecidableEq R] in
theorem mem_of_mem_mergeReadings (sc : Scanner T C) {rs : List (Reading T N R C)}
    {r : Reading T N R C} (h : r ∈ mergeReadings sc rs) : r ∈ rs := by
  suffices hall : ∀ r ∈ mergeReadings sc rs, r ∈ rs from hall r h
  refine List.foldlRecOn (motive := fun (kept : List (Reading T N R C)) => ∀ r ∈ kept, r ∈ rs)
    _ _ (List.forall_mem_nil _) fun kept hkept r hr => ?_
  split
  · exact hkept
  · exact List.forall_mem_append.2 ⟨hkept, List.forall_mem_singleton.2 hr⟩

theorem isSound_faultTree (rs : List (Reading T N R C)) :
    l.IsSound ((Engine.ofLanguage l).faultTree rs) :=
  .inl rfl

/-- A reading with its next token: the readings so far, the tree and the automaton. -/
def advanceBy (l : Language T N R) (sc : Scanner T C) :
    List (Reading T N R C) × Option (Node T N R) × Automaton T → Reading T N R C →
      List (Reading T N R C) × Option (Node T N R) × Automaton T
  | (next, tree, a), r =>
    match (Engine.ofLanguage l).advance sc r a with
    | ((readings, found), a) => (next ++ readings, tree <|> found, a)

theorem run_succ (sc : Scanner T C) (fuel : Nat) (rs : List (Reading T N R C))
    (a : Automaton T) :
    (Engine.ofLanguage l).run sc (fuel + 1) rs a =
      let now := rs.foldl (l.advanceBy sc) ([], none, a)
      match now.2.1, now.1 with
      | some t, _ => t
      | none, [] =>
        match (Engine.ofLanguage l).recover sc (fuel + 1) rs now.2.2 with
        | (some r, a) => (Engine.ofLanguage l).run sc fuel [r] a
        | (none, _) => (Engine.ofLanguage l).faultTree rs
      | none, next => (Engine.ofLanguage l).run sc fuel (mergeReadings sc next) now.2.2 := by
  rw [Engine.run]
  rfl

/-- A reading more keeps to readings that the automaton carries. -/
theorem Proceeds.advanceBy (hwf : l.WellFormed) (sc : Scanner T C) {r : Reading T N R C}
    {now : List (Reading T N R C) × Option (Node T N R) × Automaton T}
    (h : l.Proceeds a now.1 now.2.1 now.2.2) (hr : l.Carries a r) :
    let next := l.advanceBy sc now r
    l.Proceeds a next.1 next.2.1 next.2.2 := by
  obtain ⟨readings, tree, b⟩ := now
  have hadvance := (hr.mono h.evolves.isExtension).advance hwf sc h.evolves.faithful
  have hlater := h.later hadvance.evolves
  refine ⟨hlater.evolves, List.forall_mem_append.2 ⟨hlater.carries, hadvance.carries⟩,
    fun found hfound => ?_⟩
  exact (eq_some_of_orElse hfound).elim (h.isSound found) (hadvance.isSound found)

/-- A tree read from readings that the automaton carries is sound. -/
theorem isSound_run (hwf : l.WellFormed) (sc : Scanner T C) (fuel : Nat)
    {rs : List (Reading T N R C)} (hfaithful : a.Faithful l.tables)
    (hrs : ∀ r ∈ rs, l.Carries a r) : l.IsSound ((Engine.ofLanguage l).run sc fuel rs a) := by
  induction fuel generalizing rs a with
  | zero => exact isSound_faultTree rs
  | succ fuel ih =>
    have hall : let now := rs.foldl (l.advanceBy sc) ([], none, a)
        l.Proceeds a now.1 now.2.1 now.2.2 := by
      refine List.foldlRecOn (motive := fun (now : List (Reading T N R C) ×
          Option (Node T N R) × Automaton T) => l.Proceeds a now.1 now.2.1 now.2.2) _ _
        (.refl hfaithful) fun now hnow r hr => hnow.advanceBy hwf sc (hrs r hr)
    rw [run_succ]
    generalize rs.foldl (l.advanceBy sc) ([], none, a) = now at hall ⊢
    obtain ⟨next, tree, b⟩ := now
    dsimp only at hall ⊢
    -- The text is complete, or no reading goes on, or some do.
    split
    · exact hall.isSound _ rfl
    · obtain ⟨hevolves, hr⟩ := recover hwf sc (fuel + 1) hall.evolves.faithful
        fun r hr => (hrs r hr).mono hall.evolves.isExtension
      split
      · rename_i r c hrecover
        rw [hrecover] at hevolves hr
        exact ih hevolves.faithful (List.forall_mem_singleton.2 (hr r rfl))
      · exact isSound_faultTree rs
    · exact ih hall.evolves.faithful
        fun r hr => hall.carries r (mem_of_mem_mergeReadings sc hr)

/-- The tree of a text is one of the language, unless it has a fault. -/
theorem isSound_parse (hwf : l.WellFormed) (sc : Scanner T C) (limit : Nat) (cursor : C) :
    l.IsSound ((Engine.ofLanguage l).parse sc limit cursor) := by
  have hempty : (Automaton.empty : Automaton T).Faithful l.tables := Automaton.faithful_empty
  have hkernel := hempty.enter
    ((l.tables.byRule.getD (Engine.ofLanguage l).start []).map fun p => ⟨p, 0, .one 0⟩)
  rw [Automaton.enter_empty] at hkernel
  refine isSound_run hwf sc limit hkernel.1.faithful (List.forall_mem_singleton.2 ⟨?_, .inl rfl⟩)
  -- At the start, all items stand before their first step.
  intro below hbelow
  obtain rfl := List.suffix_nil.1 hbelow
  exact ⟨_, hkernel.2, List.forall_mem_map.2 fun p _ => fits_of_dot_eq_zero rfl⟩

end Language

end RepoAtlas.Syntax
