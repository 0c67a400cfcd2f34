import RepoAtlas.Proofs.Syntax.Automaton
import RepoAtlas.Proofs.Syntax.Productions

/-!
# What a stack holds

The entries on top of a stack hold the nodes of the steps that the items of its state
have taken (`Language.Fits`), in every state on it (`Language.Supports`). So a completed
production finds the nodes of its steps there, and those that it makes of them are what
its rule means (`Supports.tells_assemble`). Wherever a symbol leads, this is kept if the
nodes put there are what the symbol means (`Supports.move`).

All this is said of nodes without a fault. Nodes with a fault may be anything, and stay
nodes with a fault whatever they become part of (`Language.Tells`).
-/

namespace RepoAtlas.Syntax

variable {T N R : Type}

/-! ### Faults among the nodes of a step -/

namespace Node

variable {nodes others : List (Node T N R)}

theorem anyFault_append : anyFault (nodes ++ others) = (anyFault nodes || anyFault others) := by
  induction nodes with
  | nil => rfl
  | cons n nodes ih => rw [List.cons_append, anyFault, anyFault, ih, Bool.or_assoc]

theorem anyFault_map {f : Node T N R → Node T N R} (hf : ∀ n, (f n).hasFault = n.hasFault) :
    anyFault (nodes.map f) = anyFault nodes := by
  induction nodes with
  | nil => rfl
  | cons n nodes ih => rw [List.map_cons, anyFault, anyFault, ih, hf]

theorem hasFault_withRole (r : R) (n : Node T N R) : (n.withRole r).hasFault = n.hasFault := by
  cases n <;> rfl

theorem hasFault_retold (t : T) (n : Node T N R) : (n.retold t).hasFault = n.hasFault := by
  cases n <;> rfl

end Node

namespace Step

variable {s : Step T N R} {nodes : List (Node T N R)}

theorem anyFault_shape : Node.anyFault (s.shape nodes) = Node.anyFault nodes := by
  unfold shape
  split
  · rfl
  · simp [Node.anyFault, Node.hasFault]
  · exact Node.anyFault_map (Node.hasFault_retold _)

/-- A step keeps faults. -/
theorem anyFault_shows : Node.anyFault (s.shows nodes) = Node.anyFault nodes := by
  unfold shows
  split
  · exact anyFault_shape
  · rw [Node.anyFault_map (Node.hasFault_withRole _), anyFault_shape]

theorem toList_present (nodes : Array (Node T N R)) :
    (s.present nodes).toList = s.shows nodes.toList := by
  unfold present shows shape
  cases s.role <;> rcases s.shown with _ | t | n <;> simp
  -- What is left is to tell a node as another token, with a role and without.
  all_goals
    intro n _
    cases n <;> rfl

end Step

section

variable [DecidableEq T] [DecidableEq N] [DecidableEq R]

namespace Language

/-- The tables of a language. -/
abbrev tables (l : Language T N R) : Tables T N R := (Engine.ofLanguage l).tables

/-! ### Completed productions -/

/-- Whether nodes are what a symbol means, unless there is a fault among them. -/
def Tells (l : Language T N R) (X : Symbol T) (nodes : Array (Node T N R)) : Prop :=
  Node.anyFault nodes.toList = true ∨ l.Means X nodes.toList

variable {l : Language T N R} {p : Production T N R} {parts : List (Array (Node T N R))}

/-- The tables are those of the productions of the language. -/
theorem productions_tables : l.tables.productions = l.productions.toArray :=
  Tables.productions_ofProductions

/-- To assemble the parts of a production is to enclose what its steps show. -/
theorem toList_assemble :
    ((Engine.ofLanguage l).assemble p parts).toList =
      l.enclose p.rule ((p.steps.zip parts).flatMap fun (s, nodes) => s.shows nodes.toList) := by
  have hfold (rows : List (Step T N R × Array (Node T N R))) (nodes : Array (Node T N R)) :
      (rows.foldl (fun acc row => acc ++ row.1.present row.2) nodes).toList =
        nodes.toList ++ rows.flatMap fun row => row.1.shows row.2.toList := by
    induction rows generalizing nodes with
    | nil => simp
    | cons row rows ih => simp [ih, Step.toList_present]
  have hnodes := hfold (p.steps.zip parts) #[]
  rw [List.nil_append] at hnodes
  unfold Engine.assemble enclose
  generalize (Engine.ofLanguage l).shown.getD p.rule none = shown
  cases shown with
  | none => exact hnodes
  | some n => exact congrArg (fun nodes => [Node.branch n none nodes]) hnodes

/-- What is told step by step is read, unless there is a fault. -/
theorem anyFault_or_reads {steps : Steps T N R}
    (h : List.Forall₂ (fun s nodes => l.Tells s.symbol nodes) steps parts) :
    let nodes := (steps.zip parts).flatMap fun (s, nodes) => s.shows nodes.toList
    Node.anyFault nodes = true ∨ l.Reads steps nodes := by
  induction h with
  | nil => exact .inr .nil
  | cons htells _ ih =>
    dsimp only at ih ⊢
    rw [List.zip_cons_cons, List.flatMap_cons, Node.anyFault_append, Step.anyFault_shows,
      Bool.or_eq_true]
    rcases htells with hfault | hmeans
    · exact .inl (.inl hfault)
    · exact ih.imp .inr fun hreads => .cons hmeans hreads

/-- The nodes of a completed production are what its rule means, unless there is a fault
    among them. -/
theorem tells_assemble (hwf : l.WellFormed) (hp : p ∈ l.productions)
    (h : List.Forall₂ (fun s nodes => l.Tells s.symbol nodes) p.steps parts) :
    l.Tells (.rule p.rule) ((Engine.ofLanguage l).assemble p parts) := by
  rw [Tells, toList_assemble]
  refine (anyFault_or_reads h).imp (fun hfault => ?_) (means_of_mem_productions hwf hp)
  unfold enclose
  split
  · simpa [Node.anyFault, Node.hasFault] using hfault
  · exact hfault

/-! ### Stacks -/

variable {stack : Stack T N R} {item : Item} {a b c : Automaton T}

/-- Whether the entries on top of a stack tell the steps that an item has taken. -/
def Fits (l : Language T N R) (stack : Stack T N R) (item : Item) : Prop :=
  ∀ p, l.productions[item.production]? = some p → ∃ taken ahead entries below,
    p.steps = taken ++ ahead ∧ taken.length = item.dot ∧ stack = entries.reverse ++ below ∧
      List.Forall₂ (fun s (entry : Entry T N R) => l.Tells s.symbol entry.nodes) taken entries

/-- Whether all items of the states on a stack fit what is below. -/
def Supports (l : Language T N R) (a : Automaton T) (stack : Stack T N R) : Prop :=
  ∀ below, below <:+ stack → ∃ kernel, a.HasKernel (topState below) kernel ∧
    ∀ item ∈ kernel, l.Fits below item

theorem fits_of_dot_eq_zero (h : item.dot = 0) : l.Fits stack item :=
  fun p _ => ⟨[], p.steps, [], stack, rfl, h.symm, rfl, .nil⟩

/-- An item that has taken one step more fits a stack with one entry more. -/
theorem Fits.push {before : Item} {cell : Cell} {X : Symbol T} {entry : Entry T N R}
    (h : l.Fits stack before) (hnext : l.tables.next? before = some cell)
    (hcode : (cell.isToken, cell.number) = l.tables.code X)
    (hproduction : item.production = before.production) (hdot : item.dot = before.dot + 1)
    (htells : l.Tells X entry.nodes) : l.Fits (entry :: stack) item := by
  intro p hp
  rw [hproduction] at hp
  obtain ⟨p', s, hp', hs, hsymbol⟩ := Tables.exists_of_next?_eq_some hnext
  cases hp.symm.trans hp'
  obtain ⟨taken, ahead, entries, below, hsteps, hlength, rfl, htaken⟩ := h p hp
  rw [hsteps, ← hlength, List.getElem?_append_right (Nat.le_refl _), Nat.sub_self,
    ← List.head?_eq_getElem?] at hs
  -- The first of the steps ahead is the one taken, and it is of the symbol told.
  obtain ⟨others, rfl⟩ := List.head?_eq_some_iff.1 hs
  have hp' := List.mem_of_getElem? hp
  have hmem : s ∈ p.steps := hsteps ▸ List.mem_append_right _ (List.mem_cons_self ..)
  cases Tables.symbol_eq_of_code_eq hp' hmem (hsymbol.trans hcode)
  refine ⟨taken ++ [s], others, entries ++ [entry], below, ?_, ?_, ?_, ?_⟩
  · rw [hsteps, List.append_assoc, List.singleton_append]
  · rw [List.length_append, hlength, hdot, List.length_singleton]
  · rw [List.reverse_append]
    rfl
  · exact List.rel_append htaken (.cons htells .nil)

/-- The entries that a production without a next step takes off a stack tell its steps. -/
theorem Fits.tells_assemble (hwf : l.WellFormed) (h : l.Fits stack item)
    (hnext : l.tables.next? item = none) (hp : l.productions[item.production]? = some p) :
    l.Tells (.rule p.rule) ((Engine.ofLanguage l).assemble p
      ((stack.take p.steps.length).reverse.map (·.nodes))) := by
  obtain ⟨taken, ahead, entries, below, hsteps, hlength, rfl, htaken⟩ := h p hp
  have hle := Tables.length_le_of_next?_eq_none hnext hp
  rw [hsteps, List.length_append, hlength] at hle
  obtain rfl : ahead = [] := List.eq_nil_of_length_eq_zero (by omega)
  rw [List.append_nil] at hsteps
  have htake : (entries.reverse ++ below).take p.steps.length = entries.reverse := by
    rw [hsteps]
    exact List.take_left' (List.length_reverse.trans htaken.length_eq.symm)
  rw [htake, List.reverse_reverse]
  refine Language.tells_assemble hwf (List.mem_of_getElem? hp) ?_
  rw [hsteps]
  exact List.forall₂_map_right_iff.2 htaken

namespace Supports

/-- What is supported stays so when more is built. -/
theorem mono (hb : b.Extends a) (h : l.Supports a stack) : l.Supports b stack := by
  intro below hbelow
  obtain ⟨kernel, hkernel, hfits⟩ := h below hbelow
  exact ⟨kernel, hkernel.mono hb, hfits⟩

/-- What is left of a stack that is supported is supported. -/
theorem drop (n : Nat) (h : l.Supports a stack) : l.Supports a (stack.drop n) :=
  fun _ hbelow => h _ (hbelow.trans (List.drop_suffix n stack))

/-- All items of the state on top fit a stack. -/
theorem fits {s : State T} (h : l.Supports a stack) (hs : a.states[topState stack]? = some s)
    (hitem : item ∈ l.tables.items s) : l.Fits stack item := by
  obtain ⟨_, ⟨s', hs', rfl⟩, hfits⟩ := h stack List.suffix_rfl
  cases hs.symm.trans hs'
  rcases Tables.mem_kernel_or_dot_eq_zero hitem with hkernel | hdot
  · exact hfits item hkernel
  · exact fits_of_dot_eq_zero hdot

/-- A state behind a symbol may stand on top, with nodes that tell the symbol. -/
theorem push {X : Symbol T} {isToken : Bool} {number j : Nat} {nodes : Array (Node T N R)}
    (h : l.Supports a stack) (hleads : a.Leads l.tables (topState stack) isToken number j)
    (hcode : (isToken, number) = l.tables.code X) (htells : l.Tells X nodes) :
    l.Supports a (⟨j, nodes⟩ :: stack) := by
  intro below hbelow
  rcases List.suffix_cons_iff.1 hbelow with rfl | hbelow
  · -- Every item of the new state comes of one that fits what is below.
    obtain ⟨s, hs, hkernel⟩ := hleads
    refine ⟨_, hkernel, fun item hitem => ?_⟩
    obtain ⟨before, hbefore, cell, hnext, hcell, hproduction, hdot⟩ :=
      Tables.isBehind_of_mem_kernelAfter hitem
    exact (h.fits hs hbefore).push hnext (hcell.trans hcode) hproduction hdot htells
  · exact h below hbelow

/-- Behind a symbol, a stack with nodes that tell the symbol on top is supported. -/
theorem move {X : Symbol T} {isToken : Bool} {number : Nat} {nodes : Array (Node T N R)}
    (h : l.Supports a stack) (hfaithful : a.Faithful l.tables)
    (hcode : (isToken, number) = l.tables.code X) (htells : l.Tells X nodes) :
    let moved := a.move l.tables (topState stack) isToken number
    a.Evolves l.tables moved.2 ∧
      ∀ j, moved.1 = some j → l.Supports moved.2 (⟨j, nodes⟩ :: stack) := by
  obtain ⟨hevolves, hleads⟩ := hfaithful.move (topState stack) isToken number
  exact ⟨hevolves, fun j hj => (h.mono hevolves.isExtension).push (hleads j hj) hcode htells⟩

/-- What is complete in the state on top tells its rule. -/
theorem tells_assemble {i : Nat} (hwf : l.WellFormed) (h : l.Supports a stack)
    (hcompletes : a.Completes l.tables (topState stack) i)
    (hp : l.tables.productions[i]? = some p) :
    l.Tells (.rule p.rule) ((Engine.ofLanguage l).assemble p
      ((stack.take p.steps.length).reverse.map (·.nodes))) := by
  obtain ⟨s, hs, item, hitem, rfl, hnext⟩ := hcompletes
  rw [productions_tables, List.getElem?_toArray] at hp
  exact (h.fits hs hitem).tells_assemble hwf hnext hp

/-- Behind a production completed on it, a stack is supported. -/
theorem complete {i : Nat} (hwf : l.WellFormed) (h : l.Supports a stack)
    (hfaithful : a.Faithful l.tables) (hcompletes : a.Completes l.tables (topState stack) i)
    (hp : l.tables.productions[i]? = some p) :
    let nodes := (Engine.ofLanguage l).assemble p
      ((stack.take p.steps.length).reverse.map (·.nodes))
    let below := stack.drop p.steps.length
    let moved := a.move l.tables (topState below) false p.rule
    a.Evolves l.tables moved.2 ∧
      ∀ j, moved.1 = some j → l.Supports moved.2 (⟨j, nodes⟩ :: below) :=
  (h.drop p.steps.length).move hfaithful rfl (h.tells_assemble hwf hcompletes hp)

end Supports

/-- Whether, since an automaton, only stacks that it supports have been come to. -/
structure Keeps (l : Language T N R) (a : Automaton T)
    (now : List (Stack T N R) × Automaton T) : Prop where
  evolves : a.Evolves l.tables now.2
  supports : ∀ stack ∈ now.1, l.Supports now.2 stack

theorem Keeps.later {work : List (Stack T N R)} (h : l.Keeps a (work, b))
    (hc : b.Evolves l.tables c) : l.Keeps a (work, c) :=
  ⟨h.evolves.trans hc, fun stack hstack => (h.supports stack hstack).mono hc.isExtension⟩

end Language

end

end RepoAtlas.Syntax
