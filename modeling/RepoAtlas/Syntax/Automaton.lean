import Std.Data.HashMap
import RepoAtlas.Syntax.Grammar

/-!
# The automaton of a grammar

The states of an automaton that reads a text from left to right. A state says
how far into which productions the text read so far may have led (its
*kernel*), each with the tokens that may follow once the production is
complete. Sets of tokens are bit masks over the numbers of the tokens; number
zero stands for the end of the text.

There are many states, and a text visits few of them. So they are built as they
are reached, and an `Automaton` remembers those built so far.

What to do in a state before a token (`Plan`) is to read the token, or to
complete productions, or both where the grammar leaves two readings open. Where
the two compete, the higher rank wins; at equal ranks, the side to group to
decides.
-/

namespace RepoAtlas.Syntax

/-- A set of tokens, one bit for each. -/
abbrev Mask := Nat

/-- The set of one token. -/
def Mask.one (token : Nat) : Mask := 1 <<< token

/-- A step of a production as the states see it: a token or a rule by its
    number, with the tokens it begins with. -/
structure Cell where
  isToken : Bool
  number : Nat
  starts : Mask
  rank : Int
  side : Option Side

/-- The tables of a grammar that its states are computed from. -/
structure Tables (T N R : Type) where
  /-- The tokens; the first of them has the number one. -/
  tokens : Array T
  productions : Array (Production T N R)
  /-- The steps of each production. -/
  cells : Array (Array Cell)
  /-- The productions of each rule. -/
  byRule : Array (List Nat)
  /-- The tokens with which a rule begins. -/
  starts : Array Mask
  /-- For each rule, the rules that its productions begin with, each with the
      tokens after it, or with none if the production ends there. -/
  leftmost : Array (List (Nat × Option Mask))

section

variable {T N R : Type} [DecidableEq T]

/-- The number of a token. -/
def Tables.tokenNumber (t : Tables T N R) (token : T) : Nat :=
  (t.tokens.toList.idxOf? token).elim 0 (· + 1)

/-- The tokens that a symbol begins with. -/
def Tables.startsOf (t : Tables T N R) : Symbol T → Mask
  | .token tok => .one (t.tokenNumber tok)
  | .rule i => t.starts.getD i 0

/-- The step as the states see it. -/
def Tables.cell (t : Tables T N R) (s : Step T N R) : Cell :=
  match s.symbol with
  | .token tok => ⟨true, t.tokenNumber tok, t.startsOf s.symbol, s.rank, s.side⟩
  | .rule i => ⟨false, i, t.startsOf s.symbol, s.rank, s.side⟩

/-- Adds to each rule the tokens that its productions begin with. -/
def Tables.widenStarts (t : Tables T N R) : Tables T N R :=
  t.productions.foldl
    (fun t p =>
      match p.steps with
      | [] => t
      | s :: _ => { t with starts := t.starts.modify p.rule (· ||| t.startsOf s.symbol) })
    t

/-- Repeats a step that only adds to a value until it adds nothing. -/
def untilStable {α β : Type} [BEq β] (view : α → β) (f : α → α) : Nat → α → α
  | 0, a => a
  | fuel + 1, a =>
    let b := f a
    if view b == view a then a else untilStable view f fuel b

/-- The tables of a list of productions. -/
def Tables.ofProductions (productions : List (Production T N R)) : Tables T N R :=
  let tokens := (productions.flatMap fun p => p.steps.filterMap fun s =>
    match s.symbol with
    | .token t => some t
    | .rule _ => none).eraseDups
  let size := productions.foldl (fun n p => max n (p.rule + 1)) 0
  let byRule := productions.zipIdx.foldl
    (fun (a : Array (List Nat)) (p, i) => a.modify p.rule (· ++ [i])) (Array.replicate size [])
  let blank : Tables T N R :=
    ⟨tokens.toArray, productions.toArray, #[], byRule, Array.replicate size 0, #[]⟩
  let t := untilStable (·.starts) Tables.widenStarts size blank
  let edges (rule : Nat) : List (Nat × Option Mask) :=
    (productions.filterMap fun p =>
      if p.rule == rule then
        match p.steps with
        | ⟨.rule i, _, _, _, _⟩ :: next => some (i, next.head?.map fun s => t.startsOf s.symbol)
        | _ => none
      else none).eraseDups
  { t with
    leftmost := (Array.range size).map edges
    cells := t.productions.map fun p => (p.steps.map t.cell).toArray }

end

/-! ### States -/

/-- How far into a production the text has led, and the tokens that may follow
    the whole of it. -/
structure Item where
  production : Nat
  dot : Nat
  ahead : Mask
  deriving DecidableEq, Hashable

/-- A state: its kernel, the rules that may begin here with the tokens that may
    follow them, and the tokens expected here. -/
structure State (T : Type) where
  kernel : List Item
  opened : List (Nat × Mask)
  mask : Mask
  expected : List T

section

variable {T N R : Type} [DecidableEq T]

/-- The step that an item is about to take. -/
def Tables.next? (t : Tables T N R) (item : Item) : Option Cell :=
  match t.cells[item.production]? with
  | some cells => cells[item.dot]?
  | none => none

/-- The last step an item has taken. -/
def Tables.previous? (t : Tables T N R) (item : Item) : Option Cell :=
  if item.dot = 0 then none
  else t.next? { item with dot := item.dot - 1 }

/-- The tokens that may follow the step an item is about to take. -/
def Tables.after (t : Tables T N R) (item : Item) : Mask :=
  match t.next? { item with dot := item.dot + 1 } with
  | some cell => cell.starts
  | none => item.ahead

/-- Opens rules until no rule has more tokens that may follow it. The list holds
    the rules whose tokens have grown and not yet been passed on. -/
def Tables.openRules (t : Tables T N R) : Nat → List Nat → Array Mask → Array Mask
  | 0, _, masks => masks
  | _, [], masks => masks
  | fuel + 1, rule :: work, masks =>
    let ahead := masks.getD rule 0
    let (work, masks) := (t.leftmost.getD rule []).foldl
      (fun (work, masks) (i, after) =>
        let old := masks.getD i 0
        let new := old ||| after.getD ahead
        if new == old then (work, masks) else (i :: work, masks.setIfInBounds i new))
      (work, masks)
    t.openRules fuel work masks

/-- The state with the given kernel. -/
def Tables.state (t : Tables T N R) (kernel : List Item) : State T :=
  let seeds := kernel.filterMap fun item =>
    match t.next? item with
    | some cell => if cell.isToken then none else some (cell.number, t.after item)
    | none => none
  let masks := seeds.foldl (fun (a : Array Mask) (i, m) => a.modify i (· ||| m))
    (Array.replicate t.byRule.size 0)
  let fuel := t.byRule.size * (t.tokens.size + 1)
  let masks := t.openRules fuel (seeds.map (·.1)) masks
  let opened := masks.toList.zipIdx.filterMap fun (m, i) => if m == 0 then none else some (i, m)
  -- A rule without steps is complete where it opens.
  let empties := opened.foldl
    (fun m (i, ahead) =>
      if (t.byRule.getD i []).any fun p => t.cells[p]?.any (·.isEmpty) then m ||| ahead
      else m) 0
  let mask := kernel.foldl
    (fun m item => m ||| (t.next? item).elim item.ahead (·.starts)) empties
  let expected := t.tokens.toList.zipIdx.filterMap fun (tok, i) =>
    if mask.testBit (i + 1) then some tok else none
  ⟨kernel, opened, mask, expected⟩

/-- All items of a state: those of its kernel, and those of the rules that may
    begin in it. -/
def Tables.items (t : Tables T N R) (s : State T) : List Item :=
  s.kernel ++ s.opened.flatMap fun (i, ahead) =>
    (t.byRule.getD i []).map fun p => ⟨p, 0, ahead⟩

/-- Enters an item into a kernel. -/
def insertItem (item : Item) : List Item → List Item
  | [] => [item]
  | other :: rest =>
    if item.production = other.production ∧ item.dot = other.dot then
      { other with ahead := other.ahead ||| item.ahead } :: rest
    else if item.production < other.production ∨
        item.production = other.production ∧ item.dot < other.dot then
      item :: other :: rest
    else
      other :: insertItem item rest

/-- The kernel after a symbol: a token or a rule by its number. -/
def Tables.kernelAfter (t : Tables T N R) (s : State T) (isToken : Bool) (number : Nat) :
    List Item :=
  (t.items s).foldl
    (fun kernel item =>
      match t.next? item with
      | some cell =>
        if cell.isToken == isToken && cell.number == number then
          insertItem { item with dot := item.dot + 1 } kernel
        else kernel
      | none => kernel)
    []

/-! ### Plans -/

/-- What to do in a state before a token: whether to read it, and the
    productions to complete. -/
structure Plan where
  read : Bool
  complete : List Nat
  deriving Inhabited

/-- The productions that are complete before a token. Of several, only those of
    the highest rank stay; the result has that rank. -/
def Tables.completions (t : Tables T N R) (s : State T) (token : Nat) : List Nat × Int :=
  (t.items s).foldl
    (fun (found, rank) item =>
      if (t.next? item).isNone && item.ahead.testBit token then
        let r := (t.previous? item).elim 0 (·.rank)
        if found.isEmpty || rank < r then ([item.production], r)
        else if r = rank then (found ++ [item.production], rank)
        else (found, rank)
      else (found, rank))
    ([], 0)

/-- The ranks of the items under way that the token would carry on. -/
def Tables.readingRanks (t : Tables T N R) (s : State T) (token : Nat) : List Int :=
  s.kernel.filterMap fun item =>
    match t.next? item, t.previous? item with
    | some cell, some last => if cell.starts.testBit token then some last.rank else none
    | _, _ => none

/-- The plan in a state before a token. -/
def Tables.plan (t : Tables T N R) (s : State T) (token : Nat) : Plan :=
  let (complete, rank) := t.completions s token
  let read := (t.items s).any fun item =>
    (t.next? item).any fun cell => cell.isToken && cell.number == token
  if !read || complete.isEmpty then ⟨read, complete⟩
  else
    let ranks := t.readingRanks s token
    let higher := ranks.any (rank < ·)
    let lower := ranks.any (· < rank)
    if higher && !lower then ⟨true, []⟩
    else if lower && !higher then ⟨false, complete⟩
    else if higher then ⟨true, complete⟩
    else
      let sides := complete.filterMap fun p =>
        t.cells[p]?.bind fun cells => cells.back?.bind (·.side)
      let left := sides.contains .left
      let right := sides.contains .right
      if left && !right then ⟨false, complete⟩
      else if right && !left then ⟨true, []⟩
      else ⟨true, complete⟩

end

/-! ### The states built so far -/

/-- The states built so far, with their kernels, the moves between them and the
    plans made in them. -/
structure Automaton (T : Type) where
  states : Array (State T)
  byKernel : Std.HashMap (List Item) Nat
  moves : Std.HashMap (Nat × Bool × Nat) (Option Nat)
  plans : Std.HashMap (Nat × Nat) Plan

section

variable {T N R : Type} [DecidableEq T]

/-- No states yet. -/
def Automaton.empty : Automaton T := ⟨#[], ∅, ∅, ∅⟩

/-- The number of the state with the given kernel, built if new. -/
def Automaton.enter (t : Tables T N R) (kernel : List Item) (a : Automaton T) :
    Nat × Automaton T :=
  match a.byKernel[kernel]? with
  | some i => (i, a)
  | none =>
    let i := a.states.size
    (i, { a with states := a.states.push (t.state kernel), byKernel := a.byKernel.insert kernel i })

/-- The state at the start of a text: before the given rule. -/
def Automaton.start (t : Tables T N R) (rule : Nat) (a : Automaton T) : Nat × Automaton T :=
  a.enter t ((t.byRule.getD rule []).map fun p => ⟨p, 0, .one 0⟩)

/-- The state that a symbol leads to, if the symbol may stand here. -/
def Automaton.move (t : Tables T N R) (state : Nat) (isToken : Bool) (number : Nat)
    (a : Automaton T) : Option Nat × Automaton T :=
  let key := (state, isToken, number)
  match a.moves[key]? with
  | some target => (target, a)
  | none =>
    match a.states[state]? with
    | none => (none, a)
    | some s =>
      match t.kernelAfter s isToken number with
      | [] => (none, { a with moves := a.moves.insert key none })
      | kernel =>
        let (i, a) := a.enter t kernel
        (some i, { a with moves := a.moves.insert key (some i) })

/-- The plan in a state before a token. -/
def Automaton.planAt (t : Tables T N R) (state token : Nat) (a : Automaton T) :
    Plan × Automaton T :=
  match a.plans[(state, token)]? with
  | some p => (p, a)
  | none =>
    let p := (a.states[state]?).elim ⟨false, []⟩ (t.plan · token)
    (p, { a with plans := a.plans.insert (state, token) p })

end

end RepoAtlas.Syntax
