import RepoAtlas.Syntax.Automaton
import RepoAtlas.Syntax.Tree

/-!
# Readings

A text is read one token at a time. Which characters make up the next token
depends on the tokens expected (`Scanner`), so a word may be a keyword in one
place and a name in another. Where the grammar leaves two readings open, both
are carried on side by side (`Reading`) until one of them fits nowhere, or until
they meet again; then the one begun first stays.

* `Engine.advance`: what becomes of a reading with its next token;
* `mergeReadings`: the readings that have not met another.
-/

namespace RepoAtlas.Syntax

/-- A token as it stands in the text; none at its end. -/
structure Lexeme (T : Type) where
  token : Option T
  line : Nat
  gap : String
  text : String

/-- How tokens are found at a place `C` of the text. -/
structure Scanner (T C : Type) where
  /-- The next token, of those expected, or the end of the text if that is
      expected. -/
  next? : List T → Bool → C → Option (Lexeme T × C)
  /-- The next token where those expected do not stand. -/
  other? : List T → C → Option (Lexeme T × C)
  /-- The next token where any may stand, or the end of the text. -/
  any? : C → Option (Lexeme T × C)
  /-- The place behind a character that begins no token, with its line; none at
      the end of the text. -/
  stray? : C → Option (Nat × C)
  /-- Whether two places are the same. -/
  same : C → C → Bool

/-- A grammar with what its trees need to know. -/
structure Language (T N R : Type) extends Grammar T N R where
  start : N
  /-- Tokens without a leaf in the tree. -/
  isSilent : T → Bool

/-- A language with its tables. -/
structure Engine (T N R : Type) where
  language : Language T N R
  tables : Tables T N R
  /-- The rules by number, but for those without nodes. -/
  shown : Array (Option N)
  start : Nat

section

variable {T N R : Type} [DecidableEq T] [DecidableEq N] [DecidableEq R]

/-- The engine of a language. -/
def Engine.ofLanguage (l : Language T N R) : Engine T N R :=
  let named := l.rules.map (·.1)
  let count := l.rules.length
  let at? (i : Nat) : Option N := named.find? fun n => l.number n == i
  ⟨l, .ofProductions l.productions,
    (Array.range count).map fun i => (at? i).filter fun n => !l.isHidden n,
    l.number l.start⟩

/-- An entry of a stack: the state after a symbol, and the nodes it shows. -/
structure Entry (T N R : Type) where
  state : Nat
  nodes : Array (Node T N R)

/-- What a reading has before it, the top first. Below all entries is the state
    at the start. -/
abbrev Stack (T N R : Type) := List (Entry T N R)

/-- One reading of the text so far: its stack, and the place it has come to. The
    nodes of the faults found since the last token go before the next. -/
structure Reading (T N R C : Type) where
  stack : Stack T N R
  cursor : C
  faults : Array (Node T N R) := #[]

variable {C : Type}

/-- The nodes of a step, in the shape and the role that the step gives them. -/
def Step.present (s : Step T N R) (nodes : Array (Node T N R)) : Array (Node T N R) :=
  let nodes :=
    match s.shown with
    | none => nodes
    | some (.rule n) => #[.branch n none nodes.toList]
    | some (.token t) => nodes.map fun
      | .leaf _ r line gap text => .leaf t r line gap text
      | other => other
  match s.role with
  | none => nodes
  | some r => nodes.map (·.withRole r)

/-- The nodes of a completed production. -/
def Engine.assemble (e : Engine T N R) (p : Production T N R) (parts : List (Array (Node T N R))) :
    Array (Node T N R) :=
  let nodes := (p.steps.zip parts).foldl (fun acc (s, nodes) => acc ++ s.present nodes) #[]
  match e.shown.getD p.rule none with
  | some n => #[.branch n none nodes.toList]
  | none => nodes

/-- The state on top of a stack. -/
def topState : Stack T N R → Nat
  | [] => 0
  | entry :: _ => entry.state

/-- What comes of the stacks of a reading before its next token: stacks that can
    take the token, and the whole tree if the text is complete. -/
structure Turn (T N R : Type) where
  ready : List (Stack T N R)
  tree : Option (Node T N R)

/-- Completes productions on the stacks until each can take the token. -/
def Engine.settle (e : Engine T N R) (token : Nat) :
    Nat → List (Stack T N R) → Turn T N R → Automaton T → Turn T N R × Automaton T
  | 0, _, turn, a => (turn, a)
  | _, [], turn, a => (turn, a)
  | fuel + 1, stack :: work, turn, a =>
    let (plan, a) := a.planAt e.tables (topState stack) token
    let turn := if plan.read then { turn with ready := turn.ready ++ [stack] } else turn
    let (work, turn, a) := plan.complete.foldl
      (fun (work, turn, a) i =>
        match e.tables.productions[i]? with
        | none => (work, turn, a)
        | some p =>
          let size := p.steps.length
          let nodes := e.assemble p ((stack.take size).reverse.map (·.nodes))
          let below := stack.drop size
          if p.rule == e.start && below.isEmpty then
            (work, { turn with tree := turn.tree <|> nodes[0]? }, a)
          else
            match a.move e.tables (topState below) false p.rule with
            | (some state, a) =>
              (((⟨state, nodes⟩ : Entry T N R) :: below) :: work, turn, a)
            | (none, a) => (work, turn, a))
      (work, turn, a)
    e.settle token fuel work turn a

/-- How many productions the stacks of a reading may complete before a token.
    Each takes entries off the stack or renames its top, and rules without steps
    occur only at the start. -/
def settleFuel (stack : Stack T N R) : Nat := 64 * (stack.length + 16)

/-- The leaf of a token, if it has one. -/
def Engine.leaves (e : Engine T N R) (lexeme : Lexeme T) (token : T) : Array (Node T N R) :=
  if e.language.isSilent token then #[]
  else #[.leaf token none lexeme.line lexeme.gap lexeme.text]

/-- The readings that one reading becomes by taking its next token, and the tree
    if the text is complete. -/
def Engine.advance (e : Engine T N R) (sc : Scanner T C) (r : Reading T N R C)
    (a : Automaton T) : (List (Reading T N R C) × Option (Node T N R)) × Automaton T :=
  match a.states[topState r.stack]? with
  | none => (([], none), a)
  | some s =>
    match sc.next? s.expected (s.mask.testBit 0) r.cursor with
    | none => (([], none), a)
    | some (lexeme, cursor) =>
      let number := lexeme.token.elim 0 e.tables.tokenNumber
      let (turn, a) := e.settle number (settleFuel r.stack) [r.stack] ⟨[], none⟩ a
      match lexeme.token with
      | none => (([], turn.tree.map (·.append r.faults.toList)), a)
      | some token =>
        let nodes := r.faults ++ e.leaves lexeme token
        let (readings, a) := turn.ready.foldl
          (fun (readings, a) stack =>
            match a.move e.tables (topState stack) true number with
            | (some state, a) => (readings ++ [{ stack := ⟨state, nodes⟩ :: stack, cursor }], a)
            | (none, a) => (readings, a))
          (([], a) : List (Reading T N R C) × Automaton T)
        ((readings, none), a)

/-- Whether two readings have met: from here on, they are the same. -/
def Reading.meets (sc : Scanner T C) (r s : Reading T N R C) : Bool :=
  sc.same r.cursor s.cursor && r.stack.map (·.state) == s.stack.map (·.state)

/-- The readings without those that have met one before them. -/
def mergeReadings (sc : Scanner T C) (rs : List (Reading T N R C)) : List (Reading T N R C) :=
  rs.foldl (fun kept r => if kept.any (·.meets sc r) then kept else kept ++ [r]) []

end

end RepoAtlas.Syntax
