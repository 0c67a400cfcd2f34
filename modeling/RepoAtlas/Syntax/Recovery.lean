import RepoAtlas.Syntax.Reading

/-!
# Recovery

Where no reading can take the next token, reading goes on elsewhere: it goes
back to a state in which something else was possible, and what it gives up on
the way becomes a fault (`Engine.recover`). Of the tokens from there on, the
first is chosen that could have stood in one of the states passed through, and
of these states the last (`Engine.retreat?`); the tokens before it belong to the
fault too. So a fault is small, and what follows it is read as if it were not
there.

All that is complete where reading stopped is completed first, in every way
there is (`Engine.completeAll`), so whole phrases are given up at once.

* `Engine.retreat?`: the state to go on from with a token;
* `Engine.recover`: the reading that goes on, with the fault before it.
-/

namespace RepoAtlas.Syntax

section

variable {T N R C : Type} [DecidableEq T] [DecidableEq N] [DecidableEq R]

/-- The productions that are complete in a state, whatever stands next. -/
def Engine.completeIn (e : Engine T N R) (state : Nat) (a : Automaton T) :
    List (Production T N R) :=
  match a.states[state]? with
  | none => []
  | some s =>
    s.kernel.filterMap fun item =>
      if (e.tables.next? item).isNone then e.tables.productions[item.production]? else none

/-- A stack with one of its productions completed. -/
def Engine.completeBy (e : Engine T N R) (stack : Stack T N R) (p : Production T N R)
    (a : Automaton T) : Option (Stack T N R) × Automaton T :=
  let size := p.steps.length
  let below := stack.drop size
  match a.move e.tables (topState below) false p.rule with
  | (some state, a) =>
    let nodes := e.assemble p ((stack.take size).reverse.map (·.nodes))
    (some (⟨state, nodes⟩ :: below), a)
  | (none, a) => (none, a)

/-- The stacks, and all that they become by completing productions. -/
def Engine.completeAll (e : Engine T N R) :
    Nat → List (Stack T N R) → List (Stack T N R) → Automaton T →
      List (Stack T N R) × Automaton T
  | 0, work, done, a => (done ++ work, a)
  | _, [], done, a => (done, a)
  | fuel + 1, stack :: work, done, a =>
    let (more, a) := (e.completeIn (topState stack) a).foldl
      (fun (more, a) p =>
        match e.completeBy stack p a with
        | (some s, a) => (more ++ [s], a)
        | (none, a) => (more, a))
      (([], a) : List (Stack T N R) × Automaton T)
    e.completeAll fuel (work ++ more) (done ++ [stack]) a

/-- How far back a reading goes for a state to go on from. -/
def retreatLimit : Nat := 15

/-- The first of the stacks, after `n` of their entries, on which the token may
    stand, with the nodes of these entries. There must be some, or nodes behind
    them, or going back would change nothing. -/
def Engine.retreatBy? (e : Engine T N R) (token n : Nat) (skipped : Array (Node T N R)) :
    List (Stack T N R) → Automaton T →
      Option (Stack T N R × Array (Node T N R)) × Automaton T
  | [], a => (none, a)
  | stack :: rest, a =>
    let lost := ((stack.take n).reverse.map (·.nodes)).foldl (· ++ ·) #[] ++ skipped
    if stack.length < n || lost.isEmpty then e.retreatBy? token n skipped rest a
    else
      match a.planAt e.tables (topState (stack.drop n)) token with
      | (plan, a) =>
        if plan.read || !plan.complete.isEmpty then (some (stack.drop n, lost), a)
        else e.retreatBy? token n skipped rest a

/-- The nearest state to go on from with the token, for stacks without `n` of
    their entries or more; at most `fuel` numbers are tried. -/
def Engine.retreat? (e : Engine T N R) (token : Nat) (skipped : Array (Node T N R))
    (candidates : List (Stack T N R)) :
    Nat → Nat → Automaton T → Option (Stack T N R × Array (Node T N R)) × Automaton T
  | 0, _, a => (none, a)
  | fuel + 1, n, a =>
    match e.retreatBy? token n skipped candidates a with
    | (some found, a) => (some found, a)
    | (none, a) => e.retreat? token skipped candidates fuel (n + 1) a

/-- What stands at a place: a token or the end of the text, or a character that
    begins no token. -/
inductive Found (T C : Type) where
  | lexeme (l : Lexeme T) (behind : C)
  | stray (line : Nat) (behind : C)
  | nothing

/-- What stands at a place where any token may stand. -/
def lookAnywhere (sc : Scanner T C) (cursor : C) : Found T C :=
  match sc.any? cursor with
  | some (l, behind) => .lexeme l behind
  | none => (sc.stray? cursor).elim .nothing fun (line, behind) => .stray line behind

/-- What stands at a place where some tokens are expected. -/
def look (sc : Scanner T C) (expected : List T) (atEnd : Bool) (cursor : C) : Found T C :=
  match sc.next? expected atEnd cursor <|> sc.other? expected cursor with
  | some (l, behind) => .lexeme l behind
  | none => lookAnywhere sc cursor

/-- The fault made of some nodes. -/
def faultOf (line : Nat) (nodes : Array (Node T N R)) : Node T N R :=
  .fault .unexpected ((Node.lineAmong? nodes.toList).getD line) nodes.toList

/-- Looks for the token to go on with. `first` says how many entries are given
    up at least. -/
def Engine.seek (e : Engine T N R) (sc : Scanner T C) (candidates : List (Stack T N R)) :
    Nat → Nat → Found T C → C → Array (Node T N R) → Automaton T →
      Option (Reading T N R C) × Automaton T
  | 0, _, _, _, _, a => (none, a)
  | fuel + 1, first, found, cursor, skipped, a =>
    match found with
    | .nothing => (none, a)
    | .stray line behind =>
      e.seek sc candidates fuel 0 (lookAnywhere sc behind) behind
        (skipped.push (.fault .unexpected line [])) a
    | .lexeme l behind =>
      let number := l.token.elim 0 e.tables.tokenNumber
      match e.retreat? number skipped candidates (retreatLimit + 1 - first) first a with
      | (some (stack, lost), a) =>
        (some { stack, cursor, faults := #[faultOf l.line lost] }, a)
      | (none, a) =>
        match l.token with
        | none => (none, a)
        | some token =>
          e.seek sc candidates fuel 0 (lookAnywhere sc behind) behind
            (skipped ++ e.leaves l token) a

/-- A reading that goes on after the place where the readings stopped. At most
    `limit` tokens are passed over. -/
def Engine.recover (e : Engine T N R) (sc : Scanner T C) (limit : Nat)
    (rs : List (Reading T N R C)) (a : Automaton T) : Option (Reading T N R C) × Automaton T :=
  match rs with
  | [] => (none, a)
  | r :: _ =>
    let found :=
      match a.states[topState r.stack]? with
      | some s => look sc s.expected (s.mask.testBit 0) r.cursor
      | none => lookAnywhere sc r.cursor
    let (candidates, a) := e.completeAll (settleFuel r.stack) (rs.map (·.stack)) [] a
    e.seek sc candidates limit 1 found r.cursor r.faults a

end

end RepoAtlas.Syntax
