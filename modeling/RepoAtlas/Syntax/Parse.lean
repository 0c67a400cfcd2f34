import RepoAtlas.Syntax.Recovery

/-!
# From a text to its tree

A text is read from its start to its end (`Engine.parse`). Where the readings
stop, one goes on behind a fault; where none can, the whole tree is a fault.
-/

namespace RepoAtlas.Syntax

section

variable {T N R C : Type} [DecidableEq T] [DecidableEq N] [DecidableEq R]

/-- The tree of a text that cannot be read on: all that was read is one fault. -/
def Engine.faultTree (e : Engine T N R) (rs : List (Reading T N R C)) : Node T N R :=
  let nodes := (rs.head?.elim [] fun r => r.stack.reverse.map (·.nodes)).foldl (· ++ ·) #[]
  .branch e.language.start none [faultOf 0 nodes]

/-- Reads on until the text is complete. -/
def Engine.run (e : Engine T N R) (sc : Scanner T C) :
    Nat → List (Reading T N R C) → Automaton T → Node T N R
  | 0, rs, _ => e.faultTree rs
  | fuel + 1, rs, a =>
    let (next, tree, a) := rs.foldl
      (fun (next, tree, a) r =>
        match e.advance sc r a with
        | ((readings, found), a) => (next ++ readings, tree <|> found, a))
      (([], none, a) : List (Reading T N R C) × Option (Node T N R) × Automaton T)
    match tree, next with
    | some t, _ => t
    | none, [] =>
      match e.recover sc (fuel + 1) rs a with
      | (some r, a) => e.run sc fuel [r] a
      | (none, _) => e.faultTree rs
    | none, next => e.run sc fuel (mergeReadings sc next) a

/-- The tree of the text at a place, of at most `limit` tokens. -/
def Engine.parse (e : Engine T N R) (sc : Scanner T C) (limit : Nat) (cursor : C) : Node T N R :=
  let (_, a) := Automaton.empty.start e.tables e.start
  e.run sc limit [{ stack := [], cursor }] a

end

end RepoAtlas.Syntax
