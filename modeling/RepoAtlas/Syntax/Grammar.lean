/-!
# Ranked grammars

A context-free grammar whose rules carry ranks: where two readings of a text
compete, the rank of a rule and the side it groups to decide between them.

A rule is written as an expression (`Expr`) over tokens `T`, rules `N` and
roles `R`, the names under which a node finds its parts. Its `alternatives` are
flat lists of steps, one per way of choosing, in which a repetition has become
a rule of its own (`Flattening`).
-/

namespace RepoAtlas.Syntax

/-- The side to which steps of equal rank group. -/
inductive Side where
  | left
  | right
  deriving DecidableEq, Repr

/-- The right-hand side of a rule. -/
inductive Expr (T N R : Type) where
  /-- A token. -/
  | token (t : T)
  /-- What another rule describes. -/
  | rule (n : N)
  /-- One after the other. -/
  | seq (es : List (Expr T N R))
  /-- One of several. -/
  | choice (es : List (Expr T N R))
  /-- Once or more often. -/
  | many1 (e : Expr T N R)
  /-- With a rank, and perhaps a side to group to. -/
  | ranked (rank : Int) (side : Option Side) (e : Expr T N R)
  /-- In a role of the node it belongs to. -/
  | role (r : R) (e : Expr T N R)
  /-- Shown in the tree as a token of another kind. -/
  | asToken (t : T) (e : Expr T N R)
  /-- Shown in the tree as a node of another rule. -/
  | asRule (n : N) (e : Expr T N R)

namespace Expr

variable {T N R : Type}

/-- Nothing at all. -/
def nothing : Expr T N R := .seq []

/-- At most once. -/
def optional (e : Expr T N R) : Expr T N R := .choice [e, nothing]

/-- Any number of times. -/
def many (e : Expr T N R) : Expr T N R := optional (.many1 e)

/-- Once or more often, with a separator between. -/
def sepBy1 (e separator : Expr T N R) : Expr T N R := .seq [e, many (.seq [separator, e])]

end Expr

/-- What a step shows in the tree in place of its own kind. -/
inductive Shown (T N : Type) where
  | token (t : T)
  | rule (n : N)
  deriving DecidableEq

/-- A symbol of a flat production: a token, or a rule by its number. Beyond the
    numbers of the named rules lie those of the repetitions. -/
inductive Symbol (T : Type) where
  | token (t : T)
  | rule (number : Nat)
  deriving DecidableEq

/-- A step of a production. Its rank is the rank of a reading that has just
    taken it. -/
structure Step (T N R : Type) where
  symbol : Symbol T
  rank : Int
  side : Option Side
  role : Option R
  shown : Option (Shown T N)
  deriving DecidableEq

/-- The steps of one alternative. -/
abbrev Steps (T N R : Type) := List (Step T N R)

/-- A grammar: its rules, the first of which is where a text starts, and for
    each rule its number, whether it is written out in place of its name, and
    whether its node is left out of the tree and its parts put there. -/
structure Grammar (T N R : Type) where
  rules : List (N × Expr T N R)
  number : N → Nat
  isInlined : N → Bool
  isHidden : N → Bool

/-! ### Flattening -/

section Flattening

variable {T N R : Type} [DecidableEq T] [DecidableEq N] [DecidableEq R]

/-- The repetitions met so far, each by its alternatives. The first of them has
    the number `base`. -/
structure Repetitions (T N R : Type) where
  base : Nat
  bodies : List (List (Steps T N R))

/-- The number of the repetition with the given alternatives, entered if new. -/
def Repetitions.enter (reps : Repetitions T N R) (body : List (Steps T N R)) :
    Nat × Repetitions T N R :=
  match reps.bodies.idxOf? body with
  | some i => (reps.base + i, reps)
  | none => (reps.base + reps.bodies.length, { reps with bodies := reps.bodies ++ [body] })

/-- Replaces the last step. -/
def Steps.modifyLast (f : Step T N R → Step T N R) : Steps T N R → Steps T N R
  | [] => []
  | [s] => [f s]
  | s :: rest => s :: modifyLast f rest

/-- Where in a rule an expression stands: the rank and side around it, and
    whether the rule ends with it. -/
structure Context where
  rank : Int
  side : Option Side
  atEnd : Bool

/-- The context of a whole rule. -/
def Context.top : Context := ⟨0, none, true⟩

mutual

/-- The alternatives of an expression. A rank reaches up to the last step of
    what it encloses; that step has the rank around it, unless the rule ends
    there. -/
def Expr.alternatives (g : N → Nat) (ctx : Context) :
    Expr T N R → StateM (Repetitions T N R) (List (Steps T N R))
  | .token t => pure [[⟨.token t, ctx.rank, ctx.side, none, none⟩]]
  | .rule n => pure [[⟨.rule (g n), ctx.rank, ctx.side, none, none⟩]]
  | .seq es => Expr.seqAlternatives g ctx es
  | .choice es => Expr.choiceAlternatives g ctx es
  | .many1 e => do
    let body ← Expr.alternatives g .top e
    let i ← modifyGet fun reps => reps.enter body
    pure [[⟨.rule i, ctx.rank, ctx.side, none, none⟩]]
  | .ranked rank side e => do
    let inner ← Expr.alternatives g { ctx with rank, side := side <|> ctx.side } e
    if ctx.atEnd then
      pure inner
    else
      pure <| inner.map <| Steps.modifyLast fun s =>
        { s with rank := ctx.rank, side := if side.isSome then ctx.side else s.side }
  | .role r e => do
    let inner ← Expr.alternatives g ctx e
    pure (inner.map (·.map fun s => { s with role := s.role <|> some r }))
  | .asToken t e => do
    let inner ← Expr.alternatives g ctx e
    pure (inner.map (·.map fun s => { s with shown := some (.token t) }))
  | .asRule n e => do
    let inner ← Expr.alternatives g ctx e
    pure (inner.map (·.map fun s => { s with shown := some (.rule n) }))

/-- The alternatives of a sequence: one of each member, in every combination. -/
def Expr.seqAlternatives (g : N → Nat) (ctx : Context) :
    List (Expr T N R) → StateM (Repetitions T N R) (List (Steps T N R))
  | [] => pure [[]]
  | [e] => Expr.alternatives g ctx e
  | e :: es => do
    let heads ← Expr.alternatives g { ctx with atEnd := false } e
    let tails ← Expr.seqAlternatives g ctx es
    pure (heads.flatMap fun h => tails.map fun t => h ++ t)

/-- The alternatives of a choice: those of each member. -/
def Expr.choiceAlternatives (g : N → Nat) (ctx : Context) :
    List (Expr T N R) → StateM (Repetitions T N R) (List (Steps T N R))
  | [] => pure []
  | e :: es => do
    let here ← Expr.alternatives g ctx e
    let others ← Expr.choiceAlternatives g ctx es
    pure (here ++ others)

end

/-- The steps that stand for an inlined step: they take over its role and what
    it shows, and the last of them its rank and side unless it has its own. -/
def Step.replaceBy (s : Step T N R) (body : Steps T N R) : Steps T N R :=
  let body := body.map fun b => { b with role := s.role <|> b.role, shown := s.shown <|> b.shown }
  Steps.modifyLast
    (fun b => { b with rank := if b.rank = 0 then s.rank else b.rank, side := b.side <|> s.side })
    body

/-- All ways of writing out the inlined rules among the steps, down to the given
    depth. -/
def inlineSteps (inlined : Nat → Option (List (Steps T N R))) :
    Nat → Steps T N R → List (Steps T N R)
  | _, [] => [[]]
  | 0, steps => [steps]
  | depth + 1, s :: rest =>
    let heads : List (Steps T N R) :=
      match s.symbol with
      | .token _ => [[s]]
      | .rule i =>
        match inlined i with
        | none => [[s]]
        | some bodies =>
          bodies.flatMap fun body => inlineSteps inlined depth (s.replaceBy body)
    heads.flatMap fun h => (inlineSteps inlined (depth + 1) rest).map fun t => h ++ t
termination_by depth steps => (depth, steps.length)

/-- A production: a rule by its number, and one of its alternatives. -/
structure Production (T N R : Type) where
  rule : Nat
  steps : Steps T N R

/-- How deep inlined rules may stand in one another. -/
def inlineDepth : Nat := 4

/-- All productions of a grammar. The number of a repetition `A` of `e` lies
    beyond those of the rules, and its productions are `A → A e` and `A → e`. -/
def Grammar.productions (g : Grammar T N R) : List (Production T N R) :=
  let flatten : StateM (Repetitions T N R) (List (N × List (Steps T N R))) :=
    g.rules.mapM fun (n, e) => do pure (n, ← e.alternatives g.number .top)
  let (named, reps) := flatten.run ⟨g.rules.length, []⟩
  let inlined (i : Nat) : Option (List (Steps T N R)) :=
    (named.find? fun (n, _) => g.number n == i && g.isInlined n).map (·.2)
  let kept := named.filter fun (n, _) => !g.isInlined n
  let repeated := reps.bodies.zipIdx.map fun (body, i) =>
    let self : Step T N R := ⟨.rule (reps.base + i), 0, none, none, none⟩
    (reps.base + i, body.map (self :: ·) ++ body)
  let all := (kept.map fun (n, alts) => (g.number n, alts)) ++ repeated
  all.flatMap fun (i, alts) =>
    (alts.flatMap (inlineSteps inlined inlineDepth)).eraseDups.map fun steps => ⟨i, steps⟩

end Flattening

end RepoAtlas.Syntax
