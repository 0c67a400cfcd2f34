/-!
# Syntax trees

The tree of a text that a grammar describes. A leaf holds a token with its text
and the gap of blanks and comments before it, so that the text of a node is
read off its leaves (`Node.text`). Where the text does not follow the grammar,
the tree has a fault: something is there that fits nowhere, or something is
missing.

Faults are found from the root (`Node.firstFault?`): the search goes only into
nodes that have a fault (`Node.hasFault`).
-/

namespace RepoAtlas.Syntax

/-- What is wrong at a fault. -/
inductive Fault where
  | unexpected
  | missing
  deriving DecidableEq, Repr

/-- A node of a syntax tree, over tokens `T`, rules `N` and roles `R`. Lines are
    counted from zero. -/
inductive Node (T N R : Type) where
  /-- A token, with the gap before it. -/
  | leaf (token : T) (role : Option R) (line : Nat) (gap text : String)
  /-- What a rule describes. -/
  | branch (rule : N) (role : Option R) (children : List (Node T N R))
  /-- A place where the text leaves the grammar. -/
  | fault (fault : Fault) (line : Nat) (children : List (Node T N R))

namespace Node

variable {T N R : Type}

instance : Inhabited (Node T N R) := ⟨.fault .missing 0 []⟩

/-- The children of a node. -/
def children : Node T N R → List (Node T N R)
  | .leaf .. => []
  | .branch _ _ cs => cs
  | .fault _ _ cs => cs

/-- The role of the node among its siblings. -/
def role? : Node T N R → Option R
  | .leaf _ r _ _ _ => r
  | .branch _ r _ => r
  | .fault .. => none

/-- The rule of a branch. -/
def rule? : Node T N R → Option N
  | .branch n _ _ => some n
  | _ => none

/-- Gives a node a role, unless it has one. -/
def withRole (r : R) : Node T N R → Node T N R
  | .leaf t old line gap text => .leaf t (old <|> some r) line gap text
  | .branch n old cs => .branch n (old <|> some r) cs
  | .fault f line cs => .fault f line cs

/-- The node with more children behind its own. -/
def append (n : Node T N R) (more : List (Node T N R)) : Node T N R :=
  match n with
  | .leaf .. => n
  | .branch rule role cs => .branch rule role (cs ++ more)
  | .fault f line cs => .fault f line (cs ++ more)

/-- The first child in the given role. -/
def child? [BEq R] (r : R) (n : Node T N R) : Option (Node T N R) :=
  n.children.find? fun c => c.role? == some r

/-- All children in the given role. -/
def childrenIn [BEq R] (r : R) (n : Node T N R) : List (Node T N R) :=
  n.children.filter fun c => c.role? == some r

/-! ### Text -/

/-- The leaves below the node, each with its gap and its text, in order. -/
def leaves : Node T N R → List (String × String)
  | .leaf _ _ _ gap text => [(gap, text)]
  | .branch _ _ cs => cs.flatMap leaves
  | .fault _ _ cs => cs.flatMap leaves

/-- The text of the node: from its first leaf to its last, with the gaps
    between them. -/
def text (n : Node T N R) : String :=
  match n.leaves with
  | [] => ""
  | (_, first) :: rest => first ++ String.join (rest.map fun (gap, t) => gap ++ t)

mutual

/-- The line the node starts on: that of its first leaf or fault. -/
def line? : Node T N R → Option Nat
  | .leaf _ _ line _ _ => some line
  | .branch _ _ cs => lineAmong? cs
  | .fault _ line _ => some line

/-- The line that the first of the nodes with a line starts on. -/
def lineAmong? : List (Node T N R) → Option Nat
  | [] => none
  | c :: cs => line? c <|> lineAmong? cs

end

/-! ### Faults -/

/-- Whether the node is a fault itself. -/
def isFault : Node T N R → Bool
  | .fault .. => true
  | _ => false

mutual

/-- Whether the node or one below it is a fault. -/
def hasFault : Node T N R → Bool
  | .leaf .. => false
  | .branch _ _ cs => anyFault cs
  | .fault .. => true

/-- Whether there is a fault at or below one of the nodes. -/
def anyFault : List (Node T N R) → Bool
  | [] => false
  | c :: cs => hasFault c || anyFault cs

end

/-- The node and all below it, each before its children. -/
def preorder : Node T N R → List (Node T N R)
  | n@(.leaf ..) => [n]
  | n@(.branch _ _ cs) => n :: cs.flatMap preorder
  | n@(.fault _ _ cs) => n :: cs.flatMap preorder

mutual

/-- The first fault at or below the node. Children without a fault are passed
    over. -/
def firstFault? : Node T N R → Option (Node T N R)
  | .leaf .. => none
  | .branch _ _ cs => firstFaultAmong? cs
  | n@(.fault ..) => some n

/-- The first fault at or below the nodes that have one. -/
def firstFaultAmong? : List (Node T N R) → Option (Node T N R)
  | [] => none
  | c :: cs =>
    if hasFault c then firstFault? c <|> firstFaultAmong? cs else firstFaultAmong? cs

end

end Node

end RepoAtlas.Syntax
