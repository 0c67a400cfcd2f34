import RepoAtlas.Outline
import RepoAtlas.Python.Docstring
import RepoAtlas.Python.Source
import RepoAtlas.Text.Case

/-!
# What a Python module declares and imports

Only the statements directly in the module count, so a function inside another,
an attribute of a class or a definition under a condition is never reported.

* `outline`: the functions, the classes with the functions directly in their
  bodies, and the constants: the capitalised names that a chain of assignments
  binds, up to the first one with a type.
* `imports`: the imported names in order, each under its alias if it has one.
-/

namespace RepoAtlas.Python

/-! ### Definitions -/

/-- The definition that decorators stand before, or the node itself. -/
def undecorated (n : Node) : Node :=
  match n with
  | .branch .decoratedDefinition .. => (n.child? .definition).getD n
  | _ => n

/-- The text of the part in the given role. -/
def partText? (r : Role) (n : Node) : Option String := (n.child? r).map (·.text)

/-- The name of a function, if the node defines one. -/
def functionName? (n : Node) : Option String :=
  match undecorated n with
  | d@(.branch .functionDefinition ..) => partText? .name d
  | _ => none

/-- The names of the functions directly in the body of a class. -/
def methods (definition : Node) : List String :=
  match definition.child? .body with
  | none => []
  | some body => body.children.filterMap functionName?

/-! ### Constants -/

/-- Whether the node is an assignment. -/
def isAssignment : Node → Bool
  | .branch .assignment .. => true
  | _ => false

/-- Whether the node is a bare name. -/
def isName : Node → Bool
  | .leaf .identifier .. => true
  | _ => false

/-- The name that one assignment binds as a constant. -/
def boundConstant? (assignment : Node) : Option String :=
  match assignment.child? .left with
  | some target =>
    if isName target && Text.isUpperText target.text then some target.text else none
  | none => none

/-- The assignments of a chain, the outermost first, up to one with a type. The
    value of each is the next. -/
def chain : Node → List Node
  | n@(.branch .assignment _ parts) =>
    if parts.any (·.role? == some .type) then []
    else n :: chainAmong parts
  | _ => []
where
  /-- The chain that begins with the value among the parts of an assignment. -/
  chainAmong : List Node → List Node
    | [] => []
    | part :: rest => if part.role? == some .right then chain part else chainAmong rest

/-- The constants that a chain of assignments binds. -/
def chainConstants (assignment : Node) : List String := (chain assignment).filterMap boundConstant?

/-! ### The outline -/

/-- Enters what a statement of the module declares. -/
def declare (o : Outline) (statement : Node) : Outline :=
  let node := undecorated statement
  match node with
  | .branch .classDefinition .. =>
    match partText? .name node with
    | some name => (methods node).foldl (fun o m => o.addMember name m) (o.openType name)
    | none => o
  | .branch .functionDefinition .. =>
    match partText? .name node with
    | some name => o.addFunction name
    | none => o
  | .branch .expressionStatement _ parts =>
    ((parts.filter isAssignment).flatMap chainConstants).foldl (fun o c => o.addConstant c) o
  | _ => o

/-- What the module declares. -/
def outline (root : Node) : Outline := root.children.foldl declare .empty

/-! ### Imports -/

/-- The module of an import by its path; the dots of a relative one are
    dropped. -/
def modulePath (n : Node) : String :=
  match n with
  | .branch .relativeImport _ parts =>
    match parts.find? fun p => p.rule? == some .dottedName with
    | some dotted => dotted.text
    | none => ""
  | _ => n.text

/-- An imported name, in the module it is imported from, if any. -/
def importedName (module? : Option String) (n : Node) : String :=
  let qualified (name : String) : String :=
    match module? with
    | some m => m ++ "." ++ name
    | none => name
  match n with
  | .branch .aliasedImport .. =>
    match partText? .alias n with
    | some name => name
    | none => qualified ((partText? .name n).getD "")
  | _ => qualified n.text

/-- The names that a statement of the module imports. -/
def importsOf (n : Node) : List String :=
  match n with
  | .branch .importStatement .. => (n.childrenIn .name).map (importedName none)
  | .branch .importFromStatement _ parts =>
    let path := ((n.child? .moduleName).map modulePath).getD ""
    let all := if parts.any fun p => p.rule? == some .wildcardImport then [path ++ ".*"] else []
    all ++ (n.childrenIn .name).map (importedName (some path))
  | .branch .futureImportStatement .. =>
    (n.childrenIn .name).map (importedName (some "__future__"))
  | _ => []

/-- The names that the module imports. -/
def imports (root : Node) : List String := root.children.flatMap importsOf

end RepoAtlas.Python
