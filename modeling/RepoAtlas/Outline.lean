/-!
# Outlines

What a source declares: its types, each with its members, its functions and its
constants, by name and in order (`Outline`). A type that is declared again keeps
its place and loses the members it had.

An outline is built by four operations, and `membersOf?` looks into it. All go
by the first type of a name; there is never a second one in an outline built so.
-/

namespace RepoAtlas

/-- A declared type with its members. -/
structure TypeOutline where
  name : String
  members : List String
  deriving DecidableEq, Repr, Inhabited

/-- What a source declares. -/
structure Outline where
  types : List TypeOutline
  functions : List String
  constants : List String
  deriving DecidableEq, Repr, Inhabited

namespace Outline

/-- Nothing declared. -/
def empty : Outline := ⟨[], [], []⟩

/-- Whether nothing is declared. -/
def isEmpty (o : Outline) : Bool :=
  o.types.isEmpty && o.functions.isEmpty && o.constants.isEmpty

/-- Changes the members of the first type of the given name. -/
def modifyType (name : String) (f : List String → List String) :
    List TypeOutline → List TypeOutline
  | [] => []
  | t :: rest =>
    if t.name = name then { t with members := f t.members } :: rest
    else t :: modifyType name f rest

/-- The members of the first type of the given name. -/
def membersOf? (o : Outline) (name : String) : Option (List String) :=
  (o.types.find? (·.name = name)).map (·.members)

/-- Opens a type: a new one comes last, and one declared before loses its
    members. -/
def openType (o : Outline) (name : String) : Outline :=
  if o.types.any (·.name = name) then
    { o with types := modifyType name (fun _ => []) o.types }
  else
    { o with types := o.types ++ [⟨name, []⟩] }

/-- Adds a member to a type; nothing, if there is no such type. -/
def addMember (o : Outline) (type member : String) : Outline :=
  { o with types := modifyType type (· ++ [member]) o.types }

/-- Adds a function. -/
def addFunction (o : Outline) (name : String) : Outline :=
  { o with functions := o.functions ++ [name] }

/-- Adds a constant. -/
def addConstant (o : Outline) (name : String) : Outline :=
  { o with constants := o.constants ++ [name] }

end Outline

end RepoAtlas
