import RepoAtlas.Ignore.Glob

/-!
# Reading globs

The glob that a text stands for (`Glob.ofText?`). Characters stand for
themselves, but for these.

* `?` is one byte, `*` a run of bytes.
* `**` between slashes, or between a slash and an end of the glob, stands for
  directories; elsewhere it is two runs.
* `[…]` is a class. A bracket that is never closed stands for itself, and so do
  all brackets after it.
* `{…,…}` is a choice; choices may stand in choices.
* A backslash takes the character behind it as it is.

A text is no glob if a range of a class runs downwards, a choice is closed
without being opened or never closed, or a backslash ends the text.
-/

namespace RepoAtlas.Ignore

/-! ### Classes -/

/-- What a bracket begins. -/
inductive ClassReading where
  /-- A class, and the text behind it. -/
  | closed (ranges : List (Char × Char)) (rest : List Char)
  /-- Nothing: the text ends first. -/
  | unclosed
  /-- A class with a range that runs downwards. -/
  | descending
  deriving DecidableEq, Repr

namespace ClassReading

/-- Reads the members of a class. `first` tells that none was read, `dash` that
    the last character was a dash that may be of a range, and `ranges` what was
    read, the last first. -/
def members (first dash : Bool) (ranges : List (Char × Char)) : List Char → ClassReading
  | [] => .unclosed
  | c :: rest =>
    if c = ']' && !first then
      .closed (if dash then ranges.reverse ++ [('-', '-')] else ranges.reverse) rest
    else if c = '-' && !first && !dash then members false true ranges rest
    else
      match dash, ranges with
      | true, (lo, _) :: before =>
        if c < lo then .descending else members false false ((lo, c) :: before) rest
      | _, _ => members false false ((c, c) :: ranges) rest

/-- Reads what stands behind a bracket. -/
def ofText (cs : List Char) : Bool × ClassReading :=
  match cs with
  | '!' :: rest => (true, members true false [] rest)
  | '^' :: rest => (true, members true false [] rest)
  | _ => (false, members true false [] cs)

/-- A class takes at least the bracket that closes it. -/
theorem length_lt_of_members {first dash : Bool} {ranges found : List (Char × Char)}
    {cs rest : List Char} (h : members first dash ranges cs = .closed found rest) :
    rest.length < cs.length := by
  fun_induction members first dash ranges cs with
  | case1 => cases h
  | case2 => cases h; simp
  | case3 _ _ _ _ _ _ _ ih => exact Nat.lt_succ_of_lt (ih h)
  | case4 => cases h
  | case5 _ _ _ _ _ _ _ _ _ ih => exact Nat.lt_succ_of_lt (ih h)
  | case6 _ _ _ _ _ _ _ _ ih => exact Nat.lt_succ_of_lt (ih h)

/-- What follows a class is shorter than what stood behind its bracket. -/
theorem length_lt_of_ofText {excluded : Bool} {found : List (Char × Char)}
    {cs rest : List Char} (h : ofText cs = (excluded, .closed found rest)) :
    rest.length < cs.length := by
  unfold ofText at h
  split at h <;> have h := length_lt_of_members (Prod.mk.inj h).2
  · exact Nat.lt_succ_of_lt h
  · exact Nat.lt_succ_of_lt h
  · exact h

end ClassReading

/-! ### The reader -/

/-- A choice that is still open: what stands before it, the last item first, and
    the alternatives read so far. -/
structure OpenChoice where
  before : List Item
  alternatives : List Glob

/-- What was read of a glob. -/
structure GlobReading where
  /-- The items of the innermost alternative, the last first. -/
  items : List Item := []
  /-- The open choices, the innermost first. -/
  choices : List OpenChoice := []
  /-- Whether a bracket may still begin a class. -/
  classes : Bool := true

namespace GlobReading

/-- Whether a choice is open. -/
def inChoice (r : GlobReading) : Bool := !r.choices.isEmpty

/-- Adds an item. -/
def push (r : GlobReading) (item : Item) : GlobReading := { r with items := item :: r.items }

/-- Adds two runs. -/
def pushRuns (r : GlobReading) : GlobReading := (r.push .run).push .run

/-- Puts a mark in the place of the slash before it. A mark for directories
    stays as it is. -/
def mark (r : GlobReading) (item : Item) : GlobReading :=
  match r.items with
  | .ancestors :: _ => r
  | .descendants :: _ => r
  | _ :: before => { r with items := item :: before }
  | [] => r.push item

/-- Opens a choice. -/
def openChoice (r : GlobReading) : GlobReading :=
  { r with items := [], choices := ⟨r.items, []⟩ :: r.choices }

/-- Begins the next alternative, or adds a comma where no choice is open. -/
def comma (r : GlobReading) : GlobReading :=
  match r.choices with
  | [] => r.push (.char ',')
  | c :: outer =>
    { r with
      items := []
      choices := { c with alternatives := c.alternatives ++ [r.items.reverse] } :: outer }

/-- Closes the innermost choice. -/
def closeChoice? (r : GlobReading) : Option GlobReading :=
  match r.choices with
  | [] => none
  | c :: outer =>
    some { r with
      items := .choice (c.alternatives ++ [r.items.reverse]) :: c.before
      choices := outer }

/-- Reads the rest of a glob; `last` is the character before it. -/
def run (r : GlobReading) (last : Option Char) : List Char → Option Glob
  | [] => if r.inChoice then none else some r.items.reverse
  | '?' :: rest => run (r.push .one) (some '?') rest
  | '*' :: '*' :: rest =>
    let inside := r.inChoice && (last == some ',' || last == some '{')
    match rest with
    | [] =>
      if r.items.isEmpty then run (r.push .ancestors) (some '*') []
      else if last == some '/' || inside then run (r.mark .descendants) (some '*') []
      else run r.pushRuns (some '*') []
    | '/' :: rest =>
      if r.items.isEmpty then run (r.push .ancestors) (some '/') rest
      else if last == some '/' || inside then run (r.mark .way) (some '/') rest
      else run r.pushRuns (some '*') ('/' :: rest)
    | c :: rest =>
      if !r.items.isEmpty && (last == some '/' || inside)
          && r.inChoice && (c = ',' || c = '}') then
        run (r.mark .descendants) (some '*') (c :: rest)
      else run r.pushRuns (some '*') (c :: rest)
  | '*' :: rest => run (r.push .run) (some '*') rest
  | '{' :: rest => run r.openChoice (some '{') rest
  | '}' :: rest =>
    match r.closeChoice? with
    | none => none
    | some r => run r (some '}') rest
  | ',' :: rest => run r.comma (some ',') rest
  | '\\' :: [] => none
  | '\\' :: c :: rest => run (r.push (.char c)) (some c) rest
  | c :: rest =>
    if c = '[' && r.classes then
      match _h : ClassReading.ofText rest with
      | (excluded, .closed ranges behind) => run (r.push (.oneOf excluded ranges)) (some ']') behind
      | (_, .unclosed) => run { r.push (.char '[') with classes := false } (some '[') rest
      | (_, .descending) => none
    else run (r.push (.char c)) (some c) rest
  termination_by cs => cs.length
  decreasing_by all_goals grind [→ ClassReading.length_lt_of_ofText]

end GlobReading

/-- The glob that a text stands for. -/
def Glob.ofText? (cs : List Char) : Option Glob := GlobReading.run {} none cs

end RepoAtlas.Ignore
