import RepoAtlas.Bytes.Utf8

/-!
# Globs

A glob tells which paths a rule speaks of (`Glob`). It is matched byte by byte: a
character stands for its bytes, and a single wildcard for one byte.

Slashes are matched by a slash, by the three marks written with a double star,
and by a class that excludes others; no other wildcard crosses a slash.

* `Glob.matches`: whether a glob matches the whole of a path.
-/

namespace RepoAtlas.Ignore

/-- An item of a glob. -/
inductive Item where
  | char (c : Char)
  /-- One byte, not a slash. -/
  | one
  /-- Any bytes but slashes. -/
  | run
  /-- Nothing, or any bytes and a slash: the directories above. -/
  | ancestors
  /-- A slash and any bytes: all that lies below. -/
  | descendants
  /-- A slash, or two with any bytes between: the directories on the way. -/
  | way
  /-- A byte of some ranges, or a byte of none of them. -/
  | oneOf (excluded : Bool) (ranges : List (Char × Char))
  /-- One of several globs. -/
  | choice (alternatives : List (List Item))

/-- Items one after the other. -/
abbrev Glob := List Item

namespace Glob

/-- The byte of a slash. -/
def slash : UInt8 := 0x2F

/-! ### Rests

Each of these offers rests of a path to what follows in the glob. -/

/-- The rest behind the given bytes. -/
def behind (next : Bytes → Bool) : Bytes → Bytes → Bool
  | [], path => next path
  | _ :: _, [] => false
  | w :: word, b :: path => w = b && behind next word path

/-- The rests behind any bytes. -/
def anywhere (next : Bytes → Bool) : Bytes → Bool
  | [] => next []
  | b :: path => next (b :: path) || anywhere next path

/-- The rests behind a slash. -/
def behindSlash (next : Bytes → Bool) : Bytes → Bool
  | [] => false
  | b :: path => (b = slash && next path) || behindSlash next path

/-- The rests behind bytes that are no slashes. -/
def inSegment (next : Bytes → Bool) : Bytes → Bool
  | [] => next []
  | b :: path => next (b :: path) || (b ≠ slash && inSegment next path)

/-! ### Classes -/

/-- The bytes of a range of characters. The last byte of the first character and
    the first byte of the last one are the ends of a range; the other bytes
    stand for themselves. -/
def byteRanges (range : Char × Char) : List (UInt8 × UInt8) :=
  let first := Utf8.encode (String.singleton range.1)
  if range.1 = range.2 then first.map fun b => (b, b)
  else
    let last := Utf8.encode (String.singleton range.2)
    first.dropLast.map (fun b => (b, b)) ++
      (first.getLast?.getD 0, last.head?.getD 0) :: last.tail.map fun b => (b, b)

/-- Whether a class holds the byte. -/
def holds (excluded : Bool) (ranges : List (Char × Char)) (b : UInt8) : Bool :=
  (ranges.flatMap byteRanges).any (fun (lo, hi) => Utf8.within lo hi b) != excluded

end Glob

/-! ### Empty alternatives -/

mutual

/-- Whether the item is a choice without an alternative to choose. -/
def Item.isVoid : Item → Bool
  | .choice alternatives => Glob.allVoid alternatives
  | _ => false

/-- Whether the items are all void. -/
def Glob.isVoid : List Item → Bool
  | [] => true
  | item :: items => item.isVoid && Glob.isVoid items

/-- Whether the globs are all void. -/
def Glob.allVoid : List (List Item) → Bool
  | [] => true
  | g :: rest => Glob.isVoid g && Glob.allVoid rest

end

/-! ### Matching -/

mutual

/-- Whether the item matches at the front of the path, and what follows it
    matches the rest. -/
def Item.matches : Item → (Bytes → Bool) → Bytes → Bool
  | .char c, next, path => Glob.behind next (Utf8.encode (String.singleton c)) path
  | .one, next, path =>
    match path with
    | [] => false
    | b :: rest => b ≠ Glob.slash && next rest
  | .run, next, path => Glob.inSegment next path
  | .ancestors, next, path => next path || Glob.behindSlash next path
  | .descendants, next, path =>
    match path with
    | [] => false
    | b :: rest => b = Glob.slash && Glob.anywhere next rest
  | .way, next, path =>
    match path with
    | [] => false
    | b :: rest => b = Glob.slash && (next rest || Glob.behindSlash next rest)
  | .oneOf excluded ranges, next, path =>
    match path with
    | [] => false
    | b :: rest => Glob.holds excluded ranges b && next rest
  | .choice alternatives, next, path =>
    (Glob.allVoid alternatives && next path) || Glob.someMatches alternatives next path

/-- Whether the items match at the front of the path, and what follows them
    matches the rest. -/
def Glob.allMatch : List Item → (Bytes → Bool) → Bytes → Bool
  | [], next, path => next path
  | item :: items, next, path => item.matches (Glob.allMatch items next) path

/-- Whether an alternative that is not void matches. -/
def Glob.someMatches : List (List Item) → (Bytes → Bool) → Bytes → Bool
  | [], _, _ => false
  | g :: rest, next, path =>
    (!Glob.isVoid g && Glob.allMatch g next path) || Glob.someMatches rest next path

end

/-- Whether the glob matches the whole path. A double star alone matches every
    path. -/
def Glob.matches (g : Glob) (path : Bytes) : Bool :=
  match g with
  | [.ancestors] => true
  | _ => Glob.allMatch g (·.isEmpty) path

end RepoAtlas.Ignore
