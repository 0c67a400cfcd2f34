import RepoAtlas.Bytes.Utf8

/-!
# Hosts

The host of an address in its one written form (`Host.normal?`): names in small
letters, those beyond ASCII in their coded form, and numbers as four bytes or
eight groups. Letters beyond ASCII are taken as they are, without regard to
case or composition.
-/

namespace RepoAtlas.Web.Host

/-- A hexadecimal digit in small letters. -/
def digit (n : Nat) : Char := if n < 10 then Char.ofNat (48 + n) else Char.ofNat (87 + n)

/-- The value of a digit in a base up to sixteen. -/
def digitValue? (base : Nat) (c : Char) : Option Nat :=
  let v :=
    if c.isDigit then c.toNat - 48
    else if 'a' ≤ c ∧ c ≤ 'f' then c.toNat - 87
    else if 'A' ≤ c ∧ c ≤ 'F' then c.toNat - 55
    else base
  if v < base then some v else none

/-- The number that digits of a base say. -/
def numberOf? (base : Nat) (cs : List Char) : Option Nat :=
  cs.foldl (fun n c => n.bind fun n => (digitValue? base c).map (n * base + ·)) (some 0)

/-- The parts between separators. -/
def splitAtChar (separator : Char) : List Char → List (List Char)
  | [] => [[]]
  | c :: rest =>
    if c = separator then [] :: splitAtChar separator rest
    else
      match splitAtChar separator rest with
      | [] => [[c]]
      | part :: parts => (c :: part) :: parts

/-! ### Four bytes -/

/-- A part of a number of four bytes: in base sixteen, eight or ten. -/
def fourBytePart? (cs : List Char) : Option Nat :=
  match cs with
  | '0' :: 'x' :: ds => numberOf? 16 ds
  | '0' :: 'X' :: ds => numberOf? 16 ds
  | '0' :: d :: ds => numberOf? 8 (d :: ds)
  | [] => none
  | ds => numberOf? 10 ds

/-- The parts of a name, without an empty one at its end. -/
def labels (name : List Char) : List (List Char) :=
  let parts := splitAtChar '.' name
  if 1 < parts.length && parts.getLast? = some [] then parts.dropLast else parts

/-- Whether a name is meant as a number, as its last part tells. -/
def endsInNumber (name : List Char) : Bool :=
  match (labels name).getLast? with
  | none | some [] => false
  | some last =>
    last.all Char.isDigit ||
      ((last.take 2 = ['0', 'x'] || last.take 2 = ['0', 'X']) && (fourBytePart? last).isSome)

/-- A number of four bytes: the last part fills the bytes that are left. -/
def fourBytes? (name : List Char) : Option String := do
  let parts ← (labels name).mapM fourBytePart?
  let last ← parts.getLast?
  let firsts := parts.dropLast
  if 4 < parts.length || firsts.any (255 < ·) || Nat.pow 256 (5 - parts.length) ≤ last then none
  else
    let n := firsts.zipIdx.foldl (fun sum (part, i) => sum + part * Nat.pow 256 (3 - i)) last
    return ".".intercalate ([24, 16, 8, 0].map fun shift => toString ((n >>> shift) % 256))

/-! ### Eight groups -/

/-- A group of four hexadecimal digits at most. -/
def group? (cs : List Char) : Option Nat :=
  if cs.isEmpty || 4 < cs.length then none else numberOf? 16 cs

/-- The groups of a text without a gap. -/
def groups? (cs : List Char) : Option (List Nat) :=
  if cs.isEmpty then some [] else (splitAtChar ':' cs).mapM group?

/-- The text around its first two colons in a row. -/
def aroundGap? : List Char → Option (List Char × List Char)
  | ':' :: ':' :: rest => some ([], rest)
  | c :: rest => (aroundGap? rest).map fun (front, back) => (c :: front, back)
  | [] => none

/-- The eight groups of a number; two colons in a row stand for groups of
    zero. -/
def eightGroups? (cs : List Char) : Option (List Nat) :=
  match aroundGap? cs with
  | none => do
    let gs ← groups? cs
    if gs.length = 8 then return gs else none
  | some (front, back) => do
    let fs ← groups? front
    let bs ← groups? back
    if 7 < fs.length + bs.length then none
    else return fs ++ List.replicate (8 - fs.length - bs.length) 0 ++ bs

/-- The start and length of the longest run of zeros, the first of equals. -/
def longestZeros (gs : List Nat) : Nat × Nat :=
  let runs := (List.range gs.length).map fun i => (i, ((gs.drop i).takeWhile (· == 0)).length)
  runs.foldl (fun best run => if best.2 < run.2 then run else best) (0, 0)

/-- A group in hexadecimal digits. -/
def groupText (n : Nat) : String := String.ofList (Nat.toDigits 16 n)

/-- Eight groups as text, the longest run of zeros left out if it is longer than
    one. -/
def groupsText (gs : List Nat) : String :=
  let (start, length) := longestZeros gs
  let joined (l : List Nat) : String := ":".intercalate (l.map groupText)
  if length < 2 then joined gs
  else joined (gs.take start) ++ "::" ++ joined (gs.drop (start + length))

/-! ### Names -/

/-- A character that no host has. -/
def isForbidden (c : Char) : Bool :=
  c.toNat ≤ 32 || c.toNat = 127 || "#/:<>?@[\\]^|%".toList.contains c

/-- The digit of a coded name. -/
def codedDigit (n : Nat) : Char := if n < 26 then Char.ofNat (97 + n) else Char.ofNat (22 + n)

/-- The bias for a distance, which is divided by 35 as long as more than 455 is
    left of it. -/
def biasFor : Nat → Nat → Nat → Nat
  | 0, bias, delta => bias + 36 * delta / (delta + 38)
  | fuel + 1, bias, delta =>
    if 455 < delta then biasFor fuel (bias + 36) (delta / 35)
    else bias + 36 * delta / (delta + 38)

/-- The bias by which the code adapts to the distance between characters. -/
def adapted (delta count : Nat) (first : Bool) : Nat :=
  let delta := if first then delta / 700 else delta / 2
  biasFor 64 0 (delta + delta / count)

/-- A number in digits whose base depends on the place. -/
def codedNumber (bias : Nat) : Nat → Nat → Nat → List Char
  | 0, _, _ => []
  | fuel + 1, k, q =>
    let t := if k ≤ bias then 1 else if bias + 26 ≤ k then 26 else k - bias
    if q < t then [codedDigit q]
    else codedDigit (t + (q - t) % (36 - t)) :: codedNumber bias fuel (k + 36) ((q - t) / (36 - t))

/-- The state of the code: the character reached, the distance, the bias, the
    characters written, and the text so far. -/
structure Coding where
  reached : Nat := 128
  delta : Nat := 0
  bias : Nat := 72
  count : Nat
  basics : Nat
  text : List Char

/-- Writes the places of one character into the code. -/
def Coding.place (s : Coding) (next : Nat) (name : List Char) : Coding :=
  let s := { s with
    delta := s.delta + (next - s.reached) * (s.count + 1)
    reached := next }
  let s := name.foldl (fun s c =>
    if c.toNat < next then { s with delta := s.delta + 1 }
    else if c.toNat = next then
      { s with
        text := s.text ++ codedNumber s.bias 64 36 s.delta
        bias := adapted s.delta (s.count + 1) (s.count == s.basics)
        delta := 0
        count := s.count + 1 }
    else s) s
  { s with delta := s.delta + 1, reached := next + 1 }

/-- The part of a name in ASCII, coded if it is not. -/
def label (name : List Char) : List Char :=
  let basic := name.filter fun c => c.toNat < 128
  if basic.length = name.length then name
  else
    let others := (name.filter fun c => 128 ≤ c.toNat).map Char.toNat
    let start : Coding := {
      count := basic.length
      basics := basic.length
      text := if basic.isEmpty then [] else basic ++ ['-'] }
    let inOrder := others.eraseDups.mergeSort (· ≤ ·)
    "xn--".toList ++ (inOrder.foldl (fun s n => s.place n name) start).text

/-- The bytes of a text in which a percent sign and two digits stand for a
    byte. -/
def decoded : List Char → Bytes
  | '%' :: a :: b :: rest =>
    match digitValue? 16 a, digitValue? 16 b with
    | some h, some l => UInt8.ofNat (h * 16 + l) :: decoded rest
    | _, _ => 37 :: decoded (a :: b :: rest)
  | c :: rest => Utf8.encode (String.singleton c) ++ decoded rest
  | [] => []

/-- A host in its one form, or none if there is no such host. -/
def normal? (host : List Char) : Option String :=
  match host with
  | [] => none
  | '[' :: rest =>
    if rest.getLast? = some ']' then
      (eightGroups? rest.dropLast).map fun gs => "[" ++ groupsText gs ++ "]"
    else none
  | _ =>
    let name := (Utf8.decodeLossy (decoded host)).toList.map Char.toLower
    if name.isEmpty || name.any isForbidden then none
    else if endsInNumber name then fourBytes? name
    else
      let coded := (splitAtChar '.' name).map label
      some (".".intercalate (coded.map String.ofList))

end RepoAtlas.Web.Host
