/-!
# UTF-8

Bytes as text. A character takes one to four bytes, the first of which tells how
many (`Utf8.next`). Where the bytes say no character, as many of them count as
one fault as could have begun a character, and at least one.

* `Utf8.decode?`: the text, if all bytes say characters;
* `Utf8.decodeLossy`: the text with U+FFFD for each fault;
* `Utf8.encode`, `Utf8.size`: the bytes of a text, and their number;
* `Utf8.boundaryWithin?`, `Utf8.front?`: where the bytes can be cut between two
  characters, and the text in front of a cut.
-/

namespace RepoAtlas

/-- Bytes: the content of a file, or a name or a path as the system has it. -/
abbrev Bytes := List UInt8

namespace Utf8

/-- Whether the byte lies in a range. -/
def within (lo hi : UInt8) (b : UInt8) : Bool := lo ≤ b && b ≤ hi

/-- A byte that follows the first two of a character. -/
def isTail (b : UInt8) : Bool := within 0x80 0xBF b

/-- The payload of a byte behind the first. -/
def low (b : UInt8) : Nat := b.toNat % 64

/-- The range of the second byte and the number of bytes after it, by the first
    byte of a character of two bytes or more. -/
def lead? (b : UInt8) : Option ((UInt8 × UInt8) × Nat) :=
  if within 0xC2 0xDF b then some ((0x80, 0xBF), 0)
  else if b = 0xE0 then some ((0xA0, 0xBF), 1)
  else if b = 0xED then some ((0x80, 0x9F), 1)
  else if within 0xE1 0xEF b then some ((0x80, 0xBF), 1)
  else if b = 0xF0 then some ((0x90, 0xBF), 2)
  else if within 0xF1 0xF3 b then some ((0x80, 0xBF), 2)
  else if b = 0xF4 then some ((0x80, 0x8F), 2)
  else none

/-- The payload of the first byte of a character of two bytes or more. -/
def high (b : UInt8) : Nat :=
  if b < 0xE0 then b.toNat % 32 else if b < 0xF0 then b.toNat % 16 else b.toNat % 8

/-- The characters and faults that the bytes say. -/
def decode : Bytes → List (Option Char)
  | [] => []
  | b :: rest =>
    if b < 0x80 then some (Char.ofNat b.toNat) :: decode rest
    else
      match lead? b with
      | none => none :: decode rest
      | some ((lo, hi), more) =>
        match rest with
        | [] => [none]
        | c :: rest₂ =>
          if !within lo hi c then none :: decode (c :: rest₂)
          else if more = 0 then some (Char.ofNat (high b * 64 + low c)) :: decode rest₂
          else
            match rest₂ with
            | [] => [none]
            | d :: rest₃ =>
              if !isTail d then none :: decode (d :: rest₃)
              else if more = 1 then
                some (Char.ofNat ((high b * 64 + low c) * 64 + low d)) :: decode rest₃
              else
                match rest₃ with
                | [] => [none]
                | e :: rest₄ =>
                  if !isTail e then none :: decode (e :: rest₄)
                  else
                    some (Char.ofNat (((high b * 64 + low c) * 64 + low d) * 64 + low e)) ::
                      decode rest₄

/-- All values, if none is missing. -/
def allSome {α : Type} : List (Option α) → Option (List α)
  | [] => some []
  | some a :: rest => (allSome rest).map (a :: ·)
  | none :: _ => none

/-- The text of the bytes, if they say characters alone. -/
def decode? (bytes : Bytes) : Option String :=
  (allSome (decode bytes)).map String.ofList

/-- The text of the bytes, with a replacement character for each fault. -/
def decodeLossy (bytes : Bytes) : String :=
  String.ofList ((decode bytes).map (·.getD '\uFFFD'))

/-- The number of bytes of characters. -/
def size : List Char → Nat
  | [] => 0
  | c :: rest => c.utf8Size + size rest

/-- The bytes of a text. -/
def encode (s : String) : Bytes := s.toList.flatMap String.utf8EncodeChar

/-- Where bytes are asked for, a text stands for those that encode it. -/
instance : Coe String Bytes := ⟨encode⟩

/-- Whether a cut behind so many bytes is one between characters: it is at either
    end, or the next byte does not follow another of its character. -/
def isBoundary (bytes : Bytes) (n : Nat) : Bool :=
  n = 0 || n = bytes.length || bytes[n]?.any fun b => !isTail b

/-- The last cut between characters within so many bytes, sought backwards. There
    is none if the search goes past the first byte. -/
def boundaryWithin? (bytes : Bytes) : Nat → Option Nat
  | 0 => if isBoundary bytes 0 then some 0 else none
  | n + 1 => if isBoundary bytes (n + 1) then some (n + 1) else boundaryWithin? bytes n

/-- The text of the first bytes, unless the cut behind them is one through a
    character. -/
def front? (bytes : Bytes) (n : Nat) : Option String :=
  if isBoundary bytes n then decode? (bytes.take n) else none

end Utf8

end RepoAtlas
