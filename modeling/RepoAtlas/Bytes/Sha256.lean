import RepoAtlas.Bytes.Utf8

/-!
# SHA-256

The digest of a file, as text of 64 hexadecimal digits (`Sha256.hash`). The
bytes are taken in one after the other, a block of 64 being mixed into the state
as soon as it is full, so it makes no difference in what pieces they come.

* `Sha256.hash`: the digest of the bytes of a file at once;
* `Sha256.hashPieces`: the digest of the bytes that come in pieces;
* `Sha256.hashFile`: the digest of a file that is read into a buffer again and again.
-/

namespace RepoAtlas.Sha256

/-- The eight words that the blocks are mixed into. -/
structure Chain where
  a : UInt32
  b : UInt32
  c : UInt32
  d : UInt32
  e : UInt32
  f : UInt32
  g : UInt32
  h : UInt32
  deriving DecidableEq, Repr

/-- The words before the first block: the fractions of the square roots of the
    first eight primes. -/
def Chain.initial : Chain :=
  ⟨0x6a09e667, 0xbb67ae85, 0x3c6ef372, 0xa54ff53a, 0x510e527f, 0x9b05688c, 0x1f83d9ab, 0x5be0cd19⟩

/-- The word of each round: the fractions of the cube roots of the first 64
    primes. -/
def roundWords : List UInt32 := [
  0x428a2f98, 0x71374491, 0xb5c0fbcf, 0xe9b5dba5, 0x3956c25b, 0x59f111f1, 0x923f82a4,
  0xab1c5ed5, 0xd807aa98, 0x12835b01, 0x243185be, 0x550c7dc3, 0x72be5d74, 0x80deb1fe,
  0x9bdc06a7, 0xc19bf174, 0xe49b69c1, 0xefbe4786, 0x0fc19dc6, 0x240ca1cc, 0x2de92c6f,
  0x4a7484aa, 0x5cb0a9dc, 0x76f988da, 0x983e5152, 0xa831c66d, 0xb00327c8, 0xbf597fc7,
  0xc6e00bf3, 0xd5a79147, 0x06ca6351, 0x14292967, 0x27b70a85, 0x2e1b2138, 0x4d2c6dfc,
  0x53380d13, 0x650a7354, 0x766a0abb, 0x81c2c92e, 0x92722c85, 0xa2bfe8a1, 0xa81a664b,
  0xc24b8b70, 0xc76c51a3, 0xd192e819, 0xd6990624, 0xf40e3585, 0x106aa070, 0x19a4c116,
  0x1e376c08, 0x2748774c, 0x34b0bcb5, 0x391c0cb3, 0x4ed8aa4a, 0x5b9cca4f, 0x682e6ff3,
  0x748f82ee, 0x78a5636f, 0x84c87814, 0x8cc70208, 0x90befffa, 0xa4506ceb, 0xbef9a3f7,
  0xc67178f2]

/-- A word turned right by `n` bits. -/
def rotate (x : UInt32) (n : UInt32) : UInt32 := (x >>> n) ||| (x <<< (32 - n))

/-- The first mixing of a word of the message. -/
def sigma₀ (x : UInt32) : UInt32 := rotate x 7 ^^^ rotate x 18 ^^^ (x >>> 3)

/-- The second mixing of a word of the message. -/
def sigma₁ (x : UInt32) : UInt32 := rotate x 17 ^^^ rotate x 19 ^^^ (x >>> 10)

/-- A round with its word and a word of the message. -/
def Chain.round (s : Chain) (k w : UInt32) : Chain :=
  let mix₁ := rotate s.e 6 ^^^ rotate s.e 11 ^^^ rotate s.e 25
  let choice := (s.e &&& s.f) ^^^ (~~~ s.e &&& s.g)
  let t₁ := s.h + mix₁ + choice + k + w
  let mix₀ := rotate s.a 2 ^^^ rotate s.a 13 ^^^ rotate s.a 22
  let majority := (s.a &&& s.b) ^^^ (s.a &&& s.c) ^^^ (s.b &&& s.c)
  ⟨t₁ + mix₀ + majority, s.a, s.b, s.c, s.d + t₁, s.e, s.f, s.g⟩

/-- The word of four bytes, the highest first. -/
def word (a b c d : UInt8) : UInt32 :=
  (a.toUInt32 <<< 24) ||| (b.toUInt32 <<< 16) ||| (c.toUInt32 <<< 8) ||| d.toUInt32

/-- The words of the bytes; a rest of less than four is left out. -/
def words : Bytes → List UInt32
  | a :: b :: c :: d :: rest => word a b c d :: words rest
  | _ => []

/-- The rounds of a block. The window holds the next sixteen words of the
    message, each round taking the first and adding one at the end. -/
def Chain.rounds (s : Chain) : List UInt32 → List UInt32 → Chain
  | [], _ => s
  | k :: ks, window =>
    let w (i : Nat) := window.getD i 0
    (s.round k (w 0)).rounds ks
      (window.tail ++ [w 0 + sigma₀ (w 1) + w 9 + sigma₁ (w 14)])

/-- Mixes a block of 64 bytes in. -/
def Chain.mix (s : Chain) (block : Bytes) : Chain :=
  let t := s.rounds roundWords (words block)
  ⟨s.a + t.a, s.b + t.b, s.c + t.c, s.d + t.d, s.e + t.e, s.f + t.f, s.g + t.g, s.h + t.h⟩

/-- The state between bytes: the words, the bytes of the open block, the last
    first, and the number of bytes taken in. -/
structure State where
  chain : Chain
  block : Bytes
  length : Nat
  deriving DecidableEq, Repr

/-- Before the first byte. -/
def State.initial : State := ⟨.initial, [], 0⟩

/-- Takes a byte in. -/
def State.push (s : State) (b : UInt8) : State :=
  if s.length % 64 = 63 then ⟨s.chain.mix (b :: s.block).reverse, [], s.length + 1⟩
  else ⟨s.chain, b :: s.block, s.length + 1⟩

/-- Takes bytes in. -/
def State.absorb (s : State) (bytes : Bytes) : State := bytes.foldl State.push s

/-- The number as eight bytes, the highest first. -/
def lengthBytes (n : Nat) : Bytes :=
  [56, 48, 40, 32, 24, 16, 8, 0].map fun shift => UInt8.ofNat (n >>> shift)

/-- The words at the end of the message: a bit is added, zeros to fill all but
    eight bytes of a block, and the number of bits. -/
def State.finish (s : State) : Chain :=
  let zeros := (119 - s.length % 64) % 64
  (s.absorb (0x80 :: List.replicate zeros 0 ++ lengthBytes (8 * s.length))).chain

/-- A hexadecimal digit in small letters. -/
def hexDigit (n : Nat) : Char :=
  if n < 10 then Char.ofNat (48 + n) else Char.ofNat (87 + n)

/-- The eight digits of a word. -/
def hexWord (w : UInt32) : List Char :=
  [28, 24, 20, 16, 12, 8, 4, 0].map fun shift => hexDigit ((w.toNat >>> shift) % 16)

/-- The digits of the words. -/
def Chain.hex (s : Chain) : String :=
  String.ofList ([s.a, s.b, s.c, s.d, s.e, s.f, s.g, s.h].flatMap hexWord)

/-- The digest of the bytes, as text. -/
def hash (bytes : Bytes) : String := (State.initial.absorb bytes).finish.hex

/-- The digest of the bytes that come in pieces, as text. -/
def hashPieces (pieces : List Bytes) : String :=
  (pieces.foldl State.absorb State.initial).finish.hex

/-! ### Files that are read into a buffer -/

/-- The number of bytes that the buffer holds. -/
def bufferSize : Nat := 8192

/-- What a read gives: no more bytes than the buffer holds, and none at the end of
    the file. -/
structure Piece where
  bytes : Bytes
  length_le : bytes.length ≤ bufferSize

/-- The bytes that are read into. -/
structure Buffer where
  bytes : Bytes
  length_eq : bytes.length = bufferSize

/-- The buffer before the first read. -/
def Buffer.zeros : Buffer := ⟨List.replicate bufferSize 0, List.length_replicate⟩

/-- The buffer after a read. What was in it before stays behind the piece. -/
def Buffer.fill (b : Buffer) (p : Piece) : Buffer where
  bytes := p.bytes ++ b.bytes.drop p.bytes.length
  length_eq := by
    rw [List.length_append, List.length_drop, b.length_eq, Nat.add_sub_of_le p.length_le]

/-- Takes in what one read after the other puts to the front of the buffer, up to the
    end of the file, where a read gives nothing. -/
def State.absorbReads {ε : Type} (s : State) (b : Buffer) : List (Except ε Piece) → Except ε State
  | [] => .ok s
  | .error e :: _ => .error e
  | .ok p :: reads =>
    let b := b.fill p
    let count := p.bytes.length
    if count = 0 then .ok s else (s.absorb (b.bytes.take count)).absorbReads b reads

/-- What stands for the digest of a file that cannot be read. -/
def unhashable : String := ""

/-- The digest of a file, as text, from what opening it and each read of it gives. -/
def hashFile {ε : Type} (opened : Except ε (List (Except ε Piece))) : String :=
  match opened.bind (State.initial.absorbReads .zeros) with
  | .ok s => s.finish.hex
  | .error _ => unhashable

/-- The reads of a file with so many bytes, each of which fills the buffer as long as
    there are enough left. -/
def fullReads (bytes : Bytes) : List Piece :=
  if bytes = [] then []
  else
    ⟨bytes.take bufferSize, List.length_take_le bufferSize bytes⟩ ::
      fullReads (bytes.drop bufferSize)
termination_by bytes.length
decreasing_by
  have := List.length_pos_iff.2 ‹bytes ≠ []›
  rw [List.length_drop, bufferSize]
  omega

end RepoAtlas.Sha256
