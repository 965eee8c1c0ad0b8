/-!
SHA-256: the message is padded to whole blocks of 64 bytes, and the blocks are folded one by one
into a state of eight words.
-/
namespace Ferry.Digest

/-- The eight words that the blocks are folded into. -/
structure State where
  a : UInt32
  b : UInt32
  c : UInt32
  d : UInt32
  e : UInt32
  f : UInt32
  g : UInt32
  h : UInt32
deriving DecidableEq, Repr

/-- The state before the first block. -/
def State.initial : State :=
  ⟨0x6a09e667, 0xbb67ae85, 0x3c6ef372, 0xa54ff53a, 0x510e527f, 0x9b05688c, 0x1f83d9ab, 0x5be0cd19⟩

/-- The constants of the 64 rounds. -/
def roundConstants : List UInt32 :=
  [0x428a2f98, 0x71374491, 0xb5c0fbcf, 0xe9b5dba5, 0x3956c25b, 0x59f111f1, 0x923f82a4, 0xab1c5ed5,
    0xd807aa98, 0x12835b01, 0x243185be, 0x550c7dc3, 0x72be5d74, 0x80deb1fe, 0x9bdc06a7, 0xc19bf174,
    0xe49b69c1, 0xefbe4786, 0x0fc19dc6, 0x240ca1cc, 0x2de92c6f, 0x4a7484aa, 0x5cb0a9dc, 0x76f988da,
    0x983e5152, 0xa831c66d, 0xb00327c8, 0xbf597fc7, 0xc6e00bf3, 0xd5a79147, 0x06ca6351, 0x14292967,
    0x27b70a85, 0x2e1b2138, 0x4d2c6dfc, 0x53380d13, 0x650a7354, 0x766a0abb, 0x81c2c92e, 0x92722c85,
    0xa2bfe8a1, 0xa81a664b, 0xc24b8b70, 0xc76c51a3, 0xd192e819, 0xd6990624, 0xf40e3585, 0x106aa070,
    0x19a4c116, 0x1e376c08, 0x2748774c, 0x34b0bcb5, 0x391c0cb3, 0x4ed8aa4a, 0x5b9cca4f, 0x682e6ff3,
    0x748f82ee, 0x78a5636f, 0x84c87814, 0x8cc70208, 0x90befffa, 0xa4506ceb, 0xbef9a3f7, 0xc67178f2]

/-- A word turned right by `n` bits. -/
def turnRight (x n : UInt32) : UInt32 := (x >>> n) ||| (x <<< (32 - n))

/-- Four bytes as a word, the highest first. -/
def wordOf (a b c d : UInt8) : UInt32 :=
  a.toUInt32 <<< 24 ||| b.toUInt32 <<< 16 ||| c.toUInt32 <<< 8 ||| d.toUInt32

/-- The bytes of a word, the highest first. -/
def wordBytes (x : UInt32) : List UInt8 :=
  [(x >>> 24).toUInt8, (x >>> 16).toUInt8, (x >>> 8).toUInt8, x.toUInt8]

/-- Bytes as words, four by four. -/
def wordsOf : List UInt8 → List UInt32
  | a :: b :: c :: d :: rest => wordOf a b c d :: wordsOf rest
  | _ => []

/-- The words of a block that the rounds use: the last sixteen are carried along, and each step
hands out the oldest and adds a new one at the end. -/
def schedule : Nat → List UInt32 → List UInt32
  | n + 1, window =>
    match window with
    | oldest :: rest =>
      let s0 := (rest.getD 0 0)
      let s1 := (rest.getD 13 0)
      let t0 := turnRight s0 7 ^^^ turnRight s0 18 ^^^ (s0 >>> 3)
      let t1 := turnRight s1 17 ^^^ turnRight s1 19 ^^^ (s1 >>> 10)
      oldest :: schedule n (rest ++ [oldest + t0 + rest.getD 8 0 + t1])
    | [] => []
  | 0, _ => []

/-- One round, with its constant and its word added up. -/
def State.round (s : State) (input : UInt32) : State :=
  let t1 := s.h + (turnRight s.e 6 ^^^ turnRight s.e 11 ^^^ turnRight s.e 25)
    + ((s.e &&& s.f) ^^^ (~~~s.e &&& s.g)) + input
  let t2 := (turnRight s.a 2 ^^^ turnRight s.a 13 ^^^ turnRight s.a 22)
    + ((s.a &&& s.b) ^^^ (s.a &&& s.c) ^^^ (s.b &&& s.c))
  ⟨t1 + t2, s.a, s.b, s.c, s.d + t1, s.e, s.f, s.g⟩

/-- The sums of two states, word by word. -/
def State.add (s t : State) : State :=
  ⟨s.a + t.a, s.b + t.b, s.c + t.c, s.d + t.d, s.e + t.e, s.f + t.f, s.g + t.g, s.h + t.h⟩

/-- Folds a block into a state. -/
def State.fold (s : State) (block : List UInt8) : State :=
  let inputs := List.zipWith (· + ·) roundConstants (schedule 64 (wordsOf block))
  s.add (inputs.foldl State.round s)

/-- The bytes of a state. -/
def State.bytes (s : State) : List UInt8 :=
  [s.a, s.b, s.c, s.d, s.e, s.f, s.g, s.h].flatMap wordBytes

/-- The bytes of a block. -/
def blockSize : Nat := 64

/-- The message with a one bit, zeros and its length in bits behind it, a multiple of the block
size long. -/
def padded (message : List UInt8) : List UInt8 :=
  let bits := 8 * message.length
  let zeros := (blockSize - (message.length + 9) % blockSize) % blockSize
  message ++ 0x80 :: List.replicate zeros 0 ++
    (List.range 8).map fun i => UInt8.ofNat (bits / Nat.pow 256 (7 - i))

/-- Folds whole blocks into a state. -/
def State.foldAll : Nat → State → List UInt8 → State
  | 0, s, _ => s
  | n + 1, s, bytes => foldAll n (s.fold (bytes.take blockSize)) (bytes.drop blockSize)

/-- The digest of a message, 32 bytes. -/
def sha256 (message : List UInt8) : List UInt8 :=
  let blocks := padded message
  (State.foldAll (blocks.length / blockSize) .initial blocks).bytes

end Ferry.Digest
