/-!
# The SHA-1 digest

The digest of a list of bytes: five words, folded over the blocks of sixteen words of the padded
message.
-/
namespace ApiDocs.Digest

/-- The five words of the running digest. -/
structure Words where
  a : UInt32
  b : UInt32
  c : UInt32
  d : UInt32
  e : UInt32
  deriving DecidableEq, Repr

namespace Words

def initial : Words := ⟨0x67452301, 0xEFCDAB89, 0x98BADCFE, 0x10325476, 0xC3D2E1F0⟩

def add (x y : Words) : Words :=
  ⟨x.a + y.a, x.b + y.b, x.c + y.c, x.d + y.d, x.e + y.e⟩

def toList (x : Words) : List UInt32 :=
  [x.a, x.b, x.c, x.d, x.e]

end Words

/-- Rotates a word to the left; `n` is below 32 and above 0. -/
def rotateLeft (w : UInt32) (n : UInt32) : UInt32 :=
  (w <<< n) ||| (w >>> (32 - n))

/-- The bytes of a whole number in `count` places, the highest first. -/
def bigEndian (count n : Nat) : List UInt8 :=
  (List.range count).reverse.map fun i => UInt8.ofNat (n / Nat.pow 256 i % 256)

/-- The message, a single one bit, zeros, and the length in bits: whole blocks of 64 bytes. -/
def pad (bytes : List UInt8) : List UInt8 :=
  let zeros := (119 - bytes.length % 64) % 64
  bytes ++ 0x80 :: (List.replicate zeros 0 ++ bigEndian 8 (8 * bytes.length))

/-- The words of four bytes each, the highest byte first. -/
def wordsOf : List UInt8 → List UInt32
  | a :: b :: c :: d :: rest =>
    (a.toUInt32 <<< 24 ||| b.toUInt32 <<< 16 ||| c.toUInt32 <<< 8 ||| d.toUInt32) :: wordsOf rest
  | _ => []

/-- Adds `n` words to a schedule that is held in reverse. -/
def extend : Nat → List UInt32 → List UInt32
  | 0, ws => ws
  | n + 1, ws =>
    let mixed := ws.getD 2 0 ^^^ ws.getD 7 0 ^^^ ws.getD 13 0 ^^^ ws.getD 15 0
    extend n (rotateLeft mixed 1 :: ws)

/-- The eighty words of the schedule of a block. -/
def schedule (block : List UInt32) : List UInt32 :=
  (extend 64 block.reverse).reverse

/-- The mixing function and the constant of a round. -/
def roundOf (t : Nat) (x : Words) : UInt32 × UInt32 :=
  if t < 20 then ((x.b &&& x.c) ||| (~~~x.b &&& x.d), 0x5A827999)
  else if t < 40 then (x.b ^^^ x.c ^^^ x.d, 0x6ED9EBA1)
  else if t < 60 then ((x.b &&& x.c) ||| (x.b &&& x.d) ||| (x.c &&& x.d), 0x8F1BBCDC)
  else (x.b ^^^ x.c ^^^ x.d, 0xCA62C1D6)

/-- Takes in one word of the schedule. -/
def step (x : Words) (word : UInt32 × Nat) : Words :=
  let (f, k) := roundOf word.2 x
  ⟨rotateLeft x.a 5 + f + x.e + k + word.1, x.a, rotateLeft x.b 30, x.c, x.d⟩

/-- Takes in one block. -/
def compress (x : Words) (block : List UInt32) : Words :=
  x.add ((schedule block).zipIdx.foldl step x)

/-- Takes in the blocks of a list of words; the first number bounds how many there are. -/
def absorb : Nat → Words → List UInt32 → Words
  | 0, x, _ => x
  | n + 1, x, ws => absorb n (compress x (ws.take 16)) (ws.drop 16)

/-- The twenty bytes of the digest of a message. -/
def sha1 (bytes : List UInt8) : List UInt8 :=
  let words := wordsOf (pad bytes)
  (absorb (words.length / 16) .initial words).toList.flatMap fun w => bigEndian 4 w.toNat

end ApiDocs.Digest
