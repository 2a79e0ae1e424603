/-
**SHA-256.**

The hash function of FIPS 180-4, executable: the padding, the message schedule, the compression
function and the chaining over blocks of 64 bytes. `pad_of_short` gives the padding of a message
whose last block has room for the length.
-/

import K210Guard.Memory.LittleEndian

namespace K210Guard

/-- A hash value of 32 bytes. -/
structure Digest where
  bytes : List Byte
  size : bytes.length = 32

theorem Digest.ext {first second : Digest} (same : first.bytes = second.bytes) :
    first = second := by
  cases first
  cases second
  cases same
  rfl

namespace Sha256

abbrev Word := BitVec 32

/-- The eight working variables, and the eight words of a hash value. -/
structure State where
  a : Word
  b : Word
  c : Word
  d : Word
  e : Word
  f : Word
  g : Word
  h : Word

def roundConstants : List Word := [
    0x428a2f98, 0x71374491, 0xb5c0fbcf, 0xe9b5dba5, 0x3956c25b, 0x59f111f1, 0x923f82a4, 0xab1c5ed5,
    0xd807aa98, 0x12835b01, 0x243185be, 0x550c7dc3, 0x72be5d74, 0x80deb1fe, 0x9bdc06a7, 0xc19bf174,
    0xe49b69c1, 0xefbe4786, 0x0fc19dc6, 0x240ca1cc, 0x2de92c6f, 0x4a7484aa, 0x5cb0a9dc, 0x76f988da,
    0x983e5152, 0xa831c66d, 0xb00327c8, 0xbf597fc7, 0xc6e00bf3, 0xd5a79147, 0x06ca6351, 0x14292967,
    0x27b70a85, 0x2e1b2138, 0x4d2c6dfc, 0x53380d13, 0x650a7354, 0x766a0abb, 0x81c2c92e, 0x92722c85,
    0xa2bfe8a1, 0xa81a664b, 0xc24b8b70, 0xc76c51a3, 0xd192e819, 0xd6990624, 0xf40e3585, 0x106aa070,
    0x19a4c116, 0x1e376c08, 0x2748774c, 0x34b0bcb5, 0x391c0cb3, 0x4ed8aa4a, 0x5b9cca4f, 0x682e6ff3,
    0x748f82ee, 0x78a5636f, 0x84c87814, 0x8cc70208, 0x90befffa, 0xa4506ceb, 0xbef9a3f7, 0xc67178f2]

def initial : State :=
  ⟨0x6a09e667, 0xbb67ae85, 0x3c6ef372, 0xa54ff53a, 0x510e527f, 0x9b05688c, 0x1f83d9ab, 0x5be0cd19⟩

/-! ### The compression function -/

def ch (x y z : Word) : Word := (x &&& y) ^^^ (~~~x &&& z)

def maj (x y z : Word) : Word := (x &&& y) ^^^ (x &&& z) ^^^ (y &&& z)

def bigSigma0 (x : Word) : Word := x.rotateRight 2 ^^^ x.rotateRight 13 ^^^ x.rotateRight 22

def bigSigma1 (x : Word) : Word := x.rotateRight 6 ^^^ x.rotateRight 11 ^^^ x.rotateRight 25

def smallSigma0 (x : Word) : Word := x.rotateRight 7 ^^^ x.rotateRight 18 ^^^ x >>> 3

def smallSigma1 (x : Word) : Word := x.rotateRight 17 ^^^ x.rotateRight 19 ^^^ x >>> 10

/-- The next word of the message schedule, from the words before it, latest first. -/
def nextWord (latest : List Word) : Word :=
  smallSigma1 (latest.getD 1 0) + latest.getD 6 0 + smallSigma0 (latest.getD 14 0) +
    latest.getD 15 0

/-- `count` more words of the schedule, latest first. -/
def extend : Nat → List Word → List Word
  | 0, latest => latest
  | count + 1, latest => extend count (nextWord latest :: latest)

/-- The 64 words of a block of 16. -/
def schedule (block : List Word) : List Word := (extend 48 block.reverse).reverse

/-- One round. -/
def round (s : State) (step : Word × Word) : State :=
  let t1 := s.h + bigSigma1 s.e + ch s.e s.f s.g + step.1 + step.2
  let t2 := bigSigma0 s.a + maj s.a s.b s.c
  ⟨t1 + t2, s.a, s.b, s.c, s.d + t1, s.e, s.f, s.g⟩

def State.add (s t : State) : State :=
  ⟨s.a + t.a, s.b + t.b, s.c + t.c, s.d + t.d, s.e + t.e, s.f + t.f, s.g + t.g, s.h + t.h⟩

/-- The compression of one block of 16 words. -/
def compress (s : State) (block : List Word) : State :=
  s.add ((roundConstants.zip (schedule block)).foldl round s)

/-! ### Blocks of bytes -/

/-- Words out of bytes, most significant byte first. -/
def words : Nat → List Byte → List Word
  | 0, _ => []
  | count + 1, bytes =>
      BitVec.ofNat 32 (leNat (bytes.take 4).reverse) :: words count (bytes.drop 4)

/-- The compression of the first `count` blocks of 64 bytes. -/
def compressBlocks : Nat → State → List Byte → State
  | 0, s, _ => s
  | count + 1, s, data =>
      compressBlocks count (compress s (words 16 (data.take 64))) (data.drop 64)

/-- A number in `width` bytes, most significant byte first. -/
def beBytes (width value : Nat) : List Byte := (leBytes width value).reverse

/-- The words of a hash value. -/
def State.words (s : State) : List Word := [s.a, s.b, s.c, s.d, s.e, s.f, s.g, s.h]

/-- The bytes of a hash value. -/
def State.digest (s : State) : Digest where
  bytes := s.words.flatMap fun word => beBytes 4 word.toNat
  size := by simp [State.words, beBytes]

/-- Padding: a bit, zeros up to 8 bytes before a block's end, the length in bits. -/
def pad (message : List Byte) : List Byte :=
  message ++ 0x80#8 :: List.replicate ((119 - message.length % 64) % 64) 0 ++
    beBytes 8 (8 * message.length)

end Sha256

/-- **The hash of a message.** -/
def sha256 (message : List Byte) : Digest :=
  (Sha256.compressBlocks ((Sha256.pad message).length / 64) Sha256.initial
    (Sha256.pad message)).digest

example : (sha256 [0x61, 0x62, 0x63]).bytes =
    [0xba, 0x78, 0x16, 0xbf, 0x8f, 0x01, 0xcf, 0xea, 0x41, 0x41, 0x40, 0xde, 0x5d, 0xae, 0x22, 0x23,
      0xb0, 0x03, 0x61, 0xa3, 0x96, 0x17, 0x7a, 0x9c, 0xb4, 0x10, 0xff, 0x61, 0xf2, 0x00, 0x15,
      0xad] := by
  decide +kernel

namespace Sha256

@[simp] theorem beBytes_length (width value : Nat) : (beBytes width value).length = width := by
  simp [beBytes]

/-- The zeros of the padding are the fewest that leave 8 bytes to the end of a block. -/
theorem pad_zeros_least (length : Nat) :
    (length + 1 + (119 - length % 64) % 64) % 64 = 56 ∧
      ∀ zeros, (length + 1 + zeros) % 64 = 56 → (119 - length % 64) % 64 ≤ zeros := by
  refine ⟨by omega, fun zeros reaches => ?_⟩
  omega

/-- A padded message is made of whole blocks. -/
theorem pad_length (message : List Byte) :
    (pad message).length = 64 * ((message.length + 72) / 64) := by
  rw [pad]
  simp only [List.length_append, List.length_cons, List.length_replicate, beBytes_length]
  omega

end Sha256

end K210Guard
