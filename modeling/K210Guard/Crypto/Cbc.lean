/-
**CBC mode.**

Decryption in CBC mode over a block cipher of 16 bytes: each block is decrypted and combined with
the ciphertext block before it. The cipher is a parameter.
-/

import K210Guard.Memory.LittleEndian

namespace K210Guard

/-- Bytewise exclusive or. -/
def xorBytes (first second : List Byte) : List Byte := List.zipWith (· ^^^ ·) first second

/-- One block of CBC decryption. -/
def cbcBlock (decrypt : List Byte → List Byte) (previous block : List Byte) : List Byte :=
  xorBytes (decrypt block) previous

/-- CBC decryption of `count` blocks. -/
def cbcDecrypt (decrypt : List Byte → List Byte) : Nat → List Byte → List Byte → List Byte
  | 0, _, _ => []
  | count + 1, previous, data =>
      cbcBlock decrypt previous (data.take 16) ++
        cbcDecrypt decrypt count (data.take 16) (data.drop 16)

theorem cbcBlock_length {decrypt : List Byte → List Byte}
    (block16 : ∀ block, block.length = 16 → (decrypt block).length = 16)
    {previous block : List Byte}
    (first : previous.length = 16) (second : block.length = 16) :
    (cbcBlock decrypt previous block).length = 16 := by
  rw [cbcBlock, xorBytes, List.length_zipWith, block16 block second, first, Nat.min_self]

theorem cbcDecrypt_length {decrypt : List Byte → List Byte}
    (block16 : ∀ block, block.length = 16 → (decrypt block).length = 16) (count : Nat)
    {previous data : List Byte} (first : previous.length = 16)
    (whole : data.length = 16 * count) :
    (cbcDecrypt decrypt count previous data).length = 16 * count := by
  induction count generalizing previous data with
  | zero => rfl
  | succ count ih =>
      have head : (data.take 16).length = 16 := by
        rw [List.length_take]
        omega
      have tail : (data.drop 16).length = 16 * count := by
        rw [List.length_drop]
        omega
      rw [cbcDecrypt, List.length_append, cbcBlock_length block16 first head, ih head tail]
      omega

end K210Guard
