/-
**The SHA driver** (`drivers/sha256.c`).

The driver collects bytes in a buffer of 64 and writes each full buffer to the engine as 16 words.
The engine compresses the first `sha_data_num` blocks it is given: `sha256_init` announces
`(input_size + 64) / 64` of them. The clock and reset lines and the polls of the ready flags leave
no trace in the result and are left out.
-/

import Mathlib.Tactic.IntervalCases
import K210Guard.Boot.Engines

namespace K210Guard

open Sha256 (Word beBytes)

/-! ### Byte order -/

/-- `ROTL` -/
def rotl (x : Word) (n : Nat) : Word := x <<< n ||| x >>> (32 - n)

/-- `ROTR` -/
def rotr (x : Word) (n : Nat) : Word := x >>> n ||| x <<< (32 - n)

/-- `_BYTESWAP` -/
def byteSwap (x : Word) : Word := rotr x 8 &&& 0xff00ff00#32 ||| rotl x 8 &&& 0x00ff00ff#32

/-- `__byteswap64` -/
def byteSwap64 (x : BitVec 64) : BitVec 64 :=
  let a := (x >>> 32).setWidth 32
  let b := x.setWidth 32
  (byteSwap b).setWidth 64 <<< 32 ||| (byteSwap a).setWidth 64

/-! ### The engine -/

/-- `struct sha256_t`: the number of blocks to compress, and the words written to `sha_data_in1`,
oldest first. -/
structure ShaRegisters where
  shaDataNum : Nat
  shaDataIn1 : List Word

namespace ShaRegisters

/-- The words in the byte order that bit 16 of `sha_status` selects: the byte that is first in
memory is the most significant one of its word. -/
def bytes (registers : ShaRegisters) : List Byte :=
  registers.shaDataIn1.flatMap fun word => leBytes 4 word.toNat

/-- The hash value of the first `sha_data_num` blocks. -/
def state (registers : ShaRegisters) : Sha256.State :=
  Sha256.compressBlocks registers.shaDataNum Sha256.initial registers.bytes

/-- `sha_result`: the words of the hash value, last word first, each in the same byte order. -/
def shaResult (registers : ShaRegisters) (index : Nat) : Word :=
  BitVec.ofNat 32 (leNat (beBytes 4 (registers.state.words.getD (7 - index) 0).toNat))

end ShaRegisters

/-! ### The driver -/

/-- `SHA256Context`: the bits taken so far and the bytes in the buffer, which is never full between
two calls. -/
structure Sha256Context where
  totalLength : BitVec 64
  buffer : List Byte
  room : buffer.length < 64

/-- The engine and a context. -/
structure ShaDriver where
  registers : ShaRegisters
  context : Sha256Context

/-- The words of a buffer. -/
def bufferWords : Nat → List Byte → List Word
  | 0, _ => []
  | count + 1, bytes => BitVec.ofNat 32 (leNat (bytes.take 4)) :: bufferWords count (bytes.drop 4)

/-- What `sha256_final` reads out of `sha_result`, last word first. -/
def resultDigest (shaResult : Nat → Word) : Digest where
  bytes := (List.range 8).flatMap fun i => leBytes 4 (shaResult (8 - i - 1)).toNat
  size := by simp [List.range_succ]

/-- `padding`; its last byte but one is not zero. -/
def padding : List Byte := 0x80#8 :: List.replicate 61 0 ++ [0x02#8, 0x00#8]

namespace ShaDriver

def sha256Init (inputSize : Nat) : ShaDriver where
  registers := ⟨(inputSize + 64) % 2 ^ 32 / 64, []⟩
  context := ⟨0, [], by decide⟩

/-- `bytesToCopy` of `sha256_update`: what the buffer has room for, at most all. -/
def bytesToCopy (sc : ShaDriver) (data : List Byte) : Nat :=
  let bufferBytesLeft := 64 - sc.context.buffer.length
  if bufferBytesLeft > data.length then data.length else bufferBytesLeft

theorem bytesToCopy_bounds (sc : ShaDriver) (data : List Byte) :
    sc.bytesToCopy data ≤ data.length ∧
      sc.context.buffer.length + sc.bytesToCopy data ≤ 64 ∧
      (data ≠ [] → 0 < sc.bytesToCopy data) := by
  have room := sc.context.room
  have positive : data ≠ [] → 0 < data.length := List.length_pos_iff.mpr
  unfold bytesToCopy
  simp only
  split
  · exact ⟨le_rfl, by omega, positive⟩
  · exact ⟨by omega, by omega, fun _ => by omega⟩

/-- The buffer after the copy. -/
def filled (sc : ShaDriver) (data : List Byte) : List Byte :=
  sc.context.buffer ++ data.take (sc.bytesToCopy data)

theorem filled_length (sc : ShaDriver) (data : List Byte) :
    (sc.filled data).length = sc.context.buffer.length + sc.bytesToCopy data := by
  rw [filled, List.length_append, List.length_take_of_le (sc.bytesToCopy_bounds data).1]

def sha256Update (sc : ShaDriver) (data : List Byte) : ShaDriver :=
  if _more : data ≠ [] then
    let totalLength := sc.context.totalLength + BitVec.ofNat 64 (sc.bytesToCopy data * 8)
    if full : (sc.filled data).length = 64 then
      sha256Update
        ⟨⟨sc.registers.shaDataNum, sc.registers.shaDataIn1 ++ bufferWords 16 (sc.filled data)⟩,
          ⟨totalLength, [], by decide⟩⟩
        (data.drop (sc.bytesToCopy data))
    else
      have room : (sc.filled data).length < 64 := by
        have bound := (sc.bytesToCopy_bounds data).2.1
        rw [filled_length] at full ⊢
        omega
      sha256Update ⟨sc.registers, ⟨totalLength, sc.filled data, room⟩⟩
        (data.drop (sc.bytesToCopy data))
  else sc
termination_by data.length
decreasing_by
  all_goals
    have bounds := sc.bytesToCopy_bounds data
    have positive := bounds.2.2 _more
    rw [List.length_drop]
    omega

def sha256Final (sc : ShaDriver) : Digest :=
  let bytesToPad := 120 - sc.context.buffer.length
  let bytesToPad := if bytesToPad > 64 then bytesToPad - 64 else bytesToPad
  let lengthPad := byteSwap64 sc.context.totalLength
  let sc := sc.sha256Update (padding.take bytesToPad)
  let sc := sc.sha256Update (leBytes 8 lengthPad.toNat)
  resultDigest sc.registers.shaResult

end ShaDriver

/-- The driver as the boot code sees it. -/
def shaDriver : ShaEngine where
  Context := ShaDriver
  sha256Init := ShaDriver.sha256Init
  sha256Update := ShaDriver.sha256Update
  sha256Final := ShaDriver.sha256Final

end K210Guard
